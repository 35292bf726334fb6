import Mathlib.Tactic.Use
import PieceStream.Proofs.Delivery
import PieceStream.Proofs.Segments
import PieceStream.Proofs.Steps

/-!
# Holdings of sources in memory

Over sources in memory it is known what every call answers, whether or not the sources have what a
piece needs: a source is found if it is registered, a range is opened if its item is there and does
not end before it, and a stream yields the range as far as the item goes.
-/

namespace PieceStream

/-- Readers of a piece over a registry. -/
abbrev Registry.setting (piece : Piece) (options : ReadOptions) (manner : Manner) :
    Setting (Registry ScriptedSource) SourceId ScriptedStream :=
  ⟨Registry.supply, piece, options, manner⟩

/-- The source in memory, with nothing made to go wrong. -/
def MemorySource.unscripted (source : MemorySource) : ScriptedSource := ⟨.memory source, [], []⟩

namespace Registry

/-- The sources in memory, with nothing made to go wrong. -/
def unscripted (sources : Registry MemorySource) : Registry ScriptedSource :=
  ⟨sources.entries.map fun (id, source) => (id, source.unscripted)⟩

/-- The bytes of the item of a run, if its source is registered and has the item. -/
def item? (sources : Registry MemorySource) (r : ItemRun) : Option Bytes :=
  (sources.get? r.source).bind fun source => source.get? r.item.path

/-- The bytes that the item of a payload has from its first one on, or why no range is opened
there. -/
def restAt (sources : Registry MemorySource) (span : PayloadRest) : Except ReadError Bytes :=
  match sources.get? span.run.source with
  | none => .error (.sourceUnavailable span.run.source (.unknownSource span.run.source))
  | some source =>
    match source.get? span.path with
    | none => .error (.sourceReadFailure span.path (.itemNotFound span.path))
    | some data =>
      if data.length < span.itemOffset then
        .error (.sourceReadFailure span.path
          (.rangeOutOfBounds span.path span.itemOffset data.length))
      else .ok (data.drop span.itemOffset)

/-- A feed of readers of the piece over these sources. -/
structure Feeds (sources : Registry MemorySource) (piece : Piece)
    (feed : Feed (Registry ScriptedSource) SourceId) : Prop where
  get?_eq : ∀ id, feed.world.get? id = (sources.get? id).map MemorySource.unscripted
  handles : ∀ {i : Nat} {id : SourceId} {r : ItemRun}, feed.handles[i]? = some (some id) →
    piece.blocks[i]? = some (.run r) → id = r.source ∧ (sources.get? id).isSome

variable {sources : Registry MemorySource} {piece : Piece} {options : ReadOptions} {manner : Manner}
  {feed feed' : Feed (Registry ScriptedSource) SourceId} {span : PayloadRest} {id : SourceId}
  {item : HeldStream ScriptedStream} {rest data : Bytes}

theorem get?_unscripted :
  sources.unscripted.get? id = (sources.get? id).map MemorySource.unscripted
  := by
  obtain ⟨entries⟩ := sources
  rw [unscripted, get?, get?]
  induction entries with
  | nil => rfl
  | cons entry entries ih =>
      obtain ⟨key, source⟩ := entry
      rw [List.map_cons, List.lookup_cons, List.lookup_cons, ih]
      cases id == key <;> rfl

/-! ### Feeds -/

/-- Recording an event changes nothing that readers rely on. -/
theorem Feeds.record (h : sources.Feeds piece feed) (event : Event) :
  sources.Feeds piece (feed.record event)
  := ⟨h.get?_eq, h.handles⟩

/-- Taking notes changes nothing that readers rely on. -/
theorem Feeds.notes (h : sources.Feeds piece feed) {notes : List Note} :
  sources.Feeds piece (notes.foldl Feed.note feed)
  := by
  induction notes generalizing feed with
  | nil => apply h
  | cons note notes ih => apply ih (h.record _)

/-- A world in which the same sources are found may take the place of another. -/
theorem Feeds.withWorld (h : sources.Feeds piece feed) {world : Registry ScriptedSource}
    (hworld : ∀ id, world.get? id = (sources.get? id).map MemorySource.unscripted) :
  sources.Feeds piece { feed with world := world }
  := ⟨hworld, h.handles⟩

/-- A source is found if it is registered. -/
theorem exists_sourceFor (options : ReadOptions) (manner : Manner) (h : sources.Feeds piece feed)
    (hrun : piece.blocks[span.block]? = some (.run span.run)) :
  ∃ feed', (setting piece options manner).sourceFor span feed
      = (if (sources.get? span.run.source).isSome then .ok span.run.source
          else .error (.unknownSource span.run.source), feed')
    ∧ sources.Feeds piece feed'
  := by
  rw [Setting.sourceFor]
  split
  · next id hid =>
    obtain ⟨rfl, hregistered⟩ := h.handles (Option.join_eq_some_iff.mp hid) hrun
    rw [if_pos hregistered]
    exact ⟨feed, rfl, h⟩
  · have hget := h.get?_eq span.run.source
    cases hsource : sources.get? span.run.source with
    | none =>
        rw [hsource] at hget
        simp only [supply, resolveScripted, resolve, hget, Option.map_none]
        exact ⟨_, rfl, h.record _⟩
    | some source =>
        rw [hsource] at hget
        simp only [supply, resolveScripted, resolve, hget, Option.map_some,
          MemorySource.unscripted]
        refine ⟨_, rfl, h.get?_eq, ?_⟩
        intro i id r hi hr
        simp only [Feed.record, List.getElem?_set] at hi
        split at hi
        · next hblock =>
          subst hblock
          rw [hrun] at hr
          cases hr
          split at hi
          · cases hi
            rw [hsource]
            exact ⟨rfl, rfl⟩
          · cases hi
        · apply h.handles hi hr

/-- A registered source opens a range as its item allows, and nothing else changes. -/
theorem exists_openScripted_unscripted {world : Registry ScriptedSource} {source : MemorySource}
    (path : String) (offset length : Nat)
    (hworld : ∀ id, world.get? id = (sources.get? id).map MemorySource.unscripted)
    (hsource : sources.get? id = some source) :
  ∃ world', openScripted id path offset length world
      = ((source.openRange path offset length).map (⟨·, []⟩), [], world')
    ∧ ∀ id, world'.get? id = (sources.get? id).map MemorySource.unscripted
  := by
  have hget : world.get? id = some source.unscripted := by
    rw [hworld, hsource]
    rfl
  rw [openScripted, resolve, hget]
  refine ⟨_, rfl, fun id' => ?_⟩
  rw [get?_register]
  split
  · next hid =>
    rw [hid, hsource]
    rfl
  · apply hworld

/-- A range is opened if its source is registered and has an item that does not end before it. -/
theorem exists_openFor (options : ReadOptions) (manner : Manner) (h : sources.Feeds piece feed)
    (hrun : piece.blocks[span.block]? = some (.run span.run)) :
  ∃ feed', (setting piece options manner).openFor span feed
      = ((sources.restAt span).map fun rest => ⟨span.block, span.run.source, span.itemOffset,
          ⟨.buffer (rest.take ((setting piece options manner).lengthFor span)), []⟩⟩, feed')
    ∧ sources.Feeds piece feed'
  := by
  obtain ⟨feedA, hfound, hfeedA⟩ := exists_sourceFor options manner h hrun
  rw [Setting.openFor, hfound, restAt]
  cases hsource : sources.get? span.run.source with
  | none => exact ⟨feedA, rfl, hfeedA⟩
  | some source =>
      have hfeedB : sources.Feeds piece ((setting piece options manner).announce span feedA) :=
        (hfeedA.record _).record _
      obtain ⟨world, hopen, hworld⟩ := exists_openScripted_unscripted span.path span.itemOffset
        ((setting piece options manner).lengthFor span) hfeedB.get?_eq hsource
      have hfeedC := hfeedB.withWorld hworld
      simp only [Option.isSome_some, if_true]
      refine ⟨_, ?_, hfeedC⟩
      rw [Setting.openFrom]
      simp only [supply, hopen]
      cases hitem : source.get? span.path with
      | none =>
          simp only [MemorySource.openRange, hitem]
          rfl
      | some data =>
          rw [MemorySource.openRange_eq hitem]
          by_cases hbeyond : data.length < span.itemOffset
          · simp only [if_pos hbeyond]
            rfl
          · simp only [if_neg hbeyond]
            rfl

/-- What readers do changes nothing that they rely on. -/
theorem Feeds.step (h : sources.Feeds piece feed)
    (hstep : (setting piece options manner).Step feed feed') :
  sources.Feeds piece feed'
  := by
  cases hstep with
  | note note => apply h.record
  | drop item => apply h.record
  | ask purpose size item => exact ⟨h.get?_eq, h.handles⟩
  | openFor span _ hrun =>
      obtain ⟨feed', hopen, hfeed'⟩ := exists_openFor options manner h hrun
      rw [hopen]
      apply hfeed'

/-- Whatever readers are told to do, they can go on to rely on their feed. -/
theorem Feeds.leads (h : sources.Feeds piece feed)
    (hleads : (setting piece options manner).Leads feed feed') :
  sources.Feeds piece feed'
  := hleads.preserves (fun hstep hfeed => hfeed.step hstep) h

/-- A new family can rely on its feed. -/
theorem feeds_start {blocks : Nat} :
  sources.Feeds piece (Feed.start sources.unscripted blocks)
  := by
  constructor
  · intro id
    apply get?_unscripted
  · intro i id r hi
    simp [Feed.start, List.getElem?_replicate] at hi

/-! ### Streams -/

/-- The item with the range that is left of its stream. -/
def holding (item : HeldStream ScriptedStream) (rest : Bytes) : HeldStream ScriptedStream :=
  { item with stream := ⟨.buffer rest, []⟩ }

theorem eq_holding (h : item.stream = ⟨.buffer rest, []⟩) :
  item = holding item rest
  := by
  rw [holding, ← h]

/-- A stream over memory hands out what it has left. -/
theorem exists_ask_holding (purpose : Purpose) (size : Nat) (item : HeldStream ScriptedStream)
    (rest : Bytes) (feed : Feed (Registry ScriptedSource) SourceId) :
  ∃ feed', supply.ask purpose size (holding item rest) feed
    = (.ok (rest.take size), holding item (rest.drop size), feed')
  := ⟨_, rfl⟩

/-- A gap is passed over as far as the stream goes. -/
theorem exists_passOver_holding (gap : Nat) (item : HeldStream ScriptedStream) (rest : Bytes)
    (feed : Feed (Registry ScriptedSource) SourceId) :
  ∃ feed', supply.passOver gap (holding item rest) feed
    = (.ok (gap - rest.length),
        holding { item with itemPos := item.itemPos + min gap rest.length } (rest.drop gap), feed')
  := by
  induction gap using Nat.strongRecOn generalizing item rest feed with
  | ind gap ih =>
      rcases Nat.eq_zero_or_pos gap with rfl | hgap
      · use feed
        rw [Supply.passOver_zero, Nat.zero_sub, Nat.zero_min, Nat.add_zero, List.drop_zero]
      · obtain ⟨feedA, hask⟩ := exists_ask_holding .skip (min Supply.skipSize gap) item rest feed
        have hsize : 0 < min Supply.skipSize gap := Nat.lt_min.mpr ⟨by decide, hgap⟩
        rcases Nat.eq_zero_or_pos rest.length with hnil | hlength
        · obtain rfl := List.eq_nil_of_length_eq_zero hnil
          use feedA
          rw [List.take_nil] at hask
          rw [Supply.passOver_of_nil hgap hask]
          simp
        · have htaken : (rest.take (min Supply.skipSize gap)).length
              = min (min Supply.skipSize gap) rest.length := List.length_take
          have hne : rest.take (min Supply.skipSize gap) ≠ [] := by
            rw [← List.length_pos_iff, htaken]
            omega
          obtain ⟨feed', hover⟩ := ih (gap - min (min Supply.skipSize gap) rest.length) (by omega)
            { item with itemPos := item.itemPos + min (min Supply.skipSize gap) rest.length }
            (rest.drop (min Supply.skipSize gap)) feedA
          have hlacking : gap - min (min Supply.skipSize gap) rest.length
              - (rest.drop (min Supply.skipSize gap)).length = gap - rest.length := by
            rw [List.length_drop]
            omega
          have hpassed : min (min Supply.skipSize gap) rest.length
              + min (gap - min (min Supply.skipSize gap) rest.length)
                (rest.drop (min Supply.skipSize gap)).length = min gap rest.length := by
            rw [List.length_drop]
            omega
          have hleft : (rest.drop (min Supply.skipSize gap)).drop
              (gap - min (min Supply.skipSize gap) rest.length) = rest.drop gap := by
            rw [List.drop_drop, List.drop_eq_drop_iff]
            omega
          use feed'
          rw [Supply.passOver_of_ok hgap hne hask, htaken]
          simp only [holding, hlacking, hleft, Nat.add_assoc, hpassed] at hover ⊢
          apply hover

end Registry

/-! ### Payloads -/

/-- The item has the first byte of the payload. -/
def PayloadRest.Available (span : PayloadRest) (sources : Registry MemorySource) : Prop :=
  ∃ data, sources.item? span.run = some data ∧ span.itemOffset < data.length

/-- The failure to get the first byte of a payload; `streaming` says whether a stream is open that
serves the run. -/
def PayloadRest.shortage (span : PayloadRest) (sources : Registry MemorySource)
    (streaming : Bool) : ReadError :=
  match sources.get? span.run.source with
  | none => .sourceUnavailable span.run.source (.unknownSource span.run.source)
  | some source =>
    match source.get? span.path with
    | none => .sourceReadFailure span.path (.itemNotFound span.path)
    | some data =>
      if streaming = false ∧ data.length < span.itemOffset then
        .sourceReadFailure span.path (.rangeOutOfBounds span.path span.itemOffset data.length)
      else .unexpectedEnd span.path data.length

namespace Registry

variable {sources : Registry MemorySource} {piece : Piece} {options : ReadOptions} {manner : Manner}
  {feed feed' : Feed (Registry ScriptedSource) SourceId} {span : PayloadRest} {pos : Nat}
  {held : Option (HeldStream ScriptedStream)} {item : HeldStream ScriptedStream} {data : Bytes}

/-- The stream of a reader at `pos` goes on with the item of the run in which the reader stands, as
far as the item goes and the rest of the run needs it. -/
def Backs (sources : Registry MemorySource) (piece : Piece) (pos : Nat)
    (item : HeldStream ScriptedStream) : Prop :=
  item.block = (Cursor.settled piece pos).block ∧ ∃ r data limit,
    piece.blocks[item.block]? = some (.run r) ∧ sources.item? r = some data
      ∧ item.itemPos ≤ data.length ∧ r.furthestNeed (Cursor.settled piece pos).entry ≤ limit
      ∧ item.stream = ⟨.buffer ((data.drop item.itemPos).take (limit - item.itemPos)), []⟩

/-- Where a payload goes on, the run is the one of the payload. -/
theorem backs_iff (hlaid : piece.Laid) (hspan : span.At piece pos) :
  sources.Backs piece pos item
    ↔ item.block = span.block ∧ ∃ data limit, sources.item? span.run = some data
        ∧ item.itemPos ≤ data.length ∧ span.run.furthestNeed span.entry ≤ limit
        ∧ item.stream = ⟨.buffer ((data.drop item.itemPos).take (limit - item.itemPos)), []⟩
  := by
  rw [Backs, hspan.settled_eq hlaid]
  apply and_congr_right
  intro hblock
  rw [hblock, hspan.run_eq]
  constructor
  · rintro ⟨_, data, limit, ⟨⟩, h⟩
    exact ⟨data, limit, h⟩
  · rintro ⟨data, limit, h⟩
    exact ⟨span.run, data, limit, rfl, h⟩

/-- What a stream for a payload is opened to, if the item is there. -/
theorem restAt_of_item (h : sources.item? span.run = some data) :
  sources.restAt span
    = if data.length < span.itemOffset then .error (span.shortage sources false)
      else .ok (data.drop span.itemOffset)
  := by
  obtain ⟨source, hsource, hitem⟩ := Option.bind_eq_some_iff.mp h
  have hitem : source.get? span.path = some data := hitem
  rw [restAt, PayloadRest.shortage, hsource]
  simp only [hitem]
  split
  · next hbeyond => simp [hbeyond]
  · rfl

/-- Without an item there is no stream, however the failure comes about. -/
theorem restAt_of_none (h : sources.item? span.run = none) (streaming : Bool) :
  sources.restAt span = .error (span.shortage sources streaming)
  := by
  rw [restAt, PayloadRest.shortage]
  cases hsource : sources.get? span.run.source with
  | none => rfl
  | some source =>
      rw [item?, hsource, Option.bind_some] at h
      have h : source.get? span.path = none := h
      simp only [h]

/-- A stream over an item that ends too early fails at the end of the item. -/
theorem shortage_of_item (h : sources.item? span.run = some data) {streaming : Bool}
    (hopen : streaming = true ∨ span.itemOffset ≤ data.length) :
  span.shortage sources streaming = .unexpectedEnd span.path data.length
  := by
  obtain ⟨source, hsource, hitem⟩ := Option.bind_eq_some_iff.mp h
  have hitem : source.get? span.path = some data := hitem
  rw [PayloadRest.shortage, hsource]
  simp only [hitem]
  rw [if_neg]
  rintro ⟨rfl, hbeyond⟩
  rcases hopen with htrue | hle
  · cases htrue
  · exact Nat.not_lt_of_le hle hbeyond

/-- Within an item a stream is opened that starts with the payload. -/
theorem exists_openFor_of_le (options : ReadOptions) (manner : Manner) (hlaid : piece.Laid)
    (hspan : span.At piece pos) (hfeed : sources.Feeds piece feed)
    (hitem : sources.item? span.run = some data)
    (hle : span.itemOffset ≤ data.length) :
  ∃ item feed', (setting piece options manner).openFor span feed = (.ok item, feed')
    ∧ item.itemPos = span.itemOffset ∧ sources.Backs piece pos item
  := by
  obtain ⟨feed', hopen, -⟩ := exists_openFor options manner hfeed hspan.run_eq
  rw [restAt_of_item hitem, if_neg (Nat.not_lt_of_le hle)] at hopen
  have hneed : span.itemOffset ≤ span.run.furthestNeed span.entry :=
    Nat.le_trans (Nat.le_add_right _ _) hspan.need_le
  refine ⟨_, feed', hopen, rfl, (backs_iff hlaid hspan).mpr ⟨rfl, data, _, hitem, hle,
    options.readAhead.furthestNeed_le hneed, ?_⟩⟩
  rw [Nat.add_sub_cancel_left]
  rfl

/-- Within an item a stream is brought to the payload. -/
theorem exists_acquire_of_le (options : ReadOptions) (manner : Manner) (hlaid : piece.Laid)
    (hspan : span.At piece pos) (hfeed : sources.Feeds piece feed)
    (hitem : sources.item? span.run = some data) (hle : span.itemOffset ≤ data.length)
    (hheld : ∀ item, held = some item → sources.Backs piece pos item) :
  ∃ item feed', (setting piece options manner).acquire held span feed = (.ok item, feed')
    ∧ item.itemPos = span.itemOffset ∧ sources.Backs piece pos item
  := by
  cases held with
  | none => apply exists_openFor_of_le options manner hlaid hspan hfeed hitem hle
  | some item =>
      have hbacks := hheld item rfl
      obtain ⟨hblock, data', limit, hdata, hpos, hlimit, hstream⟩ :=
        (backs_iff hlaid hspan).mp hbacks
      obtain rfl : data' = data := by
        rw [hitem] at hdata
        apply (Option.some.inj hdata).symm
      rcases Nat.lt_trichotomy item.itemPos span.itemOffset with hlt | heq | hgt
      · have hlength : span.itemOffset - item.itemPos
            ≤ ((data'.drop item.itemPos).take (limit - item.itemPos)).length := by
          have := hspan.need_le
          have := hspan.remaining_pos
          rw [List.length_take, List.length_drop]
          omega
        have hreach : item.itemPos + (span.itemOffset - item.itemPos) = span.itemOffset := by omega
        obtain ⟨feed', hover⟩ := exists_passOver_holding (span.itemOffset - item.itemPos) item _
          (feed.note (.skipping span.path item.itemPos (span.itemOffset - item.itemPos)))
        rw [← eq_holding hstream, Nat.sub_eq_zero_of_le hlength, Nat.min_eq_left hlength, hreach,
          List.drop_take, List.drop_drop, hreach, Nat.sub_sub, hreach] at hover
        refine ⟨holding { item with itemPos := span.itemOffset }
          ((data'.drop span.itemOffset).take (limit - span.itemOffset)), feed', ?_, rfl,
          (backs_iff hlaid hspan).mpr ⟨hblock, data', limit, hitem, hle, hlimit, rfl⟩⟩
        simp only [Setting.acquire, Approach.toward, hblock, hlt, Nat.ne_of_lt hlt, hover,
          true_and, and_false, if_false, if_true, Setting.concludeSkip]
      · refine ⟨item, feed, ?_, heq, hbacks⟩
        simp only [Setting.acquire, Approach.toward, hblock, heq, and_self, if_true]
      · obtain ⟨item', feed', hopen, hitem'⟩ := exists_openFor_of_le options manner hlaid hspan
          ((hfeed.record _).record _) hitem hle
        refine ⟨item', feed', ?_, hitem'⟩
        simp only [Setting.acquire, Approach.toward, hblock, Nat.ne_of_gt hgt,
          Nat.not_lt_of_gt hgt, and_false, if_false]
        apply hopen

/-- Beyond the end of an item no stream is brought to the payload. -/
theorem exists_acquire_of_lt (options : ReadOptions) (manner : Manner) (hlaid : piece.Laid)
    (hspan : span.At piece pos) (hfeed : sources.Feeds piece feed)
    (hitem : sources.item? span.run = some data) (hlt : data.length < span.itemOffset)
    (hheld : ∀ item, held = some item → sources.Backs piece pos item) :
  ∃ feed', (setting piece options manner).acquire held span feed
    = (.error (span.shortage sources held.isSome), feed')
  := by
  cases held with
  | none =>
      obtain ⟨feed', hopen, -⟩ := exists_openFor options manner hfeed hspan.run_eq
      rw [restAt_of_item hitem, if_pos hlt] at hopen
      exact ⟨feed', hopen⟩
  | some item =>
      obtain ⟨hblock, data', limit, hdata, hpos, hlimit, hstream⟩ :=
        (backs_iff hlaid hspan).mp (hheld item rfl)
      obtain rfl : data' = data := by
        rw [hitem] at hdata
        apply (Option.some.inj hdata).symm
      have hbehind : item.itemPos < span.itemOffset := Nat.lt_of_le_of_lt hpos hlt
      have hneed := hspan.need_le
      -- The stream ends with its item, before the gap does.
      have hlength : ((data'.drop item.itemPos).take (limit - item.itemPos)).length
          = data'.length - item.itemPos := by
        rw [List.length_take, List.length_drop]
        omega
      have hgap : min (span.itemOffset - item.itemPos) (data'.length - item.itemPos)
          = data'.length - item.itemPos := by omega
      obtain ⟨lacking, hlacking⟩ : ∃ lacking, span.itemOffset - item.itemPos
          - (data'.length - item.itemPos) = lacking + 1 := by
        apply Nat.exists_eq_add_one_of_ne_zero
        omega
      obtain ⟨feed', hover⟩ := exists_passOver_holding (span.itemOffset - item.itemPos) item _
        (feed.note (.skipping span.path item.itemPos (span.itemOffset - item.itemPos)))
      rw [← eq_holding hstream, hlength, hgap, hlacking, Nat.add_sub_of_le hpos] at hover
      rw [Option.isSome_some, shortage_of_item hitem (.inl rfl)]
      simp only [Setting.acquire, Approach.toward, hblock, hbehind, Nat.ne_of_lt hbehind, hover,
        true_and, and_false, if_false, if_true, Setting.concludeSkip]
      exact ⟨_, rfl⟩

/-- Without an item no stream is brought to the payload. -/
theorem exists_acquire_of_none (options : ReadOptions) (manner : Manner) (hlaid : piece.Laid)
    (hspan : span.At piece pos) (hfeed : sources.Feeds piece feed)
    (hitem : sources.item? span.run = none)
    (hheld : ∀ item, held = some item → sources.Backs piece pos item) :
  ∃ feed', (setting piece options manner).acquire held span feed
    = (.error (span.shortage sources held.isSome), feed')
  := by
  cases held with
  | none =>
      obtain ⟨feed', hopen, -⟩ := exists_openFor options manner hfeed hspan.run_eq
      rw [restAt_of_none hitem false] at hopen
      exact ⟨feed', hopen⟩
  | some item =>
      obtain ⟨-, data, -, hdata, -⟩ := (backs_iff hlaid hspan).mp (hheld item rfl)
      rw [hitem] at hdata
      cases hdata

/-- A stream yields bytes up to the end of a payload as far as the item has them. -/
theorem exists_ask_of_backs {size : Nat} (purpose : Purpose) (hlaid : piece.Laid)
    (hspan : span.At piece pos) (feed : Feed (Registry ScriptedSource) SourceId)
    (hbacks : sources.Backs piece pos item) (hitem : sources.item? span.run = some data)
    (hsize : item.itemPos + size ≤ span.itemOffset + span.remaining) :
  ∃ item' feed', supply.ask purpose size item feed
      = (.ok ((data.drop item.itemPos).take size), item', feed')
    ∧ item'.itemPos = item.itemPos
    ∧ sources.Backs piece pos { item' with
        itemPos := item.itemPos + ((data.drop item.itemPos).take size).length }
  := by
  obtain ⟨hblock, data', limit, hdata, hle, hlimit, hstream⟩ := (backs_iff hlaid hspan).mp hbacks
  obtain rfl : data' = data := by
    rw [hitem] at hdata
    apply (Option.some.inj hdata).symm
  have hneed := hspan.need_le
  obtain ⟨feed', hask⟩ := exists_ask_holding purpose size item
    ((data'.drop item.itemPos).take (limit - item.itemPos)) feed
  have hmin : min size (limit - item.itemPos) = size := by omega
  rw [← eq_holding hstream, List.take_take, hmin] at hask
  refine ⟨_, feed', hask, rfl, (backs_iff hlaid hspan).mpr
    ⟨hblock, data', limit, hitem, ?_, hlimit, ?_⟩⟩
  · dsimp only
    rw [List.length_take, List.length_drop]
    omega
  · dsimp only [holding]
    rw [drop_take_length, ← List.drop_drop, Nat.sub_add_eq]

/-- A stream at the payload is asked for bytes of it. -/
theorem exists_askUninterrupted_of_backs (hlaid : piece.Laid) (hspan : span.At piece pos)
    (room : Nat) (feed : Feed (Registry ScriptedSource) SourceId)
    (hbacks : sources.Backs piece pos item) (hpos : item.itemPos = span.itemOffset)
    (hitem : sources.item? span.run = some data) :
  ∃ item' feed', supply.askUninterrupted (min span.remaining room) item feed
      = (.ok ((data.drop span.itemOffset).take (min span.remaining room)), item', feed')
    ∧ item'.itemPos = span.itemOffset
    ∧ sources.Backs piece pos { item' with
        itemPos := span.itemOffset
          + ((data.drop span.itemOffset).take (min span.remaining room)).length }
  := by
  have hsize : item.itemPos + min span.remaining room ≤ span.itemOffset + span.remaining := by
    omega
  obtain ⟨item', feed', hask, hplace, hbacks'⟩ :=
    exists_ask_of_backs .payload hlaid hspan feed hbacks hitem hsize
  rw [hpos] at hask hplace hbacks'
  exact ⟨item', feed', Supply.askUninterrupted_of_ok hask, hplace, hbacks'⟩

/-- One question yields bytes of the payload if the first of them is available. -/
theorem exists_takePayload_of_available {room : Nat} (options : ReadOptions) (manner : Manner)
    (hlaid : piece.Laid) (hspan : span.At piece pos) (hfeed : sources.Feeds piece feed)
    (hroom : 0 < room) (hitem : sources.item? span.run = some data)
    (hlt : span.itemOffset < data.length)
    (hheld : ∀ item, held = some item → sources.Backs piece pos item) :
  ∃ item feed', (setting piece options manner).takePayload held span room feed
      = (.ok ((data.drop span.itemOffset).take (min span.remaining room)), some item, feed')
    ∧ sources.Backs piece pos item
  := by
  obtain ⟨item, feedA, hacquire, hpos, hbacks⟩ :=
    exists_acquire_of_le options manner hlaid hspan hfeed hitem (Nat.le_of_lt hlt) hheld
  obtain ⟨item', feed', hask, hpos', hbacks'⟩ :=
    exists_askUninterrupted_of_backs hlaid hspan room feedA hbacks hpos hitem
  have hne : 0 < ((data.drop span.itemOffset).take (min span.remaining room)).length := by
    have := hspan.remaining_pos
    rw [List.length_take, List.length_drop]
    omega
  refine ⟨_, feed', ?_, hbacks'⟩
  simp only [Setting.takePayload, hacquire, Setting.askFor, hask]
  cases hbytes : (data.drop span.itemOffset).take (min span.remaining room) with
  | nil =>
      rw [hbytes] at hne
      cases hne
  | cons b bs =>
      dsimp only
      rw [hpos']

/-- One question fails if the first byte of the payload is not available. -/
theorem exists_takePayload_of_shortage (options : ReadOptions) (manner : Manner) (room : Nat)
    (hlaid : piece.Laid) (hspan : span.At piece pos) (hfeed : sources.Feeds piece feed)
    (hshort : ¬ span.Available sources)
    (hheld : ∀ item, held = some item → sources.Backs piece pos item) :
  ∃ held' feed', (setting piece options manner).takePayload held span room feed
    = (.error (span.shortage sources held.isSome), held', feed')
  := by
  cases hitem : sources.item? span.run with
  | none =>
      obtain ⟨feedA, hacquire⟩ :=
        exists_acquire_of_none options manner hlaid hspan hfeed hitem hheld
      rw [Setting.takePayload, hacquire]
      exact ⟨none, feedA, rfl⟩
  | some data =>
      have hle : data.length ≤ span.itemOffset := by
        apply Nat.le_of_not_lt
        intro hlt
        exact hshort ⟨data, hitem, hlt⟩
      rcases Nat.lt_or_eq_of_le hle with hlt | heq
      · obtain ⟨feedA, hacquire⟩ :=
          exists_acquire_of_lt options manner hlaid hspan hfeed hitem hlt hheld
        rw [Setting.takePayload, hacquire]
        exact ⟨none, feedA, rfl⟩
      · obtain ⟨item, feedA, hacquire, hpos, hbacks⟩ := exists_acquire_of_le options manner hlaid
          hspan hfeed hitem (Nat.le_of_eq heq.symm) hheld
        obtain ⟨item', feed', hask, hpos', -⟩ :=
          exists_askUninterrupted_of_backs hlaid hspan room feedA hbacks hpos hitem
        rw [← heq, List.drop_length, List.take_nil] at hask
        rw [shortage_of_item hitem (.inr (Nat.le_of_eq heq.symm)), heq, ← hpos']
        simp only [Setting.takePayload, hacquire, Setting.askFor, hask]
        exact ⟨_, _, rfl⟩

end Registry

end PieceStream
