import PieceStream.Proofs.Poisoning
import PieceStream.Proofs.Ranges
import PieceStream.Proofs.Shortage

/-!
# Sufficiency

The length that is asked for always suffices: readers demand no more of a stream than its range.
Hence over sources in memory it makes no difference how far readers read ahead, nor whether the
sources keep to the length at all.  Readers over sources that open all the rest of an item do the
same, whether or not the sources have what the piece needs.
-/

namespace PieceStream

/-- Opens all of an item from `offset` on, whatever length is asked for. -/
def MemorySource.openRest (source : MemorySource) (path : String) (offset : Nat) :
    Except SourceError ItemStream :=
  match source.get? path with
  | none => .error (.itemNotFound path)
  | some data =>
    if data.length < offset then .error (.rangeOutOfBounds path offset data.length)
    else .ok (.buffer (data.drop offset))

/-- The supply of a registry of sources in memory that ignore the length asked for. -/
def Registry.boundless : Supply (Registry MemorySource) MemorySource ItemStream where
  resolve id sources := (sources.resolve id, sources)
  openRange source path offset _ sources := (source.openRest path offset, [], sources)
  read stream n sources := let (outcome, stream) := stream.read n; (outcome, stream, sources)
  patience _ _ := 0
  length_le_of_read := ItemStream.length_le_of_read
  patience_lt_of_interruption h he := by
    rw [ItemStream.not_isInterruption_of_read h] at he
    cases he

namespace Registry

/-- A feed of readers of the piece over these sources, which ignore the length asked for. -/
structure BoundlessFeeds (sources : Registry MemorySource) (piece : Piece)
    (feed : Feed (Registry MemorySource) MemorySource) : Prop where
  world_eq : feed.world = sources
  handles : ∀ {i : Nat} {source : MemorySource} {r : ItemRun},
    feed.handles[i]? = some (some source) → piece.blocks[i]? = some (.run r) →
    sources.get? r.source = some source

/-- The feeds of readers over sources that keep to the length and over such that do not.  No
interruption has come. -/
structure FeedsAlike (sources : Registry MemorySource) (piece : Piece)
    (f : Feed (Registry ScriptedSource) SourceId) (g : Feed (Registry MemorySource) MemorySource) :
    Prop where
  feeds : sources.Feeds piece f
  boundless : sources.BoundlessFeeds piece g
  calm : ¬ f.SkipInterrupted
  boundless_calm : ¬ g.SkipInterrupted

/-- The streams of readers over sources that keep to the length and over such that do not.  Both
stand at the same place, and the other one goes on to the end of the item. -/
structure StreamsAlike (sources : Registry MemorySource) (piece : Piece) (pos : Nat)
    (item : HeldStream ScriptedStream) (other : HeldStream ItemStream) : Prop where
  backs : sources.Backs piece pos item
  block_eq : other.block = item.block
  place_eq : other.itemPos = item.itemPos
  stream_eq : ∀ {r : ItemRun} {data : Bytes}, piece.blocks[item.block]? = some (.run r) →
    sources.item? r = some data → other.stream = .buffer (data.drop item.itemPos)

variable {sources : Registry MemorySource} {piece : Piece} {options options' : ReadOptions}
  {manner : Manner} {f : Feed (Registry ScriptedSource) SourceId}
  {feed g : Feed (Registry MemorySource) MemorySource} {span : PayloadRest} {pos : Nat}
  {item : HeldStream ScriptedStream} {other : HeldStream ItemStream}

/-- Readers of a piece over a registry of sources in memory that ignore the length asked for. -/
abbrev boundlessSetting (piece : Piece) (options : ReadOptions) (manner : Manner) :
    Setting (Registry MemorySource) MemorySource ItemStream :=
  ⟨boundless, piece, options, manner⟩

/-! ### Feeds -/

/-- Recording an event changes nothing that readers rely on. -/
theorem BoundlessFeeds.record (h : sources.BoundlessFeeds piece feed) (event : Event) :
  sources.BoundlessFeeds piece (feed.record event)
  := ⟨h.world_eq, h.handles⟩

/-- Both feeds may record events that are no interruptions. -/
theorem FeedsAlike.record (h : sources.FeedsAlike piece f g) {event event' : Event}
    (hevent : event.isInterruptedSkip = false) (hevent' : event'.isInterruptedSkip = false) :
  sources.FeedsAlike piece (f.record event) (g.record event')
  := by
  constructor
  case feeds => apply h.feeds.record
  case boundless => apply h.boundless.record
  case calm =>
      rw [Feed.skipInterrupted_record_of_not hevent]
      apply h.calm
  case boundless_calm =>
      rw [Feed.skipInterrupted_record_of_not hevent']
      apply h.boundless_calm

/-- A source that ignores the length is found if it is registered. -/
theorem exists_sourceFor_boundless (options : ReadOptions) (manner : Manner)
    (h : sources.BoundlessFeeds piece g) (hrun : piece.blocks[span.block]? = some (.run span.run)) :
  ∃ g', (boundlessSetting piece options manner).sourceFor span g
      = (sources.resolve span.run.source, g')
    ∧ sources.BoundlessFeeds piece g'
  := by
  rw [Setting.sourceFor, resolve]
  split
  · next source hsource =>
    rw [h.handles (Option.join_eq_some_iff.mp hsource) hrun]
    exact ⟨g, rfl, h⟩
  · simp only [boundless, h.world_eq, resolve]
    cases hsource : sources.get? span.run.source with
    | none => exact ⟨_, rfl, rfl, h.handles⟩
    | some source =>
        refine ⟨_, rfl, rfl, ?_⟩
        intro i source' r hi hr
        simp only [Feed.record, List.getElem?_set] at hi
        split at hi
        · next hblock =>
          subst hblock
          rw [hrun] at hr
          cases hr
          split at hi
          · cases hi
            apply hsource
          · cases hi
        · apply h.handles hi hr

/-- All the rest of an item is opened where its source is registered and has an item that does not
end before. -/
theorem exists_openFor_boundless (options : ReadOptions) (manner : Manner)
    (h : sources.BoundlessFeeds piece g) (hrun : piece.blocks[span.block]? = some (.run span.run)) :
  ∃ g', (boundlessSetting piece options manner).openFor span g
      = ((sources.restAt span).map fun rest =>
          ⟨span.block, span.run.source, span.itemOffset, .buffer rest⟩, g')
    ∧ sources.BoundlessFeeds piece g'
  := by
  obtain ⟨g', hfound, h'⟩ := exists_sourceFor_boundless options manner h hrun
  rw [Setting.openFor, hfound, resolve, restAt]
  cases hsource : sources.get? span.run.source with
  | none => exact ⟨g', rfl, h'⟩
  | some source =>
      dsimp only
      rw [Setting.openFrom]
      simp only [boundless, MemorySource.openRest]
      cases hitem : source.get? span.path with
      | none => exact ⟨_, rfl, (h'.record _).record _⟩
      | some data =>
          dsimp only
          split
          · exact ⟨_, rfl, (h'.record _).record _⟩
          · exact ⟨_, rfl, (h'.record _).record _⟩

/-- What is opened to is the rest of an item that does not end before. -/
theorem exists_item_of_restAt {rest : Bytes} (h : sources.restAt span = .ok rest) :
  ∃ data, sources.item? span.run = some data ∧ span.itemOffset ≤ data.length
    ∧ rest = data.drop span.itemOffset
  := by
  cases hitem : sources.item? span.run with
  | none =>
      rw [restAt_of_none hitem false] at h
      cases h
  | some data =>
      rw [restAt_of_item hitem] at h
      split at h
      · cases h
      · next hle =>
        cases h
        exact ⟨data, rfl, Nat.le_of_not_lt hle, rfl⟩

/-- Ranges are opened or not whether or not the sources keep to the length. -/
theorem FeedsAlike.openFor (options options' : ReadOptions) (manner : Manner) (hlaid : piece.Laid)
    (hspan : span.At piece pos) (h : sources.FeedsAlike piece f g) :
  ∃ outcome outcome' f' g', (setting piece options manner).openFor span f = (outcome, f')
    ∧ (boundlessSetting piece options' manner).openFor span g = (outcome', g')
    ∧ SameOutcome (sources.StreamsAlike piece pos) outcome outcome'
    ∧ sources.FeedsAlike piece f' g'
  := by
  obtain ⟨f', hf, hfeeds⟩ := exists_openFor options manner h.feeds hspan.run_eq
  obtain ⟨g', hg, hboundless⟩ :=
    exists_openFor_boundless options' manner h.boundless hspan.run_eq
  have hcalm : ((setting piece options manner).openFor span f).2.SkipInterrupted
      ↔ f.SkipInterrupted := Setting.skipInterrupted_openFor
  have hcalm' : ((boundlessSetting piece options' manner).openFor span g).2.SkipInterrupted
      ↔ g.SkipInterrupted := Setting.skipInterrupted_openFor
  rw [hf] at hcalm
  rw [hg] at hcalm'
  refine ⟨_, _, f', g', hf, hg, ?_,
    ⟨hfeeds, hboundless, mt hcalm.mp h.calm, mt hcalm'.mp h.boundless_calm⟩⟩
  cases hrest : sources.restAt span with
  | error e => apply SameOutcome.error
  | ok rest =>
      obtain ⟨data, hitem, hle, rfl⟩ := exists_item_of_restAt hrest
      obtain ⟨item, _, hopen, -, hbacks⟩ :=
        exists_openFor_of_le options manner hlaid hspan h.feeds hitem hle
      rw [hf, hrest] at hopen
      cases hopen
      refine .ok ⟨hbacks, rfl, rfl, fun hr hdata => ?_⟩
      rw [hspan.run_eq] at hr
      cases hr
      rw [hitem] at hdata
      cases hdata
      rfl

/-! ### Streams -/

/-- Streams are asked alike up to the end of a payload. -/
theorem StreamsAlike.ask {size : Nat} (purpose : Purpose) (hlaid : piece.Laid)
    (hspan : span.At piece pos) (hstreams : sources.StreamsAlike piece pos item other)
    (hblock : item.block = span.block)
    (hsize : item.itemPos + size ≤ span.itemOffset + span.remaining)
    (h : sources.FeedsAlike piece f g) :
  ∃ outcome next next' f' g', supply.ask purpose size item f = (outcome, next, f')
    ∧ boundless.ask purpose size other g = (outcome, next', g')
    ∧ sources.StreamsAlike piece pos (next.past outcome) (next'.past outcome)
    ∧ sources.FeedsAlike piece f' g'
  := by
  -- The one stream ends with its range, but not before the payload does unless its item ends.
  obtain ⟨-, data, -, hitem, -⟩ := (backs_iff hlaid hspan).mp hstreams.backs
  obtain ⟨next, f', hf, hplace, hbacks⟩ :=
    exists_ask_of_backs purpose hlaid hspan f hstreams.backs hitem hsize
  have hstream : other.stream = .buffer (data.drop item.itemPos) := by
    apply hstreams.stream_eq _ hitem
    rw [hblock, hspan.run_eq]
  have hanswer : (supply.read item.stream size f.world).1
      = .ok ((data.drop item.itemPos).take size) := congrArg (·.1) hf
  have hf' : f' = f.record (.asked item.source purpose size
      ((supply.read item.stream size f.world).1.map List.length)) := (congrArg (·.2.2) hf).symm
  have hcalm : Event.isInterruptedSkip (.asked item.source purpose size
      ((supply.read item.stream size f.world).1.map List.length)) = false := by
    rw [hanswer]
    cases purpose <;> rfl
  have hg : boundless.ask purpose size other g
      = (.ok ((data.drop item.itemPos).take size),
          { other with stream := .buffer ((data.drop item.itemPos).drop size) },
          g.record (.asked other.source purpose size
            (.ok ((data.drop item.itemPos).take size).length))) := by
    rw [Supply.ask, hstream]
    rfl
  obtain ⟨hkept, -, -⟩ := Supply.quiet_of_ask hf
  refine ⟨_, next, _, f', _, hf, hg, ?_, ?_⟩
  · rw [HeldStream.past, hplace]
    refine ⟨hbacks, hstreams.block_eq.trans hkept.symm, ?_, fun hr hdata => ?_⟩
    · rw [HeldStream.past, hstreams.place_eq]
    · dsimp only at hr
      rw [hkept, hblock, hspan.run_eq] at hr
      cases hr
      rw [hitem] at hdata
      cases hdata
      dsimp only [HeldStream.past]
      rw [List.drop_drop]
      congr 1
      rw [List.drop_eq_drop_iff, List.length_take, List.length_drop]
      omega
  · rw [hf']
    apply h.record hcalm
    cases purpose <;> rfl

/-- Streams go on to be alike while the cursor moves forward within their run. -/
theorem StreamsAlike.forward {pos' : Nat} (h : sources.StreamsAlike piece pos item other)
    (hle : pos ≤ pos') (hblock : item.block = (Cursor.settled piece pos').block) :
  sources.StreamsAlike piece pos' item other
  := by
  refine ⟨?_, h.block_eq, h.place_eq, h.stream_eq⟩
  apply h.backs.forward hle (hblock.symm.trans h.backs.1)

/-! ### A likeness -/

/-- Over sources in memory readers are alike whether or not the sources keep to the length asked
for, however far the readers read ahead. -/
def boundlessLikeness (sources : Registry MemorySource) (options options' : ReadOptions)
    (manner : Manner) (hlaid : piece.Laid) :
    (setting piece options manner).Likeness (boundlessSetting piece options' manner) where
  piece_eq := rfl
  manner_eq := rfl
  Feeds := sources.FeedsAlike piece
  Streams := sources.StreamsAlike piece
  note _ h := h.record rfl rfl
  drop h _ := h.record rfl rfl
  place_eq h := ⟨h.block_eq, h.place_eq⟩
  forward h hle hblock := h.forward hle hblock
  openFor hspan h := h.openFor options options' manner hlaid hspan
  ask purpose hspan hstreams hblock hsize h := hstreams.ask purpose hlaid hspan hblock hsize h

/-- New feeds are alike. -/
theorem feedsAlike_start {blocks : Nat} :
  sources.FeedsAlike piece (Feed.start sources.unscripted blocks) (Feed.start sources blocks)
  := by
  constructor
  case feeds => apply feeds_start
  case boundless =>
      refine ⟨rfl, fun hi => ?_⟩
      simp [Feed.start, List.getElem?_replicate] at hi
  case calm => apply Feed.not_skipInterrupted_start
  case boundless_calm => apply Feed.not_skipInterrupted_start

end Registry

variable {W H S W' H' S' : Type}

/-- Where no interruption comes, readers read by tasks as they read at once. -/
theorem Reader.Reads.eq_read {setting : Setting W H S} {size : Nat} {reader : Reader S}
    {feed : Feed W H}
    {read : Nat → Reader S → Feed W H → Except ReadError Bytes × Reader S × Feed W H}
    (h : Reads setting read) (hcalm : ¬ (reader.read setting size feed).2.2.SkipInterrupted) :
  read size reader feed = reader.read setting size feed
  := by
  cases h with
  | atOnce => rfl
  | byTasks setting => exact readByTask_eq_read fun hskip => absurd hskip hcalm

/-- Where no interruption comes, readers that are alike come to the same, whether they read at once
or by tasks. -/
theorem Setting.Likeness.readsAlike_of_calm {left : Setting W H S} {right : Setting W' H' S'}
    {likeness : left.Likeness right}
    {read : Nat → Reader S → Feed W H → Except ReadError Bytes × Reader S × Feed W H}
    {read' : Nat → Reader S' → Feed W' H' → Except ReadError Bytes × Reader S' × Feed W' H'}
    (hlaid : left.piece.Laid)
    (hcalm : ∀ {f g}, likeness.Feeds f g → ¬ f.SkipInterrupted ∧ ¬ g.SkipInterrupted)
    (hread : Reader.Reads left read) (hread' : Reader.Reads right read') :
  likeness.ReadsAlike read read'
  := by
  intro size pos reader twin f g h hfeeds
  have hagree := Setting.Likeness.read hlaid size h hfeeds
  have hcalms : ¬ (reader.read left size f).2.2.SkipInterrupted
      ∧ ¬ (twin.read right size g).2.2.SkipInterrupted := by
    generalize reader.read left size f = x at hagree ⊢
    generalize twin.read right size g = y at hagree ⊢
    cases hagree with
    | intro _ hfeeds' => apply hcalm hfeeds'
  rw [hread.eq_read hcalms.1, hread'.eq_read hcalms.2]
  apply hagree

/-- What is seen of a reader: where it stands, whether it is poisoned and whether it holds a stream.
-/
def Reader.outline (reader : Reader S) : Nat × Bool × Bool :=
  (reader.position, reader.poisoned, reader.held.isSome)

/-- Readers that match look alike. -/
theorem Setting.Likeness.Match.outline_eq {left : Setting W H S} {right : Setting W' H' S'}
    {likeness : left.Likeness right} {reader : Reader S} {twin : Reader S'}
    (h : likeness.Match reader twin) :
  twin.outline = reader.outline
  := by
  obtain ⟨cursor, held, poisoned⟩ := reader
  obtain ⟨cursor', held', poisoned'⟩ := twin
  obtain ⟨pos, -, hcursor, hpoisoned, hheld⟩ := h
  obtain rfl : cursor' = cursor := hcursor
  obtain rfl : poisoned' = poisoned := hpoisoned
  cases hheld with
  | none => rfl
  | some _ => rfl

namespace Family

/-- What is seen of a new family that is given commands: the answers, and the members afterwards. -/
def seen (setting : Setting W H S)
    (read : Nat → Reader S → Feed W H → Except ReadError Bytes × Reader S × Feed W H) (world : W)
    (commands : List (Nat × Command)) : List Reply × List (Option (Nat × Bool × Bool)) :=
  let (replies, family) := (start setting world).runAllBy setting read commands
  (replies, family.members.map (Option.map Reader.outline))

/-- New families that match look alike. -/
theorem seen_eq {left : Setting W H S} {right : Setting W' H' S'} {likeness : left.Likeness right}
    {read : Nat → Reader S → Feed W H → Except ReadError Bytes × Reader S × Feed W H}
    {read' : Nat → Reader S' → Feed W' H' → Except ReadError Bytes × Reader S' × Feed W' H'}
    {w : W} {w' : W'} (hlaid : left.piece.Laid) (hread : likeness.ReadsAlike read read')
    (hfeeds : likeness.Feeds (Feed.start w left.piece.blocks.length)
      (Feed.start w' right.piece.blocks.length)) (commands : List (Nat × Command)) :
  seen right read' w' commands = seen left read w commands
  := by
  obtain ⟨replies, F, G, hF, hG, h⟩ :=
    (likeness.families_start hlaid hfeeds).runAllBy hlaid hread commands
  rw [seen, seen, hF, hG]
  dsimp only
  rw [h.map_eq Setting.Likeness.Match.outline_eq]

/-- Over sources in memory readers look alike whether or not the sources keep to the length asked
for. -/
theorem seen_boundless {piece : Piece} {options options' : ReadOptions} {manner : Manner}
    {read : Nat → Reader ScriptedStream → Feed (Registry ScriptedSource) SourceId →
      Except ReadError Bytes × Reader ScriptedStream × Feed (Registry ScriptedSource) SourceId}
    {read' : Nat → Reader ItemStream → Feed (Registry MemorySource) MemorySource →
      Except ReadError Bytes × Reader ItemStream × Feed (Registry MemorySource) MemorySource}
    (sources : Registry MemorySource) (hlaid : piece.Laid)
    (hread : Reader.Reads (Registry.setting piece options manner) read)
    (hread' : Reader.Reads (Registry.boundlessSetting piece options' manner) read')
    (commands : List (Nat × Command)) :
  seen (Registry.boundlessSetting piece options' manner) read' sources commands
    = seen (Registry.setting piece options manner) read sources.unscripted commands
  := by
  have hlaid' : (Registry.setting piece options manner).piece.Laid := hlaid
  let likeness := sources.boundlessLikeness options options' manner hlaid
  have halike : likeness.ReadsAlike read read' :=
    Setting.Likeness.readsAlike_of_calm hlaid' (fun h => ⟨h.calm, h.boundless_calm⟩) hread hread'
  apply seen_eq hlaid' halike Registry.feedsAlike_start

/-- Whatever a supply answers, and whether readers read at once or by tasks, every range that they
have opened has a byte, and every question put to a stream stays within the range that the stream
was opened for.  Over sources in memory, which may lack bytes, readers look alike whether they read
ahead to the end of a run or of an item, and also if the sources ignore the length and open all the
rest of an item. -/
theorem length_asked_suffices {plan : Plan} {piece : Piece} (hbuild : plan.build = .ok piece)
    (supply : Supply W H S) (polled : PolledSupply W H S) (options : ReadOptions) (manner : Manner)
    (persistent : Bool) (world : W) (sources : Registry MemorySource)
    (commands : List (Nat × Command)) :
  let setting : Setting W H S := ⟨supply, piece, options, manner⟩
  let ranged := (start setting.ranged ⟨world, []⟩).runAll setting.ranged commands
  let suspending : SuspendingSetting W H S := ⟨polled, piece, options, persistent⟩
  let ranged' := (start (suspending.ranged.waiting .suspending) ⟨world, []⟩).runAllByTasks
    suspending.ranged commands
  ranged.1 = ((start setting world).runAll setting commands).1
    ∧ ranged.2.feed.world.InRange
    ∧ ranged'.1
      = ((start (suspending.waiting .suspending) world).runAllByTasks suspending commands).1
    ∧ ranged'.2.feed.world.InRange
    ∧ ∀ {read read' rest}, Reader.Reads (Registry.setting piece ⟨.runEnd⟩ manner) read →
      Reader.Reads (Registry.setting piece ⟨.itemEnd⟩ manner) read' →
      Reader.Reads (Registry.boundlessSetting piece options manner) rest →
      seen (Registry.setting piece ⟨.itemEnd⟩ manner) read' sources.unscripted commands
          = seen (Registry.setting piece ⟨.runEnd⟩ manner) read sources.unscripted commands
        ∧ seen (Registry.boundlessSetting piece options manner) rest sources commands
          = seen (Registry.setting piece ⟨.runEnd⟩ manner) read sources.unscripted commands
  := by
  have hlaid := Plan.laid_of_build hbuild
  intro setting ranged suspending ranged'
  obtain ⟨hsame, hrange⟩ := runAll_ranged setting hlaid world commands
  obtain ⟨hsame', hrange'⟩ := runAllByTasks_ranged suspending hlaid world commands
  refine ⟨hsame, hrange, hsame', hrange', fun hread hread' hrest => ?_⟩
  have hrun := seen_boundless sources hlaid hread hrest commands
  have hitem := seen_boundless sources hlaid hread' hrest commands
  exact ⟨hitem.symm.trans hrun, hrun⟩

/-- An item is shorter than declared and ends within a payload that comes after a gap. -/
theorem length_asked_suffices_short_item :
  let item : Item := ⟨⟨1⟩, "a", 9⟩
  let plan : Plan := ⟨[1], 5, [.item 1 [] [] ⟨0⟩ item 0 2, .item 3 [] [] ⟨0⟩ item 4 2]⟩
  let run : ItemRun := ⟨⟨0⟩, item, ⟨⟨1, [], []⟩, 0, 2⟩, [⟨⟨3, [], []⟩, 4, 2⟩]⟩
  let piece : Piece := ⟨[1], 5, [.run run]⟩
  let sources : Registry MemorySource := ⟨[(⟨0⟩, ⟨[("a", [10, 11, 12, 13, 14])]⟩)]⟩
  let runEnd := Registry.setting piece ⟨.runEnd⟩ .suspending
  let itemEnd : SuspendingSetting (Registry ScriptedSource) SourceId ScriptedStream :=
    ⟨Registry.polledSupply, piece, ⟨.itemEnd⟩, false⟩
  let boundless := Registry.boundlessSetting piece .standard .suspending
  let commands : List (Nat × Command) := [(0, .read 9), (0, .read 9), (0, .read 9)]
  let ranged := (start runEnd.ranged ⟨sources.unscripted, []⟩).runAll runEnd.ranged commands
  let answers : List Reply × List (Option (Nat × Bool × Bool)) :=
    ([.bytes (.ok [1, 10, 11]), .bytes (.ok [14]), .bytes (.error (.unexpectedEnd "a" 5))],
      [some (4, true, false)])
  plan.build = .ok piece
    ∧ ranged.2.feed.world.demands
      = [.range 0 6, .bytes 0 6 0 2, .bytes 0 6 2 2, .bytes 0 6 4 2, .bytes 0 6 5 1]
    ∧ ranged.2.feed.world.InRange
    ∧ Reader.Reads runEnd (fun size reader feed => reader.read runEnd size feed)
    ∧ Reader.Reads (Registry.setting piece ⟨.itemEnd⟩ .suspending) (Reader.readByTask itemEnd)
    ∧ Reader.Reads boundless (fun size reader feed => reader.read boundless size feed)
    ∧ seen (Registry.setting piece ⟨.itemEnd⟩ .suspending) (Reader.readByTask itemEnd)
        sources.unscripted commands = answers
    ∧ seen boundless (fun size reader feed => reader.read boundless size feed) sources commands
      = answers
  := by
  intro item plan run piece sources runEnd itemEnd boundless commands ranged answers
  have hbuild : plan.build = .ok piece := rfl
  have hdemands : ranged.2.feed.world.demands
      = [.range 0 6, .bytes 0 6 0 2, .bytes 0 6 2 2, .bytes 0 6 4 2, .bytes 0 6 5 1] := by
    simp only [ranged, commands, runEnd, sources, piece, run, item]
    cbv
  have hanswers : seen runEnd (fun size reader feed => reader.read runEnd size feed)
      sources.unscripted commands = answers := by
    simp only [answers, commands, runEnd, sources, piece, run, item]
    cbv
  have hwaiting : itemEnd.waiting .suspending
      = Registry.setting piece ⟨.itemEnd⟩ .suspending := by
    simp only [itemEnd, SuspendingSetting.waiting, Registry.awaited_polledSupply]
  have hread : Reader.Reads runEnd fun size reader feed => reader.read runEnd size feed :=
    .atOnce runEnd
  have hread' : Reader.Reads (Registry.setting piece ⟨.itemEnd⟩ .suspending)
      (Reader.readByTask itemEnd) := hwaiting ▸ .byTasks itemEnd
  have hrest : Reader.Reads boundless fun size reader feed => reader.read boundless size feed :=
    .atOnce boundless
  obtain ⟨-, hrange, -, -, hseen⟩ := length_asked_suffices hbuild Registry.supply
    Registry.polledSupply ⟨.runEnd⟩ .suspending false sources.unscripted sources commands
  obtain ⟨hsame, hsame'⟩ := hseen hread hread' hrest
  exact ⟨hbuild, hdemands, hrange, hread, hread', hrest, hsame.trans hanswers,
    hsame'.trans hanswers⟩

end Family

end PieceStream
