import Mathlib.Tactic.Use
import PieceStream.Proofs.Delivery
import PieceStream.Proofs.Manner
import PieceStream.Proofs.Stretches

/-!
# Traffic between readers and their sources

Which ranges a reader opens does not depend on how it is read.  While a reader is read, the ranges
opened so far and those still to be opened add up to the same list: passing bytes in memory changes
neither, and where payload bytes are asked for a range moves from the one to the other exactly if
the stream held cannot reach them going forward.
-/

namespace PieceStream

variable {W H S : Type}

/-- Whether the event is a call to open a range. -/
def Event.isOpening : Event → Bool
  | .opened _ _ _ _ => true
  | _ => false

/-- The ranges opened so far, in order. -/
def Feed.openings (feed : Feed W H) : List Event := feed.events.filter Event.isOpening

/-- The place that the stream held has reached. -/
def Reader.reach (reader : Reader S) : Option Nat := reader.held.map HeldStream.itemPos

/-! ### What opens no range -/

namespace Feed

variable {feed : Feed W H}

theorem openings_record {event : Event} :
  (feed.record event).openings
    = feed.openings ++ if event.isOpening then [event] else []
  := by
  rw [openings, openings, events, events, record, List.reverse_cons, List.filter_append]
  cases h : event.isOpening <;> simp [h]

/-- Calls of another kind open no range. -/
theorem openings_record_of_not {event : Event} (h : event.isOpening = false) :
  (feed.record event).openings = feed.openings
  := by
  rw [openings_record, h]
  simp

theorem openings_note {note : Note} :
  (feed.note note).openings = feed.openings
  := openings_record_of_not rfl

theorem openings_notes {notes : List Note} :
  (notes.foldl Feed.note feed).openings = feed.openings
  := by
  induction notes generalizing feed with
  | nil => rfl
  | cons note notes ih => rw [List.foldl_cons, ih, openings_note]

theorem openings_drop {item : HeldStream S} :
  (feed.drop item).openings = feed.openings
  := openings_record_of_not rfl

theorem openings_release {item : HeldStream S} :
  (feed.release item).openings = feed.openings
  := by
  rw [release, openings_drop, openings_note]

end Feed
/-! ### Streams -/

variable {setting : Setting W H S} {feed feed' : Feed W H} {item item' : HeldStream S}
  {held : Option (HeldStream S)} {span : PayloadRest} {bytes : Bytes} {pos : Nat}

namespace Supply

variable {supply : Supply W H S} {purpose : Purpose} {size : Nat}

/-- A question to a stream opens no range and leaves the stream where it is. -/
theorem quiet_of_ask {outcome : Except IoError Bytes}
    (h : supply.ask purpose size item feed = (outcome, item', feed')) :
  item'.block = item.block ∧ item'.itemPos = item.itemPos ∧ feed'.openings = feed.openings
  := by
  cases h
  exact ⟨rfl, rfl, Feed.openings_record_of_not rfl⟩

/-- Asking until there is no interruption opens no range and leaves the stream where it is. -/
theorem quiet_of_askUninterrupted {outcome : Except IoError Bytes}
    (h : supply.askUninterrupted size item feed = (outcome, item', feed')) :
  item'.block = item.block ∧ item'.itemPos = item.itemPos ∧ feed'.openings = feed.openings
  := by
  induction item, feed using askUninterrupted.induct supply size with
  | case1 item feed bytes itemA feedA hask =>
      rw [askUninterrupted_of_ok hask] at h
      cases h
      apply quiet_of_ask hask
  | case2 item feed e itemA feedA hask he ih =>
      obtain ⟨hblock, hpos, hopenings⟩ := quiet_of_ask hask
      rw [askUninterrupted_of_interruption hask he] at h
      rw [← hblock, ← hpos, ← hopenings]
      apply ih h
  | case3 item feed e itemA feedA hask he =>
      rw [askUninterrupted_of_error hask (Bool.eq_false_iff.mpr he)] at h
      cases h
      apply quiet_of_ask hask

/-- Passing over a gap opens no range, and a gap passed over is left behind. -/
theorem quiet_of_passOver {gap : Nat}
    (h : supply.passOver gap item feed = (.ok 0, item', feed')) :
  item'.block = item.block ∧ item'.itemPos = item.itemPos + gap ∧ feed'.openings = feed.openings
  := by
  induction gap, item, feed using passOver.induct supply with
  | case1 item feed =>
      rw [passOver_zero] at h
      cases h
      exact ⟨rfl, rfl, rfl⟩
  | case2 gap item feed hne itemA feedA hask =>
      rw [passOver_of_nil (Nat.pos_of_ne_zero hne) hask] at h
      cases h
      contradiction
  | case3 gap item feed hne b bs itemA feedA hask ih =>
      obtain ⟨hblock, hpos, hopenings⟩ := quiet_of_ask hask
      have hle : (b :: bs).length ≤ gap :=
        Nat.le_trans (supply.length_le_of_ask hask) (Nat.min_le_right _ _)
      rw [passOver_of_ok (Nat.pos_of_ne_zero hne) (List.cons_ne_nil b bs) hask] at h
      obtain ⟨hblock', hpos', hopenings'⟩ := ih h
      refine ⟨hblock'.trans hblock, ?_, hopenings'.trans hopenings⟩
      rw [hpos', hpos, Nat.add_assoc, Nat.add_sub_of_le hle]
  | case4 gap item feed hne e itemA feedA hask he ih =>
      obtain ⟨hblock, hpos, hopenings⟩ := quiet_of_ask hask
      rw [passOver_of_interruption (Nat.pos_of_ne_zero hne) hask he] at h
      rw [← hblock, ← hpos, ← hopenings]
      apply ih h
  | case5 gap item feed hne e itemA feedA hask he =>
      rw [passOver_of_error (Nat.pos_of_ne_zero hne) hask (Bool.eq_false_iff.mpr he)] at h
      cases h

end Supply

/-- The call that opens a range which starts with the bytes of `span`. -/
def PayloadRest.opening (span : PayloadRest) (readAhead : ReadAhead) : Event :=
  .opened span.run.source span.itemOffset
    (readAhead.limit span.run span.entry - span.itemOffset) span.path

namespace Setting

/-- Finding a source opens no range. -/
theorem openings_sourceFor {outcome : Except SourceError H}
    (h : setting.sourceFor span feed = (outcome, feed')) :
  feed'.openings = feed.openings
  := by
  rw [sourceFor] at h
  split at h
  · cases h
    rfl
  · simp only at h
    split at h <;>
    · cases h
      exact Feed.openings_record_of_not rfl

/-- A stream opened for the bytes of `span` starts with them, and only its range is opened. -/
theorem openings_openFor (h : setting.openFor span feed = (.ok item, feed')) :
  item.block = span.block ∧ item.itemPos = span.itemOffset
    ∧ feed'.openings = feed.openings ++ [span.opening setting.options.readAhead]
  := by
  rw [openFor] at h
  split at h
  · cases h
  · next handle feedA hsource =>
    have hopenings : (setting.announce span feedA).openings
        = feed.openings ++ [span.opening setting.options.readAhead] := by
      rw [announce, Feed.openings_record, Feed.openings_note, openings_sourceFor hsource,
        lengthFor, ReadAhead.lengthToAsk_eq]
      rfl
    simp only [openFrom, conclude] at h
    split at h
    · cases h
      refine ⟨rfl, rfl, ?_⟩
      rw [Feed.openings_notes]
      apply hopenings
    · cases h

/-- A range is opened exactly if the stream held cannot reach the bytes wanted going forward. -/
theorem openings_acquire (hheld : ∀ item, held = some item → item.block = span.block)
    (h : setting.acquire held span feed = (.ok item, feed')) :
  item.block = span.block ∧ item.itemPos = span.itemOffset
    ∧ feed'.openings = feed.openings
        ++ if (held.map HeldStream.itemPos).any (· ≤ span.itemOffset) then []
          else [span.opening setting.options.readAhead]
  := by
  cases held with
  | none => apply openings_openFor h
  | some stream =>
      have hblock := hheld stream rfl
      rcases Nat.lt_trichotomy stream.itemPos span.itemOffset with hlt | heq | hgt
      · simp only [acquire, Approach.toward, hblock, hlt, Nat.ne_of_lt hlt, true_and, and_false,
          if_false, if_true] at h
        rw [concludeSkip.eq_def] at h
        split at h
        · next itemA feedA hover =>
          cases h
          obtain ⟨hblock', hpos, hopenings⟩ := Supply.quiet_of_passOver hover
          refine ⟨hblock'.trans hblock, by omega, ?_⟩
          rw [hopenings, Feed.openings_note]
          simp [Nat.le_of_lt hlt]
        · cases h
        · cases h
      · simp only [acquire, Approach.toward, hblock, heq, and_self, if_true] at h
        cases h
        refine ⟨hblock, heq, ?_⟩
        simp [heq]
      · simp only [acquire, Approach.toward, hblock, Nat.ne_of_gt hgt, Nat.not_lt_of_gt hgt,
          and_false, if_false] at h
        obtain ⟨hblock', hpos, hopenings⟩ := openings_openFor h
        refine ⟨hblock', hpos, ?_⟩
        rw [hopenings, Feed.openings_release]
        simp [hgt]

/-- A stream goes forward by the bytes that it hands out, and no range is opened. -/
theorem openings_askFor {room : Nat} {held' : Option (HeldStream S)}
    (h : setting.askFor span room (.ok item, feed) = (.ok bytes, held', feed')) :
  ∃ item', held' = some item' ∧ item'.block = item.block
    ∧ item'.itemPos = item.itemPos + bytes.length ∧ feed'.openings = feed.openings
  := by
  rw [askFor] at h
  split at h
  · cases h
  · cases h
  · next hask =>
    cases h
    obtain ⟨hblock, hpos, hopenings⟩ := Supply.quiet_of_askUninterrupted hask
    refine ⟨_, rfl, hblock, ?_, hopenings⟩
    simp only [hpos]

/-- Payload bytes handed out move at most one range from those to be opened to those opened. -/
theorem openings_takePayload {room : Nat} {held' : Option (HeldStream S)}
    (hheld : ∀ item, held = some item → item.block = span.block)
    (h : setting.takePayload held span room feed = (.ok bytes, held', feed')) :
  ∃ item, held' = some item ∧ item.block = span.block
    ∧ item.itemPos = span.itemOffset + bytes.length
    ∧ feed'.openings = feed.openings
        ++ if (held.map HeldStream.itemPos).any (· ≤ span.itemOffset) then []
          else [span.opening setting.options.readAhead]
  := by
  rw [takePayload] at h
  cases hacquire : setting.acquire held span feed with
  | mk outcome feedA =>
      rw [hacquire] at h
      cases outcome with
      | error e => cases h
      | ok item =>
          obtain ⟨hblock, hpos, hopenings⟩ := openings_acquire hheld hacquire
          obtain ⟨item', rfl, hblock', hpos', hopenings'⟩ := openings_askFor h
          rw [hpos] at hpos'
          exact ⟨item', rfl, hblock'.trans hblock, hpos', hopenings'.trans hopenings⟩

end Setting

/-! ### Readers -/

/-- The ranges that the reader still has to open. -/
def Reader.openingsAhead (setting : Setting W H S) (reader : Reader S) : List Event :=
  setting.piece.openingsAhead setting.options.readAhead reader.position reader.reach

/-- The ranges opened so far and those that the reader still has to open. -/
def Reader.openingsInAll (setting : Setting W H S) (reader : Reader S) (feed : Feed W H) :
    List Event :=
  feed.openings ++ reader.openingsAhead setting

/-- Where a payload goes on, the range that starts there is to be opened exactly if the place
reached lies behind it, and all else as if the stream stood there. -/
theorem PayloadRest.At.openingsAhead_acquired {piece : Piece} {readAhead : ReadAhead}
    {reach : Option Nat} (hlaid : piece.Laid) (h : span.At piece pos) :
  piece.openingsAhead readAhead pos reach
    = (if reach.any (· ≤ span.itemOffset) then [] else [span.opening readAhead])
      ++ piece.openingsAhead readAhead pos (some span.itemOffset)
  := by
  rw [h.openingsAhead_eq hlaid, h.openingsAhead_eq hlaid]
  cases hreach : reach.any (· ≤ span.itemOffset) with
  | true =>
      rw [h.openings_of_reached hlaid hreach]
      rfl
  | false =>
      rw [h.openings_of_not_reached hlaid hreach]
      rfl

variable {store : Store} {reliable : setting.supply.Reliable setting.piece store}
  {reader reader' : Reader S}

namespace Reader

/-- Going forward opens no range. -/
theorem openings_advance {n : Nat} :
  (reader.advance setting n feed).2.openings = feed.openings
  := by
  simp only [advance]
  split
  · rw [release]
    split
    · rfl
    · apply Feed.openings_release
  · rfl

/-- The stream of a ready reader was opened for the run in which the reader stands. -/
theorem run_of_readyAt (h : reliable.ReadyAt pos reader) {item : HeldStream S}
    (hitem : reader.held = some item) :
  item.block = (Cursor.settled setting.piece pos).block
    ∧ ∃ r, setting.piece.blocks[(Cursor.settled setting.piece pos).block]? = some (.run r)
  := by
  obtain ⟨hblock, r, -, hr, -⟩ := h.serving item hitem
  rw [hblock] at hr
  exact ⟨hblock, r, hr⟩

/-- Going forward past bytes in memory leaves the ranges as they are. -/
theorem openingsInAll_advance {n : Nat} (hlaid : setting.piece.Laid)
    (h : reliable.ReadyAt pos reader)
    (hclear : ∀ k < n, ∀ span : PayloadRest, ¬ span.At setting.piece (pos + k)) :
  openingsInAll setting (reader.advance setting n feed).1 (reader.advance setting n feed).2
    = openingsInAll setting reader feed
  := by
  have hrun (hne : reader.held ≠ none) :
      ∃ r, setting.piece.blocks[(Cursor.settled setting.piece pos).block]? = some (.run r) := by
    obtain ⟨item, hitem⟩ := Option.ne_none_iff_exists'.mp hne
    apply (run_of_readyAt h hitem).2
  obtain ⟨hcursor, -, hstay, hleave⟩ := held_of_advance setting n feed hlaid h.cursor_eq hrun
  have hpos : reader.position = pos := congrArg Cursor.pos h.cursor_eq
  have hpos' : (reader.advance setting n feed).1.position = pos + n := congrArg Cursor.pos hcursor
  rw [openingsInAll, openingsInAll, openingsAhead, openingsAhead, openings_advance, hpos, hpos']
  congr 1
  symm
  apply Piece.openingsAhead_of_clear hlaid (Nat.le_add_right _ _)
  · intro q hle hlt span
    rw [← Nat.add_sub_of_le hle]
    apply hclear _ (by omega)
  · intro hsame
    rw [reach, hstay hsame, reach]
  · intro hne
    rw [reach, hleave hne, Option.map_none]

/-- Payload bytes that are handed out leave the ranges as they are: the range that has been opened
for them, if one has, is no longer to be opened. -/
theorem openingsInAll_takeIn {room : Nat} {held' : Option (HeldStream S)}
    (hlaid : setting.piece.Laid) (h : reliable.ReadyAt pos reader)
    (hspan : span.At setting.piece pos)
    (htake : setting.takePayload reader.held span room feed = (.ok bytes, held', feed')) :
  openingsInAll setting (reader.takeIn setting (.ok bytes, held', feed')).2.1
      (reader.takeIn setting (.ok bytes, held', feed')).2.2
    = openingsInAll setting reader feed
  := by
  have hblock : (Cursor.settled setting.piece pos).block = span.block := by
    rw [hspan.settled_eq hlaid]
  have hlength : bytes.length ≤ span.remaining :=
    Nat.le_trans (Setting.length_le_of_askFor htake) (Nat.min_le_left _ _)
  have hheld : ∀ item, reader.held = some item → item.block = span.block := by
    intro item hitem
    rw [(run_of_readyAt h hitem).1, hblock]
  obtain ⟨item, rfl, -, hitem, htaken⟩ := Setting.openings_takePayload hheld htake
  have hcursor : ({ reader with held := some item } : Reader S).cursor
      = Cursor.settled setting.piece pos := h.cursor_eq
  have hrun : ∃ r, setting.piece.blocks[(Cursor.settled setting.piece pos).block]?
      = some (.run r) := by
    rw [hblock]
    exact ⟨_, hspan.run_eq⟩
  obtain ⟨hcursor', -, hstay, hleave⟩ :=
    held_of_advance setting bytes.length feed' hlaid hcursor fun _ => hrun
  have hpos : reader.position = pos := congrArg Cursor.pos h.cursor_eq
  have hpos' : (({ reader with held := some item } : Reader S).advance setting bytes.length
      feed').1.position = pos + bytes.length := congrArg Cursor.pos hcursor'
  simp only [takeIn]
  rw [openingsInAll, openingsInAll, openingsAhead, openingsAhead, openings_advance, hpos, hpos',
    htaken, List.append_assoc, hspan.openingsAhead_acquired hlaid]
  congr 2
  symm
  apply hspan.openingsAhead_skip hlaid hlength
  · intro hsame
    rw [reach, hstay hsame, ← hitem]
    rfl
  · intro hne
    rw [reach, hleave hne, Option.map_none]

/-- Filling a buffer leaves the ranges as they are. -/
theorem openingsInAll_gather (room : Nat) (hlaid : setting.piece.Laid)
    (hheld : setting.piece.HeldIn store) (h : reliable.ReadyAt pos reader)
    (hfed : reliable.Fed feed) :
  openingsInAll setting (reader.gather setting room feed).2.1 (reader.gather setting room feed).2.2
    = openingsInAll setting reader feed
  := by
  induction room using Nat.strongRecOn generalizing pos reader feed with
  | ind room ih =>
      rcases Nat.eq_zero_or_pos room with rfl | hroom
      · rw [gather_zero]
      · have hstands := Cursor.standsAt_segment hlaid h.le_size
        have hfollows := Cursor.segment_settled hlaid hheld h.le_size
        rw [← h.cursor_eq] at hstands hfollows
        cases hseg : reader.cursor.segment setting.piece with
        | finish => rw [gather_of_finish hseg]
        | bytes available =>
            have hsegment := hseg
            rw [h.cursor_eq] at hsegment
            have hle : (available.take room).length ≤ available.length := by
              rw [List.length_take]
              apply Nat.min_le_right
            have hpos : 0 < (available.take room).length := by
              have := List.length_pos_iff.mpr (Cursor.ne_nil_of_segment hseg)
              rw [List.length_take]
              omega
            have hend : pos + (available.take room).length ≤ setting.piece.size := by
              have := (Cursor.segment_add hlaid h.le_size hsegment).1
              omega
            obtain ⟨hready', hfed'⟩ := readyAt_advance hlaid h hfed hend
            have hclear : ∀ k < (available.take room).length, ∀ span : PayloadRest,
                ¬ span.At setting.piece (pos + k) := fun k hk span =>
              Cursor.not_at_of_segment hlaid h.le_size hsegment (Nat.lt_of_lt_of_le hk hle)
            rw [gather_of_bytes hroom hseg]
            dsimp only
            rw [ih _ (Nat.sub_lt hroom hpos) hready' hfed']
            apply openingsInAll_advance hlaid h hclear
        | payload span =>
            rw [hseg] at hstands hfollows
            cases hfollows with
            | payload hspan =>
                cases hstands with
                | payload hat =>
                    obtain ⟨k, item, feed', -, -, -, htake, -⟩ :=
                      Setting.exists_takePayload hroom hfed hspan h.serving
                    rw [gather_of_payload hroom hseg, htake]
                    apply openingsInAll_takeIn hlaid h hat htake

/-- A read leaves the ranges as they are. -/
theorem openingsInAll_read (size : Nat) (hlaid : setting.piece.Laid)
    (hheld : setting.piece.HeldIn store) (h : reliable.ReadyAt pos reader)
    (hfed : reliable.Fed feed) :
  openingsInAll setting (reader.read setting size feed).2.1 (reader.read setting size feed).2.2
    = openingsInAll setting reader feed
  := by
  obtain ⟨bytes, reader', feed', hgather⟩ : ∃ bytes reader' feed',
      reader.gather setting size feed = (.ok bytes, reader', feed') := by
    obtain ⟨k, reader', feed', -, -, hgather, -⟩ := exists_gather hlaid hheld h hfed
    exact ⟨_, reader', feed', hgather⟩
  have hinvariant := openingsInAll_gather size hlaid hheld h hfed
  rw [hgather] at hinvariant
  rw [read, h.poisoned_eq, hgather]
  apply hinvariant

end Reader

/-! ### Families -/

/-- The openings so far stay the first ones while calls are added. -/
theorem Feed.openings_prefix (h : feed.calls <:+ feed'.calls) :
  feed.openings <+: feed'.openings
  := by
  have heq (f : Feed W H) : f.openings = (f.calls.filter Event.isOpening).reverse := by
    rw [openings, events, calls, List.filter_reverse, List.filter_filter]
    congr 2
    funext event
    cases event <;> rfl
  rw [heq, heq]
  apply List.reverse_prefix.mpr
  apply h.filter

namespace Family

variable {family : Family W H S} {index : Nat} {commands : List (Nat × Command)}

/-- The ranges that a member opens while commands are given to it and to others. -/
def openingsBy (setting : Setting W H S) (index : Nat) :
    List (Nat × Command) → Family W H S → List Event
  | [], _ => []
  | (i, command) :: rest, family =>
    let after := (family.run setting i command).2
    let opened := after.feed.openings.drop family.feed.openings.length
    (if i = index then opened else []) ++ openingsBy setting index rest after

/-- A read opens the first of the ranges that the reader has to open, if any, and takes it forward
until it is at the end. -/
theorem exists_run_read {size : Nat} (hlaid : setting.piece.Laid)
    (hheld : setting.piece.HeldIn store) (h : reliable.Ready family)
    (hmember : family.member? index = some reader) (hsize : 0 < size) :
  ∃ reader', (family.run setting index (.read size)).2.member? index = some reader'
    ∧ (family.run setting index (.read size)).2.feed.openings.drop family.feed.openings.length
        ++ reader'.openingsAhead setting = reader.openingsAhead setting
    ∧ min setting.piece.size (reader.position + 1) ≤ reader'.position
  := by
  have hready := h.members reader (List.mem_of_getElem? (member?_eq_some_iff.mp hmember))
  have hinvariant := Reader.openingsInAll_read size hlaid hheld hready h.fed
  have hcalls := calls_suffix_runAll setting [(index, .read size)] (F := family)
  obtain ⟨k, reader', feed', -, hzero, hread, hready', -⟩ :=
    Reader.exists_read hlaid hheld hready h.fed size
  have hrun : (family.run setting index (.read size)).2 = family.update index reader' feed' := by
    simp only [run, runBy, hmember, hread]
  obtain ⟨more, hmore⟩ : family.feed.openings <+: feed'.openings := by
    apply Feed.openings_prefix
    rw [runAll_cons] at hcalls
    simp only [hrun] at hcalls
    apply hcalls
  rw [hread] at hinvariant
  simp only [Reader.openingsInAll, ← hmore, List.append_assoc, List.append_cancel_left_eq]
    at hinvariant
  refine ⟨reader', ?_, ?_, ?_⟩
  · rw [hrun, member?_update hmember]
  · rw [hrun, update, ← hmore, List.drop_left]
    apply hinvariant
  · have hpos' : reader'.position = reader.position + k := congrArg Cursor.pos hready'.cursor_eq
    rw [hpos']
    omega

/-- The ranges that a reader opens while it is read and those that it still has to open are those
that it had to open before; and every read takes it forward until it is at the end. -/
theorem exists_openingsBy (hlaid : setting.piece.Laid) (hheld : setting.piece.HeldIn store)
    (h : reliable.Ready family) (hmember : family.member? index = some reader)
    (hcommands : ∀ c ∈ commands, c.2.Within setting.piece.size)
    (hreads : ∀ c ∈ commands, c.1 = index → ∃ size, 0 < size ∧ c.2 = .read size) :
  ∃ reader', (family.runAll setting commands).2.member? index = some reader'
    ∧ family.openingsBy setting index commands ++ reader'.openingsAhead setting
        = reader.openingsAhead setting
    ∧ min setting.piece.size (reader.position + commands.countP (·.1 = index)) ≤ reader'.position
  := by
  induction commands generalizing family reader with
  | nil =>
      refine ⟨reader, hmember, rfl, ?_⟩
      apply Nat.min_le_right
  | cons c commands ih =>
      obtain ⟨i, command⟩ := c
      obtain ⟨-, hready⟩ := delivers_run hlaid hheld h i (hcommands _ List.mem_cons_self)
      have hcommands' := fun c hc => hcommands c (List.mem_cons_of_mem _ hc)
      have hreads' := fun c hc => hreads c (List.mem_cons_of_mem _ hc)
      rw [runAll_cons, openingsBy, List.countP_cons]
      by_cases hi : i = index
      · subst hi
        obtain ⟨size, hsize, rfl⟩ : ∃ size, 0 < size ∧ command = .read size :=
          hreads _ List.mem_cons_self rfl
        obtain ⟨reader', hmember', hopened, hforward⟩ :=
          exists_run_read hlaid hheld h hmember hsize
        obtain ⟨reader'', hmember'', hopened', hforward'⟩ :=
          ih hready hmember' hcommands' hreads'
        refine ⟨reader'', hmember'', ?_, ?_⟩
        · rw [if_pos rfl, List.append_assoc, hopened', hopened]
        · simp only [decide_true, if_true]
          omega
      · obtain ⟨reader', hmember', hopened, hforward⟩ :=
          ih hready (member?_run_of_ne hi hmember) hcommands' hreads'
        refine ⟨reader', hmember', ?_, ?_⟩
        · rw [if_neg hi, List.nil_append, hopened]
        · simpa [hi] using hforward

/-- A reader that is made at an offset and then only read opens ranges that depend on the piece, the
offset and the read-ahead alone: the first of them while it is on its way, and all of them when it
has reached the end, which as many reads as there are bytes are enough for.  A run whose stretches
never go backward costs one stream. -/
theorem copy_opens_openings {plan : Plan} {world : W} {before after : List (Nat × Command)}
    {offset member : Nat} (reliable : setting.supply.Reliable setting.piece store)
    (hbuild : plan.build = .ok setting.piece) (hheld : setting.piece.HeldIn store)
    (hworld : reliable.Sound world)
    (hbefore : ∀ c ∈ before, c.2.Within setting.piece.size)
    (hfamily : ((start setting world).runAll setting before).2 = family)
    (hmember : (family.member? member).isSome) (hoffset : offset ≤ setting.piece.size)
    (hindex : family.members.length = index)
    (hafter : ∀ c ∈ after, c.2.Within setting.piece.size)
    (hreads : ∀ c ∈ after, c.1 = index → ∃ size, 0 < size ∧ c.2 = .read size) :
  ∃ copied, family.run setting member (.copy offset) = (.copied (.ok index), copied)
    ∧ copied.openingsBy setting index after
        <+: setting.piece.openings setting.options.readAhead offset
    ∧ ((copied.runAll setting after).2.positions[index]? = some (some setting.piece.size) →
        copied.openingsBy setting index after
          = setting.piece.openings setting.options.readAhead offset)
    ∧ (setting.piece.size - offset ≤ after.countP (·.1 = index) →
        (copied.runAll setting after).2.positions[index]? = some (some setting.piece.size))
    ∧ ∀ r, .run r ∈ setting.piece.blocks → r.stretches offset ≠ [] →
        ((r.stretches offset).IsChain fun s t => s.stop ≤ t.start) →
        (r.openings setting.options.readAhead offset none).length = 1
  := by
  have hlaid := Plan.laid_of_build hbuild
  have hready : reliable.Ready family := by
    rw [← hfamily]
    apply (deliversAll_runAll hlaid hheld (ready_start hlaid hworld).1 hbefore).2
  have hcopy : reliable.ReadyAt offset (Reader.startAt setting offset) :=
    Reader.readyAt_startAt hlaid hoffset
  have hstart : (Reader.startAt setting offset).position = offset :=
    congrArg Cursor.pos hcopy.cursor_eq
  have hahead : (Reader.startAt setting offset).openingsAhead setting
      = setting.piece.openings setting.options.readAhead offset := by
    rw [Reader.openingsAhead, hstart]
    apply Piece.openingsAhead_none hlaid
  have hcopied := ready_append hready hcopy
  have hnew : ({ family with members := family.members ++ [some (Reader.startAt setting offset)] } :
      Family W H S).member? index = some (Reader.startAt setting offset) := by
    rw [member?_eq_some_iff, ← hindex]
    simp
  obtain ⟨reader', hreader', hopened, hforward⟩ :=
    exists_openingsBy hlaid hheld hcopied hnew hafter hreads
  have hdone := (deliversAll_runAll hlaid hheld hcopied hafter).2.members reader'
    (List.mem_of_getElem? (member?_eq_some_iff.mp hreader'))
  have hpositions := congrArg (Option.map (Option.map Reader.position))
    (member?_eq_some_iff.mp hreader')
  rw [← List.getElem?_map] at hpositions
  rw [hahead] at hopened
  rw [hstart] at hforward
  refine ⟨_, ?_, ⟨_, hopened⟩, ?_, ?_, ?_⟩
  · obtain ⟨reader, hreader⟩ := Option.isSome_iff_exists.mp hmember
    simp only [run, runBy, hreader, Reader.copyAt, Reader.checkReach, Nat.not_lt_of_le hoffset,
      if_false, hindex]
  · intro hend
    rw [positions, hpositions] at hend
    simp only [Option.map_some, Option.some.injEq] at hend
    rw [← hopened, Reader.openingsAhead, hend, Piece.openingsAhead_size hlaid, List.append_nil]
  · intro hcount
    have hle := hdone.le_size
    rw [positions, hpositions]
    simp only [Option.map_some, Option.some.injEq]
    omega
  · intro r _ hne hchain
    apply ItemRun.length_openings hne hchain

/-- A copy that starts within a payload, passes over a gap and then opens the item anew, while the
reader that it was made from is read as well. -/
theorem copy_opens_openings_two_ranges :
  let item : Item := ⟨⟨1⟩, "a", 7⟩
  let data : Bytes := [10, 11, 12, 13, 14, 15, 16]
  let plan : Plan :=
    ⟨[1, 2], 11,
      [.item 2 [7] [8] ⟨0⟩ item 0 2, .item 6 [] [] ⟨0⟩ item 5 2, .item 8 [] [] ⟨0⟩ item 1 1,
        .inline 9 [] [] [5, 6]]⟩
  let run : ItemRun :=
    ⟨⟨0⟩, item, ⟨⟨2, [7], [8]⟩, 0, 2⟩, [⟨⟨6, [], []⟩, 5, 2⟩, ⟨⟨8, [], []⟩, 1, 1⟩]⟩
  let turns : List ReadTurn := [.atMost 1, .fail ⟨.interrupted, "interrupted"⟩, .atMost 1]
  let registry : Registry ScriptedSource :=
    ⟨[(⟨0⟩, ⟨.memory ⟨[("a", data)]⟩, [none], [.proceed turns]⟩)]⟩
  let setting : Setting (Registry ScriptedSource) SourceId ScriptedStream :=
    ⟨Registry.supply, ⟨[1, 2], 11, [.run run, .inline ⟨⟨9, [], []⟩, [5, 6]⟩]⟩, .standard, .blocking⟩
  let after : List (Nat × Command) :=
    [(1, .read 1), (0, .read 9), (1, .read 9), (0, .moveTo 4), (1, .read 9), (1, .read 1),
      (1, .read 9), (1, .read 9)]
  plan.build = .ok setting.piece
    ∧ ∃ copied, (start setting registry).run setting 0 (.copy 5) = (.copied (.ok 1), copied)
      ∧ copied.openingsBy setting 1 after
          = [.opened ⟨0⟩ 1 6 "a", .opened ⟨0⟩ 1 1 "a"]
  := by
  intro item data plan run turns registry setting after
  have hturns : ∀ turn ∈ turns, turn.IsHarmless := by
    simp [turns, ReadTurn.IsHarmless, IoError.isInterruption]
  have hheld : setting.piece.HeldIn fun _ _ => data := by
    intro r hr e he _
    have hr : r = run := by simpa [setting] using hr
    subst hr
    simp only [run, ItemRun.entries, List.mem_cons, List.not_mem_nil, or_false] at he
    rcases he with rfl | rfl | rfl <;> decide
  have hworld : registry.Serves setting.piece fun _ _ => data := by
    intro r hr
    have hr : r = run := by simpa [setting] using hr
    subst hr
    refine ⟨_, rfl, ⟨by simp, ?_⟩, MemorySource.holds rfl⟩
    simpa [OpenTurn.IsHarmless] using hturns
  have hbuild : plan.build = .ok setting.piece := rfl
  have hafter : ∀ c ∈ after, c.2.Within setting.piece.size := by
    simp [after, Command.Within, setting]
  have hreads : ∀ c ∈ after, c.1 = 1 → ∃ size, 0 < size ∧ c.2 = .read size := by
    simp [after]
  have hbefore : ∀ c ∈ ([] : List (Nat × Command)), c.2.Within setting.piece.size := by simp
  have hfamily : ((start setting registry).runAll setting []).2 = start setting registry := rfl
  have hmember : ((start setting registry).member? 0).isSome := rfl
  have hindex : (start setting registry).members.length = 1 := rfl
  have hoffset : 5 ≤ setting.piece.size := by decide
  obtain ⟨copied, hcopied, -, hall, hend, -⟩ :=
    copy_opens_openings (Registry.reliable _ _) hbuild hheld hworld hbefore hfamily hmember hoffset
      hindex hafter hreads
  refine ⟨hbuild, copied, hcopied, ?_⟩
  rw [hall (hend (by decide))]
  rfl

end Family

end PieceStream
