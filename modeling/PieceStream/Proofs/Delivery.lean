import Mathlib.Tactic.Use
import PieceStream.Proofs.Reliability
import PieceStream.Proofs.Walk
import PieceStream.Reading.Family

/-!
# Delivery over reliable supplies

Over a reliable supply a family of readers hands out the content of the piece, whatever it is
told to do.  The invariant of a reader is that its cursor is settled and that the stream it
holds yields the item of the run in which the cursor stands, from the position of the stream to
at least the furthest need of the entries not passed.
-/

namespace PieceStream

variable {W H S : Type}

namespace Supply.Reliable

variable {supply : Supply W H S} {piece : Piece} {store : Store}
  (reliable : supply.Reliable piece store)

/-- The stream serves the rest of the run in which a settled cursor at `pos` stands. -/
def Serving (pos : Nat) (item : HeldStream S) : Prop :=
  item.block = (Cursor.settled piece pos).block ∧ ∃ r limit,
    piece.blocks[item.block]? = some (.run r)
      ∧ r.furthestNeed (Cursor.settled piece pos).entry ≤ limit
      ∧ reliable.Yields item.stream (((r.data store).drop item.itemPos).take (limit - item.itemPos))

/-- The reader stands at `pos` and has not failed, and the stream that it holds serves it. -/
structure ReadyAt (pos : Nat) (reader : Reader S) : Prop where
  cursor_eq : reader.cursor = Cursor.settled piece pos
  le_size : pos ≤ piece.size
  poisoned_eq : reader.poisoned = false
  serving : ∀ item, reader.held = some item → reliable.Serving pos item

end Supply.Reliable

variable {setting : Setting W H S} {store : Store}
  {reliable : setting.supply.Reliable setting.piece store} {feed : Feed W H} {reader : Reader S}
  {held : Option (HeldStream S)} {item : HeldStream S} {span : PayloadRest} {pos : Nat}

/-! ### Streams -/

/-- The length asked for reaches to the furthest need. -/
theorem ReadAhead.furthestNeed_le (readAhead : ReadAhead) {r : ItemRun} {entry itemOffset : Nat}
    (h : itemOffset ≤ r.furthestNeed entry) :
  r.furthestNeed entry ≤ itemOffset + readAhead.lengthToAsk r entry itemOffset
  := by
  cases readAhead with
  | runEnd =>
      rw [lengthToAsk]
      omega
  | itemEnd =>
      rw [lengthToAsk]
      omega

namespace Setting

/-- The source of a run is found, or has been found before. -/
theorem exists_sourceFor (hfed : reliable.Fed feed) (hspan : span.Follows setting.piece store pos) :
  ∃ h feed', setting.sourceFor span feed = (.ok h, feed')
    ∧ reliable.LeadsTo h span.run.source ∧ reliable.Fed feed'
  := by
  have hrun := List.mem_of_getElem? hspan.run_eq
  rw [sourceFor]
  split
  · next h hh =>
    have hh := Option.join_eq_some_iff.mp hh
    exact ⟨h, feed, rfl, hfed.leadsTo hh hspan.run_eq, hfed⟩
  · obtain ⟨h, w, hresolve, hleads, hsound⟩ := reliable.resolve hrun hfed.sound
    rw [hresolve]
    refine ⟨h, _, rfl, hleads, ⟨hsound, ?_⟩⟩
    intro i h' r hi hr
    simp only [Feed.record, List.getElem?_set] at hi
    split at hi
    · next hblock =>
      subst hblock
      split at hi
      · obtain rfl : span.run = r := by
          rw [hspan.run_eq] at hr
          cases hr
          rfl
        cases hi
        apply hleads
      · cases hi
    · apply hfed.leadsTo hi hr

/-- A stream serves the run in which the bytes wanted stand. -/
theorem serving_iff (hspan : span.Follows setting.piece store pos) :
  reliable.Serving pos item
    ↔ item.block = span.block ∧ ∃ limit, span.run.furthestNeed span.entry ≤ limit
        ∧ reliable.Yields item.stream
          (((span.run.data store).drop item.itemPos).take (limit - item.itemPos))
  := by
  rw [Supply.Reliable.Serving, ← hspan.block_eq, ← hspan.entry_eq]
  apply and_congr_right
  intro hblock
  rw [hblock, hspan.run_eq]
  constructor
  · rintro ⟨_, limit, ⟨⟩, h⟩
    exact ⟨limit, h⟩
  · rintro ⟨limit, h⟩
    exact ⟨span.run, limit, rfl, h⟩

/-- A stream is opened that starts with the bytes wanted and serves the run. -/
theorem exists_openFor (hfed : reliable.Fed feed) (hspan : span.Follows setting.piece store pos) :
  ∃ item feed', setting.openFor span feed = (.ok item, feed')
    ∧ item.itemPos = span.itemOffset ∧ reliable.Serving pos item ∧ reliable.Fed feed'
  := by
  have hrun := List.mem_of_getElem? hspan.run_eq
  have hoffset : span.itemOffset < (span.run.data store).length :=
    Nat.lt_of_lt_of_le (Nat.lt_add_of_pos_right hspan.remaining_pos) hspan.held_le
  have hneed : span.itemOffset ≤ span.run.furthestNeed span.entry :=
    Nat.le_trans (Nat.le_add_right _ _) hspan.need_le
  obtain ⟨h, feed', hsource, hleads, hfed'⟩ := exists_sourceFor hfed hspan
  obtain ⟨s, notes, w, hopen, hyields, hsound⟩ :=
    reliable.openRange (setting.lengthFor span) hrun hleads hfed'.sound hoffset
  have hannounced : reliable.Fed (setting.announce span feed') := (hfed'.record _).record _
  have hreach := setting.options.readAhead.furthestNeed_le hneed
  have hworld : (setting.announce span feed').world = feed'.world := rfl
  rw [openFor, hsource]
  simp only
  rw [openFrom, hworld, PayloadRest.path, hopen]
  refine ⟨_, _, rfl, rfl, (serving_iff hspan).mpr ⟨rfl, _, hreach, ?_⟩,
    (hannounced.withWorld hsound).notes⟩
  rw [Nat.add_sub_cancel_left]
  apply hyields

/-- A stream is brought to the bytes wanted, by what is held or anew. -/
theorem exists_acquire (hfed : reliable.Fed feed) (hspan : span.Follows setting.piece store pos)
    (hheld : ∀ item, held = some item → reliable.Serving pos item) :
  ∃ item feed', setting.acquire held span feed = (.ok item, feed')
    ∧ item.itemPos = span.itemOffset ∧ reliable.Serving pos item ∧ reliable.Fed feed'
  := by
  cases held with
  | none => apply exists_openFor hfed hspan
  | some item =>
      have hitem := hheld item rfl
      obtain ⟨hblock, limit, hlimit, hyields⟩ := (serving_iff hspan).mp hitem
      rcases Nat.lt_trichotomy item.itemPos span.itemOffset with hlt | heq | hgt
      · have hgap : span.itemOffset - item.itemPos
            ≤ (((span.run.data store).drop item.itemPos).take (limit - item.itemPos)).length := by
          have := hspan.held_le
          have := hspan.need_le
          rw [List.length_take, List.length_drop]
          omega
        have hreach : item.itemPos + (span.itemOffset - item.itemPos) = span.itemOffset := by omega
        obtain ⟨stream, feed', hover, hyields', hfed'⟩ :=
          Supply.Reliable.exists_passOver (hfed.record
            (.noted (.skipping span.path item.itemPos (span.itemOffset - item.itemPos))))
            hyields hgap
        rw [List.drop_take, List.drop_drop, hreach, Nat.sub_sub, hreach] at hyields'
        rw [hreach] at hover
        refine ⟨{ item with itemPos := span.itemOffset, stream := stream }, feed', ?_, rfl,
          (serving_iff hspan).mpr ⟨hblock, limit, hlimit, hyields'⟩, hfed'⟩
        simp only [acquire, Approach.toward, hblock, hlt, Nat.ne_of_lt hlt, Feed.note, hover,
          true_and, and_false, if_false, if_true, concludeSkip]
      · refine ⟨item, feed, ?_, heq, hitem, hfed⟩
        simp only [acquire, Approach.toward, hblock, heq, and_self, if_true]
      · obtain ⟨item', feed', hopen, hitem'⟩ := exists_openFor (hfed.release item) hspan
        refine ⟨item', feed', ?_, hitem'⟩
        simp only [acquire, Approach.toward, hblock, Nat.ne_of_gt hgt, Nat.not_lt_of_gt hgt,
          and_false, if_false, hopen]

/-- What a stream that serves the run yields next are bytes with which the content goes on. -/
theorem take_eq_of_follows {limit k : Nat} (hspan : span.Follows setting.piece store pos)
    (hlimit : span.run.furthestNeed span.entry ≤ limit) (hk : k ≤ span.remaining) :
  (((span.run.data store).drop span.itemOffset).take (limit - span.itemOffset)).take k
      = ((setting.piece.content store).drop pos).take k
    ∧ (((setting.piece.content store).drop pos).take k).length = k
  := by
  have hneed := Nat.le_trans hspan.need_le hlimit
  have hdata := hspan.held_le
  have hlen : (((span.run.data store).drop span.itemOffset).take span.remaining).length
      = span.remaining := by
    rw [List.length_take, List.length_drop]
    omega
  have hbytes : (((span.run.data store).drop span.itemOffset).take (limit - span.itemOffset)).take k
      = ((setting.piece.content store).drop pos).take k := by
    obtain ⟨rest, hrest⟩ := hspan.content_prefix
    rw [← hrest, List.take_append_of_le_length (by omega), List.take_take, List.take_take,
      Nat.min_eq_left (by omega), Nat.min_eq_left (by omega)]
  use hbytes
  rw [← hbytes, List.length_take, List.length_take, List.length_drop]
  omega

/-- One question to a stream that serves the run yields bytes with which the content of the piece
goes on. -/
theorem exists_askFor {room : Nat} (hroom : 0 < room) (hfed : reliable.Fed feed)
    (hspan : span.Follows setting.piece store pos) (hpos : item.itemPos = span.itemOffset)
    (hitem : reliable.Serving pos item) :
  ∃ k item' feed', 0 < k ∧ k ≤ room
    ∧ (((setting.piece.content store).drop pos).take k).length = k
    ∧ setting.askFor span room (.ok item, feed)
        = (.ok (((setting.piece.content store).drop pos).take k), some item', feed')
    ∧ reliable.Serving pos item' ∧ reliable.Fed feed'
  := by
  obtain ⟨hblock, limit, hlimit, hyields⟩ := (serving_iff hspan).mp hitem
  have hremaining := hspan.remaining_pos
  have hneed := Nat.le_trans hspan.need_le hlimit
  have hdata := hspan.held_le
  obtain ⟨k, stream, feed', hk, hksize, hask, hyields', hfed'⟩ :=
    Supply.Reliable.exists_askUninterrupted hfed hyields (Nat.lt_min.mpr ⟨hremaining, hroom⟩)
      (by rw [← List.length_pos_iff, List.length_take, List.length_drop]; omega)
  obtain ⟨hbytes, hlen⟩ :=
    take_eq_of_follows hspan hlimit (Nat.le_trans hksize (Nat.min_le_left _ _))
  rw [List.drop_take, List.drop_drop, Nat.sub_sub] at hyields'
  rw [hpos, hbytes] at hask
  refine ⟨k, { item with itemPos := item.itemPos + k, stream := stream }, feed', hk,
    Nat.le_trans hksize (Nat.min_le_right _ _), hlen, ?_,
    (serving_iff hspan).mpr ⟨hblock, limit, hlimit, hyields'⟩, hfed'⟩
  simp only [askFor, hask]
  cases hcons : ((setting.piece.content store).drop pos).take k with
  | nil =>
      rw [hcons] at hlen
      cases hlen
      cases hk
  | cons b bs => rw [← hlen, hcons, hpos]

/-- One question yields bytes with which the content of the piece goes on. -/
theorem exists_takePayload {room : Nat} (hroom : 0 < room) (hfed : reliable.Fed feed)
    (hspan : span.Follows setting.piece store pos)
    (hheld : ∀ item, held = some item → reliable.Serving pos item) :
  ∃ k item feed', 0 < k ∧ k ≤ room
    ∧ (((setting.piece.content store).drop pos).take k).length = k
    ∧ setting.takePayload held span room feed
        = (.ok (((setting.piece.content store).drop pos).take k), some item, feed')
    ∧ reliable.Serving pos item ∧ reliable.Fed feed'
  := by
  obtain ⟨item, feed', hacquire, hpos, hitem, hfed'⟩ := exists_acquire hfed hspan hheld
  rw [takePayload, hacquire]
  apply exists_askFor hroom hfed' hspan hpos hitem

end Setting

/-! ### Readers -/

/-- A stream that serves a run goes on serving it while the cursor moves forward within it. -/
theorem Supply.Reliable.Serving.forward {pos' : Nat} (h : reliable.Serving pos item)
    (hle : pos ≤ pos')
    (hblock : (Cursor.settled setting.piece pos').block
      = (Cursor.settled setting.piece pos).block) :
  reliable.Serving pos' item
  := by
  obtain ⟨hitem, r, limit, hr, hlimit, hyields⟩ := h
  refine ⟨hitem.trans hblock.symm, r, limit, hr, Nat.le_trans ?_ hlimit, hyields⟩
  rw [hitem] at hr
  apply ItemRun.furthestNeed_settled_anti hle hr hblock

namespace Reader

/-- A reader that holds no stream is ready wherever its cursor is settled. -/
theorem readyAt_of_held_eq_none (hcursor : reader.cursor = Cursor.settled setting.piece pos)
    (hpos : pos ≤ setting.piece.size) (hpoisoned : reader.poisoned = false)
    (hheld : reader.held = none) :
  reliable.ReadyAt pos reader
  := by
  use hcursor, hpos, hpoisoned
  intro item hitem
  rw [hheld] at hitem
  cases hitem

/-- Giving a stream up changes nothing that readers rely on. -/
theorem fed_release (hfed : reliable.Fed feed) :
  reliable.Fed (reader.release feed).2
  := by
  rw [release]
  split
  · apply hfed
  · apply hfed.release _

/-- Going forward a settled reader stays settled, and it keeps its stream exactly within the block
that the stream was opened for. -/
theorem held_of_advance (setting : Setting W H S) (n : Nat) (feed : Feed W H)
    (hlaid : setting.piece.Laid)
    (hcursor : reader.cursor = Cursor.settled setting.piece pos)
    (hrun : reader.held ≠ none →
      ∃ r, setting.piece.blocks[(Cursor.settled setting.piece pos).block]? = some (.run r)) :
  (reader.advance setting n feed).1.cursor = Cursor.settled setting.piece (pos + n)
    ∧ (reader.advance setting n feed).1.poisoned = reader.poisoned
    ∧ ((Cursor.settled setting.piece (pos + n)).block = (Cursor.settled setting.piece pos).block →
        (reader.advance setting n feed).1.held = reader.held)
    ∧ ((Cursor.settled setting.piece (pos + n)).block ≠ (Cursor.settled setting.piece pos).block →
        (reader.advance setting n feed).1.held = none)
  := by
  have hsettled := Cursor.advance_settled hlaid pos n
  cases hleft : ((Cursor.settled setting.piece pos).advance setting.piece n).2 with
  | true =>
      have hne := Cursor.block_ne_of_advance hlaid hleft
      simp only [advance, hcursor, hsettled, hleft, if_true, release_fst]
      exact ⟨trivial, trivial, fun heq => absurd heq hne, fun _ => trivial⟩
  | false =>
      simp only [advance, hcursor, hsettled, hleft]
      refine ⟨rfl, rfl, fun _ => rfl, fun hne => ?_⟩
      by_contra hheld
      obtain ⟨r, hr⟩ := hrun hheld
      exact hne (Cursor.block_eq_of_advance hlaid hr hleft)

/-- Going forward a reader stays ready. -/
theorem readyAt_advance {n : Nat} (hlaid : setting.piece.Laid) (h : reliable.ReadyAt pos reader)
    (hfed : reliable.Fed feed) (hn : pos + n ≤ setting.piece.size) :
  reliable.ReadyAt (pos + n) (reader.advance setting n feed).1
    ∧ reliable.Fed (reader.advance setting n feed).2
  := by
  have hrun (hheld : reader.held ≠ none) :
      ∃ r, setting.piece.blocks[(Cursor.settled setting.piece pos).block]? = some (.run r) := by
    obtain ⟨item, hitem⟩ := Option.ne_none_iff_exists'.mp hheld
    obtain ⟨hblock, r, -, hr, -⟩ := h.serving item hitem
    rw [hblock] at hr
    exact ⟨r, hr⟩
  obtain ⟨hcursor, hpoisoned, hstay, hleave⟩ :=
    held_of_advance setting n feed hlaid h.cursor_eq hrun
  constructor
  · refine ⟨hcursor, hn, hpoisoned.trans h.poisoned_eq, fun item hitem => ?_⟩
    by_cases hblock : (Cursor.settled setting.piece (pos + n)).block
        = (Cursor.settled setting.piece pos).block
    · rw [hstay hblock] at hitem
      apply (h.serving item hitem).forward (Nat.le_add_right _ _) hblock
    · rw [hleave hblock] at hitem
      cases hitem
  · simp only [advance]
    split
    · apply fed_release hfed
    · apply hfed

/-- As many bytes in memory as there is room for are bytes with which the content goes on. -/
theorem exists_copied {content available : Bytes} {room size : Nat} (hroom : 0 < room)
    (hlength : content.length = size) (hlead : available <+: content.drop pos)
    (hne : available ≠ []) :
  ∃ c, 0 < c ∧ c ≤ room ∧ pos + c ≤ size ∧ (available.take room).length = c
    ∧ available.take room = (content.drop pos).take c
  := by
  obtain ⟨rest, hrest⟩ := hlead
  have hpos : 0 < available.length := List.length_pos_iff.mpr hne
  have hle : available.length ≤ size - pos := by
    rw [← hlength, ← List.length_drop, ← hrest, List.length_append]
    apply Nat.le_add_right
  have hlen : (available.take room).length = min room available.length := List.length_take
  use min room available.length, by omega, by omega, by omega, hlen
  rw [← hrest, List.take_append_of_le_length (Nat.min_le_right _ _), ← List.take_take,
    List.take_length]

/-- Filling a buffer yields bytes with which the content of the piece goes on. -/
theorem exists_gather {room : Nat} (hlaid : setting.piece.Laid) (hheld : setting.piece.HeldIn store)
    (h : reliable.ReadyAt pos reader) (hfed : reliable.Fed feed) :
  ∃ k reader' feed', k ≤ room ∧ (k = 0 → room = 0 ∨ pos = setting.piece.size)
    ∧ reader.gather setting room feed
        = (.ok (((setting.piece.content store).drop pos).take k), reader', feed')
    ∧ reliable.ReadyAt (pos + k) reader' ∧ reliable.Fed feed'
  := by
  induction room using Nat.strongRecOn generalizing pos reader feed with
  | ind room ih =>
      rcases Nat.eq_zero_or_pos room with rfl | hroom
      · exact ⟨0, reader, feed, Nat.le_refl 0, fun _ => .inl rfl, gather_zero, h, hfed⟩
      · have hlength := Piece.length_content hlaid hheld
        have hsegment := Cursor.segment_settled hlaid hheld h.le_size
        rw [← h.cursor_eq] at hsegment
        cases hseg : reader.cursor.segment setting.piece with
        | finish =>
            rw [hseg] at hsegment
            cases hsegment with
            | finish hend =>
                refine ⟨0, reader, feed, Nat.zero_le _, fun _ => .inr hend, ?_, h, hfed⟩
                rw [gather_of_finish hseg, List.take_zero]
        | bytes available =>
            rw [hseg] at hsegment
            cases hsegment with
            | bytes hlead =>
                obtain ⟨c, hc, hcroom, hcend, hlen, hcopied⟩ :=
                  exists_copied hroom hlength hlead (Cursor.ne_nil_of_segment hseg)
                obtain ⟨hready', hfed'⟩ := readyAt_advance hlaid h hfed hcend
                obtain ⟨k, reader', feed', hk, -, hgather, hready'', hfed''⟩ :=
                  ih (room - c) (Nat.sub_lt hroom hc) hready' hfed'
                refine ⟨c + k, reader', feed', by omega, by omega, ?_, by rwa [← Nat.add_assoc],
                  hfed''⟩
                rw [gather_of_bytes hroom hseg, List.take_add, ← hcopied, List.drop_drop]
                dsimp only
                rw [hlen, hgather]
                rfl
        | payload span =>
            rw [hseg] at hsegment
            cases hsegment with
            | payload hspan =>
                obtain ⟨k, item, feed', hk, hkroom, hlen, htake, hitem, hfed'⟩ :=
                  Setting.exists_takePayload hroom hfed hspan h.serving
                have hkend : pos + k ≤ setting.piece.size := by
                  have hle := hlen
                  rw [List.length_take, List.length_drop, hlength] at hle
                  omega
                have hready : reliable.ReadyAt pos { reader with held := some item } := by
                  use h.cursor_eq, h.le_size, h.poisoned_eq
                  rintro _ ⟨⟩
                  apply hitem
                obtain ⟨hready', hfed''⟩ := readyAt_advance hlaid hready hfed' hkend
                refine ⟨k, _, _, hkroom, by omega, ?_, hready', hfed''⟩
                rw [gather_of_payload hroom hseg, htake]
                simp only [takeIn, hlen]

/-- A read hands out bytes with which the content of the piece goes on. -/
theorem exists_read (hlaid : setting.piece.Laid) (hheld : setting.piece.HeldIn store)
    (h : reliable.ReadyAt pos reader) (hfed : reliable.Fed feed) (size : Nat) :
  ∃ k reader' feed', k ≤ size ∧ (k = 0 → size = 0 ∨ pos = setting.piece.size)
    ∧ reader.read setting size feed
        = (.ok (((setting.piece.content store).drop pos).take k), reader', feed')
    ∧ reliable.ReadyAt (pos + k) reader' ∧ reliable.Fed feed'
  := by
  obtain ⟨k, reader', feed', hk, hzero, hgather, hready⟩ := exists_gather hlaid hheld h hfed
  refine ⟨k, reader', feed', hk, hzero, ?_, hready⟩
  rw [read, h.poisoned_eq, hgather]
  rfl

/-- A reader that gives its stream up stays ready. -/
theorem readyAt_release (h : reliable.ReadyAt pos reader) :
  reliable.ReadyAt pos (reader.release feed).1
  := by
  rw [release_fst]
  exact readyAt_of_held_eq_none h.cursor_eq h.le_size h.poisoned_eq rfl

/-- Moving within the piece succeeds. -/
theorem exists_moveTo {offset : Nat} (hlaid : setting.piece.Laid)
    (hoffset : offset ≤ setting.piece.size) (h : reliable.ReadyAt pos reader)
    (hfed : reliable.Fed feed) :
  ∃ reader' feed', reader.moveTo setting offset feed = (.ok (), reader', feed')
    ∧ reliable.ReadyAt offset reader' ∧ reliable.Fed feed'
  := by
  simp only [moveTo, checkReach, Nat.not_lt_of_le hoffset, if_false, release_fst]
  refine ⟨_, _, rfl, ?_, (fed_release hfed).record _⟩
  exact readyAt_of_held_eq_none (Cursor.locate_eq hlaid hoffset) hoffset h.poisoned_eq rfl

/-- A reader at an offset of the piece is ready there. -/
theorem readyAt_startAt (hlaid : setting.piece.Laid) (hpos : pos ≤ setting.piece.size) :
  reliable.ReadyAt pos (startAt setting pos)
  := readyAt_of_held_eq_none (Cursor.locate_eq hlaid hpos) hpos rfl rfl

end Reader

/-! ### Families -/

/-- The commands to read, to move within a piece of that size, to copy and to close. -/
def Command.Within (size : Nat) : Command → Prop
  | .read _ | .close | .drop => True
  | .moveTo offset | .copy offset => offset ≤ size
  | .drain _ | .seek _ => False

/-- How members at these positions answer a command that is given to one of them, and where they
stand then, if they deliver the content. -/
inductive Delivers (content : Bytes) (positions : List (Option Nat)) (index : Nat) :
    Command → Reply → List (Option Nat) → Prop
  | absent {command : Command} (h : positions[index]?.join = none) :
      Delivers content positions index command .absent positions
  | read {pos size k : Nat} (h : positions[index]? = some (some pos)) (hle : k ≤ size)
      (hend : pos + k ≤ content.length) (hzero : k = 0 → size = 0 ∨ pos = content.length) :
      Delivers content positions index (.read size) (.bytes (.ok ((content.drop pos).take k)))
        (positions.set index (some (pos + k)))
  | moveTo {pos offset : Nat} (h : positions[index]? = some (some pos)) :
      Delivers content positions index (.moveTo offset) (.moved (.ok ()))
        (positions.set index (some offset))
  | copy {pos offset : Nat} (h : positions[index]? = some (some pos)) :
      Delivers content positions index (.copy offset) (.copied (.ok positions.length))
        (positions ++ [some offset])
  | close {pos : Nat} (h : positions[index]? = some (some pos)) :
      Delivers content positions index .close .done positions
  | drop {pos : Nat} (h : positions[index]? = some (some pos)) :
      Delivers content positions index .drop .done (positions.set index none)

/-- How members at these positions answer commands one after the other. -/
inductive DeliversAll (content : Bytes) :
    List (Option Nat) → List (Nat × Command) → List Reply → List (Option Nat) → Prop
  | nil {positions : List (Option Nat)} : DeliversAll content positions [] [] positions
  | cons {positions positions' positions'' : List (Option Nat)} {index : Nat} {command : Command}
      {commands : List (Nat × Command)} {reply : Reply} {replies : List Reply}
      (head : Delivers content positions index command reply positions')
      (tail : DeliversAll content positions' commands replies positions'') :
      DeliversAll content positions ((index, command) :: commands) (reply :: replies) positions''

/-- Every member is ready where it stands. -/
structure Supply.Reliable.Ready {supply : Supply W H S} {piece : Piece} {store : Store}
    (reliable : supply.Reliable piece store) (family : Family W H S) : Prop where
  members : ∀ reader, some reader ∈ family.members → reliable.ReadyAt reader.position reader
  fed : reliable.Fed family.feed

namespace Family

variable {family : Family W H S} {index : Nat}

/-- A family is as it was where a member is replaced by itself. -/
theorem update_self (hmember : family.member? index = some reader) :
  family.update index reader family.feed = family
  := by
  obtain ⟨hlt, hget⟩ := List.getElem?_eq_some_iff.mp (member?_eq_some_iff.mp hmember)
  rw [update, ← hget, List.set_getElem_self]

/-- What is told to others does not change a member, however members read. -/
theorem member?_runBy_of_ne
    {read : Nat → Reader S → Feed W H → Except ReadError Bytes × Reader S × Feed W H} {i : Nat}
    {command : Command} (hne : i ≠ index) (hmember : family.member? index = some reader) :
  (family.runBy setting read i command).2.member? index = some reader
  := by
  rw [member?_eq_some_iff] at hmember ⊢
  rw [runBy]
  split
  · apply hmember
  · next other hother =>
    have hset (x : Option (Reader S)) :
        (family.members.set i x)[index]? = some (some reader) := by
      rw [List.getElem?_set_ne hne, hmember]
    cases command with
    | copy offset =>
        dsimp only
        split
        · obtain ⟨hlt, -⟩ := List.getElem?_eq_some_iff.mp hmember
          rw [List.getElem?_append_left hlt, hmember]
        · apply hmember
    | drop =>
        simp only [remove, hother]
        apply hset
    | _ => apply hset

/-- What is told to others does not change a member. -/
theorem member?_run_of_ne {i : Nat} {command : Command} (hne : i ≠ index)
    (hmember : family.member? index = some reader) :
  (family.run setting i command).2.member? index = some reader
  := member?_runBy_of_ne hne hmember

/-- The members stay ready when one of them is replaced by a ready one. -/
theorem ready_update (h : reliable.Ready family) (index : Nat)
    (hreader : reliable.ReadyAt pos reader) (hfed : reliable.Fed feed) :
  reliable.Ready (family.update index reader feed)
    ∧ (family.update index reader feed).positions = family.positions.set index (some pos)
  := by
  have hpos : reader.position = pos := congrArg Cursor.pos hreader.cursor_eq
  constructor
  · constructor
    · intro reader' hmem
      rcases List.mem_or_eq_of_mem_set hmem with hmem | heq
      · apply h.members reader' hmem
      · cases heq
        rwa [hpos]
    · apply hfed
  · rw [update, positions, List.map_set, Option.map_some, hpos, positions]

/-- The members stay ready when one of them goes. -/
theorem ready_remove (h : reliable.Ready family) (hmember : family.member? index = some reader) :
  reliable.Ready (family.remove index)
    ∧ (family.remove index).positions = family.positions.set index none
  := by
  rw [remove, hmember]
  constructor
  · constructor
    · intro reader' hmem
      rcases List.mem_or_eq_of_mem_set hmem with hmem | heq
      · apply h.members reader' hmem
      · cases heq
    · dsimp only
      split
      · apply h.fed.record _
      · apply h.fed
  · rw [positions, List.map_set, Option.map_none, positions]

/-- The members stay ready when a reader joins them. -/
theorem ready_append (h : reliable.Ready family) (hreader : reliable.ReadyAt pos reader) :
  reliable.Ready { family with members := family.members ++ [some reader] }
  := by
  have hpos : reader.position = pos := congrArg Cursor.pos hreader.cursor_eq
  constructor
  · intro reader' hmem
    rcases List.mem_append.mp hmem with hmem | heq
    · apply h.members reader' hmem
    · cases List.mem_singleton.mp heq
      rwa [hpos]
  · apply h.fed

/-- Members of a family deliver the content and stay ready, whatever one of them is told. -/
theorem delivers_run {command : Command} (hlaid : setting.piece.Laid)
    (hheld : setting.piece.HeldIn store) (h : reliable.Ready family) (index : Nat)
    (hcommand : command.Within setting.piece.size) :
  Delivers (setting.piece.content store) family.positions index command
      (family.run setting index command).1 (family.run setting index command).2.positions
    ∧ reliable.Ready (family.run setting index command).2
  := by
  cases hmember : family.member? index with
  | none =>
      simp only [run, runBy, hmember]
      refine ⟨.absent ?_, h⟩
      rw [positions, List.getElem?_map, Option.join_map_eq_map_join, ← member?, hmember]
      rfl
  | some reader =>
      have hget := member?_eq_some_iff.mp hmember
      have hready := h.members reader (List.mem_of_getElem? hget)
      have hpos : family.positions[index]? = some (some reader.position) := by
        rw [positions, List.getElem?_map, hget]
        rfl
      cases command with
      | read size =>
          obtain ⟨k, reader', feed', hk, hzero, hread, hready', hfed'⟩ :=
            Reader.exists_read hlaid hheld hready h.fed size
          obtain ⟨hfamily, hpositions⟩ := ready_update h index hready' hfed'
          have hlength := Piece.length_content hlaid hheld
          simp only [run, runBy, hmember, hread, hpositions]
          refine ⟨.read hpos hk ?_ ?_, hfamily⟩
          · rw [hlength]
            apply hready'.le_size
          · rw [hlength]
            apply hzero
      | drain size => cases hcommand
      | moveTo offset =>
          obtain ⟨reader', feed', hmove, hready', hfed'⟩ :=
            Reader.exists_moveTo hlaid hcommand hready h.fed
          obtain ⟨hfamily, hpositions⟩ := ready_update h index hready' hfed'
          simp only [run, runBy, hmember, hmove, hpositions]
          exact ⟨.moveTo hpos, hfamily⟩
      | seek target => cases hcommand
      | copy offset =>
          have hcopy : reliable.ReadyAt offset (Reader.startAt setting offset) :=
            Reader.readyAt_startAt hlaid hcommand
          simp only [run, runBy, hmember, Reader.copyAt, Reader.checkReach,
            Nat.not_lt_of_le hcommand, if_false]
          refine ⟨?_, ready_append h hcopy⟩
          have hdelivers : Delivers (setting.piece.content store) family.positions index
            (.copy offset) _ _ := .copy hpos
          have hcopied : (Reader.startAt setting offset).position = offset :=
            congrArg Cursor.pos hcopy.cursor_eq
          simpa [positions, hcopied] using hdelivers
      | close =>
          have hready' : reliable.ReadyAt reader.position (reader.release family.feed).1 :=
            Reader.readyAt_release hready
          have hfed' : reliable.Fed (reader.release family.feed).2 := Reader.fed_release h.fed
          obtain ⟨hfamily, hpositions⟩ := ready_update h index hready' hfed'
          obtain ⟨hlt, hself⟩ := List.getElem?_eq_some_iff.mp hpos
          simp only [run, runBy, hmember, hpositions]
          rw [← hself, List.set_getElem_self]
          exact ⟨.close hpos, hfamily⟩
      | drop =>
          obtain ⟨hfamily, hpositions⟩ := ready_remove h hmember
          simp only [run, runBy, hmember, hpositions]
          exact ⟨.drop hpos, hfamily⟩

/-- Members of a family deliver the content and stay ready, whatever they are told one after the
other. -/
theorem deliversAll_runAll {commands : List (Nat × Command)} (hlaid : setting.piece.Laid)
    (hheld : setting.piece.HeldIn store) (h : reliable.Ready family)
    (hcommands : ∀ c ∈ commands, c.2.Within setting.piece.size) :
  DeliversAll (setting.piece.content store) family.positions commands
      (family.runAll setting commands).1 (family.runAll setting commands).2.positions
    ∧ reliable.Ready (family.runAll setting commands).2
  := by
  induction commands generalizing family with
  | nil => exact ⟨.nil, h⟩
  | cons c commands ih =>
      obtain ⟨index, command⟩ := c
      have hcommand := hcommands _ List.mem_cons_self
      obtain ⟨hhead, hready⟩ := delivers_run hlaid hheld h index hcommand
      obtain ⟨htail, hready'⟩ := ih hready fun c hc => hcommands c (List.mem_cons_of_mem _ hc)
      exact ⟨.cons hhead htail, hready'⟩

/-- A new family stands at the start of the piece and is ready. -/
theorem ready_start {world : W} (hlaid : setting.piece.Laid) (hworld : reliable.Sound world) :
  reliable.Ready (start setting world) ∧ (start (S := S) setting world).positions = [some 0]
  := by
  have hreader : reliable.ReadyAt 0 (Reader.startAt setting 0) :=
    Reader.readyAt_startAt hlaid (Nat.zero_le _)
  have hpos : (Reader.startAt setting 0).position = 0 := congrArg Cursor.pos hreader.cursor_eq
  constructor
  · constructor
    · intro reader hmem
      cases List.mem_singleton.mp hmem
      rwa [hpos]
    · use hworld
      intro i h r hi
      simp [start, Feed.start, List.getElem?_replicate] at hi
  · simp [start, positions, hpos]

/-- Over a reliable supply a family of readers delivers the content of a piece that was built,
whatever its members are told to read, to move to, to copy and to close. -/
theorem run_delivers_content {plan : Plan} {world : W} {commands : List (Nat × Command)}
    (reliable : setting.supply.Reliable setting.piece store)
    (hbuild : plan.build = .ok setting.piece) (hheld : setting.piece.HeldIn store)
    (hworld : reliable.Sound world)
    (hcommands : ∀ c ∈ commands, c.2.Within setting.piece.size) :
  (setting.piece.content store).length = setting.piece.size
    ∧ DeliversAll (setting.piece.content store) [some 0] commands
        ((start setting world).runAll setting commands).1
        ((start setting world).runAll setting commands).2.positions
  := by
  have hlaid := Plan.laid_of_build hbuild
  obtain ⟨hready, hpositions⟩ := ready_start hlaid hworld
  use Piece.length_content hlaid hheld
  rw [← hpositions]
  apply (deliversAll_runAll hlaid hheld hready hcommands).1

/-- Two readers of a piece over one item: the first passes over a gap and then opens the item
anew, the second is a copy that starts within a payload.  The streams are cut short, delayed and
interrupted, also while the gap is passed over. -/
theorem run_delivers_content_two_readers :
  let item : Item := ⟨⟨1⟩, "a", 7⟩
  let data : Bytes := [10, 11, 12, 13, 14, 15, 16]
  let plan : Plan :=
    ⟨[1, 2], 11,
      [.item 2 [7] [8] ⟨0⟩ item 0 2, .item 6 [] [] ⟨0⟩ item 5 2, .item 8 [] [] ⟨0⟩ item 1 1,
        .inline 9 [] [] [5, 6]]⟩
  let run : ItemRun :=
    ⟨⟨0⟩, item, ⟨⟨2, [7], [8]⟩, 0, 2⟩, [⟨⟨6, [], []⟩, 5, 2⟩, ⟨⟨8, [], []⟩, 1, 1⟩]⟩
  let interruption : IoError := ⟨.interrupted, "interrupted"⟩
  let turns : List ReadTurn :=
    [.atMost 1, .fail interruption, .pending, .atMost 1, .fail interruption]
  let registry : Registry ScriptedSource :=
    ⟨[(⟨0⟩, ⟨.memory ⟨[("a", data)]⟩, [none], [.proceed turns]⟩)]⟩
  let setting : Setting (Registry ScriptedSource) SourceId ScriptedStream :=
    ⟨Registry.supply, ⟨[1, 2], 11, [.run run, .inline ⟨⟨9, [], []⟩, [5, 6]⟩]⟩, .standard, .blocking⟩
  let content : Bytes := [1, 2, 7, 8, 10, 11, 15, 16, 11, 5, 6]
  let commands : List (Nat × Command) :=
    [(0, .read 9), (0, .read 9), (0, .read 9), (0, .copy 5), (1, .read 1), (0, .read 9),
      (0, .close), (1, .moveTo 11), (1, .read 1)]
  plan.build = .ok setting.piece ∧ setting.piece.content (fun _ _ => data) = content
    ∧ DeliversAll content [some 0] commands ((start setting registry).runAll setting commands).1
        ((start setting registry).runAll setting commands).2.positions
  := by
  intro item data plan run interruption turns registry setting content commands
  have hturns : ∀ turn ∈ turns, turn.IsHarmless := by
    simp [turns, interruption, ReadTurn.IsHarmless, IoError.isInterruption]
  have hheld : setting.piece.HeldIn fun _ _ => data := by
    intro r hr e he _
    have hr : r = run := by simpa [setting] using hr
    subst hr
    simp only [run, ItemRun.entries, List.mem_cons, List.not_mem_nil, or_false] at he
    rcases he with rfl | rfl | rfl <;> decide
  have hworld : registry.Serves setting.piece fun _ _ => data := by
    intro r hr
    have hr : r = run := by simpa [setting] using hr
    subst hr
    refine ⟨_, rfl, ⟨by simp, ?_⟩, MemorySource.holds rfl⟩
    simpa [OpenTurn.IsHarmless] using hturns
  have hcommands : ∀ c ∈ commands, c.2.Within setting.piece.size := by
    simp [commands, Command.Within, setting]
  have hbuild : plan.build = .ok setting.piece := rfl
  refine ⟨hbuild, rfl, ?_⟩
  apply (run_delivers_content (Registry.reliable _ _) hbuild hheld hworld hcommands).2

end Family

end PieceStream
