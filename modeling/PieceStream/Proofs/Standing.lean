import PieceStream.Proofs.Steps
import PieceStream.Proofs.Traffic

/-!
# Where readers stand

Over any supply, whatever it answers, the cursor of a reader is settled, and a stream that the
reader holds was opened for the run in which the reader stands.  To fill a buffer is to pass bytes
in memory and then, unless the buffer is full or the piece is at its end, to ask once for the
payload that comes next.
-/

namespace PieceStream

variable {W H S : Type}

/-- The first payload byte of an item at or after `pos` is at `stop` and the first of `span`. -/
structure Piece.NextPayload (piece : Piece) (pos stop : Nat) (span : PayloadRest) : Prop where
  le : pos ≤ stop
  clear : piece.ClearBetween pos stop
  at_stop : span.At piece stop

namespace Reader

/-- The reader stands at `pos`, and a stream that it holds was opened for the run in which it
stands. -/
structure StandsAt (piece : Piece) (pos : Nat) (reader : Reader S) : Prop where
  cursor_eq : reader.cursor = Cursor.settled piece pos
  le_size : pos ≤ piece.size
  block_eq : ∀ item, reader.held = some item → item.block = (Cursor.settled piece pos).block
  exists_run : reader.held ≠ none →
    ∃ r, piece.blocks[(Cursor.settled piece pos).block]? = some (.run r)

/-- From `pos` on the reader has passed bytes in memory.  It has given up the stream that it held
exactly if it has left the run that the stream was opened for. -/
structure Passes (piece : Piece) (pos : Nat) (reader : Reader S) (feed : Feed W H) (copied : Bytes)
    (reader' : Reader S) (feed' : Feed W H) : Prop where
  standsAt : reader'.StandsAt piece (pos + copied.length)
  clear : piece.ClearBetween pos (pos + copied.length)
  poisoned_eq : reader'.poisoned = reader.poisoned
  held : (reader'.held = reader.held ∧ feed' = feed)
    ∨ ∃ item, reader.held = some item ∧ reader'.held = none ∧ feed' = feed.release item
        ∧ item.block < (Cursor.settled piece (pos + copied.length)).block

/-- To fill a buffer is to hand out bytes in memory, one field after the other, until the buffer is
full or the cursor stands on a payload or at the end.  `filled` is what the buffer holds already. -/
structure Fills (setting : Setting W H S)
    (fill : Bytes → Nat → Reader S → Feed W H → Except ReadError Bytes × Reader S × Feed W H) :
    Prop where
  full {filled : Bytes} {reader : Reader S} {feed : Feed W H} :
    fill filled 0 reader feed = (.ok filled, reader, feed)
  finish {filled : Bytes} {room : Nat} {reader : Reader S} {feed : Feed W H} :
    reader.cursor.segment setting.piece = .finish →
    fill filled room reader feed = (.ok filled, reader, feed)
  bytes {filled : Bytes} {room : Nat} {reader : Reader S} {feed : Feed W H} {available : Bytes} :
    0 < room → reader.cursor.segment setting.piece = .bytes available →
    fill filled room reader feed
      = fill (filled ++ available.take room) (room - (available.take room).length)
          (reader.advance setting (available.take room).length feed).1
          (reader.advance setting (available.take room).length feed).2

/-- Gathers bytes behind those that the buffer holds already. -/
def gatherAfter (setting : Setting W H S) (filled : Bytes) (room : Nat) (reader : Reader S)
    (feed : Feed W H) : Except ReadError Bytes × Reader S × Feed W H :=
  let (outcome, reader, feed) := reader.gather setting room feed
  (outcome.map (filled ++ ·), reader, feed)

variable {setting : Setting W H S} {piece : Piece} {pos room : Nat} {reader reader' : Reader S}
  {feed feed' : Feed W H} {span : PayloadRest} {copied : Bytes}

/-! ### What readers keep -/

/-- Without a stream a reader stands where its cursor is settled. -/
theorem standsAt_of_held_eq_none (hcursor : reader.cursor = Cursor.settled piece pos)
    (hpos : pos ≤ piece.size) (hheld : reader.held = none) :
  reader.StandsAt piece pos
  := by
  constructor
  case cursor_eq => apply hcursor
  case le_size => apply hpos
  case block_eq => simp [hheld]
  case exists_run => simp [hheld]

/-- The position of a reader is where it stands. -/
theorem StandsAt.position_eq (h : reader.StandsAt piece pos) :
  reader.position = pos
  := congrArg Cursor.pos h.cursor_eq

/-- A reader at an offset of the piece stands there. -/
theorem standsAt_startAt (hlaid : setting.piece.Laid) (hpos : pos ≤ setting.piece.size) :
  (startAt setting pos : Reader S).StandsAt setting.piece pos
  := standsAt_of_held_eq_none (Cursor.locate_eq hlaid hpos) hpos rfl

/-- A reader that gives its stream up stays where it stands. -/
theorem standsAt_release (h : reader.StandsAt piece pos) (feed : Feed W H) :
  (reader.release feed).1.StandsAt piece pos
  := by
  rw [release_fst]
  exact standsAt_of_held_eq_none h.cursor_eq h.le_size rfl

/-- Within the piece a reader that goes forward stands there and keeps its stream or gives it up. -/
theorem standsAt_advance {n : Nat} (hlaid : setting.piece.Laid)
    (h : reader.StandsAt setting.piece pos) (hn : pos + n ≤ setting.piece.size) (feed : Feed W H) :
  (reader.advance setting n feed).1.StandsAt setting.piece (pos + n)
    ∧ (reader.advance setting n feed).1.poisoned = reader.poisoned
    ∧ (((reader.advance setting n feed).1.held = reader.held
          ∧ (reader.advance setting n feed).2 = feed)
      ∨ ∃ item, reader.held = some item ∧ (reader.advance setting n feed).1.held = none
          ∧ (reader.advance setting n feed).2 = feed.release item
          ∧ item.block < (Cursor.settled setting.piece (pos + n)).block)
  := by
  obtain ⟨hcursor, hpoisoned, hstay, hleave⟩ :=
    held_of_advance setting n feed hlaid h.cursor_eq h.exists_run
  have hmono : (Cursor.settled setting.piece pos).block
      ≤ (Cursor.settled setting.piece (pos + n)).block := passed_mono (Nat.le_add_right _ _)
  have hkeep (hsame : (Cursor.settled setting.piece (pos + n)).block
      = (Cursor.settled setting.piece pos).block) :
      (reader.advance setting n feed).1.StandsAt setting.piece (pos + n) := by
    refine ⟨hcursor, hn, fun item hitem => ?_, fun hne => ?_⟩
    · rw [hstay hsame] at hitem
      rw [hsame, h.block_eq item hitem]
    · rw [hstay hsame] at hne
      rw [hsame]
      apply h.exists_run hne
  by_cases hsame : (Cursor.settled setting.piece (pos + n)).block
      = (Cursor.settled setting.piece pos).block
  · refine ⟨hkeep hsame, hpoisoned, .inl ⟨hstay hsame, ?_⟩⟩
    cases hleft : ((Cursor.settled setting.piece pos).advance setting.piece n).2 with
    | true => exact absurd hsame (Cursor.block_ne_of_advance hlaid hleft)
    | false => simp [advance, h.cursor_eq, hleft]
  · have hnone := hleave hsame
    refine ⟨standsAt_of_held_eq_none hcursor hn hnone, hpoisoned, ?_⟩
    cases hitem : reader.held with
    | none =>
        refine .inl ⟨hnone, ?_⟩
        simp only [advance, release, hitem]
        split <;> rfl
    | some item =>
        refine .inr ⟨item, rfl, hnone, ?_, ?_⟩
        · cases hleft : ((Cursor.settled setting.piece pos).advance setting.piece n).2 with
          | true => simp [advance, h.cursor_eq, hleft, release, hitem]
          | false =>
              obtain ⟨r, hr⟩ := h.exists_run (by simp [hitem])
              exact absurd (Cursor.block_eq_of_advance hlaid hr hleft) hsame
        · rw [h.block_eq item hitem]
          omega

/-! ### Filling a buffer -/

/-- Behind nothing, bytes are gathered as by themselves. -/
theorem gatherAfter_nil :
  gatherAfter setting [] room reader feed = reader.gather setting room feed
  := by
  rw [gatherAfter]
  rcases reader.gather setting room feed with ⟨_ | bytes, reader', feed'⟩ <;> rfl

/-- A reader that has passed nothing is as it was. -/
theorem passes_nil (h : reader.StandsAt piece pos) :
  reader.Passes piece pos feed [] reader feed
  := ⟨h, fun _ hle hlt => absurd hlt (Nat.not_lt_of_le hle), rfl, .inl ⟨rfl, rfl⟩⟩

/-- Bytes in memory are passed one field after the other. -/
theorem Passes.trans {more : Bytes} {reader'' : Reader S} {feed'' : Feed W H}
    (h : reader.Passes piece pos feed copied reader' feed')
    (h' : reader'.Passes piece (pos + copied.length) feed' more reader'' feed'') :
  reader.Passes piece pos feed (copied ++ more) reader'' feed''
  := by
  have hlength : pos + (copied ++ more).length = pos + copied.length + more.length := by
    rw [List.length_append, Nat.add_assoc]
  have hmono : (Cursor.settled piece (pos + copied.length)).block
      ≤ (Cursor.settled piece (pos + copied.length + more.length)).block :=
    passed_mono (Nat.le_add_right _ _)
  constructor
  case standsAt =>
      rw [hlength]
      apply h'.standsAt
  case clear =>
      rw [hlength]
      intro q hle hlt
      rcases Nat.lt_or_ge q (pos + copied.length) with hbefore | hbehind
      · apply h.clear q hle hbefore
      · apply h'.clear q hbehind hlt
  case poisoned_eq => rw [h'.poisoned_eq, h.poisoned_eq]
  case held =>
      rw [hlength]
      rcases h.held with ⟨hheld, rfl⟩ | ⟨item, hitem, hheld, rfl, hlt⟩
      · rw [← hheld]
        apply h'.held
      · right
        rcases h'.held with ⟨hheld', rfl⟩ | ⟨item', hitem', -⟩
        · refine ⟨item, hitem, hheld'.trans hheld, rfl, Nat.lt_of_lt_of_le hlt hmono⟩
        · rw [hheld] at hitem'
          cases hitem'

/-- However a buffer is filled, it passes bytes in memory.  Where the buffer is not full then and
the piece not at its end, what is left is to fill the rest of the buffer from a payload on. -/
theorem Fills.cases
    {fill : Bytes → Nat → Reader S → Feed W H → Except ReadError Bytes × Reader S × Feed W H}
    (hfill : Fills setting fill) (hlaid : setting.piece.Laid) (filled : Bytes) (room : Nat)
    (h : reader.StandsAt setting.piece pos) (feed : Feed W H) :
  ∃ copied reader' feed', reader.Passes setting.piece pos feed copied reader' feed'
    ∧ ((copied.length ≤ room ∧ (copied.length = room ∨ pos + copied.length = setting.piece.size)
        ∧ fill filled room reader feed = (.ok (filled ++ copied), reader', feed'))
      ∨ ∃ span, span.At setting.piece (pos + copied.length) ∧ copied.length < room
          ∧ reader'.cursor.segment setting.piece = .payload span
          ∧ fill filled room reader feed
            = fill (filled ++ copied) (room - copied.length) reader' feed')
  := by
  induction room using Nat.strongRecOn generalizing filled pos reader feed with
  | ind room ih =>
      rcases Nat.eq_zero_or_pos room with rfl | hroom
      · refine ⟨[], reader, feed, passes_nil h, .inl ⟨Nat.le_refl _, .inl rfl, ?_⟩⟩
        rw [hfill.full, List.append_nil]
      · have hstands := Cursor.standsAt_segment hlaid h.le_size
        rw [← h.cursor_eq] at hstands
        cases hseg : reader.cursor.segment setting.piece with
        | finish =>
            rw [hseg] at hstands
            cases hstands with
            | finish hend =>
                refine ⟨[], reader, feed, passes_nil h, .inl ⟨Nat.zero_le _, .inr hend, ?_⟩⟩
                rw [hfill.finish hseg, List.append_nil]
        | bytes available =>
            have hsegment := hseg
            rw [h.cursor_eq] at hsegment
            have hne := List.length_pos_iff.mpr (Cursor.ne_nil_of_segment hseg)
            have hlength : (available.take room).length = min room available.length :=
              List.length_take
            have hsize := (Cursor.segment_add hlaid h.le_size hsegment).1
            have hclear := Cursor.clearBetween_of_segment hlaid h.le_size hsegment
              (Nat.le_trans (Nat.le_of_eq hlength) (Nat.min_le_right _ _))
            obtain ⟨hstands', hpoisoned, hheld⟩ :=
              standsAt_advance hlaid h (n := (available.take room).length) (by omega) feed
            obtain ⟨more, reader', feed', hpasses, hcases⟩ :=
              ih (room - (available.take room).length) (by omega) (filled ++ available.take room)
                hstands' (reader.advance setting (available.take room).length feed).2
            refine ⟨available.take room ++ more, reader', feed',
              Passes.trans ⟨hstands', hclear, hpoisoned, hheld⟩ hpasses, ?_⟩
            rw [hfill.bytes hroom hseg, List.length_append, ← List.append_assoc, ← Nat.add_assoc,
              ← Nat.sub_sub]
            rcases hcases with ⟨hle, hend, hfilled⟩ | ⟨span, hspan, hlt, hpayload, hfilled⟩
            · exact .inl ⟨by omega, by omega, hfilled⟩
            · exact .inr ⟨span, hspan, by omega, hpayload, hfilled⟩
        | payload span =>
            rw [hseg] at hstands
            cases hstands with
            | payload hspan =>
                refine ⟨[], reader, feed, passes_nil h, .inr ⟨span, hspan, hroom, hseg, ?_⟩⟩
                rw [List.append_nil, List.length_nil, Nat.sub_zero]

/-- What going forward preserves, and filling a buffer from a payload on, is preserved however much
of a buffer is filled. -/
theorem Fills.preserves
    {fill : Bytes → Nat → Reader S → Feed W H → Except ReadError Bytes × Reader S × Feed W H}
    (hfill : Fills setting fill) {P : Reader S → Feed W H → Prop}
    (hadvance : ∀ {reader feed} n, P reader feed →
      P (reader.advance setting n feed).1 (reader.advance setting n feed).2)
    (hpayload : ∀ {filled room reader feed span}, 0 < room →
      reader.cursor.segment setting.piece = .payload span → P reader feed →
      P (fill filled room reader feed).2.1 (fill filled room reader feed).2.2)
    (filled : Bytes) (room : Nat) (h : P reader feed) :
  P (fill filled room reader feed).2.1 (fill filled room reader feed).2.2
  := by
  induction room using Nat.strongRecOn generalizing filled reader feed with
  | ind room ih =>
      rcases Nat.eq_zero_or_pos room with rfl | hroom
      · rw [hfill.full]
        apply h
      · cases hseg : reader.cursor.segment setting.piece with
        | finish =>
            rw [hfill.finish hseg]
            apply h
        | bytes available =>
            have hpos : 0 < (available.take room).length := by
              have := List.length_pos_iff.mpr (Cursor.ne_nil_of_segment hseg)
              rw [List.length_take]
              omega
            rw [hfill.bytes hroom hseg]
            apply ih _ (Nat.sub_lt hroom hpos) _ (hadvance _ h)
        | payload span => apply hpayload hroom hseg h

/-- To gather bytes is one way to fill a buffer. -/
theorem fills_gatherAfter (setting : Setting W H S) :
  Fills setting (gatherAfter setting)
  := by
  constructor
  case full =>
      intro filled reader feed
      rw [gatherAfter, gather_zero]
      simp only [Except.map, List.append_nil]
  case finish =>
      intro filled room reader feed hseg
      rw [gatherAfter, gather_of_finish hseg]
      simp only [Except.map, List.append_nil]
  case bytes =>
      intro filled room reader feed available hroom hseg
      rw [gatherAfter, gather_of_bytes hroom hseg, gatherAfter]
      dsimp only
      generalize Reader.gather setting (room - (available.take room).length) _ _ = gathered
      rcases gathered with ⟨_ | bytes, reader', feed'⟩
      · rfl
      · simp only [Except.map, List.append_assoc]

/-- Filling a buffer passes bytes in memory.  Where the buffer is not full then and the piece not at
its end, it asks for the payload that comes next. -/
theorem gather_cases (hlaid : setting.piece.Laid) (room : Nat)
    (h : reader.StandsAt setting.piece pos) (feed : Feed W H) :
  ∃ copied reader' feed', reader.Passes setting.piece pos feed copied reader' feed'
    ∧ ((copied.length ≤ room ∧ (copied.length = room ∨ pos + copied.length = setting.piece.size)
        ∧ reader.gather setting room feed = (.ok copied, reader', feed'))
      ∨ ∃ span, span.At setting.piece (pos + copied.length) ∧ copied.length < room
          ∧ reader.gather setting room feed
            = let (outcome, reader, feed) := reader'.takeIn setting
                (setting.takePayload reader'.held span (room - copied.length) feed')
              (outcome.map (copied ++ ·), reader, feed))
  := by
  obtain ⟨copied, reader', feed', hpasses, hcases⟩ :=
    (fills_gatherAfter setting).cases hlaid [] room h feed
  refine ⟨copied, reader', feed', hpasses, ?_⟩
  rw [gatherAfter_nil, List.nil_append] at hcases
  rcases hcases with hmemory | ⟨span, hspan, hlt, hseg, hgather⟩
  · exact .inl hmemory
  · refine .inr ⟨span, hspan, hlt, ?_⟩
    rw [hgather, gatherAfter, gather_of_payload (Nat.sub_pos_of_lt hlt) hseg]

/-- Payload bytes that are handed out take a reader forward, and the stream that it holds then was
opened for their run. -/
theorem standsAt_takePayload {bytes : Bytes} {held : Option (HeldStream S)}
    (hlaid : setting.piece.Laid) (h : reader.StandsAt setting.piece pos)
    (hspan : span.At setting.piece pos)
    (htake : setting.takePayload reader.held span room feed = (.ok bytes, held, feed')) :
  let next := (({ reader with held := held } : Reader S).advance setting bytes.length feed').1
  bytes.length ≤ room ∧ next.poisoned = reader.poisoned
    ∧ next.StandsAt setting.piece (pos + bytes.length)
  := by
  have hblock : (Cursor.settled setting.piece pos).block = span.block := by
    rw [hspan.settled_eq hlaid]
  have hheld : ∀ item, reader.held = some item → item.block = span.block := by
    intro item hitem
    rw [h.block_eq item hitem, hblock]
  have hlength : bytes.length ≤ min span.remaining room := Setting.length_le_of_askFor htake
  have hsize := hspan.le_size hlaid
  obtain ⟨item, rfl, hitem, -⟩ := Setting.openings_takePayload hheld htake
  have hstands : ({ reader with held := some item } : Reader S).StandsAt setting.piece pos := by
    refine ⟨h.cursor_eq, h.le_size, ?_, fun _ => ?_⟩
    · rintro _ ⟨⟩
      rw [hitem, hblock]
    · rw [hblock]
      exact ⟨_, hspan.run_eq⟩
  obtain ⟨hstands', hpoisoned, -⟩ :=
    standsAt_advance hlaid hstands (n := bytes.length) (by omega) feed'
  exact ⟨Nat.le_trans hlength (Nat.min_le_right _ _), hpoisoned, hstands'⟩

end Reader

/-! ### Families -/

namespace Family

variable {setting : Setting W H S} {family : Family W H S} {reader : Reader S} {feed : Feed W H}

/-- Every member stands somewhere in the piece. -/
def Stands (piece : Piece) (family : Family W H S) : Prop :=
  ∀ reader, some reader ∈ family.members → ∃ pos, reader.StandsAt piece pos

/-- A member stands at its position. -/
theorem Stands.member {piece : Piece} {index : Nat} (h : family.Stands piece)
    (hmember : family.member? index = some reader) :
  reader.StandsAt piece reader.position
  := by
  obtain ⟨pos, hstands⟩ := Every.member h hmember
  rw [hstands.position_eq]
  apply hstands

/-- Members stand somewhere when one of them is replaced by a reader that does. -/
theorem stands_update {piece : Piece} {pos : Nat} (h : family.Stands piece) (index : Nat)
    (hreader : reader.StandsAt piece pos) :
  (family.update index reader feed).Stands piece
  := Every.update h index ⟨pos, hreader⟩ feed

end Family

end PieceStream
