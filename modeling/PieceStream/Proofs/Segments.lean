import Mathlib.Tactic.Use
import PieceStream.Proofs.Walk

/-!
# Segments

Every offset of a piece is a byte in memory or a byte of the payload of a run entry.  A settled
cursor tells which: it stands on a payload exactly where the piece has a payload byte, and on bytes
in memory up to the end of their field otherwise.  None of this depends on what the items hold.
-/

namespace PieceStream

variable {piece : Piece} {pos : Nat} {span span' : PayloadRest} {bs : Bytes}

/-! ### Tilings -/

/-- The member that holds an offset is the first one not passed. -/
theorem Tiled.passed_eq {α : Type} {start stop : α → Nat} {a b i : Nat} {l : List α} {x : α}
    (h : Tiled start stop a b l) (hx : l[i]? = some x) (hstart : start x ≤ pos)
    (hstop : pos < stop x) :
  passed stop pos l = i
  := by
  induction l generalizing a i with
  | nil => cases hx
  | cons y ys ih =>
      obtain ⟨-, -, hys⟩ := h
      cases i with
      | zero =>
          cases hx
          apply passed_cons_of_lt hstop
      | succ i =>
          have hle := (hys.bounds (List.mem_of_getElem? hx)).1
          rw [passed_cons_of_le (Nat.le_trans hle hstart), ih hys hx]

/-- A member ends before those behind it start. -/
theorem Tiled.stop_le_start {α : Type} {start stop : α → Nat} {a b i : Nat} {l : List α} {x y : α}
    (h : Tiled start stop a b l) (hx : l[i]? = some x) (hy : y ∈ l.drop (i + 1)) :
  stop x ≤ start y
  := by
  induction l generalizing a i with
  | nil => cases hx
  | cons z zs ih =>
      obtain ⟨-, -, hzs⟩ := h
      cases i with
      | zero =>
          cases hx
          apply (hzs.bounds hy).1
      | succ i => apply ih hzs hx hy

/-! ### Payload bytes -/

/-- The byte at `pos` is the first of the rest of a payload. -/
structure PayloadRest.At (span : PayloadRest) (piece : Piece) (pos : Nat) : Prop where
  run_eq : piece.blocks[span.block]? = some (.run span.run)
  exists_entry : ∃ e, span.run.entries[span.entry]? = some e
    ∧ e.payloadOffset ≤ pos ∧ pos < e.endOffset
    ∧ span.itemOffset = e.itemOffset + (pos - e.payloadOffset)
    ∧ span.remaining = e.endOffset - pos

/-- There is no payload byte of an item between two offsets. -/
def Piece.ClearBetween (piece : Piece) (pos stop : Nat) : Prop :=
  ∀ q, pos ≤ q → q < stop → ∀ span : PayloadRest, ¬ span.At piece q

/-- The rest of a payload after its first `n` bytes. -/
def PayloadRest.skip (span : PayloadRest) (n : Nat) : PayloadRest :=
  { span with itemOffset := span.itemOffset + n, remaining := span.remaining - n }

/-- Where an entry ends, in terms of its payload. -/
theorem RunEntry.endOffset_eq {e : RunEntry} :
  e.endOffset = e.payloadOffset + e.itemLength
  := rfl

/-- The framing of an entry comes before its payload. -/
theorem Framing.pieceOffset_le {f : Framing} :
  f.pieceOffset ≤ f.payloadOffset
  := Nat.le_trans (Nat.le_add_right _ _) (Nat.le_add_right _ _)

namespace PayloadRest.At

/-- The rest of a payload has a byte. -/
theorem remaining_pos (h : span.At piece pos) :
  0 < span.remaining
  := by
  obtain ⟨e, -, -, hend, -, hremaining⟩ := h.exists_entry
  omega

/-- The payload goes on to its end. -/
theorem skip {n : Nat} (h : span.At piece pos) (hn : n < span.remaining) :
  (span.skip n).At piece (pos + n)
  := by
  obtain ⟨e, he, hstart, hend, hoffset, hremaining⟩ := h.exists_entry
  use h.run_eq, e, he
  simp only [PayloadRest.skip]
  omega

/-- The rest of a payload ends where its entry ends. -/
theorem offset_add_remaining (h : span.At piece pos) :
  ∃ e ∈ span.run.entries.drop span.entry, span.itemOffset + span.remaining = e.itemEnd
    ∧ pos + span.remaining = e.endOffset
  := by
  obtain ⟨e, he, hstart, hend, hoffset, hremaining⟩ := h.exists_entry
  refine ⟨e, ?_, ?_, by omega⟩
  · rw [List.mem_iff_getElem?]
    use 0
    rw [List.getElem?_drop, Nat.add_zero, he]
  · rw [RunEntry.endOffset_eq] at hremaining hend
    rw [RunEntry.itemEnd]
    omega

/-- The bytes of the rest are needed by its entry. -/
theorem need_le (h : span.At piece pos) :
  span.itemOffset + span.remaining ≤ span.run.furthestNeed span.entry
  := by
  obtain ⟨e, he, hsum, -⟩ := h.offset_add_remaining
  rw [hsum]
  apply ItemRun.furthestNeed_le_iff.mp (Nat.le_refl _) e he

/-- The rest of a payload lies within the piece. -/
theorem le_size (hlaid : piece.Laid) (h : span.At piece pos) :
  pos + span.remaining ≤ piece.size
  := by
  obtain ⟨e, he, -, hsum⟩ := h.offset_add_remaining
  have hr := List.mem_of_getElem? h.run_eq
  have hrun := (hlaid.blocks_tiled.bounds hr).2.2
  have hentry := ((hlaid.entries_tiled hr).bounds (List.mem_of_mem_drop he)).2.2
  rw [hsum]
  apply Nat.le_trans hentry hrun

/-- A payload byte stands behind the header. -/
theorem header_le (hlaid : piece.Laid) (h : span.At piece pos) :
  piece.header.length ≤ pos
  := by
  obtain ⟨e, he, hstart, -⟩ := h.exists_entry
  have hr := List.mem_of_getElem? h.run_eq
  have hrun := (hlaid.blocks_tiled.bounds hr).1
  have hentry := ((hlaid.entries_tiled hr).bounds (List.mem_of_getElem? he)).1
  have hframing := e.toFraming.pieceOffset_le
  exact Nat.le_trans hrun (Nat.le_trans hentry (Nat.le_trans hframing hstart))

/-- The settled cursor stands in the block and at the entry of a payload byte. -/
theorem settled_eq (hlaid : piece.Laid) (h : span.At piece pos) :
  Cursor.settled piece pos = ⟨pos, span.block, span.entry⟩
  := by
  obtain ⟨e, he, hstart, hend, -⟩ := h.exists_entry
  have hr := List.mem_of_getElem? h.run_eq
  have htiled := hlaid.entries_tiled hr
  have hbounds := htiled.bounds (List.mem_of_getElem? he)
  have hestart := Nat.le_trans e.toFraming.pieceOffset_le hstart
  have hrstart : (Block.run span.run).pieceOffset ≤ pos := Nat.le_trans hbounds.1 hestart
  have hrend : pos < (Block.run span.run).endOffset := Nat.lt_of_lt_of_le hend hbounds.2.2
  have hblock : (Cursor.settled piece pos).block = span.block :=
    hlaid.blocks_tiled.passed_eq h.run_eq hrstart hrend
  have hentry : (Cursor.settled piece pos).entry = span.entry := by
    rw [Cursor.entry_settled (by rw [hblock]; apply h.run_eq)]
    apply htiled.passed_eq he hestart hend
  rw [← hblock, ← hentry]
  rfl

end PayloadRest.At

/-! ### Bytes in memory -/

namespace Framing

variable {f : Framing}

/-- The framing is in memory exactly where it lies. -/
theorem bytesAt?_eq_none_iff :
  f.bytesAt? pos = none ↔ pos < f.pieceOffset ∨ f.payloadOffset ≤ pos
  := by
  rw [bytesAt?]
  split
  · next h => simp [h]
  · next h => split <;> simp [h]

/-- What is in memory of the framing goes on to the end of its field, which lies in the framing. -/
theorem bytesAt?_add {n : Nat} (h : f.bytesAt? pos = some bs) :
  pos + bs.length ≤ f.payloadOffset ∧ (n < bs.length → f.bytesAt? (pos + n) = some (bs.drop n))
  := by
  rw [bytesAt?] at h
  split at h
  · cases h
  · next hout =>
    split at h
    · next hlt =>
      cases h
      rw [List.length_drop]
      simp only [payloadOffset, identifierOffset] at hout hlt ⊢
      refine ⟨by omega, fun hn => ?_⟩
      rw [bytesAt?, if_neg (by simp only [payloadOffset, identifierOffset]; omega),
        if_pos (by simp only [identifierOffset]; omega), List.drop_drop]
      congr 2
      omega
    · next hge =>
      cases h
      rw [List.length_drop]
      simp only [payloadOffset, identifierOffset] at hout hge ⊢
      refine ⟨by omega, fun hn => ?_⟩
      rw [bytesAt?, if_neg (by simp only [payloadOffset, identifierOffset]; omega),
        if_neg (by simp only [identifierOffset]; omega), List.drop_drop]
      congr 2
      simp only [identifierOffset]
      omega

/-- What is in memory of the framing is at an offset of the framing. -/
theorem bounds_of_bytesAt? (h : f.bytesAt? pos = some bs) :
  f.pieceOffset ≤ pos ∧ pos < f.payloadOffset
  := by
  have hne : f.bytesAt? pos ≠ none := by
    rw [h]
    apply Option.some_ne_none
  have hout := mt bytesAt?_eq_none_iff.mpr hne
  omega

end Framing

/-- What is in memory of an inline block goes on to the end of its field, which lies in the
block. -/
theorem InlineBlock.bytesAt?_add {b : InlineBlock} {n : Nat} (h : b.bytesAt? pos = some bs) :
  pos + bs.length ≤ b.endOffset ∧ (n < bs.length → b.bytesAt? (pos + n) = some (bs.drop n))
  := by
  have hend : b.endOffset = b.payloadOffset + b.payload.length := rfl
  rw [bytesAt?] at h
  split at h
  · next framing hframing =>
    cases h
    obtain ⟨hle, hadd⟩ := Framing.bytesAt?_add (n := n) hframing
    refine ⟨by omega, fun hn => ?_⟩
    rw [bytesAt?, hadd hn]
  · next hframing =>
    split at h
    · next hpos =>
      cases h
      rw [List.length_drop]
      refine ⟨by omega, fun hn => ?_⟩
      have hnone : b.toFraming.bytesAt? (pos + n) = none := by
        apply Framing.bytesAt?_eq_none_iff.mpr
        omega
      have hskip : pos + n - b.payloadOffset = pos - b.payloadOffset + n := by omega
      simp only [bytesAt?, hnone]
      rw [if_pos (by omega), List.drop_drop, hskip]
    · cases h

/-! ### What a settled cursor stands on -/

/-- What a piece goes on with at an offset. -/
inductive Segment.StandsAt (piece : Piece) (pos : Nat) : Segment → Prop
  | header (h : pos < piece.header.length) : StandsAt piece pos (.bytes (piece.header.drop pos))
  | inline {i : Nat} {b : InlineBlock} {bs : Bytes} (hb : piece.blocks[i]? = some (.inline b))
      (hstart : b.pieceOffset ≤ pos) (hend : pos < b.endOffset) (h : b.bytesAt? pos = some bs) :
      StandsAt piece pos (.bytes bs)
  | framing {i k : Nat} {r : ItemRun} {e : RunEntry} {bs : Bytes}
      (hr : piece.blocks[i]? = some (.run r)) (he : r.entries[k]? = some e)
      (h : e.toFraming.bytesAt? pos = some bs) : StandsAt piece pos (.bytes bs)
  | payload {span : PayloadRest} (h : span.At piece pos) : StandsAt piece pos (.payload span)
  | finish (h : pos = piece.size) : StandsAt piece pos .finish

namespace Cursor

/-- A settled cursor stands on something that the piece goes on with. -/
theorem standsAt_segment (hlaid : piece.Laid) (hpos : pos ≤ piece.size) :
  ((settled piece pos).segment piece).StandsAt piece pos
  := by
  rw [segment]
  split
  · next hlt => exact .header hlt
  · next hheader =>
    have hheader : piece.header.length ≤ pos := Nat.le_of_not_lt hheader
    rcases Nat.lt_or_eq_of_le hpos with hlt | rfl
    · obtain ⟨block, hblock, hstart, hend⟩ := hlaid.blocks_tiled.exists_getElem?_passed hheader hlt
      have hblock : piece.blocks[(settled piece pos).block]? = some block := hblock
      rw [hblock]
      cases block with
      | inline b =>
          obtain ⟨bs, hbs, -⟩ := InlineBlock.exists_bytesAt? hstart hend
          have hsettled : b.bytesAt? (settled piece pos).pos = some bs := hbs
          simp only [hsettled]
          exact .inline hblock hstart hend hbs
      | run r =>
          obtain ⟨e, he, hestart, heend⟩ :=
            (hlaid.entries_tiled (List.mem_of_getElem? hblock)).exists_getElem?_passed hstart hend
          rw [← entry_settled hblock] at he
          simp only [he]
          split
          · next framing hframing => exact .framing hblock he hframing
          · next hframing =>
            rcases Framing.bytesAt?_eq_none_iff.mp hframing with hbefore | hbehind
            · exact absurd hestart (Nat.not_le_of_lt hbefore)
            · exact .payload ⟨hblock, e, he, hbehind, heend, rfl, rfl⟩
    · rw [settled_size hlaid]
      simp only [List.getElem?_eq_none (Nat.le_refl _)]
      exact .finish rfl

/-- A piece goes on with one thing only, and the settled cursor stands on it. -/
theorem segment_eq_iff {s : Segment} (hlaid : piece.Laid) (hpos : pos ≤ piece.size) :
  (settled piece pos).segment piece = s ↔ s.StandsAt piece pos
  := by
  constructor
  · rintro rfl
    apply standsAt_segment hlaid hpos
  · intro h
    cases h with
    | header h =>
        have h : (settled piece pos).pos < piece.header.length := h
        rw [segment, if_pos h]
        rfl
    | @inline i b bs hb hstart hend h =>
        have hheader := (hlaid.blocks_tiled.bounds (List.mem_of_getElem? hb)).1
        have hblock : (settled piece pos).block = i := hlaid.blocks_tiled.passed_eq hb hstart hend
        have hle : ¬ (settled piece pos).pos < piece.header.length :=
          Nat.not_lt_of_le (Nat.le_trans hheader hstart)
        have hbs : b.bytesAt? (settled piece pos).pos = some bs := h
        simp only [segment, hle, if_false, hblock, hb, hbs]
    | @framing i k r e bs hr he h =>
        have hmem := List.mem_of_getElem? hr
        have hbounds := hlaid.blocks_tiled.bounds hmem
        have hebounds := (hlaid.entries_tiled hmem).bounds (List.mem_of_getElem? he)
        obtain ⟨hestart, hpayload⟩ := Framing.bounds_of_bytesAt? h
        have heend : pos < e.endOffset := Nat.lt_of_lt_of_le hpayload (Nat.le_add_right _ _)
        have hstart : (Block.run r).pieceOffset ≤ pos := Nat.le_trans hebounds.1 hestart
        have hend : pos < (Block.run r).endOffset := Nat.lt_of_lt_of_le heend hebounds.2.2
        have hblock : (settled piece pos).block = i := hlaid.blocks_tiled.passed_eq hr hstart hend
        have hentry : (settled piece pos).entry = k := by
          rw [entry_settled (by rw [hblock]; apply hr)]
          apply (hlaid.entries_tiled hmem).passed_eq he hestart heend
        have hle : ¬ (settled piece pos).pos < piece.header.length :=
          Nat.not_lt_of_le (Nat.le_trans hbounds.1 hstart)
        have hbs : e.toFraming.bytesAt? (settled piece pos).pos = some bs := h
        simp only [segment, hle, if_false, hblock, hr, hentry, he, hbs]
    | @payload span h =>
        obtain ⟨e, he, hstart, hend, hoffset, hremaining⟩ := h.exists_entry
        have hnone : e.toFraming.bytesAt? pos = none :=
          Framing.bytesAt?_eq_none_iff.mpr (.inr hstart)
        rw [h.settled_eq hlaid]
        simp only [segment, Nat.not_lt_of_le (h.header_le hlaid), if_false, h.run_eq, he, hnone,
          ← hoffset, ← hremaining]
    | finish h =>
        subst h
        have hle : ¬ piece.size < piece.header.length := Nat.not_lt_of_le hlaid.blocks_tiled.le
        rw [settled_size hlaid]
        simp only [segment, hle, if_false, List.getElem?_eq_none (Nat.le_refl _)]

/-- A settled cursor stands on a payload exactly where the piece has a payload byte. -/
theorem segment_eq_payload_iff (hlaid : piece.Laid) (hpos : pos ≤ piece.size) :
  (settled piece pos).segment piece = .payload span ↔ span.At piece pos
  := by
  rw [segment_eq_iff hlaid hpos]
  constructor
  · rintro ⟨h⟩
    assumption
  · exact .payload

/-- There is one rest of a payload at most at an offset. -/
theorem eq_of_at (hlaid : piece.Laid) (h : span.At piece pos) (h' : span'.At piece pos) :
  span = span'
  := by
  have hpos : pos ≤ piece.size := Nat.le_trans (Nat.le_add_right _ _) (h.le_size hlaid)
  rw [← segment_eq_payload_iff hlaid hpos] at h h'
  rw [h] at h'
  cases h'
  rfl

/-- A settled cursor stands on the end exactly at the end. -/
theorem segment_eq_finish_iff (hlaid : piece.Laid) (hpos : pos ≤ piece.size) :
  (settled piece pos).segment piece = .finish ↔ pos = piece.size
  := by
  rw [segment_eq_iff hlaid hpos]
  constructor
  · rintro ⟨h⟩
    assumption
  · exact .finish

/-- Bytes in memory lie within the piece, and further on a settled cursor stands on their rest. -/
theorem segment_add (hlaid : piece.Laid) (hpos : pos ≤ piece.size)
    (h : (settled piece pos).segment piece = .bytes bs) :
  pos + bs.length ≤ piece.size
    ∧ ∀ n < bs.length, (settled piece (pos + n)).segment piece = .bytes (bs.drop n)
  := by
  have hstands := (segment_eq_iff hlaid hpos).mp h
  suffices hadd : pos + bs.length ≤ piece.size
      ∧ ∀ n < bs.length, (Segment.bytes (bs.drop n)).StandsAt piece (pos + n) by
    use hadd.1
    intro n hn
    apply (segment_eq_iff hlaid (Nat.le_trans (Nat.add_le_add_left (Nat.le_of_lt hn) _) hadd.1)).mpr
    apply hadd.2 n hn
  cases hstands with
  | header hlt =>
      have hle := hlaid.blocks_tiled.le
      rw [List.length_drop]
      refine ⟨by omega, fun n hn => ?_⟩
      rw [List.drop_drop]
      apply Segment.StandsAt.header
      omega
  | @inline i b bs hb hstart hend hbs =>
      have hbounds := (hlaid.blocks_tiled.bounds (List.mem_of_getElem? hb)).2.2
      have hle := (InlineBlock.bytesAt?_add (n := 0) hbs).1
      refine ⟨Nat.le_trans hle hbounds, fun n hn => ?_⟩
      apply Segment.StandsAt.inline hb (Nat.le_add_right_of_le hstart)
      · apply Nat.lt_of_lt_of_le (Nat.add_lt_add_left hn _) hle
      · apply (InlineBlock.bytesAt?_add hbs).2 hn
  | @framing i k r e bs hr he hbs =>
      have hmem := List.mem_of_getElem? hr
      have hbounds := (hlaid.blocks_tiled.bounds hmem).2.2
      have hebounds := ((hlaid.entries_tiled hmem).bounds (List.mem_of_getElem? he)).2.2
      have hle := (Framing.bytesAt?_add (n := 0) hbs).1
      have hpayload : e.payloadOffset ≤ e.endOffset := Nat.le_add_right _ _
      refine ⟨?_, fun n hn => ?_⟩
      · apply Nat.le_trans hle (Nat.le_trans hpayload (Nat.le_trans hebounds hbounds))
      · apply Segment.StandsAt.framing hr he ((Framing.bytesAt?_add hbs).2 hn)

/-- Where bytes are in memory there is no payload byte. -/
theorem not_at_of_segment {n : Nat} (hlaid : piece.Laid) (hpos : pos ≤ piece.size)
    (h : (settled piece pos).segment piece = .bytes bs) (hn : n < bs.length) :
  ¬ span.At piece (pos + n)
  := by
  obtain ⟨hle, hadd⟩ := segment_add hlaid hpos h
  have hpos' : pos + n ≤ piece.size := Nat.le_trans (Nat.add_le_add_left (Nat.le_of_lt hn) _) hle
  rw [← segment_eq_payload_iff hlaid hpos', hadd n hn]
  intro heq
  cases heq

/-- While bytes in memory are passed there is no payload byte. -/
theorem clearBetween_of_segment (hlaid : piece.Laid) (hpos : pos ≤ piece.size)
    (h : (settled piece pos).segment piece = .bytes bs) {n : Nat} (hn : n ≤ bs.length) :
  piece.ClearBetween pos (pos + n)
  := by
  intro q hle hlt span
  rw [← Nat.add_sub_of_le hle]
  apply not_at_of_segment hlaid hpos h
  omega

end Cursor

end PieceStream
