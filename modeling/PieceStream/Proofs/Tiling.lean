import Mathlib.Data.List.TakeWhile
import Mathlib.Tactic.Use
import PieceStream.Bytes.Basic

/-!
# Tilings

The members of a list tile a range of offsets if every one of them starts where the one
before it ends.  An offset of the range then lies within the first member that does not end
at or before it, and what the members stand for, one after the other, continues at the
offset within that member.  Members may be empty.
-/

namespace PieceStream

variable {α : Type} {start stop : α → Nat} {a b pos : Nat} {l : List α} {x : α}

/-- The members lie end to end from `a` to `b`. -/
def Tiled (start stop : α → Nat) : Nat → Nat → List α → Prop
  | a, b, [] => a = b
  | a, b, x :: xs => start x = a ∧ start x ≤ stop x ∧ Tiled start stop (stop x) b xs

/-- The number of members at the front that end at or before `pos`. -/
def passed (stop : α → Nat) (pos : Nat) (l : List α) : Nat :=
  (l.takeWhile (stop · ≤ pos)).length

/-! ### Tilings -/

/-- The end of a tiling is not before its start. -/
theorem Tiled.le (h : Tiled start stop a b l) :
  a ≤ b
  := by
  induction l generalizing a with
  | nil => apply Nat.le_of_eq h
  | cons x xs ih =>
      obtain ⟨hx, hle, hxs⟩ := h
      have := ih hxs
      omega

/-- Two tilings that meet make up a tiling, and a tiling falls into two wherever it is cut. -/
theorem tiled_append {l' : List α} :
  Tiled start stop a b (l ++ l') ↔ ∃ m, Tiled start stop a m l ∧ Tiled start stop m b l'
  := by
  induction l generalizing a with
  | nil =>
      constructor
      · intro h
        use a, rfl, h
      · rintro ⟨m, hm, h⟩
        obtain rfl : a = m := hm
        apply h
  | cons x xs ih =>
      simp only [List.cons_append, Tiled, ih]
      constructor
      · rintro ⟨hx, hle, m, hm, h⟩
        use m, ⟨hx, hle, hm⟩, h
      · rintro ⟨m, ⟨hx, hle, hm⟩, h⟩
        use hx, hle, m, hm, h

/-- Every member lies within the range of the tiling. -/
theorem Tiled.bounds (h : Tiled start stop a b l) (hx : x ∈ l) :
  a ≤ start x ∧ start x ≤ stop x ∧ stop x ≤ b
  := by
  induction l generalizing a with
  | nil => cases hx
  | cons y ys ih =>
      obtain ⟨hy, hle, hys⟩ := h
      cases hx with
      | head =>
          use Nat.le_of_eq hy.symm, hle
          apply hys.le
      | tail _ hx =>
          obtain ⟨hstart, hrest⟩ := ih hys hx
          use by omega

/-! ### Members passed -/

theorem passed_le_length :
  passed stop pos l ≤ l.length
  := (List.takeWhile_prefix _).length_le

/-- A member that ends at or before the offset is passed. -/
theorem passed_cons_of_le (h : stop x ≤ pos) :
  passed stop pos (x :: l) = passed stop pos l + 1
  := by
  simp [passed, h]

/-- A member that reaches beyond the offset is not passed. -/
theorem passed_cons_of_lt (h : pos < stop x) :
  passed stop pos (x :: l) = 0
  := by
  simp [passed, Nat.not_le_of_lt h]

/-- Going forward passes no fewer members. -/
theorem passed_mono {pos' : Nat} (h : pos ≤ pos') :
  passed stop pos l ≤ passed stop pos' l
  := by
  induction l with
  | nil => apply Nat.le_refl
  | cons x xs ih =>
      by_cases hx : stop x ≤ pos
      · rw [passed_cons_of_le hx, passed_cons_of_le (Nat.le_trans hx h)]
        apply Nat.succ_le_succ ih
      · rw [passed_cons_of_lt (Nat.lt_of_not_le hx)]
        apply Nat.zero_le

/-- The members passed end at or before the offset. -/
theorem stop_le_of_mem_take_passed (hx : x ∈ l.take (passed stop pos l)) :
  stop x ≤ pos
  := by
  rw [passed, ← List.prefix_iff_eq_take.mp (List.takeWhile_prefix _)] at hx
  simpa using List.mem_takeWhile_imp hx

/-- Counting may begin behind members that are known to have been passed. -/
theorem passed_drop {k : Nat} (hk : k ≤ l.length) (h : ∀ x ∈ l.take k, stop x ≤ pos) :
  k + passed stop pos (l.drop k) = passed stop pos l
  := by
  conv => rhs; rw [← List.take_append_drop k l]
  rw [passed, passed, List.takeWhile_append_of_pos (by simpa using h), List.length_append,
    List.length_take_of_le hk]

/-- All members are passed when none of them reaches beyond the offset. -/
theorem passed_eq_length (h : ∀ x ∈ l, stop x ≤ pos) :
  passed stop pos l = l.length
  := by
  rw [passed, List.takeWhile_eq_self_iff.mpr (by simpa using h)]

/-- At the end of a tiling all its members are passed. -/
theorem Tiled.passed_eq_length (h : Tiled start stop a b l) (hb : b ≤ pos) :
  passed stop pos l = l.length
  := PieceStream.passed_eq_length fun _ hx => Nat.le_trans (h.bounds hx).2.2 hb

/-- Before a tiling none of its members is passed. -/
theorem Tiled.passed_eq_zero (h : Tiled start stop a b l) (ha : pos < a) :
  passed stop pos l = 0
  := by
  cases l with
  | nil => rfl
  | cons x xs =>
      obtain ⟨hx, hle, -⟩ := h
      apply passed_cons_of_lt
      omega

/-- An offset of the range lies within the first member that is not passed. -/
theorem Tiled.exists_getElem?_passed (h : Tiled start stop a b l) (ha : a ≤ pos) (hb : pos < b) :
  ∃ x, l[passed stop pos l]? = some x ∧ start x ≤ pos ∧ pos < stop x
  := by
  induction l generalizing a with
  | nil =>
      obtain rfl : a = b := h
      omega
  | cons x xs ih =>
      obtain ⟨hx, hle, hxs⟩ := h
      by_cases hpos : stop x ≤ pos
      · simpa [passed_cons_of_le hpos] using ih hxs hpos
      · have hlt := Nat.lt_of_not_le hpos
        rw [passed_cons_of_lt hlt]
        use x, rfl, by omega

/-- The members before the last one that starts at or before the offset have been passed. -/
theorem Tiled.stop_le_of_mem_take (h : Tiled start stop a b l)
    (hx : x ∈ l.take ((l.takeWhile (start · ≤ pos)).length - 1)) :
  stop x ≤ pos
  := by
  induction l generalizing a with
  | nil => simp at hx
  | cons y ys ih =>
      obtain ⟨-, -, hys⟩ := h
      by_cases hy : start y ≤ pos
      · cases ys with
        | nil => simp [hy] at hx
        | cons z zs =>
            by_cases hz : start z ≤ pos
            · simp only [List.takeWhile_cons, hy, hz, decide_true, if_true, List.length_cons,
                Nat.add_sub_cancel, List.take_succ_cons, List.mem_cons] at hx ih
              rcases hx with rfl | hx
              · obtain ⟨hz', -⟩ := hys
                omega
              · apply ih hys hx
            · simp [hy, hz] at hx
      · simp [hy] at hx

/-! ### What the members stand for -/

variable {f : α → Bytes}

/-- If every member stands for as many bytes as it covers offsets, so does the tiling. -/
theorem Tiled.length_flatMap (h : Tiled start stop a b l)
    (hf : ∀ x ∈ l, (f x).length = stop x - start x) :
  (l.flatMap f).length = b - a
  := by
  induction l generalizing a with
  | nil =>
      obtain rfl : a = b := h
      simp
  | cons x xs ih =>
      obtain ⟨hx, hle, hxs⟩ := h
      have hhead := hf x List.mem_cons_self
      have htail := ih hxs fun y hy => hf y (List.mem_cons_of_mem x hy)
      have := hxs.le
      rw [List.flatMap_cons, List.length_append, hhead, htail]
      omega

/-- From an offset on, a tiling stands for the rest of the member there and for all members
after it. -/
theorem Tiled.drop_flatMap (h : Tiled start stop a b l)
    (hf : ∀ x ∈ l, (f x).length = stop x - start x) (ha : a ≤ pos)
    (hx : l[passed stop pos l]? = some x) :
  (l.flatMap f).drop (pos - a)
    = (f x).drop (pos - start x) ++ (l.drop (passed stop pos l + 1)).flatMap f
  := by
  induction l generalizing a with
  | nil => simp at hx
  | cons y ys ih =>
      obtain ⟨hy, hle, hys⟩ := h
      have hhead := hf y List.mem_cons_self
      by_cases hpos : stop y ≤ pos
      · rw [passed_cons_of_le hpos] at hx ⊢
        rw [List.drop_succ_cons, ← ih hys (fun z hz => hf z (List.mem_cons_of_mem y hz)) hpos
          (by simpa using hx), List.flatMap_cons, List.drop_append, hhead, List.drop_eq_nil_of_le]
        · rw [List.nil_append]
          congr 1
          omega
        · omega
      · rw [passed_cons_of_lt (Nat.lt_of_not_le hpos)] at hx ⊢
        obtain rfl : y = x := by simpa using hx
        rw [List.flatMap_cons, List.drop_append_of_le_length (by omega), hy]
        rfl

end PieceStream
