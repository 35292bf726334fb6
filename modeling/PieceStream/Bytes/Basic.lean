/-!
# Byte strings and words

`Bytes` is a finite sequence of bytes.  Offsets and lengths that arrive from outside are
64-bit words, `UInt64`; everything derived from them is computed in `Nat`, where nothing
wraps, and compared with `wordLimit` where a result has to be a word again.
-/

namespace PieceStream

/-- A finite sequence of bytes. -/
abbrev Bytes := List UInt8

/-- The number of words: every word is below it. -/
def wordLimit : Nat := UInt64.size

/-- The word nearest to `n`: `n` itself, or the largest word. -/
def saturate (n : Nat) : UInt64 := UInt64.ofNat (min n (wordLimit - 1))

theorem toNat_saturate (n : Nat) :
  (saturate n).toNat = min n (wordLimit - 1)
  := by
  rw [saturate, UInt64.toNat_ofNat']
  exact Nat.mod_eq_of_lt (by simp only [wordLimit, UInt64.size]; omega)

theorem toNat_saturate_of_lt {n : Nat} (h : n < wordLimit) :
  (saturate n).toNat = n
  := by
  rw [toNat_saturate]
  omega

/-- The bytes `add`, `mul + add`, `2 * mul + add`, … modulo 256, `length` of them. -/
def ramp (length mul add : Nat) : Bytes :=
  (List.range length).map fun i => UInt8.ofNat (i * mul + add)

/-- What is left of a range is what is left of it behind the bytes handed out. -/
theorem drop_take_length {bytes : Bytes} {size n : Nat} :
  (bytes.take size).drop n
    = (bytes.drop (bytes.take n).length).take (size - (bytes.take n).length)
  := by
  rw [List.drop_take, List.length_take]
  rcases Nat.le_total n bytes.length with hle | hle
  · rw [Nat.min_eq_left hle]
  · rw [Nat.min_eq_right hle, List.drop_eq_nil_of_le hle, List.drop_length, List.take_nil,
      List.take_nil]

end PieceStream
