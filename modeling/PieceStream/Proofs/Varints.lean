import Mathlib.Data.Nat.Bitwise
import PieceStream.Bytes.Varint

/-!
# Reading varints

Reading goes through the groups of a varint in the order in which writing puts them, and adds each
of them at its place.  So a varint is read as the word that it was written for, whatever follows it.
To write and to read bit by bit comes to the same.
-/

namespace PieceStream.Varint

variable {n index value : Nat}

/-- A number of one group is one byte. -/
theorem encodeNat_of_lt (h : n < 128) :
  encodeNat n = [UInt8.ofNat n]
  := by
  rw [encodeNat, if_pos h]

/-- A larger number is its lowest group, marked, and then the others. -/
theorem encodeNat_of_le (h : 128 ≤ n) :
  encodeNat n = UInt8.ofNat (n % 128 + 128) :: encodeNat (n / 128)
  := by
  rw [encodeNat, if_neg (Nat.not_lt_of_le h)]

/-- Of a varint that goes on the first group is read at its place. -/
theorem decodeFrom_cons (byte : UInt8) (rest : Bytes) :
  decodeFrom index value (byte :: rest)
    = if maxLength ≤ index ∨ index + 1 = maxLength ∧ 1 < byte.toNat % 128 then none
      else if byte.toNat < 128 then some (value + byte.toNat % 128 * 128 ^ index, index + 1)
      else decodeFrom (index + 1) (value + byte.toNat % 128 * 128 ^ index) rest
  := rfl

/-- The groups of a number are read from their place on if the number fits there.  What follows them
does not matter. -/
theorem decodeFrom_encodeNat_append (hindex : index < maxLength)
    (hfits : n * 128 ^ index < wordLimit) (rest : Bytes) :
  decodeFrom index value (encodeNat n ++ rest)
    = some (value + n * 128 ^ index, index + (encodeNat n).length)
  := by
  induction n using Nat.strongRecOn generalizing index value with
  | ind n ih =>
      rcases Nat.lt_or_ge n 128 with hlt | hge
      · have hbyte : (UInt8.ofNat n).toNat = n :=
          UInt8.toNat_ofNat_of_lt' (Nat.lt_trans hlt (by decide))
        -- In the last place only the lowest bit of a group is left of a word.
        have hplace : ¬ (maxLength ≤ index ∨ index + 1 = maxLength ∧ 1 < n) := by
          rintro (hle | ⟨hlast, hn⟩)
          · exact Nat.not_lt_of_le hle hindex
          · obtain rfl : index = 9 := by simpa [maxLength] using hlast
            simp only [wordLimit, UInt64.size] at hfits
            omega
        rw [encodeNat_of_lt hlt, List.singleton_append, decodeFrom_cons]
        simp only [hbyte, Nat.mod_eq_of_lt hlt, hplace, hlt, if_false, if_true,
          List.length_singleton]
      · have hbyte : (UInt8.ofNat (n % 128 + 128)).toNat = n % 128 + 128 :=
          UInt8.toNat_ofNat_of_lt' (show n % 128 + 128 < 256 by omega)
        have hgroup : (n % 128 + 128) % 128 = n % 128 := by omega
        have hnext : index + 1 < maxLength := by
          by_contra hlast
          have hpower : 128 ^ 9 ≤ 128 ^ index :=
            Nat.pow_le_pow_right (by decide) (by simp only [maxLength] at hlast; omega)
          have hle : 128 * 128 ^ 9 ≤ n * 128 ^ index := Nat.mul_le_mul hge hpower
          simp only [wordLimit, UInt64.size] at hfits
          omega
        have hsplit : n % 128 * 128 ^ index + n / 128 * 128 ^ (index + 1) = n * 128 ^ index := by
          rw [Nat.pow_succ', ← Nat.mul_assoc, ← Nat.add_mul, Nat.mul_comm (n / 128),
            Nat.mod_add_div]
        have hfits' : n / 128 * 128 ^ (index + 1) < wordLimit := by omega
        have hplace : ¬ (maxLength ≤ index ∨ index + 1 = maxLength ∧ 1 < n % 128) := by omega
        have hmarked : ¬ n % 128 + 128 < 128 := by omega
        rw [encodeNat_of_le hge, List.cons_append, decodeFrom_cons]
        simp only [hbyte, hgroup, hplace, hmarked, if_false]
        rw [ih (n / 128) (by omega) hnext hfits', List.length_cons, Nat.add_assoc, hsplit]
        congr 2
        omega

/-- A varint is read as the word that it was written for, whatever follows it. -/
theorem decode_encode_append (word : UInt64) (rest : Bytes) :
  decode (encode word ++ rest) = some (word, (encode word).length)
  := by
  have hfits : word.toNat * 128 ^ 0 < wordLimit := by
    rw [Nat.pow_zero, Nat.mul_one]
    apply word.toNat_lt
  rw [decode, encode, decodeFrom_encodeNat_append (by decide) hfits]
  simp only [Nat.zero_add, Nat.pow_zero, Nat.mul_one, Option.map_some, UInt64.ofNat_toNat]

/-! ### Bit by bit -/

/-- To shift a word by seven bits is to divide by 128. -/
theorem toNat_shiftRight_seven (word : UInt64) :
  (word >>> 7).toNat = word.toNat / 128
  := by
  rw [UInt64.toNat_shiftRight]
  exact Nat.shiftRight_eq_div_pow _ 7

/-- The varint of a word: its lowest seven bits with the high bit set, and then those above, until
there are no more than seven. -/
def encodeBits (word : UInt64) : Bytes :=
  if _h : word < 128 then [word.toUInt8]
  else ((word.toUInt8 &&& 0x7f) ||| 0x80) :: encodeBits (word >>> 7)
termination_by word.toNat
decreasing_by
  have hge : 128 ≤ word.toNat := Nat.le_of_not_lt _h
  rw [toNat_shiftRight_seven]
  omega

/-- Reads a varint by putting the seven bits of each byte at their place in a word of which `index`
groups have been read. -/
def decodeBits (index : Nat) (word : UInt64) : Bytes → Option (UInt64 × Nat)
  | [] => none
  | byte :: rest =>
    let group := (byte &&& 0x7f).toUInt64
    let read := word ||| group <<< UInt64.ofNat (7 * index)
    if maxLength ≤ index ∨ (index + 1 = maxLength ∧ 1 < group) then none
    else if byte &&& 0x80 = 0 then some (read, index + 1)
    else decodeBits (index + 1) read rest

/-- The lowest seven bits of a byte are the rest of dividing by 128. -/
theorem toNat_and_group (byte : UInt8) :
  (byte &&& 0x7f).toNat = byte.toNat % 128
  := by
  rw [UInt8.toNat_and]
  exact Nat.and_two_pow_sub_one_eq_mod byte.toNat 7

/-- A byte goes on exactly if its high bit is set. -/
theorem and_mark_eq_zero_iff (byte : UInt8) :
  byte &&& 0x80 = 0 ↔ byte.toNat < 128
  := by
  have hbit : (byte &&& 0x80).toNat = (byte.toNat.testBit 7).toNat * 2 ^ 7 := by
    rw [UInt8.toNat_and]
    exact Nat.and_two_pow byte.toNat 7
  have hlt := byte.toNat_lt
  have hzero : byte &&& 0x80 = 0 ↔ byte.toNat / 2 ^ 7 % 2 ≠ 1 := by
    rw [← UInt8.toNat_inj, hbit, Nat.testBit_eq_decide_div_mod_eq]
    cases hset : decide (byte.toNat / 2 ^ 7 % 2 = 1) <;> simpa using hset
  rw [hzero]
  omega

/-- The high bit of a group is free, and to set it is to add 128. -/
theorem toNat_or_mark {group : UInt8} (h : group.toNat < 128) :
  (group ||| 0x80).toNat = group.toNat + 128
  := by
  have hmark : (0x80 : UInt8).toNat = 2 ^ 7 * 1 := rfl
  rw [UInt8.toNat_or, hmark, Nat.or_comm, ← Nat.two_pow_add_eq_or_of_lt h]
  omega

/-- To write a word bit by bit is to write its number. -/
theorem encodeBits_eq (word : UInt64) :
  encodeBits word = encode word
  := by
  rw [encode]
  induction hn : word.toNat using Nat.strongRecOn generalizing word with
  | ind n ih =>
      subst hn
      rw [encodeBits]
      split
      · next hlt =>
        have hlt : word.toNat < 128 := hlt
        rw [encodeNat_of_lt hlt]
        rfl
      · next hge =>
        have hge : 128 ≤ word.toNat := Nat.le_of_not_lt hge
        have hgroup : (word.toUInt8 &&& 0x7f).toNat = word.toNat % 128 := by
          rw [toNat_and_group, UInt64.toNat_toUInt8]
          omega
        have hmarked : word.toUInt8 &&& 0x7f ||| 0x80 = UInt8.ofNat (word.toNat % 128 + 128) := by
          apply UInt8.toNat_inj.mp
          rw [toNat_or_mark (by omega), hgroup, UInt8.toNat_ofNat_of_lt' (show _ < 256 by omega)]
        rw [encodeNat_of_le hge, hmarked, ih _ _ (word >>> 7) rfl, toNat_shiftRight_seven]
        rw [toNat_shiftRight_seven]
        omega

/-- A group is put at a place that is free in the word by adding it there, if it fits. -/
theorem toNat_or_shiftLeft {word group : UInt64} (hword : word.toNat < 128 ^ index)
    (hfits : group.toNat * 128 ^ index < wordLimit) (hindex : index < maxLength) :
  (word ||| group <<< UInt64.ofNat (7 * index)).toNat = word.toNat + group.toNat * 128 ^ index
  := by
  have hpower : 128 ^ index = 2 ^ (7 * index) := by rw [Nat.pow_mul]
  have hplace : 7 * index < 64 := by
    simp only [maxLength] at hindex
    omega
  have hshift : (UInt64.ofNat (7 * index)).toNat % 64 = 7 * index := by
    rw [UInt64.toNat_ofNat_of_lt' (Nat.lt_trans hplace (by decide)), Nat.mod_eq_of_lt hplace]
  have hfits : group.toNat * 128 ^ index < 2 ^ 64 := hfits
  rw [UInt64.toNat_or, UInt64.toNat_shiftLeft, hshift, Nat.shiftLeft_eq, ← hpower,
    Nat.mod_eq_of_lt hfits, Nat.or_comm, Nat.mul_comm, hpower,
    ← Nat.two_pow_add_eq_or_of_lt (hpower ▸ hword), Nat.add_comm]

/-- A group at its place is below a word exactly if reading lets it pass: only the lowest bit
of the tenth group is left of a word. -/
theorem group_fits_iff {group : Nat} (hgroup : group < 128) :
  index + 1 ≤ maxLength ∧ group * 128 ^ index < wordLimit
    ↔ ¬ (maxLength ≤ index ∨ index + 1 = maxLength ∧ 1 < group)
  := by
  simp only [maxLength, wordLimit, UInt64.size]
  rcases Nat.lt_trichotomy index 9 with hlt | rfl | hgt
  · have hpower : 128 ^ index ≤ 128 ^ 8 := Nat.pow_le_pow_right (by decide) (by omega)
    have hproduct : group * 128 ^ index ≤ 127 * 128 ^ 8 := Nat.mul_le_mul (by omega) hpower
    omega
  · omega
  · omega

/-- Groups up to some place are less than what the next place stands for. -/
theorem add_group_lt {group : Nat} (hvalue : value < 128 ^ index) (hgroup : group < 128) :
  value + group * 128 ^ index < 128 ^ (index + 1)
  := by
  have hle : group * 128 ^ index ≤ 127 * 128 ^ index :=
    Nat.mul_le_mul_right _ (Nat.le_of_lt_succ hgroup)
  rw [Nat.pow_succ']
  omega

/-- To read groups bit by bit is to add them up. -/
theorem decodeBits_eq_decodeFrom {word : UInt64} (hword : word.toNat < 128 ^ index) (data : Bytes) :
  decodeBits index word data
    = (decodeFrom index word.toNat data).map fun (value, used) => (UInt64.ofNat value, used)
  := by
  induction data generalizing index word with
  | nil => rfl
  | cons byte rest ih =>
      have hlt : byte.toNat % 128 < 128 := Nat.mod_lt _ (by decide)
      have hgroup : ((byte &&& 0x7f).toUInt64).toNat = byte.toNat % 128 := toNat_and_group byte
      have hone : 1 < (byte &&& 0x7f).toUInt64 ↔ 1 < byte.toNat % 128 := by
        rw [UInt64.lt_iff_toNat_lt, hgroup]
        rfl
      rw [decodeFrom_cons, decodeBits]
      simp only [hone, and_mark_eq_zero_iff]
      split
      · rfl
      · next hplace =>
        obtain ⟨hindex, hfits⟩ := (group_fits_iff hlt).mpr hplace
        rw [← hgroup] at hfits
        have hread := toNat_or_shiftLeft hword hfits hindex
        rw [hgroup] at hread
        split
        · rw [Option.map_some, ← hread, UInt64.ofNat_toNat]
        · have hnext := add_group_lt hword hlt
          rw [← hread] at hnext
          rw [ih hnext, hread]

/-- To read a word bit by bit is to read its number. -/
theorem decodeBits_eq (data : Bytes) :
  decodeBits 0 0 data = decode data
  := decodeBits_eq_decodeFrom Nat.zero_lt_one data

end PieceStream.Varint
