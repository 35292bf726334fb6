import PieceStream.Proofs.Spellings

/-!
# Varints as codewords

The varint of a word has a byte for every seven significant bits, at least one and at most ten.  It
is read back whatever follows it, and nothing is read from less of it.  Among the spellings of the
word it is the only one that is no longer.
-/

namespace PieceStream.Varint

variable {data other : Bytes} {word : UInt64} {n k value used : Nat}

/-! ### Sizes -/

/-- A number has a group. -/
theorem length_encodeNat_pos :
  0 < (encodeNat n).length
  := by
  rw [List.length_pos_iff, encodeNat]
  split <;> apply List.cons_ne_nil

/-- A number has at most `k` groups exactly if it is below the `k`-th power of 128. -/
theorem length_encodeNat_le_iff (hk : 0 < k) :
  (encodeNat n).length ≤ k ↔ n < 128 ^ k
  := by
  induction k, hk using Nat.le_induction generalizing n with
  | base =>
      rcases Nat.lt_or_ge n 128 with hlt | hge
      · simp [encodeNat_of_lt hlt, hlt]
      · have hlength : 0 < (encodeNat (n / 128)).length := length_encodeNat_pos
        rw [encodeNat_of_le hge, List.length_cons]
        omega
  | succ k hk ih =>
      rcases Nat.lt_or_ge n 128 with hlt | hge
      · have hpower : 128 ^ 1 ≤ 128 ^ (k + 1) := Nat.pow_le_pow_right (by decide) (by omega)
        rw [encodeNat_of_lt hlt, List.length_singleton]
        omega
      · rw [encodeNat_of_le hge, List.length_cons, Nat.add_le_add_iff_right, ih,
          Nat.div_lt_iff_lt_mul (by decide), Nat.pow_succ]

/-- A number has at most `k` significant bits exactly if it is below the `k`-th power of two. -/
theorem bitLength_le_iff :
  bitLength n ≤ k ↔ n < 2 ^ k
  := by
  rw [bitLength]
  split
  · next hzero => exact iff_of_true (Nat.zero_le k) (hzero ▸ Nat.two_pow_pos k)
  · next hne => rw [Nat.succ_le_iff, Nat.log2_lt hne]

/-- The size of a word is at most `k` exactly if the word is below the `k`-th power of 128. -/
theorem size_le_iff (hk : 0 < k) :
  size word ≤ k ↔ word.toNat < 128 ^ k
  := by
  have hgroups : size word ≤ k ↔ bitLength word.toNat ≤ 7 * k := by
    rw [size]
    omega
  rw [hgroups, bitLength_le_iff, Nat.pow_mul]

/-- The varint of a word is as long as the size of the word says. -/
theorem length_encode :
  (encode word).length = size word
  := by
  have hsize : 0 < size word := Nat.le_max_left _ _
  have hlength : 0 < (encode word).length := length_encodeNat_pos
  apply Nat.le_antisymm
  · rw [encode, length_encodeNat_le_iff hsize, ← size_le_iff hsize]
  · rw [size_le_iff hlength, ← length_encodeNat_le_iff hlength]
    apply Nat.le_refl

/-- No word takes more than ten bytes. -/
theorem size_le_maxLength :
  size word ≤ maxLength
  := by
  rw [size_le_iff (by decide)]
  apply Nat.lt_of_lt_of_le word.toNat_lt (by decide)

/-! ### One spelling for each length -/

/-- A number is spelled in one way only by as many bytes. -/
theorem Spells.take_eq (h : Spells data value used) (h' : Spells other value used) :
  data.take used = other.take used
  := by
  induction data generalizing other value used with
  | nil => exact absurd h not_spells_nil
  | cons byte rest ih =>
      cases other with
      | nil => exact absurd h' not_spells_nil
      | cons byte' rest' =>
          rcases used with _ | _ | used
          · rfl
          · obtain ⟨-, rfl⟩ := spells_cons_one.mp h
            obtain ⟨-, hvalue⟩ := spells_cons_one.mp h'
            rw [UInt8.toNat_inj.mp hvalue]
            rfl
          · obtain ⟨hbyte, higher, hspells, rfl⟩ := (spells_cons_succ (Nat.succ_pos used)).mp h
            obtain ⟨hbyte', higher', hspells', hvalue⟩ :=
              (spells_cons_succ (Nat.succ_pos used)).mp h'
            have hlt := byte.toNat_lt
            have hlt' := byte'.toNat_lt
            obtain rfl : byte = byte' := UInt8.toNat_inj.mp (by omega)
            obtain rfl : higher = higher' := by omega
            rw [List.take_succ_cons, List.take_succ_cons, ih hspells hspells']

/-- A varint is read as the word that it was written for. -/
theorem decode_encode :
  decode (encode word) = some (word, (encode word).length)
  := by
  conv => lhs; rw [← List.append_nil (encode word)]
  apply decode_encode_append

/-- What is read whole as a word, and is no longer than the varint of the word, is that varint. -/
theorem decode_eq_length_iff :
  data.length ≤ (encode word).length ∧ decode data = some (word, data.length) ↔ data = encode word
  := by
  constructor
  · rintro ⟨hle, hread⟩
    have hspells := (decode_eq_some_iff.mp hread).2
    have hlength : data.length = (encode word).length :=
      Nat.le_antisymm hle hspells.length_encodeNat_le
    rw [hlength] at hspells
    have htake := hspells.take_eq (decode_eq_some_iff.mp decode_encode).2
    rw [List.take_length] at htake
    rw [← htake, ← hlength, List.take_length]
  · rintro rfl
    exact ⟨Nat.le_refl _, decode_encode⟩

/-- From the first bytes of a varint nothing is read exactly if they are not all of it. -/
theorem decode_take_encode_eq_none_iff :
  decode ((encode word).take n) = none ↔ n < (encode word).length
  := by
  constructor
  · intro hnone
    by_contra hle
    rw [List.take_of_length_le (Nat.le_of_not_lt hle), decode_encode] at hnone
    cases hnone
  · intro hlt
    rw [Option.eq_none_iff_forall_ne_some]
    rintro ⟨word', used⟩ hread
    obtain ⟨hmax, hspells⟩ := decode_eq_some_iff.mp hread
    have hused : used ≤ n := by
      apply Nat.le_trans hspells.le_length
      rw [List.length_take]
      apply Nat.min_le_left
    -- What the part spells, the whole varint spells as well, and it spells one word only.
    have hwhole : Spells (encode word) word'.toNat used :=
      hspells.of_take_eq (by rw [List.take_take, Nat.min_eq_left hused])
    have hlength := decode_encode.symm.trans (decode_eq_some_iff.mpr ⟨hmax, hwhole⟩)
    cases hlength
    omega

/-- The varint of a word has the size computed for the word, at most ten bytes, and is read back
whatever follows it.  From less of it nothing is read, and of all byte strings that are no longer it
is the only one that is read whole as the word. -/
theorem encode_identifies_word (word : UInt64) :
  (encode word).length = size word ∧ size word ≤ maxLength
    ∧ (∀ rest : Bytes, decode (encode word ++ rest) = some (word, (encode word).length))
    ∧ (∀ n, decode ((encode word).take n) = none ↔ n < (encode word).length)
    ∧ ∀ data : Bytes,
        data.length ≤ (encode word).length ∧ decode data = some (word, data.length)
          ↔ data = encode word
  := ⟨length_encode, size_le_maxLength, decode_encode_append word,
    fun _ => decode_take_encode_eq_none_iff, fun _ => decode_eq_length_iff⟩

end PieceStream.Varint
