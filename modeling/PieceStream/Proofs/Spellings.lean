import Mathlib.Algebra.BigOperators.Intervals
import Mathlib.Algebra.BigOperators.Ring.Finset
import Mathlib.Algebra.Order.BigOperators.Group.Finset
import PieceStream.Proofs.Varints

/-!
# The spellings of a word

A number is spelled by any number of groups of seven bits, each but the last in a marked byte:
groups of zeros may stand behind the significant ones.  What is read as a varint is exactly the
spellings of words in at most ten bytes.  The varint of a word is the shortest of its spellings, and
the only one whose last byte is not zero, but for that of zero itself.
-/

namespace PieceStream.Varint

/-- The first `used` bytes of `data` spell `value`: all of them are marked but the last, and their
groups, each at its place, add up to it. -/
structure Spells (data : Bytes) (value used : Nat) : Prop where
  used_pos : 1 ≤ used
  le_length : used ≤ data.length
  marked : ∀ i, i + 1 < used → 128 ≤ (data.getD i 0).toNat
  unmarked : (data.getD (used - 1) 0).toNat < 128
  value_eq : ∑ i ∈ Finset.range used, (data.getD i 0).toNat % 128 * 128 ^ i = value

variable {data rest other : Bytes} {byte : UInt8} {word : UInt64} {index total value used : Nat}

/-! ### Spellings byte by byte -/

/-- No bytes spell nothing. -/
theorem not_spells_nil :
  ¬ Spells [] value used
  := fun h => Nat.not_succ_le_zero _ (Nat.le_trans h.used_pos h.le_length)

/-- A single byte spells its group if it is not marked. -/
theorem spells_cons_one :
  Spells (byte :: rest) value 1 ↔ byte.toNat < 128 ∧ value = byte.toNat
  := by
  constructor
  · rintro ⟨-, -, -, hunmarked, hvalue⟩
    have hbyte : byte.toNat < 128 := hunmarked
    refine ⟨hbyte, ?_⟩
    simpa [Nat.mod_eq_of_lt hbyte] using hvalue.symm
  · rintro ⟨hbyte, rfl⟩
    refine ⟨Nat.le_refl 1, Nat.succ_le_succ (Nat.zero_le _), fun i hi => by omega, hbyte, ?_⟩
    simpa using Nat.mod_eq_of_lt hbyte

/-- The groups of a spelling are the first one and, each one place higher, those of the bytes behind
it. -/
theorem sum_groups_cons :
  ∑ i ∈ Finset.range (used + 1), ((byte :: rest).getD i 0).toNat % 128 * 128 ^ i
    = byte.toNat % 128 + 128 * ∑ i ∈ Finset.range used, (rest.getD i 0).toNat % 128 * 128 ^ i
  := by
  have hplace : ∀ i ∈ Finset.range used,
      ((byte :: rest).getD (i + 1) 0).toNat % 128 * 128 ^ (i + 1)
        = 128 * ((rest.getD i 0).toNat % 128 * 128 ^ i) := by
    intro i _
    rw [List.getD_cons_succ, Nat.pow_succ', Nat.mul_left_comm]
  rw [Finset.sum_range_succ', Finset.sum_congr rfl hplace, ← Finset.mul_sum, List.getD_cons_zero,
    Nat.pow_zero, Nat.mul_one, Nat.add_comm]

/-- Several bytes spell the group of the first, if it is marked, and what the others spell one place
higher. -/
theorem spells_cons_succ (hused : 0 < used) :
  Spells (byte :: rest) total (used + 1)
    ↔ 128 ≤ byte.toNat ∧ ∃ value, Spells rest value used ∧ total = byte.toNat % 128 + 128 * value
  := by
  have hlast : (byte :: rest).getD (used + 1 - 1) 0 = rest.getD (used - 1) 0 := by
    obtain ⟨used, rfl⟩ := Nat.exists_eq_succ_of_ne_zero (Nat.ne_of_gt hused)
    rfl
  constructor
  · rintro ⟨-, hlength, hmarked, hunmarked, hvalue⟩
    rw [hlast] at hunmarked
    refine ⟨hmarked 0 (Nat.succ_lt_succ hused), _, ⟨hused, Nat.le_of_succ_le_succ hlength,
      fun i hi => hmarked (i + 1) (Nat.succ_lt_succ hi), hunmarked, rfl⟩, ?_⟩
    rw [← hvalue, sum_groups_cons]
  · rintro ⟨hbyte, value, ⟨-, hlength, hmarked, hunmarked, hvalue⟩, rfl⟩
    refine ⟨Nat.succ_le_succ (Nat.zero_le _), Nat.succ_le_succ hlength, ?_, ?_, ?_⟩
    · rintro (_ | i) hi
      · exact hbyte
      · apply hmarked i (Nat.lt_of_succ_lt_succ hi)
    · rw [hlast]
      apply hunmarked
    · rw [sum_groups_cons, hvalue]

/-- Of a spelling of zero the last byte is zero. -/
theorem Spells.last_eq_zero (h : Spells data 0 used) :
  data.getD (used - 1) 0 = 0
  := by
  have hmem : used - 1 ∈ Finset.range used := Finset.mem_range.mpr (Nat.sub_lt h.used_pos one_pos)
  have hgroup := (Finset.sum_eq_zero_iff.mp h.value_eq) _ hmem
  have hplace : 0 < 128 ^ (used - 1) := Nat.pow_pos (by decide)
  have hzero := (Nat.mul_eq_zero.mp hgroup).resolve_right (Nat.ne_of_gt hplace)
  rw [Nat.mod_eq_of_lt h.unmarked] at hzero
  apply UInt8.toNat_inj.mp hzero

/-- What the first bytes spell does not depend on the bytes behind them. -/
theorem Spells.of_take_eq (h : Spells data value used) (heq : other.take used = data.take used) :
  Spells other value used
  := by
  have hget : ∀ i, i < used → other.getD i 0 = data.getD i 0 := by
    intro i hi
    rw [List.getD_eq_getElem?_getD, List.getD_eq_getElem?_getD, ← List.getElem?_take_of_lt hi, heq,
      List.getElem?_take_of_lt hi]
  constructor
  case used_pos => exact h.used_pos
  case le_length =>
      have hlength := congrArg List.length heq
      rw [List.length_take, List.length_take, Nat.min_eq_left h.le_length] at hlength
      exact hlength ▸ Nat.min_le_right _ _
  case marked =>
      intro i hi
      rw [hget i (by omega)]
      apply h.marked i hi
  case unmarked =>
      rw [hget _ (Nat.sub_lt h.used_pos one_pos)]
      apply h.unmarked
  case value_eq =>
      rw [← h.value_eq]
      apply Finset.sum_congr rfl
      intro i hi
      rw [hget i (Finset.mem_range.mp hi)]

/-! ### Reading -/

/-- Before the tenth group, a group in front does not decide whether a number is below a word. -/
theorem places_fit_iff {group : Nat} (hgroup : group < 128) (hindex : index + 1 < maxLength) :
  (group + 128 * value) * 128 ^ index < wordLimit ↔ value * 128 ^ (index + 1) < wordLimit
  := by
  obtain ⟨limit, hlimit⟩ : 128 ^ (index + 1) ∣ wordLimit :=
    Nat.dvd_trans (Nat.pow_dvd_pow 128 (Nat.le_of_lt_succ hindex)) (by decide : 128 ^ 9 ∣ wordLimit)
  have hplace : 0 < 128 ^ (index + 1) := Nat.pow_pos (by decide)
  have hplace' : 0 < 128 ^ index := Nat.pow_pos (by decide)
  have hlimit' : wordLimit = 128 * limit * 128 ^ index := by
    rw [hlimit, Nat.pow_succ', Nat.mul_right_comm]
  have hleft : (group + 128 * value) * 128 ^ index < wordLimit
      ↔ group + 128 * value < 128 * limit :=
    hlimit' ▸ Nat.mul_lt_mul_right hplace'
  have hright : value * 128 ^ (index + 1) < wordLimit ↔ value < limit := by
    rw [hlimit, Nat.mul_comm (128 ^ (index + 1))]
    apply Nat.mul_lt_mul_right hplace
  rw [hleft, hright]
  omega

/-- A group and a number one place higher add up to the number that they spell together. -/
theorem add_places {group higher : Nat} :
  total + group * 128 ^ index + higher * 128 ^ (index + 1)
    = total + (group + 128 * higher) * 128 ^ index
  := by
  rw [Nat.add_mul, Nat.pow_succ', ← Nat.mul_assoc, Nat.mul_comm higher, Nat.add_assoc]

/-- From a place on, what is read is what is spelled, if it ends by the tenth group and is below a
word there. -/
theorem decodeFrom_eq_some_iff :
  decodeFrom index value data = some (total, used)
    ↔ ∃ count spelled, used = index + count ∧ Spells data spelled count
        ∧ total = value + spelled * 128 ^ index ∧ used ≤ maxLength
        ∧ spelled * 128 ^ index < wordLimit
  := by
  induction data generalizing index value with
  | nil =>
      constructor
      · rintro ⟨⟩
      · rintro ⟨_, _, _, h, _⟩
        exact absurd h not_spells_nil
  | cons byte rest ih =>
      have hgroup : byte.toNat % 128 < 128 := Nat.mod_lt _ (by decide)
      have hfits : index + 1 ≤ maxLength ∧ byte.toNat % 128 * 128 ^ index < wordLimit
          ↔ ¬ (maxLength ≤ index ∨ index + 1 = maxLength ∧ 1 < byte.toNat % 128) :=
        group_fits_iff hgroup
      rw [decodeFrom_cons]
      by_cases hbyte : byte.toNat < 128
      · simp only [hbyte, if_true]
        rw [Nat.mod_eq_of_lt hbyte] at hfits ⊢
        constructor
        · intro h
          split at h
          · cases h
          · next hplace =>
            cases h
            obtain ⟨hindex, hword⟩ := hfits.mpr hplace
            exact ⟨1, _, rfl, spells_cons_one.mpr ⟨hbyte, rfl⟩, rfl, hindex, hword⟩
        · rintro ⟨count, spelled, rfl, hspells, rfl, hindex, hword⟩
          -- An unmarked byte is the last one of a spelling.
          obtain rfl : count = 1 := by
            have hpos := hspells.used_pos
            have hmarked := hspells.marked 0
            rw [List.getD_cons_zero] at hmarked
            omega
          obtain ⟨-, rfl⟩ := spells_cons_one.mp hspells
          rw [if_neg (hfits.mp ⟨hindex, hword⟩)]
      · simp only [hbyte, if_false]
        constructor
        · intro h
          split at h
          · cases h
          · obtain ⟨count, spelled, rfl, hspells, rfl, hindex, hword⟩ := ih.mp h
            have hpos := hspells.used_pos
            have hnext : index + 1 < maxLength := by omega
            refine ⟨count + 1, byte.toNat % 128 + 128 * spelled, by omega,
              (spells_cons_succ hpos).mpr ⟨Nat.le_of_not_lt hbyte, _, hspells, rfl⟩, add_places,
              by omega, (places_fit_iff hgroup hnext).mpr hword⟩
        · rintro ⟨_ | _ | count, _, rfl, hspells, rfl, hindex, hword⟩
          · exact absurd hspells.used_pos (Nat.not_succ_le_zero 0)
          · exact absurd (spells_cons_one.mp hspells).1 hbyte
          · obtain ⟨-, spelled, hrest, rfl⟩ := (spells_cons_succ (Nat.succ_pos count)).mp hspells
            have hnext : index + 1 < maxLength := by omega
            have hplace : ¬ (maxLength ≤ index ∨ index + 1 = maxLength ∧ 1 < byte.toNat % 128) := by
              omega
            rw [if_neg hplace]
            exact ih.mpr ⟨count + 1, spelled, by omega, hrest, add_places.symm, by omega,
              (places_fit_iff hgroup hnext).mp hword⟩

/-- Read is exactly what is spelled by at most ten bytes. -/
theorem decode_eq_some_iff :
  decode data = some (word, used) ↔ used ≤ maxLength ∧ Spells data word.toNat used
  := by
  rw [decode, Option.map_eq_some_iff]
  constructor
  · rintro ⟨⟨total, used'⟩, hread, heq⟩
    obtain ⟨count, spelled, hcount, hspells, htotal, hle, hword⟩ := decodeFrom_eq_some_iff.mp hread
    rw [Nat.zero_add] at hcount htotal
    rw [Nat.pow_zero, Nat.mul_one] at htotal hword
    subst hcount htotal
    cases heq
    rw [UInt64.toNat_ofNat_of_lt' hword]
    exact ⟨hle, hspells⟩
  · rintro ⟨hle, hspells⟩
    refine ⟨(word.toNat, used), decodeFrom_eq_some_iff.mpr ⟨used, word.toNat, ?_, hspells, ?_, hle,
      ?_⟩, ?_⟩
    · rw [Nat.zero_add]
    · rw [Nat.zero_add, Nat.pow_zero, Nat.mul_one]
    · rw [Nat.pow_zero, Nat.mul_one]
      apply word.toNat_lt
    · dsimp only
      rw [UInt64.ofNat_toNat]

/-- Nothing is read exactly if ten bytes spell nothing below a word. -/
theorem decode_eq_none_iff :
  decode data = none
    ↔ ∀ value used, used ≤ maxLength → Spells data value used → wordLimit ≤ value
  := by
  rw [Option.eq_none_iff_forall_ne_some]
  constructor
  · intro h value used hle hspells
    by_contra hlt
    have hword : (UInt64.ofNat value).toNat = value :=
      UInt64.toNat_ofNat_of_lt' (Nat.lt_of_not_le hlt)
    exact h _ (decode_eq_some_iff.mpr ⟨hle, hword.symm ▸ hspells⟩)
  · rintro h ⟨word, used⟩ hread
    obtain ⟨hle, hspells⟩ := decode_eq_some_iff.mp hread
    exact absurd word.toNat_lt (Nat.not_lt_of_le (h _ _ hle hspells))

/-! ### The shortest spelling -/

/-- No spelling of a number is shorter than its groups. -/
theorem Spells.length_encodeNat_le (h : Spells data value used) :
  (encodeNat value).length ≤ used
  := by
  induction data generalizing value used with
  | nil => exact absurd h not_spells_nil
  | cons byte rest ih =>
      rcases used with _ | _ | used
      · exact absurd h.used_pos (Nat.not_succ_le_zero 0)
      · obtain ⟨hbyte, rfl⟩ := spells_cons_one.mp h
        rw [encodeNat_of_lt hbyte, List.length_singleton]
      · obtain ⟨-, higher, hspells, rfl⟩ := (spells_cons_succ (Nat.succ_pos used)).mp h
        have hlength := ih hspells
        rcases Nat.lt_or_ge (byte.toNat % 128 + 128 * higher) 128 with hlt | hge
        · rw [encodeNat_of_lt hlt, List.length_singleton]
          exact Nat.succ_le_succ (Nat.zero_le _)
        · have hdiv : (byte.toNat % 128 + 128 * higher) / 128 = higher := by omega
          rw [encodeNat_of_le hge, hdiv, List.length_cons]
          exact Nat.succ_le_succ hlength

/-- A spelling is the groups of its number exactly if it is one byte or does not end in zero. -/
theorem Spells.encodeNat_eq_take_iff (h : Spells data value used) :
  encodeNat value = data.take used ↔ used = 1 ∨ data.getD (used - 1) 0 ≠ 0
  := by
  induction data generalizing value used with
  | nil => exact absurd h not_spells_nil
  | cons byte rest ih =>
      rcases used with _ | _ | used
      · exact absurd h.used_pos (Nat.not_succ_le_zero 0)
      · obtain ⟨hbyte, rfl⟩ := spells_cons_one.mp h
        rw [encodeNat_of_lt hbyte, UInt8.ofNat_toNat]
        simp
      · obtain ⟨hbyte, higher, hspells, rfl⟩ := (spells_cons_succ (Nat.succ_pos used)).mp h
        have hlast : (byte :: rest).getD (used + 1 + 1 - 1) 0 = rest.getD (used + 1 - 1) 0 := rfl
        rw [hlast, List.take_succ_cons]
        rcases Nat.eq_zero_or_pos higher with rfl | hpos
        · -- Zero is spelled behind the first byte, which is not marked where it stands alone.
          have hlt : byte.toNat % 128 + 128 * 0 < 128 := by omega
          have hlength : rest.take (used + 1) ≠ [] := by
            have := hspells.le_length
            rw [ne_eq, List.take_eq_nil_iff, ← List.length_eq_zero_iff]
            omega
          rw [encodeNat_of_lt hlt, hspells.last_eq_zero]
          simp [hlength.symm]
        · have hge : 128 ≤ byte.toNat % 128 + 128 * higher := by omega
          have hdiv : (byte.toNat % 128 + 128 * higher) / 128 = higher := by omega
          have hmod : (byte.toNat % 128 + 128 * higher) % 128 + 128 = byte.toNat := by
            have := byte.toNat_lt
            omega
          rw [encodeNat_of_le hge, hdiv, hmod, UInt8.ofNat_toNat, List.cons_inj_right, ih hspells]
          constructor
          · rintro (hone | hne)
            · -- A single byte behind the first is the number spelled there.
              obtain rfl : used = 0 := Nat.succ_inj.mp hone
              refine .inr fun hzero => ?_
              have hvalue := hspells.value_eq
              rw [Finset.sum_range_one, hzero] at hvalue
              exact absurd hvalue.symm (Nat.ne_of_gt hpos)
            · exact .inr hne
          · rintro (hone | hne)
            · omega
            · exact .inr hne

/-- Reading accepts exactly the spellings of words in at most ten bytes, and does not look behind
them.  The varint of the word that is read is no longer than what was read, and the same exactly if
that is one byte or does not end in zero. -/
theorem decode_reads_spellings (data : Bytes) :
  (∀ word used, decode data = some (word, used)
      ↔ used ≤ maxLength ∧ Spells data word.toNat used)
    ∧ (decode data = none
      ↔ ∀ value used, used ≤ maxLength → Spells data value used → wordLimit ≤ value)
    ∧ ∀ word used, decode data = some (word, used) →
        (∀ other : Bytes, other.take used = data.take used → decode other = some (word, used))
          ∧ (encode word).length ≤ used
          ∧ (encode word = data.take used ↔ used = 1 ∨ data.getD (used - 1) 0 ≠ 0)
  := by
  refine ⟨fun _ _ => decode_eq_some_iff, decode_eq_none_iff, fun word used hread => ?_⟩
  obtain ⟨hle, hspells⟩ := decode_eq_some_iff.mp hread
  exact ⟨fun other heq => decode_eq_some_iff.mpr ⟨hle, hspells.of_take_eq heq⟩,
    hspells.length_encodeNat_le, hspells.encodeNat_eq_take_iff⟩

/-- A spelling of five with two groups of zeros behind it, and with a byte that is not read. -/
theorem decode_reads_spellings_zero_behind :
  decode [0x85, 0x80, 0x00, 0xff] = some (5, 3) ∧ Spells [0x85, 0x80, 0x00, 0xff] 5 3
    ∧ decode [0x85, 0x80, 0x00] = some (5, 3)
    ∧ (encode 5).length ≤ 3 ∧ encode 5 ≠ [0x85, 0x80, 0x00]
  := by
  have hread : decode [0x85, 0x80, 0x00, 0xff] = some (5, 3) := by decide
  obtain ⟨hiff, -, hbehind⟩ := decode_reads_spellings [0x85, 0x80, 0x00, 0xff]
  obtain ⟨hother, hlength, htake⟩ := hbehind 5 3 hread
  refine ⟨hread, ((hiff 5 3).mp hread).2, hother [0x85, 0x80, 0x00] rfl, hlength, fun heq => ?_⟩
  exact absurd (htake.mp heq) (by decide)

end PieceStream.Varint
