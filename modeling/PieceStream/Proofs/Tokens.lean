import Mathlib.Data.List.Basic
import PieceStream.Json.Text
import PieceStream.Json.Token

/-!
# The tokens of a text

The text that is written for a value is cut into the tokens of the value.  A string literal gives
the string back, character by character, and the digits of a number give it back as long as what
follows does not go on with it.  What is left behind a token is cut as if it stood alone.
-/

namespace PieceStream

namespace Json

mutual

/-- Whether the text of a value tells the value: all its strings are texts, and all its numbers are
written without an exponent. -/
def plain : Json → Bool
  | .number n => n.integral && n.scale == 0
  | .array elements => plainElements elements
  | .object members => plainMembers members
  | .unpaired | .broken => false
  | _ => true

/-- Whether the texts of all elements tell them. -/
def plainElements : List Json → Bool
  | [] => true
  | v :: rest => plain v && plainElements rest

/-- Whether the texts of all members tell them. -/
def plainMembers : List (Key × Json) → Bool
  | [] => true
  | (.text _, v) :: rest => plain v && plainMembers rest
  | _ :: _ => false

end

/-- The token of a key. -/
def keyToken : Key → Token
  | .text name => .string name
  | .unpaired => .unpaired
  | _ => .bad

mutual

/-- The tokens of a value. -/
def tokens : Json → List Token
  | .null => [.null]
  | .bool b => [.bool b]
  | .number n => [.number n]
  | .string s => [.string s]
  | .unpaired => [.unpaired]
  | .array [] => [.openArray, .closeArray]
  | .array (v :: rest) => .openArray :: (tokens v ++ elementTokens rest)
  | .object [] => [.openObject, .closeObject]
  | .object ((k, v) :: rest) =>
    .openObject :: keyToken k :: .colon :: (tokens v ++ memberTokens rest)
  | .broken => [.bad]

/-- The tokens of the elements after the first, and of the end of the array. -/
def elementTokens : List Json → List Token
  | [] => [.closeArray]
  | v :: rest => .comma :: (tokens v ++ elementTokens rest)

/-- The tokens of the members after the first, and of the end of the object. -/
def memberTokens : List (Key × Json) → List Token
  | [] => [.closeObject]
  | (k, v) :: rest => .comma :: keyToken k :: .colon :: (tokens v ++ memberTokens rest)

end

end Json

namespace Token

/-- What follows does not go on with a number. -/
def Separated (rest : List Char) : Prop :=
  ∀ c ∈ rest.head?, isDigit c = false ∧ c ≠ '.' ∧ c ≠ 'e' ∧ c ≠ 'E'

/-- The characters are cut into these tokens where `rest` follows, and what is left is cut as if it
stood alone. -/
structure Scans (cs : List Char) (tokens : List Token) (rest : List Char) : Prop where
  length_le : tokens.length ≤ cs.length
  scan_eq (fuel : Nat) :
    scanWithin (tokens.length + fuel) (cs ++ rest) = tokens ++ scanWithin fuel rest

variable {cs cs' rest : List Char} {ts ts' : List Token} {t : Token}

/-! ### Tokens one after the other -/

theorem Scans.append (h : Scans cs ts (cs' ++ rest)) (h' : Scans cs' ts' rest) :
  Scans (cs ++ cs') (ts ++ ts') rest
  := by
  constructor
  case length_le =>
      rw [List.length_append, List.length_append]
      apply Nat.add_le_add h.length_le h'.length_le
  case scan_eq =>
      intro fuel
      rw [List.length_append, Nat.add_assoc, List.append_assoc, h.scan_eq, h'.scan_eq,
        List.append_assoc]

/-- What is one token is cut into that token. -/
theorem scans_of_scanOne (hne : cs ≠ []) (h : scanOne (cs ++ rest) = some (some t, rest)) :
  Scans cs [t] rest
  := by
  constructor
  case length_le => apply List.length_pos_iff.mpr hne
  case scan_eq =>
      intro fuel
      obtain ⟨c, cs, rfl⟩ := List.exists_cons_of_ne_nil hne
      rw [List.length_singleton, Nat.add_comm, List.cons_append] at *
      rw [scanWithin, h]
      · rfl
      · simp

/-- A whole text of these tokens is cut into them. -/
theorem Scans.scan_eq_tokens (h : Scans cs ts []) :
  scan cs = ts
  := by
  have hfuel := h.scan_eq (cs.length - ts.length)
  rw [Nat.add_sub_of_le h.length_le, List.append_nil] at hfuel
  rw [scan, hfuel]
  cases cs.length - ts.length <;> apply List.append_nil ts

/-! ### Numbers -/

theorem isDigit_eq (c : Char) :
  isDigit c = c.isDigit
  := by
  simp [isDigit, Char.isDigit, Char.le_def]

/-- The digits of a number are cut off where something else follows. -/
theorem spanDigits_toDigits (n : Nat) (h : Separated rest) :
  spanDigits (Nat.toDigits 10 n ++ rest) = (Nat.toDigits 10 n, rest)
  := by
  have hdigits : ∀ c ∈ Nat.toDigits 10 n, isDigit c = true := by
    intro c hc
    rw [isDigit_eq]
    apply Nat.isDigit_of_mem_toDigits (Nat.succ_pos 9) (Nat.le_refl 10) hc
  have hstop : rest.takeWhile isDigit = [] ∧ rest.dropWhile isDigit = rest := by
    cases rest with
    | nil => exact ⟨rfl, rfl⟩
    | cons c rest =>
        have hc := (h c rfl).1
        rw [List.takeWhile_cons_of_neg (by simp [hc]), List.dropWhile_cons_of_neg (by simp [hc])]
        exact ⟨rfl, rfl⟩
  rw [spanDigits, List.takeWhile_append_of_pos hdigits, List.dropWhile_append_of_pos hdigits,
    hstop.1, hstop.2, List.append_nil]

theorem digitsValue_toDigits (n : Nat) :
  digitsValue (Nat.toDigits 10 n) = n
  := by
  have h := @Nat.ofDigitChars_eq_foldl 10 (Nat.toDigits 10 n) 0
  rw [Nat.ofDigitChars_ten_toDigits] at h
  apply h.symm

/-- No digits but those of 0 begin with a zero. -/
theorem head?_toDigits {n : Nat} (hn : 0 < n) :
  (Nat.toDigits 10 n).head? ≠ some '0'
  := by
  induction n using Nat.strongRecOn with
  | ind n ih =>
      rcases Nat.lt_or_ge n 10 with hlt | hge
      · have hdigit : ∀ m < 10, 0 < m → Nat.digitChar m ≠ '0' := by decide
        rw [Nat.toDigits_of_lt_base hlt, List.head?_cons, ne_eq, Option.some_inj]
        apply hdigit n hlt hn
      · rw [Nat.toDigits_of_base_le (by omega) hge,
          List.head?_append_of_ne_nil _ Nat.toDigits_ne_nil]
        apply ih (n / 10) (by omega) (by omega)

/-- Digits that begin with a zero are those of 0. -/
theorem toDigits_ne_zero_cons {n : Nat} {c : Char} {tail : List Char} :
  Nat.toDigits 10 n ≠ '0' :: c :: tail
  := by
  intro h
  rcases Nat.eq_zero_or_pos n with rfl | hn
  · cases h
  · apply head?_toDigits hn
    rw [h]
    rfl

/-- Digits where no number goes on give the number. -/
theorem scanUnsigned_toDigits (negative : Bool) (n : Nat) (h : Separated rest) :
  scanUnsigned negative (Nat.toDigits 10 n ++ rest) = some (⟨negative, n, 0, true⟩, rest)
  := by
  have hfraction : scanFraction rest = some ([], rest) := by
    cases rest with
    | nil => rfl
    | cons c rest =>
        have hc := (h c rfl).2.1
        unfold scanFraction
        split
        · next heq =>
          cases heq
          contradiction
        · rfl
  have hexponent : scanExponent rest = some (none, rest) := by
    cases rest with
    | nil => rfl
    | cons c rest =>
        obtain ⟨-, -, he, hE⟩ := h c rfl
        simp only [scanExponent, he, hE, or_self, if_false]
  have hvalue := digitsValue_toDigits n
  have hzero (c : Char) (tail : List Char) : Nat.toDigits 10 n ≠ '0' :: c :: tail :=
    toDigits_ne_zero_cons
  have hne : Nat.toDigits 10 n ≠ [] := Nat.toDigits_ne_nil
  rw [scanUnsigned, spanDigits_toDigits n h]
  generalize Nat.toDigits 10 n = digits at hvalue hzero hne
  split
  · next heq =>
    cases heq
    contradiction
  · next heq =>
    cases heq
    exact absurd rfl (hzero _ _)
  · next heq =>
    cases heq
    simp only [hfraction, hexponent, List.append_nil, hvalue, Option.getD_none, List.length_nil]
    rfl

theorem scanOne_of_digit {c : Char} (h : isDigit c = true) :
  scanOne (c :: cs) = (scanUnsigned false (c :: cs)).map fun p => (some (.number p.1), p.2)
  := by
  have hnumber : scanNumber (c :: cs) = scanUnsigned false (c :: cs) := by
    unfold scanNumber
    split
    · next heq =>
      cases heq
      cases h
    · rfl
  have hblank : isBlank c = false := by
    by_contra hblank
    simp only [isBlank, Bool.not_eq_false, Bool.or_eq_true, decide_eq_true_eq] at hblank
    rcases hblank with ((rfl | rfl) | rfl) | rfl <;> cases h
  -- No character that another token begins with is a digit.
  unfold scanOne
  split
  case h_12 heq =>
    cases heq
    rw [hblank, hnumber]
    rfl
  all_goals first
    | contradiction
    | next heq =>
      cases heq
      cases h

/-- The text of a whole number is cut into it where no number goes on. -/
theorem scanOne_numeralText {n : Numeral} (hintegral : n.integral = true) (hscale : n.scale = 0)
    (h : Separated rest) :
  scanOne (Json.numeralText n ++ rest) = some (some (.number n), rest)
  := by
  obtain ⟨negative, significand, scale, integral⟩ := n
  cases hintegral
  cases hscale
  have hdigits := scanUnsigned_toDigits negative significand h
  rw [Json.numeralText]
  simp only [if_true, List.append_nil]
  cases negative with
  | true =>
    simp only [if_true, List.cons_append, List.nil_append]
    have hsign : scanOne ('-' :: (Nat.toDigits 10 significand ++ rest))
        = (scanUnsigned true (Nat.toDigits 10 significand ++ rest)).map
            fun p => (some (.number p.1), p.2) := rfl
    rw [hsign, hdigits]
    rfl
  | false =>
    have hne : Nat.toDigits 10 significand ≠ [] := Nat.toDigits_ne_nil
    obtain ⟨c, tail, hcons⟩ := List.exists_cons_of_ne_nil hne
    have hdigit : isDigit c = true := by
      rw [isDigit_eq]
      apply Nat.isDigit_of_mem_toDigits (Nat.succ_pos 9) (Nat.le_refl 10) (n := significand)
      rw [hcons]
      apply List.mem_cons_self
    rw [hcons, List.cons_append] at hdigits
    simp only [Bool.false_eq_true, if_false, List.nil_append]
    rw [hcons, List.cons_append, scanOne_of_digit hdigit, hdigits]
    rfl

/-! ### Strings -/

/-- The characters that are escaped by a letter, the quote and the backslash by themselves. -/
def shortEscapes : List Char := ['"', '\\', '\x08', '\x0c', '\n', '\r', '\t']

/-- What a character of a string is read as. -/
def partOf (c : Char) : Part :=
  if c < ' ' ∧ c ∉ shortEscapes then .unit c.toNat else .char c

/-- The escape of a control character writes its number. -/
theorem unit?_digits {c : Char} (h : c < ' ') :
  unit? '0' '0' (Hex.digit (c.toNat / 16)) (Hex.digit (c.toNat % 16)) = some c.toNat
  := by
  have hunits : ∀ n < 32,
      unit? '0' '0' (Hex.digit (n / 16)) (Hex.digit (n % 16)) = some n := by
    decide
  apply hunits c.toNat h

/-- What is not escaped by a letter is escaped by its number if it is a control character. -/
theorem escape_of_not_mem {c : Char} (h : c ∉ shortEscapes) :
  Json.escape c
    = if c < ' ' then ['\\', 'u', '0', '0', Hex.digit (c.toNat / 16), Hex.digit (c.toNat % 16)]
      else [c]
  := by
  simp only [shortEscapes, List.mem_cons, List.not_mem_nil, or_false, not_or] at h
  obtain ⟨hquote, hbackslash, hb, hf, hn, hr, ht⟩ := h
  unfold Json.escape
  split
  all_goals first
    | contradiction
    | rfl

/-- The characters that a character is written in are read as that character. -/
theorem scanParts_escape (c : Char) (cs : List Char) :
  scanParts (Json.escape c ++ cs) = (scanParts cs).map fun p => (partOf c :: p.1, p.2)
  := by
  by_cases hshort : c ∈ shortEscapes
  · simp only [shortEscapes, List.mem_cons, List.not_mem_nil, or_false] at hshort
    rcases hshort with rfl | rfl | rfl | rfl | rfl | rfl | rfl <;>
    · rcases hrest : scanParts cs with _ | ⟨parts, rest⟩
      · simp [Json.escape, scanParts, escaped?, hrest]
      · simp [Json.escape, scanParts, escaped?, hrest, partOf, shortEscapes]
  · rw [escape_of_not_mem hshort, partOf]
    by_cases hcontrol : c < ' '
    · rw [if_pos hcontrol, if_pos ⟨hcontrol, hshort⟩]
      simp only [List.cons_append, List.nil_append, scanParts, unit?_digits hcontrol]
      cases scanParts cs <;> rfl
    · have hquote : c ≠ '"' := by
        rintro rfl
        apply hshort List.mem_cons_self
      have hbackslash : c ≠ '\\' := by
        rintro rfl
        apply hshort (List.mem_cons_of_mem _ List.mem_cons_self)
      rw [if_neg hcontrol, if_neg fun h => hcontrol h.1, List.singleton_append, scanParts]
      · rw [if_neg (not_or_intro hbackslash hcontrol)]
      all_goals simp_all

/-- The characters that a literal writes are its parts. -/
theorem scanParts_flatMap_escape (cs rest : List Char) :
  scanParts (cs.flatMap Json.escape ++ '"' :: rest) = some (cs.map partOf, rest)
  := by
  induction cs with
  | nil => rfl
  | cons c cs ih =>
      rw [List.flatMap_cons, List.append_assoc, scanParts_escape, ih]
      rfl

/-- A unit below the pairs is a character of its own. -/
theorem joinParts_unit {u : Nat} (h : u < 0xd800) (parts : List Part) :
  joinParts (.unit u :: parts) = (joinParts parts).map (Char.ofNat u :: ·)
  := by
  have hhigh : isHigh u = false := by
    simp only [isHigh, Bool.and_eq_false_iff, decide_eq_false_iff_not]
    omega
  have hlow : isLow u = false := by
    simp only [isLow, Bool.and_eq_false_iff, decide_eq_false_iff_not]
    omega
  cases parts with
  | nil => simp [joinParts, hhigh, hlow]
  | cons part parts =>
      cases part with
      | char c => simp [joinParts, hhigh, hlow]
      | unit v => simp [joinParts, hhigh, hlow]

theorem joinParts_partOf (c : Char) (parts : List Part) :
  joinParts (partOf c :: parts) = (joinParts parts).map (c :: ·)
  := by
  rw [partOf]
  split
  · next h =>
    have hcontrol : c.toNat < 32 := h.1
    rw [joinParts_unit (by omega), Char.ofNat_toNat]
  · rfl

/-- The parts of a string join to it. -/
theorem ofParts_map_partOf (cs : List Char) :
  ofParts (cs.map partOf) = .string (String.ofList cs)
  := by
  have hjoin : joinParts (cs.map partOf) = some cs := by
    induction cs with
    | nil => rfl
    | cons c cs ih => rw [List.map_cons, joinParts_partOf, ih, Option.map_some]
  rw [ofParts, hjoin]

/-- The literal of a string is one token, the string. -/
theorem scans_quote (s : String) (rest : List Char) :
  Scans (Json.quote s) [.string s] rest
  := by
  have hscan : scanOne (Json.quote s ++ rest) = some (some (.string s), rest) := by
    rw [Json.quote, List.cons_append, List.append_assoc, List.singleton_append, scanOne,
      scanParts_flatMap_escape, Option.map_some]
    dsimp only
    rw [ofParts_map_partOf, String.ofList_toList]
  apply scans_of_scanOne (List.cons_ne_nil _ _) hscan

/-! ### Values -/

/-- A character that is a token by itself stands before the other tokens. -/
theorem Scans.cons {c : Char} (hone : scanOne (c :: (cs ++ rest)) = some (some t, cs ++ rest))
    (h : Scans cs ts rest) :
  Scans (c :: cs) (t :: ts) rest
  := by
  have hc : Scans [c] [t] (cs ++ rest) := scans_of_scanOne (List.cons_ne_nil c []) hone
  apply hc.append h

/-- The text of a member begins with its key and the colon. -/
theorem Scans.member (name : String) (h : Scans cs ts rest) :
  Scans (Json.keyText (.text name) ++ ':' :: cs) (Json.keyToken (.text name) :: .colon :: ts) rest
  := by
  apply (scans_quote name _).append (h.cons rfl)

/-- The text after an element does not go on with it. -/
theorem separated_renderElements (elements : List Json) (rest : List Char) :
  Separated (Json.renderElements elements ++ rest)
  := by
  intro c hc
  cases elements <;>
  · cases hc
    decide

/-- The text after a member does not go on with it. -/
theorem separated_renderMembers (members : List (Key × Json)) (rest : List Char) :
  Separated (Json.renderMembers members ++ rest)
  := by
  intro c hc
  cases members <;>
  · cases hc
    decide

mutual

/-- The text of a value is cut into the tokens of the value. -/
theorem scans_render (json : Json) (rest : List Char) (hplain : json.plain = true)
    (hsep : Separated rest) :
  Scans json.render json.tokens rest
  := by
  match json with
  | .null => apply scans_of_scanOne (List.cons_ne_nil _ _) rfl
  | .bool true => apply scans_of_scanOne (List.cons_ne_nil _ _) rfl
  | .bool false => apply scans_of_scanOne (List.cons_ne_nil _ _) rfl
  | .number n =>
      rw [Json.plain, Bool.and_eq_true, beq_iff_eq] at hplain
      have hscan := scanOne_numeralText hplain.1 hplain.2 hsep
      have hne : Json.numeralText n ≠ [] := by
        simp [Json.numeralText, Nat.toDigits_ne_nil]
      apply scans_of_scanOne hne hscan
  | .string s => apply scans_quote s rest
  | .array [] => apply (scans_of_scanOne (List.cons_ne_nil _ _) rfl).cons rfl
  | .array (v :: elements) =>
      rw [Json.plain, Json.plainElements, Bool.and_eq_true] at hplain
      have hv := scans_render v _ hplain.1 (separated_renderElements elements rest)
      have helements := scans_renderElements elements rest hplain.2
      apply (hv.append helements).cons rfl
  | .object [] => apply (scans_of_scanOne (List.cons_ne_nil _ _) rfl).cons rfl
  | .object ((.text name, v) :: members) =>
      rw [Json.plain, Json.plainMembers, Bool.and_eq_true] at hplain
      have hv := scans_render v _ hplain.1 (separated_renderMembers members rest)
      have hmembers := scans_renderMembers members rest hplain.2
      apply ((hv.append hmembers).member name).cons rfl

/-- The text of the elements after the first is cut into their tokens. -/
theorem scans_renderElements (elements : List Json) (rest : List Char)
    (hplain : Json.plainElements elements = true) :
  Scans (Json.renderElements elements) (Json.elementTokens elements) rest
  := by
  match elements with
  | [] => apply scans_of_scanOne (List.cons_ne_nil _ _) rfl
  | v :: elements =>
      rw [Json.plainElements, Bool.and_eq_true] at hplain
      have hv := scans_render v _ hplain.1 (separated_renderElements elements rest)
      have helements := scans_renderElements elements rest hplain.2
      apply (hv.append helements).cons rfl

/-- The text of the members after the first is cut into their tokens. -/
theorem scans_renderMembers (members : List (Key × Json)) (rest : List Char)
    (hplain : Json.plainMembers members = true) :
  Scans (Json.renderMembers members) (Json.memberTokens members) rest
  := by
  match members with
  | [] => apply scans_of_scanOne (List.cons_ne_nil _ _) rfl
  | (.text name, v) :: members =>
      rw [Json.plainMembers, Bool.and_eq_true] at hplain
      have hv := scans_render v _ hplain.1 (separated_renderMembers members rest)
      have hmembers := scans_renderMembers members rest hplain.2
      apply ((hv.append hmembers).member name).cons rfl

end

/-- The text of a value alone is cut into the tokens of the value. -/
theorem scan_toText {json : Json} (hplain : json.plain = true) :
  scan json.toText.toList = json.tokens
  := by
  have hsep : Separated [] := by
    intro c hc
    cases hc
  rw [Json.toText, String.toList_ofList]
  apply (scans_render json [] hplain hsep).scan_eq_tokens

end Token

end PieceStream
