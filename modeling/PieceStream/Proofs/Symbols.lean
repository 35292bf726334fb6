import PieceStream.Bytes.Base64

/-!
# Base64 there and back

What is written in base64 is read back, whatever the bytes and however many there are: the symbols
of a byte string come in groups of four, only the last of which may hold padding, and each group
writes the bytes that it was written for.
-/

namespace PieceStream.Base64

/-- The bytes of a byte array are those of its data. -/
theorem toList_loop_eq (bs : ByteArray) (i : Nat) (read : List UInt8) :
  ByteArray.toList.loop bs i read = read.reverse ++ bs.data.toList.drop i
  := by
  induction hrest : bs.size - i generalizing i read with
  | zero =>
      have hend : bs.data.toList.length ≤ i := by
        rw [Array.length_toList, ByteArray.size_data]
        omega
      rw [ByteArray.toList.loop, if_neg (by omega), List.drop_eq_nil_of_le hend, List.append_nil]
  | succ rest ih =>
      have hlt : i < bs.data.toList.length := by
        rw [Array.length_toList, ByteArray.size_data]
        omega
      have hget : bs.get! i = bs.data.toList[i] := by
        rw [Array.getElem_toList]
        apply getElem!_pos
      rw [ByteArray.toList.loop, if_pos (by omega), ih (i + 1) _ (by omega), hget,
        List.reverse_cons, List.append_assoc, List.drop_eq_getElem_cons hlt]
      rfl

/-- A character below 128 is written in one byte. -/
theorem utf8EncodeChar_ofNat {n : Nat} (h : n < 128) :
  String.utf8EncodeChar (Char.ofNat n) = [UInt8.ofNat n]
  := by
  revert n
  decide

/-- A text of characters below 128 is written in one byte for each of them. -/
theorem toUTF8_ofList (bs : Bytes) (h : ∀ b ∈ bs, b.toNat < 128) :
  (String.ofList (bs.map fun b => Char.ofNat b.toNat)).toUTF8.toList = bs
  := by
  have hencode : (bs.map fun b => Char.ofNat b.toNat).flatMap String.utf8EncodeChar = bs := by
    induction bs with
    | nil => rfl
    | cons b bs ih =>
        rw [List.map_cons, List.flatMap_cons, ih fun b hb => h b (List.mem_cons_of_mem _ hb),
          utf8EncodeChar_ofNat (h b List.mem_cons_self), UInt8.ofNat_toNat]
        rfl
  rw [String.toUTF8_eq_toByteArray, String.toByteArray_ofList, ByteArray.toList, toList_loop_eq,
    List.utf8Encode, List.toList_data_toByteArray, hencode]
  rfl

/-! ### Symbols -/

theorem value?_symbol {value : Nat} (h : value < 64) :
  value? (symbol value) = some value
  := by
  revert value
  decide

/-- No symbol is padding, and every symbol is below 128. -/
theorem symbol_bounds {value : Nat} (h : value < 64) :
  symbol value ≠ pad ∧ (symbol value).toNat < 128
  := by
  revert value
  decide

theorem valueAt_symbol {value : Nat} (h : value < 64) (offset : Nat) :
  valueAt (symbol value) offset = .ok value
  := by
  rw [valueAt, value?_symbol h]

/-- The bytes that a byte string is written in are below 128. -/
theorem lt_of_mem_symbols {bs : Bytes} {b : UInt8} (h : b ∈ symbols bs) :
  b.toNat < 128
  := by
  have hpad : pad.toNat < 128 := by decide
  induction bs using symbols.induct with
  | case1 => cases h
  | case2 a =>
      have ha := a.toNat_lt
      simp only [symbols, List.mem_cons, List.not_mem_nil, or_false] at h
      rcases h with rfl | rfl | rfl | rfl
      · apply (symbol_bounds (by omega)).2
      · apply (symbol_bounds (by omega)).2
      · apply hpad
      · apply hpad
  | case3 a c =>
      have ha := a.toNat_lt
      have hc := c.toNat_lt
      simp only [symbols, List.mem_cons, List.not_mem_nil, or_false] at h
      rcases h with rfl | rfl | rfl | rfl
      · apply (symbol_bounds (by omega)).2
      · apply (symbol_bounds (by omega)).2
      · apply (symbol_bounds (by omega)).2
      · apply hpad
  | case4 a c d rest ih =>
      have ha := a.toNat_lt
      have hc := c.toNat_lt
      have hd := d.toNat_lt
      simp only [symbols, List.mem_cons] at h
      rcases h with rfl | rfl | rfl | rfl | h
      · apply (symbol_bounds (by omega)).2
      · apply (symbol_bounds (by omega)).2
      · apply (symbol_bounds (by omega)).2
      · apply (symbol_bounds (by omega)).2
      · apply ih h

/-- Symbols and padding come in groups of four. -/
theorem length_symbols (bs : Bytes) :
  (symbols bs).length % 4 = 0
  := by
  induction bs using symbols.induct with
  | case1 => rfl
  | case2 a => simp only [symbols, List.length_cons, List.length_nil]
  | case3 a b => simp only [symbols, List.length_cons, List.length_nil]
  | case4 a b c rest ih =>
      simp only [symbols, List.length_cons]
      omega

/-! ### Groups -/

/-- A symbol of the last group is read. -/
theorem decodeTail_symbol {value : Nat} (h : value < 64) (offset : Nat) (values : List Nat)
    (last : UInt8) (rest : Bytes) :
  decodeTail offset values last 0 (symbol value :: rest)
    = decodeTail offset (values ++ [value]) (symbol value) 0 rest
  := by
  rw [decodeTail, if_neg (symbol_bounds h).1, if_neg (Nat.lt_irrefl 0), valueAt_symbol h]

/-- Padding behind two symbols is read. -/
theorem decodeTail_pad {values : List Nat} {pads : Nat} (h : 2 ≤ values.length + pads)
    (offset : Nat) (last : UInt8) (rest : Bytes) :
  decodeTail offset values last pads (pad :: rest)
    = decodeTail offset values last (pads + 1) rest
  := by
  rw [decodeTail, if_pos rfl, if_neg (Nat.not_lt_of_le h)]

/-- Four symbols write three bytes. -/
theorem joinFour_values (a b c : UInt8) :
  joinFour (a.toNat / 4) (a.toNat % 4 * 16 + b.toNat / 16) (b.toNat % 16 * 4 + c.toNat / 64)
      (c.toNat % 64)
    = [a, b, c]
  := by
  have hb := b.toNat_lt
  have hc := c.toNat_lt
  have hfirst : a.toNat / 4 * 4 + (a.toNat % 4 * 16 + b.toNat / 16) / 16 = a.toNat := by omega
  have hsecond : (a.toNat % 4 * 16 + b.toNat / 16) % 16 * 16
      + (b.toNat % 16 * 4 + c.toNat / 64) / 4 = b.toNat := by omega
  have hthird : (b.toNat % 16 * 4 + c.toNat / 64) % 4 * 64 + c.toNat % 64 = c.toNat := by omega
  rw [joinFour, hfirst, hsecond, hthird, UInt8.ofNat_toNat, UInt8.ofNat_toNat, UInt8.ofNat_toNat]

/-- A last group of one byte is read. -/
theorem decodeTail_one (offset : Nat) (a : UInt8) :
  decodeTail offset [] pad 0 (symbols [a]) = .ok [a]
  := by
  have ha := a.toNat_lt
  have hvalue : a.toNat / 4 * 4 + a.toNat % 4 * 16 / 16 = a.toNat := by omega
  rw [symbols, decodeTail_symbol (by omega), decodeTail_symbol (by omega),
    decodeTail_pad (Nat.le_refl 2), decodeTail_pad (Nat.le_succ 2), decodeTail]
  simp only [List.nil_append, List.cons_append, joinTail, ne_eq, not_true_eq_false, if_false,
    Nat.mul_mod_left, hvalue, UInt8.ofNat_toNat]

/-- A last group of two bytes is read. -/
theorem decodeTail_two (offset : Nat) (a b : UInt8) :
  decodeTail offset [] pad 0 (symbols [a, b]) = .ok [a, b]
  := by
  have ha := a.toNat_lt
  have hb := b.toNat_lt
  have hfirst : a.toNat / 4 * 4 + (a.toNat % 4 * 16 + b.toNat / 16) / 16 = a.toNat := by omega
  have hsecond : (a.toNat % 4 * 16 + b.toNat / 16) % 16 * 16 + b.toNat % 16 * 4 / 4
      = b.toNat := by omega
  rw [symbols, decodeTail_symbol (by omega), decodeTail_symbol (by omega),
    decodeTail_symbol (by omega), decodeTail_pad (Nat.le_succ 2), decodeTail]
  simp only [List.nil_append, List.cons_append, joinTail, ne_eq, not_true_eq_false, if_false,
    Nat.mul_mod_left, hfirst, hsecond, UInt8.ofNat_toNat]

/-- The groups of a byte string write its bytes. -/
theorem decodeGroups_symbols (offset : Nat) (bs : Bytes) :
  decodeGroups offset (symbols bs) = .ok bs
  := by
  induction bs using symbols.induct generalizing offset with
  | case1 => rfl
  | case2 a => apply decodeTail_one
  | case3 a b => apply decodeTail_two
  | case4 a b c rest ih =>
      have ha := a.toNat_lt
      have hb := b.toNat_lt
      have hc := c.toNat_lt
      have hrest := ih (offset + 4)
      rw [symbols]
      cases htail : symbols rest with
      | nil =>
          rw [htail] at hrest
          cases hrest
          rw [decodeGroups, decodeTail_symbol (by omega), decodeTail_symbol (by omega),
            decodeTail_symbol (by omega), decodeTail_symbol (by omega), decodeTail]
          · simp only [List.nil_append, List.cons_append, joinTail, joinFour_values]
          · simp
      | cons e tail =>
          rw [htail] at hrest
          rw [decodeGroups, valueAt_symbol (by omega), valueAt_symbol (by omega),
            valueAt_symbol (by omega), valueAt_symbol (by omega), hrest]
          simp only [bind, Except.bind, pure, Except.pure, joinFour_values]
          rfl

/-- What is written in base64 is read back. -/
theorem decode_encode (bs : Bytes) :
  decode (encode bs) = .ok bs
  := by
  have hstray : strayByte? (symbols bs) = none := by
    rw [strayByte?]
    split
    · rw [if_neg]
      rw [length_symbols]
      omega
    · rfl
  rw [decode, encode, toUTF8_ofList (symbols bs) fun b hb => lt_of_mem_symbols hb, decodeSymbols,
    hstray]
  apply decodeGroups_symbols

end PieceStream.Base64
