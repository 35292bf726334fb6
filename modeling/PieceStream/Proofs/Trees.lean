import PieceStream.Json.Tree
import PieceStream.Proofs.Tokens

/-!
# The tree of a text

The tokens of a value are read back as the value, whatever is open around it and whatever follows.
With the text cut into those tokens, the text that is written for a value describes the value.
-/

namespace PieceStream.Json

/-- What is read after a step where `rest` is left. -/
def Step.resume (rest : List Token) : Step → Json × List Token
  | .done value => (value, rest)
  | .more place frames => readTokens rest place frames

theorem readTokens_cons (token : Token) (rest : List Token) (place : Place) (frames : List Frame) :
  readTokens (token :: rest) place frames = (step token place frames).resume rest
  := by
  rw [readTokens]
  cases step token place frames <;> rfl

/-- No value begins as an array ends. -/
theorem readTokens_firstElement (json : Json) (rest : List Token) (frames : List Frame) :
  readTokens (json.tokens ++ rest) .firstElement frames
    = readTokens (json.tokens ++ rest) .value (.array [] :: frames)
  := by
  unfold tokens
  split <;> rfl

/-- The key of a member and the colon are read before its value. -/
theorem readTokens_member (name : String) (before : List (Key × Json)) (rest : List Token)
    (frames : List Frame) :
  readTokens (keyToken (.text name) :: .colon :: rest) (.laterKey before) frames
    = readTokens rest .value (.object before (.text name) :: frames)
  := by
  calc readTokens (keyToken (.text name) :: .colon :: rest) (.laterKey before) frames
    _ = readTokens (.colon :: rest) (.colon before (.text name)) frames := readTokens_cons _ _ _ _
    _ = readTokens rest .value (.object before (.text name) :: frames) := readTokens_cons _ _ _ _

/-- The first key is read as a later one is. -/
theorem readTokens_firstKey (name : String) (rest : List Token) (frames : List Frame) :
  readTokens (keyToken (.text name) :: rest) .firstKey frames
    = readTokens (keyToken (.text name) :: rest) (.laterKey []) frames
  := by
  rw [readTokens_cons, readTokens_cons]
  rfl

mutual

/-- The tokens of a value are read as the value. -/
theorem readTokens_tokens (json : Json) (rest : List Token) (frames : List Frame)
    (hplain : json.plain = true) :
  readTokens (json.tokens ++ rest) .value frames = (complete json frames).resume rest
  := by
  match json with
  | .null => apply readTokens_cons _ rest _ frames
  | .bool _ => apply readTokens_cons _ rest _ frames
  | .number _ => apply readTokens_cons _ rest _ frames
  | .string _ => apply readTokens_cons _ rest _ frames
  | .array [] => apply (readTokens_cons _ _ _ _).trans (readTokens_cons _ rest _ frames)
  | .array (v :: elements) =>
      rw [plain, plainElements, Bool.and_eq_true] at hplain
      have hv := readTokens_tokens v (elementTokens elements ++ rest) (.array [] :: frames) hplain.1
      have helements := readTokens_elementTokens elements [v] rest frames hplain.2
      -- The first element is read where the array may also end, the later ones behind a comma.
      rw [tokens, List.cons_append, readTokens_cons, List.append_assoc]
      apply (readTokens_firstElement v _ frames).trans (hv.trans helements)
  | .object [] => apply (readTokens_cons _ _ _ _).trans (readTokens_cons _ rest _ frames)
  | .object ((.text name, v) :: members) =>
      rw [plain, plainMembers, Bool.and_eq_true] at hplain
      have hv := readTokens_tokens v (memberTokens members ++ rest)
        (.object [] (.text name) :: frames) hplain.1
      have hmembers := readTokens_memberTokens members [(.text name, v)] rest frames hplain.2
      rw [tokens, List.cons_append, readTokens_cons, List.cons_append, List.cons_append,
        List.append_assoc]
      apply (readTokens_firstKey name _ frames).trans
      apply (readTokens_member name [] _ frames).trans
      apply hv.trans hmembers

/-- The tokens of the elements after the first ones are read behind them. -/
theorem readTokens_elementTokens (elements before : List Json) (rest : List Token)
    (frames : List Frame) (hplain : plainElements elements = true) :
  readTokens (elementTokens elements ++ rest) (.afterElement before) frames
    = (complete (.array (before.reverse ++ elements)) frames).resume rest
  := by
  match elements with
  | [] =>
      rw [List.append_nil]
      apply readTokens_cons _ rest _ frames
  | v :: elements =>
      rw [plainElements, Bool.and_eq_true] at hplain
      have hv := readTokens_tokens v (elementTokens elements ++ rest) (.array before :: frames)
        hplain.1
      have helements := readTokens_elementTokens elements (v :: before) rest frames hplain.2
      rw [List.reverse_cons, List.append_assoc, List.singleton_append] at helements
      rw [elementTokens, List.cons_append, readTokens_cons, List.append_assoc]
      apply hv.trans helements

/-- The tokens of the members after the first ones are read behind them. -/
theorem readTokens_memberTokens (members before : List (Key × Json)) (rest : List Token)
    (frames : List Frame) (hplain : plainMembers members = true) :
  readTokens (memberTokens members ++ rest) (.afterMember before) frames
    = (complete (.object (before.reverse ++ members)) frames).resume rest
  := by
  match members with
  | [] =>
      rw [List.append_nil]
      apply readTokens_cons _ rest _ frames
  | (.text name, v) :: members =>
      rw [plainMembers, Bool.and_eq_true] at hplain
      have hv := readTokens_tokens v (memberTokens members ++ rest)
        (.object before (.text name) :: frames) hplain.1
      have hmembers :=
        readTokens_memberTokens members ((.text name, v) :: before) rest frames hplain.2
      rw [List.reverse_cons, List.append_assoc, List.singleton_append] at hmembers
      rw [memberTokens, List.cons_append, readTokens_cons, List.cons_append, List.cons_append,
        List.append_assoc]
      apply (readTokens_member name before _ frames).trans
      apply hv.trans hmembers

end

/-- The text of a value describes the value and nothing else. -/
theorem Document.ofText_toText {json : Json} (hplain : json.plain = true) :
  Document.ofText json.toText = ⟨json, true⟩
  := by
  have hread := readTokens_tokens json [] [] hplain
  rw [List.append_nil] at hread
  rw [Document.ofText, Token.scan_toText hplain, hread]
  rfl

end PieceStream.Json
