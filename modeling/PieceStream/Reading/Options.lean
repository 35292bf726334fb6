import PieceStream.Json.Text
import PieceStream.Piece.Block

/-!
# Reader options

A stream is opened for a run and serves the entries after the one that needs it.  The options
say how far it shall reach.
-/

namespace PieceStream

/-- How far an opened stream shall reach. -/
inductive ReadAhead where
  /-- To the last payload byte that the rest of the run needs. -/
  | runEnd
  /-- To the end of the item. -/
  | itemEnd
  deriving DecidableEq, Repr

/-- The options of a reader. -/
structure ReadOptions where
  readAhead : ReadAhead
  deriving DecidableEq, Repr

namespace ReadAhead

/-- The length to ask for when entry `entry` of a run needs a stream from `itemOffset` on. -/
def lengthToAsk (readAhead : ReadAhead) (run : ItemRun) (entry itemOffset : Nat) : Nat :=
  match readAhead with
  | .runEnd => run.furthestNeed entry - itemOffset
  | .itemEnd => max run.item.size.toNat (run.furthestNeed entry) - itemOffset

/-- The name of a setting. -/
def name : ReadAhead → String
  | .runEnd => "run_end"
  | .itemEnd => "item_end"

/-- The setting of that name. -/
def ofName (name : String) : Except Json.Fault ReadAhead :=
  match name with
  | "run_end" => .ok .runEnd
  | "item_end" => .ok .itemEnd
  | other => Json.reject (.unknownVariant other)

/-- The outcome of reading a value that is neither a name nor an object with one member. -/
def unfit {α : Type} (origin : Json.Origin) (reason : Json.Misfit) : Except Json.Fault α :=
  match origin with
  | .text => .error .malformed
  | .held => Json.reject reason

/-- Reads a setting: its name, or an object whose one member has that name and is null. -/
def ofJson (origin : Json.Origin) : Json → Except Json.Fault ReadAhead
  | .string name => ofName name
  | .object ((key, value) :: rest) => do
    if origin = .held ∧ rest ≠ [] then Json.reject .invalidValue
    let readAhead ←
      match key with
      | .text name => ofName name
      | .misplaced => Json.reject .invalidType
      | .unpaired | .broken => .error .malformed
    match value with
    | .null => pure ()
    | other => other.mistyped
    if rest ≠ [] then throw .malformed
    return readAhead
  | .object [] => unfit origin .invalidValue
  | _ => unfit origin .invalidType

end ReadAhead

namespace ReadOptions

/-- The options that hold where none are given. -/
def standard : ReadOptions := ⟨.runEnd⟩

/-- Options are written as a record. -/
def toJson (options : ReadOptions) : Json :=
  .ofMembers [("read_ahead", .string options.readAhead.name)]

/-- The fields of the options. -/
def fields (origin : Json.Origin) : List (Json.Field (Option ReadAhead)) :=
  [⟨"read_ahead", true, (·.isSome), fun json _ => some <$> ReadAhead.ofJson origin json⟩]

/-- Reads options; a missing setting is the standard one. -/
def ofJson (origin : Json.Origin) (json : Json) : Except Json.Fault ReadOptions := do
  let readAhead ← Json.record origin (fields origin) none json
  return ⟨readAhead.getD standard.readAhead⟩

end ReadOptions

end PieceStream
