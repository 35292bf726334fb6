import PieceStream.Source.Failure

/-!
# Failures of reading

Reading a piece fails where a source fails or an item is too short.  A reader that has failed
once fails ever after.
-/

namespace PieceStream

/-- Why reading a piece failed. -/
inductive ReadError where
  /-- The source of a run could not be found. -/
  | sourceUnavailable (source : SourceId) (cause : SourceError)
  /-- An item could not be opened or read. -/
  | sourceReadFailure (path : String) (cause : SourceError)
  /-- An item ended within a payload. -/
  | unexpectedEnd (path : String) (itemOffset : Nat)
  /-- A position beyond the end of the piece. -/
  | seekOutOfRange (offset size : Nat)
  /-- An earlier read has failed. -/
  | poisoned
  deriving DecidableEq, Repr

namespace ReadError

/-- The wording of a read error. -/
def message : ReadError → String
  | .sourceUnavailable source _ => "failed to get handler for " ++ source.label
  | .sourceReadFailure path _ => "failed to read item " ++ path
  | .unexpectedEnd path itemOffset =>
    s!"item {path} ended at offset {itemOffset} before the block payload was complete"
  | .seekOutOfRange offset size => s!"offset {offset} is past the end of the piece ({size} bytes)"
  | .poisoned => "reader is unusable after an earlier failure"

/-- The source failure behind a read error. -/
def cause? : ReadError → Option SourceError
  | .sourceUnavailable _ cause => some cause
  | .sourceReadFailure _ cause => some cause
  | _ => none

/-- The wordings of what is behind a read error, the nearest first. -/
def causes (e : ReadError) : List String :=
  match e.cause? with
  | some cause => cause.message :: cause.causes
  | none => []

/-- The kind of storage failure that a read error counts as. -/
def ioKind : ReadError → IoErrorKind
  | .unexpectedEnd _ _ => .unexpectedEof
  | .seekOutOfRange _ _ => .invalidInput
  | _ => .other

end ReadError

/-- Why a seek failed. -/
inductive SeekError where
  /-- The position is negative or no word. -/
  | invalidPosition
  | outOfReach (error : ReadError)
  deriving DecidableEq, Repr

namespace SeekError

/-- The wording of a seek error. -/
def message : SeekError → String
  | .invalidPosition => "invalid seek to a negative or overflowing position"
  | .outOfReach error => error.message

/-- The kind of storage failure that a seek error counts as. -/
def ioKind : SeekError → IoErrorKind
  | .invalidPosition => .invalidInput
  | .outOfReach error => error.ioKind

end SeekError

end PieceStream
