import PieceStream.Source.Item

/-!
# Failures of sources

A source fails to be found, to open a range of an item, or to deliver bytes.  Each failure is
a cause with a wording; a failure of the storage keeps the failure that it wraps.
-/

namespace PieceStream

/-- The kinds of storage failure that make a difference. -/
inductive IoErrorKind where
  | notFound
  | interrupted
  | invalidInput
  | unexpectedEof
  | other
  deriving DecidableEq, Repr

/-- A failure of the storage. -/
structure IoError where
  kind : IoErrorKind
  message : String
  deriving DecidableEq, Repr

/-- A failure of a source. -/
inductive SourceError where
  | unknownSource (source : SourceId)
  | itemNotFound (path : String)
  /-- The range starts beyond the end of the item. -/
  | rangeOutOfBounds (path : String) (offset size : Nat)
  /-- The path names no item. -/
  | invalidPath (path message : String)
  /-- The root of a source on disk cannot be used. -/
  | rootPathInvalid (path : String) (error : IoError)
  | io (error : IoError)
  /-- A failure on the way to the storage. -/
  | transport (message : String)
  deriving DecidableEq, Repr

/-- Whether the same call may simply be made again. -/
def IoError.isInterruption (e : IoError) : Bool := e.kind == .interrupted

/-- The wording of a source failure. -/
def SourceError.message : SourceError → String
  | .unknownSource source => "no source registered for " ++ source.label
  | .itemNotFound path => "item not found: " ++ path
  | .rangeOutOfBounds path offset size =>
    s!"offset {offset} is out of bounds for item {path} ({size} bytes)"
  | .invalidPath path message => s!"invalid item path {path}: {message}"
  | .rootPathInvalid path error =>
    s!"an error occurred trying to use the root path {path}: {error.message}"
  | .io error => "i/o error: " ++ error.message
  | .transport message => "transport error: " ++ message

/-- The wordings of what a source failure wraps. -/
def SourceError.causes : SourceError → List String
  | .io error => [error.message]
  | _ => []

end PieceStream
