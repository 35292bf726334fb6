import PieceStream.Source.Disk

/-!
# Opening files call by call

To open an item on disk takes calls to the system: the file is opened, measured, and moved to the
start of the range.  A path that names no item makes no call, and a failure ends the calls.  Either
the caller waits for each call, or a task makes it and goes on once it is answered.  What has been
opened is a file with a limit of what may still be read of it.
-/

namespace PieceStream

/-- A call to the system. -/
inductive FileCall where
  /-- Opens the file that these names lead to. -/
  | openFile (file : List String)
  /-- Asks for the size of the open file. -/
  | measure
  /-- Goes to an offset of the open file. -/
  | moveTo (offset : Nat)
  deriving DecidableEq, Repr

/-- An open file, or directory, and the offset that is read next. -/
structure FileHandle where
  place : List String
  node : FileNode
  position : Nat
  deriving DecidableEq, Repr

/-- An open file of which at most `left` bytes may still be read. -/
structure FileRange where
  handle : FileHandle
  left : Nat
  deriving DecidableEq, Repr

namespace FileHandle

/-- Refuses a range that starts beyond the end of a file.  The size that a directory has differs
between file systems and is left out, so a range of a directory passes wherever it starts; nothing
is ever read of it. -/
def checkStart (handle : FileHandle) (path : String) (offset : Nat) : Except SourceError Unit :=
  match handle.node with
  | .file data =>
    if data.length < offset then .error (.rangeOutOfBounds path offset data.length) else .ok ()
  | .directory => .ok ()

/-- Goes to an offset. -/
def moveTo (handle : FileHandle) (offset : Nat) : FileHandle := { handle with position := offset }

/-- Reads at most `n` bytes and moves behind them. -/
def read (handle : FileHandle) (n : Nat) : Except IoError Bytes × FileHandle :=
  match handle.node with
  | .file data =>
    let portion := (data.drop handle.position).take n
    (.ok portion, handle.moveTo (handle.position + portion.length))
  | .directory => (if n = 0 then .ok [] else .error ItemStream.directoryError, handle)

end FileHandle

namespace FileRange

/-- Asks for at most `n` bytes.  At the limit the file is not asked any more. -/
def read (range : FileRange) (n : Nat) : Except IoError Bytes × FileRange :=
  if range.left = 0 then (.ok [], range)
  else
    match range.handle.read (min n range.left) with
    | (.ok portion, handle) => (.ok portion, ⟨handle, range.left - portion.length⟩)
    | (.error error, handle) => (.error error, ⟨handle, range.left⟩)

/-- The stream of the bytes within the limit. -/
def stream (range : FileRange) : ItemStream :=
  match range.handle.node with
  | .file data => .buffer ((data.drop range.handle.position).take range.left)
  | .directory => .directory range.left

end FileRange

namespace DiskSource

/-! ### Files of items -/

/-- Adds the names among components to a path. -/
def pushNames (file : List String) : List Path.Component → Except String (List String)
  | [] => .ok file
  | .name text :: rest => pushNames (file ++ [text]) rest
  | .current :: rest => pushNames file rest
  | .parent :: _ | .root :: _ => .error Path.outsideMessage

/-- The file of an item.  That it is not the root itself is seen when it is known. -/
def filePath (source : DiskSource) (path : String) : Except SourceError (List String) :=
  match pushNames source.root (Path.components path) with
  | .error message => .error (.invalidPath path message)
  | .ok file =>
    if file = source.root then .error (.invalidPath path Path.emptyMessage) else .ok file

/-- Opens a file below the root, which itself has been found before. -/
def openFile (source : DiskSource) (file : List String) : Except IoError FileHandle :=
  match source.tree.find (source.tree.pathText file) source.root
      (file.drop source.root.length) with
  | .error error => .error error
  | .ok (place, node) => .ok ⟨place, node, 0⟩

/-- What it means for an item that its file cannot be opened. -/
def openingFailure (path : String) (error : IoError) : SourceError :=
  if error.kind = .notFound then .itemNotFound path else .io error

/-! ### Waiting for each call -/

/-- Opens at most `length` bytes of a file from `offset` on, with the calls that this takes. -/
def openWaiting (source : DiskSource) (path : String) (offset length : Nat) :
    Except SourceError FileRange × List FileCall :=
  match source.filePath path with
  | .error error => (.error error, [])
  | .ok file =>
    match source.openFile file with
    | .error error => (.error (openingFailure path error), [.openFile file])
    | .ok handle =>
      match handle.checkStart path offset with
      | .error error => (.error error, [.openFile file, .measure])
      | .ok () =>
        (.ok ⟨handle.moveTo offset, length⟩, [.openFile file, .measure, .moveTo offset])

end DiskSource

/-! ### Going on when a call is answered -/

/-- Where a task stands that opens an item. -/
inductive OpeningTask where
  /-- The file is being opened. -/
  | opening (file : List String)
  /-- The open file is being measured. -/
  | measuring (handle : FileHandle)
  /-- The open file is being moved to the start of the range. -/
  | moving (handle : FileHandle)
  | finished (outcome : Except SourceError FileRange)

namespace OpeningTask

/-- What has come of the task. -/
def outcome? : OpeningTask → Option (Except SourceError FileRange)
  | .finished outcome => some outcome
  | _ => none

variable (source : DiskSource) (path : String) (offset length : Nat)

/-- A new task, with the call that it makes. -/
def start : OpeningTask × List FileCall :=
  match source.filePath path with
  | .error error => (.finished (.error error), [])
  | .ok file => (.opening file, [.openFile file])

/-- Goes on with a task whose call is answered, up to the next call. -/
def resume : OpeningTask → OpeningTask × List FileCall
  | .opening file =>
    match source.openFile file with
    | .error error => (.finished (.error (DiskSource.openingFailure path error)), [])
    | .ok handle => (.measuring handle, [.measure])
  | .measuring handle =>
    match handle.checkStart path offset with
    | .error error => (.finished (.error error), [])
    | .ok () => (.moving handle, [.moveTo offset])
  | .moving handle => (.finished (.ok ⟨handle.moveTo offset, length⟩), [])
  | .finished outcome => (.finished outcome, [])

/-- Polls a task again and again.  Each time its call is answered or still pending. -/
def poll : OpeningTask → List Bool → OpeningTask × List FileCall
  | task, [] => (task, [])
  | task, false :: polls => poll task polls
  | task, true :: polls =>
    let (next, calls) := resume source path offset length task
    let (last, later) := poll next polls
    (last, calls ++ later)

end OpeningTask

/-- Opens at most `length` bytes of a file from `offset` on by a task that is polled, with the calls
that the task has made by then. -/
def DiskSource.openPolled (source : DiskSource) (path : String) (offset length : Nat)
    (polls : List Bool) : Option (Except SourceError FileRange) × List FileCall :=
  let (task, calls) := OpeningTask.start source path
  let (last, later) := OpeningTask.poll source path offset length task polls
  (last.outcome?, calls ++ later)

end PieceStream
