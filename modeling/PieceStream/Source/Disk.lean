import PieceStream.Source.FileTree
import PieceStream.Source.Stream

/-!
# Sources on disk

The items of a source on disk are the files below a root directory.  An item path can only
name something strictly below the root: other paths are refused before any file is looked at.
-/

namespace PieceStream

/-- A source whose items are files below a directory. -/
structure DiskSource where
  tree : FileTree
  /-- The names that lead to the root. -/
  root : List String
  deriving DecidableEq, Repr

namespace DiskSource

/-- The failure to use a file as a root. -/
def rootIsNoDirectory : IoError := ⟨.other, "Root path must be a directory."⟩

/-- The source whose root is at `path`, relative to the top of the tree. -/
def atRoot (tree : FileTree) (path : String) : Except SourceError DiskSource :=
  let text := if Path.isAbsolute path then path else tree.base ++ "/" ++ path
  let found :=
    if Path.isAbsolute path then .error FileTree.notFound
    else tree.find text [] (Path.segments path)
  match found with
  | .error error => .error (.rootPathInvalid text error)
  | .ok (_, .file _) => .error (.rootPathInvalid text rootIsNoDirectory)
  | .ok (root, .directory) => .ok ⟨tree, root⟩

/-- The text of the root. -/
def rootText (source : DiskSource) : String := source.tree.pathText source.root

/-- The names below the root that an item path stands for. -/
def itemNames (path : String) : Except SourceError (List String) :=
  match Path.itemNames path with
  | .error message => .error (.invalidPath path message)
  | .ok names => .ok names

/-- The text of the path of an item's file, if the item path is sound. -/
def fileText? (source : DiskSource) (path : String) : Option String :=
  match itemNames path with
  | .ok names => some (source.tree.pathText (source.root ++ names))
  | .error _ => none

/-- Opens at most `length` bytes of a file from `offset` on.  A directory opens as well, and fails
when it is read.  The size that a directory has differs between file systems and is left out: a
range that starts beyond it is refused there, and opens here. -/
def openRange (source : DiskSource) (path : String) (offset length : Nat) :
    Except SourceError ItemStream := do
  let names ← itemNames path
  let text := source.tree.pathText (source.root ++ names)
  match source.tree.find text source.root names with
  | .error error =>
    if error.kind = .notFound then throw (.itemNotFound path) else throw (.io error)
  | .ok (_, .directory) => return .directory length
  | .ok (_, .file data) =>
    if data.length < offset then throw (.rangeOutOfBounds path offset data.length)
    return .buffer ((data.drop offset).take length)

end DiskSource

end PieceStream
