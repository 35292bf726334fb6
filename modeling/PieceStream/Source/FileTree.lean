import PieceStream.Bytes.Basic
import PieceStream.Source.Failure
import PieceStream.Source.Path

/-!
# File trees

A file tree is a directory and all that is in it.  Every file and directory is known by the
names that lead to it.  Following a path fails as the operating system lets it fail.
-/

namespace PieceStream

/-- What a name in a file tree stands for. -/
inductive FileNode where
  | directory
  | file (data : Bytes)
  deriving DecidableEq, Repr

/-- A directory, called `base` in texts, and what is in it. -/
structure FileTree where
  base : String
  nodes : List (List String × FileNode)
  deriving DecidableEq, Repr

namespace FileTree

/-! ### Failures of the operating system -/

/-- There is nothing of that name. -/
def notFound : IoError := ⟨.notFound, "No such file or directory (os error 2)"⟩

/-- A file stands where a directory is needed. -/
def notADirectory : IoError := ⟨.other, "Not a directory (os error 20)"⟩

/-- A name, or the path as a whole, is too long. -/
def nameTooLong : IoError := ⟨.other, "File name too long (os error 36)"⟩

/-- The path holds a character that no path may hold. -/
def nulInName : IoError := ⟨.invalidInput, "file name contained an unexpected NUL byte"⟩

/-- The most bytes of a name. -/
def nameLimit : Nat := 255

/-- A path as a whole has to be shorter than this. -/
def pathLimit : Nat := 4096

/-! ### Contents -/

/-- The empty directory. -/
def empty (base : String) : FileTree := ⟨base, []⟩

/-- What the names lead to. -/
def node? (tree : FileTree) (names : List String) : Option FileNode :=
  if names = [] then some .directory else tree.nodes.lookup names

/-- Puts a node at its names, in place of what was there. -/
def put (tree : FileTree) (names : List String) (node : FileNode) : FileTree :=
  { tree with nodes := (names, node) :: tree.nodes.filter (·.1 != names) }

/-- Makes the directories that lead from `above` down along the names. -/
def makeDirectories (tree : FileTree) (above : List String) : List String → FileTree
  | [] => tree
  | name :: rest =>
    let here := above ++ [name]
    let tree := if (tree.node? here).isSome then tree else tree.put here .directory
    makeDirectories tree here rest

/-- The names of a path, whatever else is in it. -/
def pathNames (path : String) : List String :=
  (Path.components path).filterMap fun
    | .name text => some text
    | _ => none

/-- Makes a directory and those that lead to it. -/
def addDirectory (tree : FileTree) (path : String) : FileTree :=
  tree.makeDirectories [] (pathNames path)

/-- Writes a file and makes the directories that lead to it. -/
def addFile (tree : FileTree) (path : String) (data : Bytes) : FileTree :=
  let names := pathNames path
  (tree.makeDirectories [] names.dropLast).put names (.file data)

/-! ### Paths -/

/-- The text of the path along these names. -/
def pathText (tree : FileTree) (names : List String) : String :=
  names.foldl (fun text name => text ++ "/" ++ name) tree.base

/-- Follows segments from a place.  Every segment, also an empty one, needs a directory. -/
def follow (tree : FileTree) (place : List String) :
    List String → Except IoError (List String × FileNode)
  | [] =>
    match tree.node? place with
    | some node => .ok (place, node)
    | none => .error notFound
  | segment :: rest =>
    match tree.node? place with
    | none => .error notFound
    | some (.file _) => .error notADirectory
    | some .directory =>
      if segment = "" ∨ segment = "." then tree.follow place rest
      else if segment = ".." then tree.follow place.dropLast rest
      else if nameLimit < segment.utf8ByteSize then .error nameTooLong
      else tree.follow (place ++ [segment]) rest

/-- Follows segments from a place, after a look at the text of the path as a whole. -/
def find (tree : FileTree) (text : String) (place segments : List String) :
    Except IoError (List String × FileNode) :=
  if text.toList.contains '\x00' then .error nulInName
  else if pathLimit ≤ text.utf8ByteSize then .error nameTooLong
  else tree.follow place segments

end FileTree

end PieceStream
