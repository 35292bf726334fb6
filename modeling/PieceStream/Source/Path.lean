/-!
# Paths

A path is cut at its slashes.  Empty components vanish, and so do single dots that are not
the first component.  An item path has to be relative, may not go up, and has to name
something; it then names the same item as the list of its names.
-/

namespace PieceStream.Path

/-- A component of a path. -/
inductive Component where
  /-- The slash that a path starts with. -/
  | root
  /-- A single dot at the start. -/
  | current
  /-- Two dots. -/
  | parent
  | name (text : String)
  deriving DecidableEq, Repr

/-- The segments between the slashes. -/
def splitSlashes : List Char → List (List Char)
  | [] => [[]]
  | c :: rest =>
    if c = '/' then [] :: splitSlashes rest
    else
      match splitSlashes rest with
      | segment :: others => (c :: segment) :: others
      | [] => [[c]]

/-- The segments between the slashes. -/
def segments (path : String) : List String := (splitSlashes path.toList).map String.ofList

/-- Whether a path starts at the root. -/
def isAbsolute (path : String) : Bool := path.toList.head? == some '/'

/-- The component of a segment that is not the first. -/
def Component.ofSegment? (segment : String) : Option Component :=
  if segment = "" ∨ segment = "." then none
  else if segment = ".." then some .parent
  else some (.name segment)

/-- The components of a path. -/
def components (path : String) : List Component :=
  let start :=
    if isAbsolute path then [.root]
    else if (segments path).head? = some "." then [.current]
    else []
  start ++ (segments path).filterMap Component.ofSegment?

/-- What is wrong with a path that leaves the root. -/
def outsideMessage : String := "item paths must be relative and stay under the root"

/-- What is wrong with a path without names. -/
def emptyMessage : String := "item path is empty"

/-- The names among components that stay below their start. -/
def namesOf : List Component → Except String (List String)
  | [] => .ok []
  | .name text :: rest => (text :: ·) <$> namesOf rest
  | .current :: rest => namesOf rest
  | .parent :: _ | .root :: _ => .error outsideMessage

/-- The names of an item path, at least one, or what is wrong with it. -/
def itemNames (path : String) : Except String (List String) :=
  match namesOf (components path) with
  | .error message => .error message
  | .ok [] => .error emptyMessage
  | .ok names => .ok names

end PieceStream.Path
