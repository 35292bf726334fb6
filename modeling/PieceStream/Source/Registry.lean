import PieceStream.Source.Disk
import PieceStream.Source.Memory

/-!
# Registries

A registry maps the identities of sources to sources.  A source is in memory, on disk, or
makes up its items.
-/

namespace PieceStream

/-- A table of sources of some type. -/
structure Registry (α : Type) where
  entries : List (SourceId × α)

namespace Registry

variable {α : Type}

/-- The empty table. -/
def empty : Registry α := ⟨[]⟩

/-- The number of sources. -/
def size (registry : Registry α) : Nat := registry.entries.length

/-- Whether there are no sources. -/
def isEmpty (registry : Registry α) : Bool := registry.entries.isEmpty

/-- The source of that identity. -/
def get? (registry : Registry α) (id : SourceId) : Option α := registry.entries.lookup id

/-- Whether there is a source of that identity. -/
def contains (registry : Registry α) (id : SourceId) : Bool := (registry.get? id).isSome

/-- Adds or replaces the source of that identity. -/
def register (registry : Registry α) (id : SourceId) (source : α) : Registry α :=
  ⟨(id, source) :: registry.entries.filter (·.1 != id)⟩

/-- A source just registered is found, and the others as before. -/
theorem get?_register {registry : Registry α} {id id' : SourceId} {source : α} :
  (registry.register id source).get? id' = if id' = id then some source else registry.get? id'
  := by
  rw [register, get?, get?, List.lookup_cons]
  split
  · next h => rw [if_pos (eq_of_beq h)]
  · next h =>
    have hne : id' ≠ id := by simpa using h
    rw [if_neg hne]
    induction registry.entries with
    | nil => rfl
    | cons entry entries ih =>
        obtain ⟨key, value⟩ := entry
        by_cases hkey : key = id
        · simp [hkey, List.lookup_cons, h, ih]
        · simp [hkey, List.lookup_cons, ih]

/-- The source of that identity, or the failure to find one. -/
def resolve (registry : Registry α) (id : SourceId) : Except SourceError α :=
  match registry.get? id with
  | some source => .ok source
  | none => .error (.unknownSource id)

end Registry

/-- A source of items. -/
inductive Source where
  | memory (source : MemorySource)
  | disk (source : DiskSource)
  /-- Every path names an item without end, whose byte at offset `o` is `o` modulo 251. -/
  | synthetic
  deriving DecidableEq, Repr

namespace Source

/-- Opens at most `length` bytes of an item from `offset` on. -/
def openRange (source : Source) (path : String) (offset length : Nat) :
    Except SourceError ItemStream :=
  match source with
  | .memory source => source.openRange path offset length
  | .disk source => source.openRange path offset length
  | .synthetic => .ok (.pattern offset (min length (wordLimit - 1 - offset)))

/-- The text of the file that opening an item looks for, if it looks for one. -/
def fileText? (source : Source) (path : String) : Option String :=
  match source with
  | .disk source => source.fileText? path
  | _ => none

end Source

end PieceStream
