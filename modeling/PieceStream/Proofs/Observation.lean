import PieceStream.Proofs.Guise

/-!
# Observation

A supply can be observed without being disturbed: the sources found and the streams opened are
numbered in the order in which they come, a stream remembers the range that it was opened for and
how many bytes it has delivered, and the calls are written down together with what came of them.
The supply observed goes in the guise of the supply itself, so that readers do the same whether or
not they are observed.
-/

namespace PieceStream

variable {W H S : Type}

/-- A call to a source, and what came of it. -/
inductive Call where
  /-- A source was looked for, and found under that number or not at all. -/
  | resolved (source : SourceId) (number : Option Nat)
  /-- The source found under that number was asked for a range, and opened it or not. -/
  | opened (number : Nat) (path : String) (offset length : Nat) (success : Bool)
  deriving DecidableEq, Repr

/-- Whether a source was found. -/
def Call.isFind : Call → Bool
  | .resolved _ number => number.isSome
  | .opened _ _ _ _ _ => false

/-- Whether a stream was opened. -/
def Call.isOpening : Call → Bool
  | .resolved _ _ => false
  | .opened _ _ _ _ success => success

/-- A world, and the calls so far in order. -/
structure ObservedWorld (W : Type) where
  world : W
  calls : List Call

/-- A source found, and how many were found before it. -/
structure ObservedSource (H : Type) where
  number : Nat
  source : H

/-- A stream, how many were opened before it, the place in the item where it started, and how many
bytes it has delivered. -/
structure ObservedStream (S : Type) where
  number : Nat
  path : String
  start : Nat
  taken : Nat
  stream : S

namespace ObservedWorld

/-- The number of sources found so far. -/
def finds (w : ObservedWorld W) : Nat := w.calls.countP Call.isFind

/-- The number of streams opened so far. -/
def openings (w : ObservedWorld W) : Nat := w.calls.countP Call.isOpening

/-- The world after one more call. -/
def afterCall (w : ObservedWorld W) (world : W) (call : Call) : ObservedWorld W :=
  ⟨world, w.calls ++ [call]⟩

end ObservedWorld

namespace Supply

variable (supply : Supply W H S)

/-- Finds a source and numbers it. -/
def resolveObserved (source : SourceId) (w : ObservedWorld W) :
    Except SourceError (ObservedSource H) × ObservedWorld W :=
  match supply.resolve source w.world with
  | (.ok handle, world) => (.ok ⟨w.finds, handle⟩, w.afterCall world (.resolved source w.finds))
  | (.error e, world) => (.error e, w.afterCall world (.resolved source none))

/-- Opens a range and numbers the stream. -/
def openObserved (handle : ObservedSource H) (path : String) (offset length : Nat)
    (w : ObservedWorld W) :
    Except SourceError (ObservedStream S) × List Note × ObservedWorld W :=
  match supply.openRange handle.source path offset length w.world with
  | (.ok stream, notes, world) =>
    (.ok ⟨w.openings, path, offset, 0, stream⟩, notes,
      w.afterCall world (.opened handle.number path offset length true))
  | (.error e, notes, world) =>
    (.error e, notes, w.afterCall world (.opened handle.number path offset length false))

/-- The number of bytes delivered. -/
def delivered : Except IoError Bytes → Nat
  | .ok bytes => bytes.length
  | .error _ => 0

/-- The supply with its calls written down. -/
def observed : Supply (ObservedWorld W) (ObservedSource H) (ObservedStream S) where
  resolve := supply.resolveObserved
  openRange := supply.openObserved
  read s n w :=
    let (outcome, stream, world) := supply.read s.stream n w.world
    (outcome, { s with taken := s.taken + delivered outcome, stream := stream },
      { w with world := world })
  patience s w := supply.patience s.stream w.world
  length_le_of_read h := supply.length_le_of_read h
  patience_lt_of_interruption h he := supply.patience_lt_of_interruption h he

/-- The supply observed goes in the guise of the supply. -/
def observedGuise : supply.observed.Guise supply where
  world := ObservedWorld.world
  handle := ObservedSource.source
  stream := ObservedStream.stream
  resolve_eq source w := by
    rcases hresolve : supply.resolve source w.world with ⟨_ | handle, world⟩ <;>
      simp only [observed, resolveObserved, hresolve] <;> rfl
  openRange_eq handle path offset length w := by
    rcases hopen : supply.openRange handle.source path offset length w.world
      with ⟨_ | stream, notes, world⟩ <;>
      simp only [observed, openObserved, hopen] <;> rfl
  read_eq s n w := .inl rfl

variable {supply}

/-- A look for a source is written down, and a source found gets the next number. -/
theorem resolve_observed (source : SourceId) (w : ObservedWorld W) :
  (∃ handle world, supply.observed.resolve source w
      = (.ok ⟨w.finds, handle⟩, w.afterCall world (.resolved source (some w.finds))))
    ∨ ∃ e world, supply.observed.resolve source w
      = (.error e, w.afterCall world (.resolved source none))
  := by
  rcases hresolve : supply.resolve source w.world with ⟨e | handle, world⟩
  · refine .inr ⟨e, world, ?_⟩
    simp only [observed, resolveObserved, hresolve]
  · refine .inl ⟨handle, world, ?_⟩
    simp only [observed, resolveObserved, hresolve]

/-- A range asked for is written down, and a stream opened gets the next number. -/
theorem openRange_observed (handle : ObservedSource H) (path : String) (offset length : Nat)
    (w : ObservedWorld W) :
  ∃ notes, notes = (supply.openRange handle.source path offset length w.world).2.1
    ∧ ((∃ stream world, supply.observed.openRange handle path offset length w
          = (.ok ⟨w.openings, path, offset, 0, stream⟩, notes,
              w.afterCall world (.opened handle.number path offset length true)))
      ∨ ∃ e world, supply.observed.openRange handle path offset length w
          = (.error e, notes, w.afterCall world (.opened handle.number path offset length false)))
  := by
  rcases hopen : supply.openRange handle.source path offset length w.world
    with ⟨e | stream, notes, world⟩
  · refine ⟨notes, rfl, .inr ⟨e, world, ?_⟩⟩
    simp only [observed, openObserved, hopen]
  · refine ⟨notes, rfl, .inl ⟨stream, world, ?_⟩⟩
    simp only [observed, openObserved, hopen]

end Supply

/-- The setting with the calls to its supply written down. -/
def Setting.observed (setting : Setting W H S) :
    Setting (ObservedWorld W) (ObservedSource H) (ObservedStream S) :=
  setting.drawingFrom setting.supply.observed

@[simp]
theorem Setting.supply_observed {setting : Setting W H S} :
  setting.observed.supply = setting.supply.observed
  := rfl

@[simp]
theorem Setting.lengthFor_observed {setting : Setting W H S} {span : PayloadRest} :
  setting.observed.lengthFor span = setting.lengthFor span
  := rfl

/-- Readers answer alike and record the same events whether or not they are observed. -/
theorem Family.runAll_observed {setting : Setting W H S} {world : W}
    {commands : List (Nat × Command)} :
  ((start setting.observed ⟨world, []⟩).runAll setting.observed commands).1
      = ((start setting world).runAll setting commands).1
    ∧ ((start setting.observed ⟨world, []⟩).runAll setting.observed commands).2.feed.uninterrupted
      = ((start setting world).runAll setting commands).2.feed.uninterrupted
  := by
  let guise := setting.supply.observedGuise
  obtain ⟨replies, F, G, hF, hG, h⟩ := Supply.Guise.matches_runAll
    (guise.matches_start ⟨world, []⟩) commands
  have hF : (start setting.observed ⟨world, []⟩).runAll setting.observed commands = (replies, F) :=
    hF
  have hG : (start setting world).runAll setting commands = (replies, G) := hG
  rw [hF, hG]
  exact ⟨rfl, h.feeds.uninterrupted_eq.symm⟩

end PieceStream
