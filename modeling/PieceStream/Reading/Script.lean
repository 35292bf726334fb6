import PieceStream.Reading.Suspension
import PieceStream.Source.Registry

/-!
# Scripted sources

A script makes a source misbehave: it lets looks for the source and attempts to open a range
fail, and it shortens, interrupts or fails the reads of a stream.  When a script has run out
the source behaves by itself.
-/

namespace PieceStream

/-- What becomes of one read of a stream. -/
inductive ReadTurn where
  /-- At most so many bytes are delivered. -/
  | atMost (size : Nat)
  | fail (error : IoError)
  /-- The stream is not ready and is asked again at once. -/
  | pending
  deriving DecidableEq, Repr

/-- What becomes of one attempt to open a range. -/
inductive OpenTurn where
  | fail (error : SourceError)
  /-- The range is opened, and these are the turns of its reads. -/
  | proceed (reads : List ReadTurn)
  deriving DecidableEq, Repr

/-- A source and what is to become of the calls to it. -/
structure ScriptedSource where
  source : Source
  /-- The turns of looks for the source; nothing means success. -/
  resolves : List (Option SourceError)
  opens : List OpenTurn
  deriving DecidableEq, Repr

/-- A stream and the turns of its reads. -/
structure ScriptedStream where
  stream : ItemStream
  turns : List ReadTurn
  deriving DecidableEq, Repr

namespace ScriptedStream

/-- Asks for at most `n` bytes. -/
def readBy (stream : ItemStream) (n : Nat) : List ReadTurn → Except IoError Bytes × ScriptedStream
  | [] =>
    let (outcome, stream) := stream.read n
    (outcome, ⟨stream, []⟩)
  | .pending :: turns => readBy stream n turns
  | .atMost size :: turns =>
    let (outcome, stream) := stream.read (min size n)
    (outcome, ⟨stream, turns⟩)
  | .fail e :: turns => (.error e, ⟨stream, turns⟩)

/-- Asks for at most `n` bytes. -/
def read (s : ScriptedStream) (n : Nat) : Except IoError Bytes × ScriptedStream :=
  readBy s.stream n s.turns

/-- Polls for at most `n` bytes.  To be pending takes a turn. -/
def poll (s : ScriptedStream) (n : Nat) : Poll (Except IoError Bytes) × ScriptedStream :=
  match s.turns with
  | .pending :: turns => (.pending, ⟨s.stream, turns⟩)
  | turns =>
    let (outcome, s) := readBy s.stream n turns
    (.ready outcome, s)

theorem length_le_of_readBy {stream : ItemStream} {n : Nat} {turns : List ReadTurn} {bs : Bytes}
    (h : (readBy stream n turns).1 = .ok bs) :
  bs.length ≤ n
  := by
  induction turns with
  | nil => apply ItemStream.length_le_of_read h
  | cons turn turns ih =>
    cases turn with
    | atMost size => apply Nat.le_trans (ItemStream.length_le_of_read h) (Nat.min_le_right size n)
    | fail e => contradiction
    | pending => apply ih h

theorem turns_lt_of_readBy {stream : ItemStream} {n : Nat} {turns : List ReadTurn} {e : IoError}
    (h : (readBy stream n turns).1 = .error e) (he : e.isInterruption = true) :
  (readBy stream n turns).2.turns.length < turns.length
  := by
  induction turns with
  | nil => simp [ItemStream.not_isInterruption_of_read h] at he
  | cons turn turns ih =>
    cases turn with
    | atMost size => simp [ItemStream.not_isInterruption_of_read h] at he
    | fail e => apply Nat.lt_succ_self turns.length
    | pending => apply Nat.lt_succ_of_lt (ih h)

/-- An answer of a stream polled is the one that it gives when read. -/
theorem readBy_of_poll {s : ScriptedStream} {n : Nat} {outcome : Except IoError Bytes}
    (h : (s.poll n).1 = .ready outcome) :
  s.poll n = (.ready (readBy s.stream n s.turns).1, (readBy s.stream n s.turns).2)
    ∧ (readBy s.stream n s.turns).1 = outcome
  := by
  rw [poll] at h ⊢
  split at h
  · cases h
  · cases h
    exact ⟨rfl, rfl⟩

/-- A stream that is pending has taken a turn. -/
theorem turns_of_poll {s : ScriptedStream} {n : Nat} (h : (s.poll n).1 = .pending) :
  ∃ turns, s.turns = .pending :: turns ∧ s.poll n = (.pending, ⟨s.stream, turns⟩)
  := by
  rw [poll] at h ⊢
  split at h
  · next turns hturns => exact ⟨turns, hturns, rfl⟩
  · cases h

end ScriptedStream

namespace Registry

/-- Looks for a source and takes its turn. -/
def resolveScripted (source : SourceId) (registry : Registry ScriptedSource) :
    Except SourceError SourceId × Registry ScriptedSource :=
  match registry.resolve source with
  | .error e => (.error e, registry)
  | .ok scripted =>
    match scripted.resolves with
    | [] => (.ok source, registry)
    | turn :: turns =>
      (match turn with
        | some e => .error e
        | none => .ok source,
        registry.register source { scripted with resolves := turns })

/-- The notes of a source that opens an item. -/
def openingNotes (source : Source) (path : String) (offset length : Nat) : List Note :=
  match source.fileText? path with
  | some file => [.openingFile file offset length]
  | none => []

/-- Opens a range of an item and takes its turn. -/
def openScripted (source : SourceId) (path : String) (offset length : Nat)
    (registry : Registry ScriptedSource) :
    Except SourceError ScriptedStream × List Note × Registry ScriptedSource :=
  match registry.resolve source with
  | .error e => (.error e, [], registry)
  | .ok scripted =>
    let after := registry.register source { scripted with opens := scripted.opens.tail }
    let proceed (turns : List ReadTurn) :=
      ((scripted.source.openRange path offset length).map (⟨·, turns⟩),
        openingNotes scripted.source path offset length, after)
    match scripted.opens with
    | [] => proceed []
    | .proceed turns :: _ => proceed turns
    | .fail e :: _ => (.error e, [], after)

/-- The supply of a registry of scripted sources, which are found by their identity. -/
def supply : Supply (Registry ScriptedSource) SourceId ScriptedStream where
  resolve := resolveScripted
  openRange := openScripted
  read s n registry := let (outcome, s) := s.read n; (outcome, s, registry)
  patience s _ := s.turns.length
  length_le_of_read := ScriptedStream.length_le_of_readBy
  patience_lt_of_interruption := ScriptedStream.turns_lt_of_readBy

/-- The supply of a registry of scripted sources to be polled.  Ranges are opened at once. -/
def polledSupply : PolledSupply (Registry ScriptedSource) SourceId ScriptedStream where
  resolve := resolveScripted
  openRange source path offset length registry :=
    let (outcome, notes, registry) := openScripted source path offset length registry
    (.ready (outcome, notes), registry)
  read s n registry := let (polled, s) := s.poll n; (polled, s, registry)
  delay _ _ _ _ _ := 0
  patience s _ := s.turns.length
  length_le_of_read h := ScriptedStream.length_le_of_readBy (ScriptedStream.readBy_of_poll h).2
  delay_lt_of_pending h := nomatch h
  patience_lt_of_pending h := by
    obtain ⟨turns, hturns, hpoll⟩ := ScriptedStream.turns_of_poll h
    simp only [hpoll, hturns, List.length_cons, Nat.lt_add_one]
  patience_lt_of_interruption h he := by
    obtain ⟨hpoll, hread⟩ := ScriptedStream.readBy_of_poll h
    simp only [hpoll]
    apply ScriptedStream.turns_lt_of_readBy hread he

/-- Whoever waits for the supply polled draws from the supply. -/
theorem awaited_polledSupply :
  polledSupply.awaited = supply
  := by
  have hopen : polledSupply.awaitOpen = supply.openRange := by
    funext source path offset length registry
    apply PolledSupply.awaitOpen_of_ready rfl
  have hread : polledSupply.awaitRead = supply.read := by
    funext s n registry
    obtain ⟨stream, turns⟩ := s
    induction turns with
    | nil => apply PolledSupply.awaitRead_of_ready rfl
    | cons turn turns ih =>
        cases turn with
        | atMost size => apply PolledSupply.awaitRead_of_ready rfl
        | fail e => apply PolledSupply.awaitRead_of_ready rfl
        | pending =>
            rw [PolledSupply.awaitRead_of_pending rfl]
            apply ih
  exact Supply.ext rfl hopen hread rfl

end Registry

end PieceStream
