import PieceStream.Reading.Suspension

/-!
# Tolerance of interruptions

Streams may be interrupted while bytes are passed over.  Readers that wait ask again; tasks may not
go on.  What comes of tasks is therefore compared with what comes of waiting: both come to the same,
unless a task is cut short by an interruption, so that its reader fails.
-/

namespace PieceStream

variable {W H S : Type}

/-- Whether the event is an interruption while bytes were passed over. -/
def Event.isInterruptedSkip : Event → Bool
  | .asked _ .skip _ (.error e) => e.isInterruption
  | _ => false

/-- An interruption came while bytes were passed over. -/
def Feed.SkipInterrupted (feed : Feed W H) : Prop :=
  feed.calls.any Event.isInterruptedSkip = true

/-- Interruptions are never taken back. -/
theorem Feed.SkipInterrupted.mono {before feed : Feed W H} (h : before.SkipInterrupted)
    (hcalls : before.calls <:+ feed.calls) :
  feed.SkipInterrupted
  := by
  obtain ⟨event, hmem, hevent⟩ := List.any_eq_true.mp h
  apply List.any_eq_true.mpr ⟨event, hcalls.mem hmem, hevent⟩

namespace Feed

variable {feed : Feed W H}

/-- An event adds an interruption exactly if it is one. -/
theorem skipInterrupted_record {event : Event} :
  (feed.record event).SkipInterrupted ↔ event.isInterruptedSkip = true ∨ feed.SkipInterrupted
  := by
  have hcall : event.isInterruptedSkip = true → event.isCall = true := by
    cases event <;> intro h <;> first | rfl | cases h
  simp only [SkipInterrupted, calls, record, List.any_filter, List.any_cons, Bool.or_eq_true,
    Bool.and_eq_true]
  constructor
  · rintro (⟨-, h⟩ | h)
    · exact .inl h
    · exact .inr h
  · rintro (h | h)
    · exact .inl ⟨hcall h, h⟩
    · exact .inr h

/-- Other events add no interruption. -/
theorem skipInterrupted_record_of_not {event : Event} (h : event.isInterruptedSkip = false) :
  (feed.record event).SkipInterrupted ↔ feed.SkipInterrupted
  := by
  rw [skipInterrupted_record, h]
  simp

/-- To take a note interrupts nothing. -/
@[simp]
theorem skipInterrupted_note {note : Note} :
  (feed.note note).SkipInterrupted ↔ feed.SkipInterrupted
  := skipInterrupted_record_of_not rfl

/-- To give a stream up interrupts nothing. -/
@[simp]
theorem skipInterrupted_drop {item : HeldStream S} :
  (feed.drop item).SkipInterrupted ↔ feed.SkipInterrupted
  := skipInterrupted_record_of_not rfl

@[simp]
theorem skipInterrupted_release {item : HeldStream S} :
  (feed.release item).SkipInterrupted ↔ feed.SkipInterrupted
  := by
  rw [release, skipInterrupted_drop, skipInterrupted_note]

@[simp]
theorem skipInterrupted_notes {notes : List Note} :
  (notes.foldl Feed.note feed).SkipInterrupted ↔ feed.SkipInterrupted
  := by
  induction notes generalizing feed with
  | nil => rfl
  | cons note notes ih => rw [List.foldl_cons, ih, skipInterrupted_note]

/-- A new family has met no interruption. -/
theorem not_skipInterrupted_start (world : W) (blocks : Nat) :
  ¬ (Feed.start world blocks : Feed W H).SkipInterrupted
  := Bool.false_ne_true

end Feed

/-! ### What interrupts nothing -/

namespace Setting

variable {setting : Setting W H S} {span : PayloadRest} {feed : Feed W H}

/-- To find a source interrupts nothing. -/
theorem skipInterrupted_sourceFor :
  (setting.sourceFor span feed).2.SkipInterrupted ↔ feed.SkipInterrupted
  := by
  rw [sourceFor]
  split
  · rfl
  · dsimp only
    split <;> apply Feed.skipInterrupted_record_of_not rfl

/-- What is concluded adds the notes to the record. -/
theorem conclude_snd {outcome : Except SourceError S} {notes : List Note} :
  (conclude span outcome notes feed).2 = notes.foldl Feed.note feed
  := by
  cases outcome <;> rfl

@[simp]
theorem skipInterrupted_announce :
  (setting.announce span feed).SkipInterrupted ↔ feed.SkipInterrupted
  := by
  rw [announce, Feed.skipInterrupted_record_of_not rfl, Feed.skipInterrupted_note]

/-- To open a range interrupts nothing. -/
theorem skipInterrupted_openFor :
  (setting.openFor span feed).2.SkipInterrupted ↔ feed.SkipInterrupted
  := by
  have hfound : (setting.sourceFor span feed).2.SkipInterrupted ↔ feed.SkipInterrupted :=
    skipInterrupted_sourceFor
  rw [openFor]
  generalize setting.sourceFor span feed = found at hfound ⊢
  rcases found with ⟨e | handle, feed'⟩
  · apply hfound
  · have hannounced : (setting.announce span feed').SkipInterrupted ↔ feed'.SkipInterrupted :=
      skipInterrupted_announce
    dsimp only at hfound ⊢
    rw [← hfound, ← hannounced, openFrom]
    dsimp only
    rw [conclude_snd, Feed.skipInterrupted_notes]
    rfl

end Setting

namespace Supply

variable {supply : Supply W H S} {item item' : HeldStream S} {feed feed' : Feed W H}

/-- A stream that is interrupted when asked for bytes to be passed over leaves a record of it. -/
theorem skipInterrupted_of_ask {size : Nat} {e : IoError}
    (h : supply.ask .skip size item feed = (.error e, item', feed'))
    (he : e.isInterruption = true) :
  feed'.SkipInterrupted
  := by
  have hread : (supply.read item.stream size feed.world).1 = .error e := congrArg (·.1) h
  have hfeed : feed' = _ := (congrArg (·.2.2) h).symm
  subst hfeed
  apply List.any_eq_true.mpr
  refine ⟨.asked item.source .skip size (.error e), ?_, he⟩
  apply List.mem_filter.mpr
  rw [ask, hread]
  exact ⟨List.mem_cons_self, rfl⟩

end Supply

namespace PolledSupply

variable {supply : PolledSupply W H S} {purpose : Purpose} {size : Nat}
  {item item' : HeldStream S} {feed feed' : Feed W H}

/-- A question interrupts nothing unless bytes are to be passed over and its answer is an
interruption. -/
theorem skipInterrupted_ask {answer : Poll (Except IoError Bytes)}
    (h : supply.ask purpose size item feed = (answer, item', feed'))
    (hspared : ∀ e, purpose = .skip → answer = .ready (.error e) → e.isInterruption = false) :
  feed'.SkipInterrupted ↔ feed.SkipInterrupted
  := by
  rcases hread : supply.read item.stream size feed.world with ⟨_ | outcome, s, w⟩
  · rw [ask, hread] at h
    cases h
    rfl
  · rw [ask, hread] at h
    cases h
    apply Feed.skipInterrupted_record_of_not
    cases purpose with
    | payload => cases outcome <;> rfl
    | skip =>
        cases outcome with
        | ok bytes => rfl
        | error e => apply hspared e rfl rfl

end PolledSupply

namespace Reader

variable {setting : Setting W H S} {reader : Reader S} {feed : Feed W H}

/-- To give a stream up interrupts nothing. -/
theorem skipInterrupted_release :
  (reader.release feed).2.SkipInterrupted ↔ feed.SkipInterrupted
  := by
  rw [release]
  split
  · rfl
  · apply Feed.skipInterrupted_release

/-- To go forward interrupts nothing. -/
theorem skipInterrupted_advance {n : Nat} :
  (reader.advance setting n feed).2.SkipInterrupted ↔ feed.SkipInterrupted
  := by
  simp only [advance]
  split
  · apply skipInterrupted_release
  · rfl

/-- A failure of a read adds no interruption. -/
theorem skipInterrupted_poisonOnError {outcome : Except ReadError Bytes} :
  (poisonOnError setting (outcome, reader, feed)).2.2.SkipInterrupted ↔ feed.SkipInterrupted
  := by
  cases outcome with
  | ok bytes => rfl
  | error e => apply skipInterrupted_release.trans Feed.skipInterrupted_note

/-- To move interrupts nothing. -/
theorem skipInterrupted_moveTo {offset : Nat} :
  (reader.moveTo setting offset feed).2.2.SkipInterrupted ↔ feed.SkipInterrupted
  := by
  rw [moveTo]
  split
  · rfl
  · apply Feed.skipInterrupted_note.trans skipInterrupted_release

/-- To seek interrupts nothing. -/
theorem skipInterrupted_seek {target : SeekTarget} :
  (reader.seek setting target feed).2.2.SkipInterrupted ↔ feed.SkipInterrupted
  := by
  simp only [seek]
  split
  · rfl
  · have hmoved : (reader.moveTo setting (targetPosition setting target reader).toNat
        feed).2.2.SkipInterrupted ↔ feed.SkipInterrupted := skipInterrupted_moveTo
    split <;> rename_i hmove <;> rw [hmove] at hmoved <;> exact hmoved

end Reader

/-- To let a member go interrupts nothing. -/
theorem Family.skipInterrupted_remove {family : Family W H S} {index : Nat} :
  (family.remove index).feed.SkipInterrupted ↔ family.feed.SkipInterrupted
  := by
  rw [remove]
  split
  · rfl
  · dsimp only
    split
    · apply Feed.skipInterrupted_drop
    · rfl

/-! ### Being cut short -/

/-- Whether reading failed because a stream was interrupted. -/
def ReadError.isInterruption : ReadError → Bool
  | .sourceReadFailure _ (.io e) => e.isInterruption
  | _ => false

/-- The failure of the read that is replied to. -/
def Reply.failure? : Reply → Option ReadError
  | .bytes (.error e) => some e
  | .drained _ failure => failure
  | _ => none

/-- The reader has failed because a stream was interrupted: it is poisoned and holds none. -/
structure Reader.CutShort (e : ReadError) (reader : Reader S) : Prop where
  isInterruption : e.isInterruption = true
  poisoned : reader.poisoned = true
  held_eq : reader.held = none

/-- The member of that number has replied that it has failed because a stream was interrupted. -/
def Family.CutShort (index : Nat) (reply : Reply) (family : Family W H S) : Prop :=
  ∃ e reader, reply.failure? = some e ∧ family.member? index = some reader ∧ reader.CutShort e

/-! ### Tasks beside waiting -/

/-- Tasks go on after the interruptions that came while bytes were passed over, if there were any.
-/
def SuspendingSetting.Tolerates (setting : SuspendingSetting W H S) (feed : Feed W H) : Prop :=
  feed.SkipInterrupted → setting.persistent = true

/-- Whoever tolerates the interruptions of a run tolerates those of its beginning. -/
theorem SuspendingSetting.Tolerates.anti {setting : SuspendingSetting W H S}
    {before feed : Feed W H} (h : setting.Tolerates feed) (hcalls : before.calls <:+ feed.calls) :
  setting.Tolerates before
  := fun hbefore => h (hbefore.mono hcalls)

/-- How what comes of tasks compares with what comes of waiting, where both begin with `feed`: it is
the same; or an interruption came while bytes were passed over, and the tasks, which do not go on
after it, were cut short. -/
inductive SuspendingSetting.Compares (setting : SuspendingSetting W H S)
    (feed waited taken : Feed W H) (same cut : Prop) : Prop
  | same (h : same)
      (hspared : setting.persistent = false → taken.SkipInterrupted → feed.SkipInterrupted) :
      Compares setting feed waited taken same cut
  | cut (hpersistent : setting.persistent = false) (hwaited : waited.SkipInterrupted)
      (htaken : taken.SkipInterrupted) (h : cut) :
      Compares setting feed waited taken same cut

namespace SuspendingSetting.Compares

variable {setting : SuspendingSetting W H S} {feed waited taken : Feed W H} {same cut : Prop}

/-- Tasks that tolerate the interruptions of those who wait come to the same. -/
theorem same_of_waited (h : setting.Compares feed waited taken same cut)
    (hwaited : setting.Tolerates waited) :
  same
  := by
  cases h with
  | same h => exact h
  | cut hpersistent hinterrupted =>
      cases hpersistent.symm.trans (hwaited hinterrupted)

/-- Tasks that tolerate their own interruptions come to the same. -/
theorem same_of_taken (h : setting.Compares feed waited taken same cut)
    (htaken : setting.Tolerates taken) :
  same
  := by
  cases h with
  | same h => exact h
  | cut hpersistent _ hinterrupted =>
      cases hpersistent.symm.trans (htaken hinterrupted)

/-- Tasks that do not go on after an interruption are cut short by it. -/
theorem cut_of_interrupted (h : setting.Compares feed waited taken same cut)
    (hpersistent : setting.persistent = false) (hfeed : ¬ feed.SkipInterrupted)
    (htaken : taken.SkipInterrupted) :
  cut
  := by
  cases h with
  | same _ hspared => exact absurd (hspared hpersistent htaken) hfeed
  | cut _ _ _ h => exact h

end SuspendingSetting.Compares

end PieceStream
