import Mathlib
import PieceStream.Proofs.Delivery
import PieceStream.Proofs.Steps
import PieceStream.Reading.Script

/-!
# Poisoning

A reader is poisoned by a read of its own that fails, and by nothing else.  From then on it holds no
stream and makes no calls: every read fails at once, while it moves, seeks and is copied as a reader
that stands at the same offset and has not failed.  A copy is never poisoned when it is made.

Mathlib is imported whole for the equations with which `cbv` runs readers, here and in the modules
built on this one.
-/

namespace PieceStream

variable {W H S : Type}

namespace Reader

/-- The ways in which the readers of a setting read: at once, or by tasks. -/
inductive Reads : Setting W H S →
    (Nat → Reader S → Feed W H → Except ReadError Bytes × Reader S × Feed W H) → Prop
  | atOnce (setting : Setting W H S) :
      Reads setting fun size reader feed => reader.read setting size feed
  | byTasks (setting : SuspendingSetting W H S) :
      Reads (setting.waiting .suspending) (readByTask setting)

/-- Reads that fail poison the reader, and reads that go well do not; a poisoned reader fails at
once and is left as it is. -/
structure Poisons
    (read : Nat → Reader S → Feed W H → Except ReadError Bytes × Reader S × Feed W H) : Prop where
  spent {size : Nat} {reader : Reader S} {feed : Feed W H} : reader.poisoned = true →
    read size reader feed = (.error .poisoned, reader, feed)
  good {size : Nat} {reader reader' : Reader S} {feed feed' : Feed W H} {bytes : Bytes} :
    reader.poisoned = false → read size reader feed = (.ok bytes, reader', feed') →
    reader'.poisoned = false
  failed {size : Nat} {reader reader' : Reader S} {feed feed' : Feed W H} {e : ReadError} :
    reader.poisoned = false → read size reader feed = (.error e, reader', feed') →
    reader'.poisoned = true ∧ reader'.held = none

variable {setting : Setting W H S} {reader reader' : Reader S} {feed feed' : Feed W H}

/-! ### What does not poison -/

@[simp]
theorem poisoned_release :
  (reader.release feed).1.poisoned = reader.poisoned
  := by
  rw [release_fst]

@[simp]
theorem poisoned_advance {n : Nat} :
  (reader.advance setting n feed).1.poisoned = reader.poisoned
  := by
  rw [advance]
  dsimp only
  split
  · apply poisoned_release
  · rfl

/-- Asking for payload bytes does not poison by itself. -/
theorem poisoned_takeIn (taken : Except ReadError Bytes × Option (HeldStream S) × Feed W H) :
  (reader.takeIn setting taken).2.1.poisoned = reader.poisoned
  := by
  rw [takeIn.eq_def]
  split
  · rfl
  · apply poisoned_advance

/-- Filling a buffer does not poison by itself. -/
theorem poisoned_gather (room : Nat) (reader : Reader S) (feed : Feed W H) :
  (reader.gather setting room feed).2.1.poisoned = reader.poisoned
  := by
  induction room using Nat.strongRecOn generalizing reader feed with
  | ind room ih =>
      rcases Nat.eq_zero_or_pos room with rfl | hroom
      · rw [gather_zero]
      · cases hseg : reader.cursor.segment setting.piece with
        | finish => rw [gather_of_finish hseg]
        | bytes available =>
            have hpos := List.length_pos_iff.mpr (Cursor.ne_nil_of_segment hseg)
            have hlt : room - (available.take room).length < room := by
              rw [List.length_take]
              omega
            rw [gather_of_bytes hroom hseg]
            apply (ih _ hlt _ _).trans poisoned_advance
        | payload span =>
            rw [gather_of_payload hroom hseg]
            apply poisoned_takeIn

/-- A failure poisons, and the stream is given up. -/
theorem poisonOnError_error (setting : Setting W H S) (e : ReadError) (reader : Reader S)
    (feed : Feed W H) :
  ∃ feed', poisonOnError setting (.error e, reader, feed)
    = (.error e, { reader with held := none, poisoned := true }, feed')
  := by
  rw [poisonOnError]
  simp only [release_fst]
  exact ⟨_, rfl⟩

end Reader

/-! ### Tasks -/

namespace Progress

/-- The reader of a task under way or finished. -/
def reader : Progress W H S → Reader S
  | .running task => task.reader
  | .finished _ reader _ => reader

end Progress

namespace Task

variable {setting : SuspendingSetting W H S} {task : Task W H S} {span : PayloadRest}

theorem poisoned_startOpening {feed : Feed W H} :
  (task.startOpening setting span feed).reader.poisoned = task.reader.poisoned
  := by
  rw [startOpening]
  split <;> rfl

theorem poisoned_stepFilling :
  (task.stepFilling setting).reader.poisoned = task.reader.poisoned
  := by
  rw [stepFilling]
  split
  · rfl
  · split
    · rfl
    · apply Reader.poisoned_advance
    · split
      · rfl
      · rfl
      · apply poisoned_startOpening
      · apply poisoned_startOpening

theorem poisoned_stepOpening {handle : H} :
  (task.stepOpening setting span handle).reader.poisoned = task.reader.poisoned
  := by
  rw [stepOpening]
  dsimp only
  split
  · rfl
  · split <;> rfl

theorem poisoned_stepSkipping {item : HeldStream S} {gap : Nat} :
  (task.stepSkipping setting span item gap).reader.poisoned = task.reader.poisoned
  := by
  rw [stepSkipping]
  split
  · rfl
  · split
    · rfl
    · rfl
    · rfl
    · split <;> rfl

theorem poisoned_stepAsking {item : HeldStream S} :
  (task.stepAsking setting span item).reader.poisoned = task.reader.poisoned
  := by
  rw [stepAsking]
  split
  · rfl
  · rfl
  · apply Reader.poisoned_advance
  · split <;> rfl

/-- No step of a task poisons its reader. -/
theorem poisoned_step :
  (task.step setting).reader.poisoned = task.reader.poisoned
  := by
  rw [step]
  split
  · apply poisoned_stepFilling
  · apply poisoned_stepOpening
  · apply poisoned_stepSkipping
  · apply poisoned_stepAsking

/-- A task does not poison its reader by itself. -/
theorem poisoned_complete (task : Task W H S) :
  (task.complete setting).2.1.poisoned = task.reader.poisoned
  := by
  induction task using complete.induct setting with
  | case1 task outcome reader feed hstep =>
      have hkept : (task.step setting).reader.poisoned = _ := poisoned_step
      rw [hstep] at hkept
      rw [complete_of_finished hstep]
      apply hkept
  | case2 task task' hstep ih =>
      have hkept : (task.step setting).reader.poisoned = _ := poisoned_step
      rw [hstep] at hkept
      rw [complete_of_running hstep]
      apply ih.trans hkept

end Task

/-! ### Reads -/

namespace Reader

variable {setting : Setting W H S} {reader reader' : Reader S} {feed feed' : Feed W H}
  {read : Nat → Reader S → Feed W H → Except ReadError Bytes × Reader S × Feed W H}

/-- Reads that fill a buffer without poisoning, and poison where that fails. -/
theorem poisons_of_fill
    {fill : Nat → Reader S → Feed W H → Except ReadError Bytes × Reader S × Feed W H}
    (hfill : ∀ size reader feed, (fill size reader feed).2.1.poisoned = reader.poisoned) :
  Poisons fun size reader feed =>
    if reader.poisoned then (.error .poisoned, reader, feed)
    else poisonOnError setting (fill size reader feed)
  := by
  constructor
  case spent =>
      intro size reader feed h
      rw [if_pos h]
  case good =>
      intro size reader reader' feed feed' bytes h hread
      have hkept := hfill size reader feed
      simp only [h, Bool.false_eq_true, if_false] at hread hkept
      rcases hfilled : fill size reader feed with ⟨e | bytes', filled, feed''⟩
      · obtain ⟨last, heq⟩ := poisonOnError_error setting e filled feed''
        rw [hfilled, heq] at hread
        cases hread
      · rw [hfilled] at hread hkept
        cases hread
        apply hkept
  case failed =>
      intro size reader reader' feed feed' e h hread
      simp only [h, Bool.false_eq_true, if_false] at hread
      rcases hfilled : fill size reader feed with ⟨e' | bytes, filled, feed''⟩
      · obtain ⟨last, heq⟩ := poisonOnError_error setting e' filled feed''
        rw [hfilled, heq] at hread
        cases hread
        exact ⟨rfl, rfl⟩
      · rw [hfilled] at hread
        cases hread

/-- However readers read, a read that fails poisons them. -/
theorem Reads.poisons (h : Reads setting read) :
  Poisons read
  := by
  cases h with
  | atOnce => apply poisons_of_fill poisoned_gather
  | byTasks setting =>
      apply poisons_of_fill fun size reader feed =>
        Task.poisoned_complete ⟨reader, feed, [], size, .filling⟩

/-- Of reads one after the other only the last can poison, by failing. -/
theorem Poisons.drainWithin (h : Poisons read) {size calls : Nat}
    (hsound : reader.poisoned = false) {portions : List Bytes} {failure : Option ReadError}
    (hdrain : Reader.drainWithin (read size) calls reader feed
      = (portions, failure, reader', feed')) :
  (reader'.poisoned = true ↔ failure.isSome = true)
    ∧ (reader'.poisoned = true → reader'.held = none)
  := by
  induction calls generalizing reader feed portions with
  | zero =>
      cases hdrain
      simp [hsound]
  | succ calls ih =>
      rw [Reader.drainWithin] at hdrain
      split at hdrain <;> rename_i hread
      · cases hdrain
        simp [h.failed hsound hread]
      · cases hdrain
        simp [h.good hsound hread]
      · rcases hrest : Reader.drainWithin (read size) calls _ _ with ⟨rest, failure', last, feed''⟩
        rw [hrest] at hdrain
        cases hdrain
        apply ih (h.good hsound hread) hrest

/-- To read a poisoned reader to the end is one read that fails. -/
theorem Poisons.drain (h : Poisons read) (hspent : reader.poisoned = true) (size : Nat) :
  reader.drain setting (read size) feed = ([], some .poisoned, reader, feed)
  := by
  rw [Reader.drain, Reader.drainWithin, h.spent hspent]

/-- To move does not poison, and the stream is given up if there is an offset to move to. -/
theorem poisoned_moveTo {offset : Nat} :
  (reader.moveTo setting offset feed).2.1.poisoned = reader.poisoned
  := by
  rw [moveTo]
  split
  · rfl
  · apply poisoned_release

/-- To seek does not poison. -/
theorem poisoned_seek {target : SeekTarget} :
  (reader.seek setting target feed).2.1.poisoned = reader.poisoned
  := by
  rcases seek_cases setting target reader feed with heq | heq
  · rw [heq]
  · rw [heq]
    apply poisoned_moveTo

/-- A reader without a stream has none when it has moved. -/
theorem held_moveTo {offset : Nat} (hheld : reader.held = none) :
  (reader.moveTo setting offset feed).2.1.held = none
  := by
  rw [moveTo]
  split
  · apply hheld
  · simp only [release_fst]

/-- A reader without a stream has none when it has sought. -/
theorem held_seek {target : SeekTarget} (hheld : reader.held = none) :
  (reader.seek setting target feed).2.1.held = none
  := by
  rcases seek_cases setting target reader feed with heq | heq
  · rw [heq]
    apply hheld
  · rw [heq]
    apply held_moveTo hheld

/-- Where a reader moves to depends on nothing but its position. -/
theorem moveTo_congr {other : Reader S} {otherFeed : Feed W H} (setting : Setting W H S)
    (offset : Nat) (h : other.position = reader.position) :
  (other.moveTo setting offset otherFeed).1 = (reader.moveTo setting offset feed).1
    ∧ (other.moveTo setting offset otherFeed).2.1.position
      = (reader.moveTo setting offset feed).2.1.position
  := by
  rw [moveTo, moveTo]
  cases checkReach setting offset with
  | error e => exact ⟨rfl, h⟩
  | ok _ => exact ⟨rfl, rfl⟩

/-- Where a reader seeks to depends on nothing but its position. -/
theorem seek_congr {other : Reader S} {otherFeed : Feed W H} (setting : Setting W H S)
    (target : SeekTarget) (h : other.position = reader.position) :
  (other.seek setting target otherFeed).1 = (reader.seek setting target feed).1
    ∧ (other.seek setting target otherFeed).2.1.position
      = (reader.seek setting target feed).2.1.position
  := by
  have htarget : targetPosition setting target other = targetPosition setting target reader := by
    cases target with
    | fromHere delta => simp only [targetPosition, h]
    | _ => rfl
  unfold seek
  rw [htarget]
  dsimp only
  split
  · exact ⟨rfl, h⟩
  · obtain ⟨houtcome, hpos⟩ : _ ∧ _ :=
      moveTo_congr setting (targetPosition setting target reader).toNat h
    rcases hmove : reader.moveTo setting (targetPosition setting target reader).toNat feed
      with ⟨outcome, reader', feed'⟩
    rcases hother : other.moveTo setting (targetPosition setting target reader).toNat otherFeed
      with ⟨outcome', other', otherFeed'⟩
    rw [hmove, hother] at houtcome hpos
    obtain rfl : outcome' = outcome := houtcome
    cases outcome' <;> exact ⟨rfl, hpos⟩

/-- To move makes no calls where there is no stream to give up. -/
theorem calls_moveTo {offset : Nat} (hheld : reader.held = none) :
  (reader.moveTo setting offset feed).2.2.calls = feed.calls
  := by
  rw [moveTo]
  split
  · rfl
  · rw [release, hheld]
    rfl

end Reader

/-! ### Families -/

/-- Whether the reply is that of a read that failed. -/
def Reply.isFailedRead : Reply → Bool
  | .bytes (.error _) => true
  | .drained _ (some _) => true
  | _ => false

/-- Among these replies is that of a read of the member that failed. -/
def Reply.HasFailed (index : Nat) (commands : List (Nat × Command)) (replies : List Reply) : Prop :=
  ∃ command reply, ((index, command), reply) ∈ commands.zip replies ∧ reply.isFailedRead = true

/-- A read of the member has failed at first or later. -/
theorem Reply.hasFailed_cons {i index : Nat} {command : Command} {reply : Reply}
    {commands : List (Nat × Command)} {replies : List Reply} :
  HasFailed i ((index, command) :: commands) (reply :: replies)
    ↔ (index = i ∧ reply.isFailedRead = true) ∨ HasFailed i commands replies
  := by
  rw [HasFailed, List.zip_cons_cons]
  constructor
  · rintro ⟨command', reply', hmem, hfailed⟩
    rcases List.mem_cons.mp hmem with heq | hmem
    · cases heq
      exact .inl ⟨rfl, hfailed⟩
    · exact .inr ⟨command', reply', hmem, hfailed⟩
  · rintro (⟨rfl, hfailed⟩ | ⟨command', reply', hmem, hfailed⟩)
    · exact ⟨command, reply, List.mem_cons_self, hfailed⟩
    · exact ⟨command', reply', List.mem_cons_of_mem _ hmem, hfailed⟩

namespace Reader.Poisons

variable {setting : Setting W H S} {reader : Reader S} {feed : Feed W H}
  {read : Nat → Reader S → Feed W H → Except ReadError Bytes × Reader S × Feed W H}

/-- A reader is poisoned after a read exactly if it was before or the read fails, and holds no
stream then. -/
theorem read_iff (h : Poisons read) {size : Nat}
    (hheld : reader.poisoned = true → reader.held = none) :
  ((read size reader feed).2.1.poisoned = true
      ↔ reader.poisoned = true ∨ (Reply.bytes (read size reader feed).1).isFailedRead = true)
    ∧ ((read size reader feed).2.1.poisoned = true → (read size reader feed).2.1.held = none)
  := by
  cases hpoisoned : reader.poisoned with
  | true =>
      rw [h.spent hpoisoned]
      exact ⟨by simp [hpoisoned], hheld⟩
  | false =>
      rcases houtcome : read size reader feed with ⟨e | bytes, reader', feed'⟩
      · obtain ⟨hpoisoned', hheld'⟩ := h.failed hpoisoned houtcome
        simp [hpoisoned', hheld', Reply.isFailedRead]
      · have hpoisoned' := h.good hpoisoned houtcome
        simp [hpoisoned', Reply.isFailedRead]

/-- A reader is poisoned after it is read to the end exactly if it was before or a read fails, and
holds no stream then. -/
theorem drain_iff (h : Poisons read) {size : Nat}
    (hheld : reader.poisoned = true → reader.held = none) :
  let outcome := reader.drain setting (read size) feed
  (outcome.2.2.1.poisoned = true
      ↔ reader.poisoned = true ∨ (Reply.drained outcome.1 outcome.2.1).isFailedRead = true)
    ∧ (outcome.2.2.1.poisoned = true → outcome.2.2.1.held = none)
  := by
  intro outcome
  cases hpoisoned : reader.poisoned with
  | true =>
      simp only [outcome, h.drain hpoisoned]
      exact ⟨by simp [hpoisoned, Reply.isFailedRead], hheld⟩
  | false =>
      rcases hdrain : outcome with ⟨portions, failure, reader', feed'⟩
      obtain ⟨hiff, hgiven⟩ := h.drainWithin hpoisoned hdrain
      refine ⟨?_, hgiven⟩
      rw [hiff]
      cases failure <;> simp [Reply.isFailedRead]

end Reader.Poisons

namespace Family

variable {setting : Setting W H S} {family : Family W H S} {reader reader' : Reader S}
  {feed : Feed W H} {failed : Nat → Prop} {now : Prop} {index : Nat}
  {read : Nat → Reader S → Feed W H → Except ReadError Bytes × Reader S × Feed W H}

/-- The members that are poisoned are those of which a read has failed, and they hold no streams. -/
structure Accounts (failed : Nat → Prop) (family : Family W H S) : Prop where
  lt_length : ∀ {index : Nat}, failed index → index < family.members.length
  poisoned_iff : ∀ {index : Nat} {reader : Reader S}, family.member? index = some reader →
    (reader.poisoned = true ↔ failed index)
  held_eq_none : ∀ {index : Nat} {reader : Reader S}, family.member? index = some reader →
    reader.poisoned = true → reader.held = none

/-- A member that is there has been made. -/
theorem lt_length_of_member? (hmember : family.member? index = some reader) :
  index < family.members.length
  := (List.getElem?_eq_some_iff.mp (member?_eq_some_iff.mp hmember)).1

/-- Where a member changes, it has to be poisoned exactly if a read of it has failed by now. -/
theorem Accounts.update (h : family.Accounts failed) (hmember : family.member? index = some reader)
    (hpoisoned : reader'.poisoned = true ↔ reader.poisoned = true ∨ now)
    (hheld : reader'.poisoned = true → reader'.held = none) :
  (family.update index reader' feed).Accounts fun i => failed i ∨ index = i ∧ now
  := by
  have hlt := lt_length_of_member? hmember
  have hnew : (family.update index reader' feed).member? index = some reader' :=
    member?_update hmember
  have hother : ∀ i, index ≠ i →
      (family.update index reader' feed).member? i = family.member? i := by
    intro i hne
    rw [member?, member?, Family.update, List.getElem?_set_ne hne]
  constructor
  case lt_length =>
      intro i hi
      rw [Family.update, List.length_set]
      rcases hi with hi | ⟨rfl, -⟩
      · apply h.lt_length hi
      · apply hlt
  case poisoned_iff =>
      intro i other hi
      by_cases hindex : index = i
      · subst hindex
        rw [hnew] at hi
        cases hi
        rw [hpoisoned, h.poisoned_iff hmember]
        simp
      · rw [hother i hindex] at hi
        rw [h.poisoned_iff hi]
        simp [hindex]
  case held_eq_none =>
      intro i other hi
      by_cases hindex : index = i
      · subst hindex
        rw [hnew] at hi
        cases hi
        apply hheld
      · rw [hother i hindex] at hi
        apply h.held_eq_none hi

/-- Where no read fails the same members stay poisoned. -/
theorem Accounts.or_false (h : family.Accounts failed) (hnow : ¬ now) :
  family.Accounts fun i => failed i ∨ index = i ∧ now
  := by
  simpa [hnow] using h

/-- A member that goes is not missed. -/
theorem Accounts.remove (h : family.Accounts failed) (index : Nat) :
  (family.remove index).Accounts failed
  := by
  rw [Family.remove]
  split
  · apply h
  · next reader hmember =>
    have hkept {i : Nat} {other : Reader S} {feed : Feed W H}
        (hi : (⟨family.members.set index none, feed⟩ : Family W H S).member? i = some other) :
        family.member? i = some other := by
      rw [member?_eq_some_iff, List.getElem?_set] at hi
      rw [member?_eq_some_iff]
      split at hi
      · split at hi <;> cases hi
      · apply hi
    constructor
    case lt_length =>
        intro i hi
        rw [List.length_set]
        apply h.lt_length hi
    case poisoned_iff =>
        intro i other hi
        apply h.poisoned_iff (hkept hi)
    case held_eq_none =>
        intro i other hi
        apply h.held_eq_none (hkept hi)

/-- A copy is not poisoned when it is made, and no read of it has failed. -/
theorem Accounts.append (h : family.Accounts failed) (offset : Nat) :
  Accounts failed
    { family with members := family.members ++ [some (Reader.startAt setting offset)] }
  := by
  have hcases {i : Nat} {other : Reader S} (hi : (⟨family.members
      ++ [some (Reader.startAt setting offset)], family.feed⟩ : Family W H S).member? i
        = some other) :
      family.member? i = some other
        ∨ ¬ i < family.members.length ∧ other = Reader.startAt setting offset := by
    rw [member?_eq_some_iff, List.getElem?_append] at hi
    rw [member?_eq_some_iff]
    split at hi
    · exact .inl hi
    · next hge =>
      rcases List.mem_singleton.mp (List.mem_of_getElem? hi) with ⟨⟩
      exact .inr ⟨hge, rfl⟩
  constructor
  case lt_length =>
      intro i hi
      rw [List.length_append]
      apply Nat.lt_add_right _ (h.lt_length hi)
  case poisoned_iff =>
      intro i other hi
      rcases hcases hi with hi | ⟨hge, rfl⟩
      · apply h.poisoned_iff hi
      · have hnot : ¬ failed i := fun hi => hge (h.lt_length hi)
        simp [Reader.startAt, hnot]
  case held_eq_none =>
      intro i other hi hpoisoned
      rcases hcases hi with hi | ⟨-, rfl⟩
      · apply h.held_eq_none hi hpoisoned
      · rfl

/-- One command poisons the member that it is given to exactly if it is a read and fails. -/
theorem accounts_runBy (setting : Setting W H S) (hread : Reader.Poisons read)
    (h : family.Accounts failed) (index : Nat) (command : Command) :
  (family.runBy setting read index command).2.Accounts fun i =>
    failed i ∨ index = i ∧ (family.runBy setting read index command).1.isFailedRead = true
  := by
  rw [runBy]
  split
  · apply h.or_false Bool.false_ne_true
  · next reader hmember =>
    have hheld := h.held_eq_none hmember
    cases command with
    | read size =>
        obtain ⟨hiff, hgiven⟩ := hread.read_iff hheld
        exact h.update hmember hiff hgiven
    | drain size =>
        obtain ⟨hiff, hgiven⟩ := hread.drain_iff hheld
        exact h.update hmember hiff hgiven
    | moveTo offset =>
        apply h.update hmember
        · simp [Reader.poisoned_moveTo, Reply.isFailedRead]
        · intro hpoisoned
          rw [Reader.poisoned_moveTo] at hpoisoned
          apply Reader.held_moveTo (hheld hpoisoned)
    | seek target =>
        apply h.update hmember
        · simp [Reader.poisoned_seek, Reply.isFailedRead]
        · intro hpoisoned
          rw [Reader.poisoned_seek] at hpoisoned
          apply Reader.held_seek (hheld hpoisoned)
    | copy offset =>
        dsimp only
        rw [Reader.copyAt]
        cases Reader.checkReach setting offset with
        | error e => apply h.or_false Bool.false_ne_true
        | ok _ => apply (h.append offset).or_false Bool.false_ne_true
    | close =>
        apply h.update hmember
        · simp [Reply.isFailedRead]
        · simp [Reader.release_fst]
    | drop => apply (h.remove index).or_false Bool.false_ne_true

/-- Commands poison the members of which a read fails. -/
theorem accounts_runAllBy (setting : Setting W H S) (hread : Reader.Poisons read)
    (h : family.Accounts failed) (commands : List (Nat × Command)) :
  (family.runAllBy setting read commands).2.Accounts fun i =>
    failed i ∨ Reply.HasFailed i commands (family.runAllBy setting read commands).1
  := by
  induction commands generalizing family failed with
  | nil => simpa [runAllBy, Reply.HasFailed] using h
  | cons c commands ih =>
      obtain ⟨index, command⟩ := c
      have hrest := ih (accounts_runBy setting hread h index command)
      rw [runAllBy_cons]
      simpa only [Reply.hasFailed_cons, or_assoc] using hrest

/-- The reader of a new family is not poisoned. -/
theorem accounts_start (setting : Setting W H S) (world : W) :
  (start setting world).Accounts fun _ => False
  := by
  have hmember {i : Nat} {other : Reader S} (hi : (start setting world).member? i = some other) :
      other = Reader.startAt setting 0 := by
    have hmem := List.mem_of_getElem? (member?_eq_some_iff.mp hi)
    cases List.mem_singleton.mp hmem
    rfl
  constructor
  case lt_length => exact False.elim
  case poisoned_iff =>
      intro i other hi
      rw [hmember hi]
      simp [Reader.startAt]
  case held_eq_none =>
      intro i other hi _
      rw [hmember hi]
      rfl

/-! ### Poisoned members -/

/-- A member that is poisoned holds no stream, its reads fail at once and change nothing, and
nothing that it is told makes a call.  To move, to seek, to be copied and to close it answers as a
reader that stands at the same offset and is not poisoned, and comes to the same offset; and its
copies are readers as new ones. -/
structure Spent (setting : Setting W H S)
    (read : Nat → Reader S → Feed W H → Except ReadError Bytes × Reader S × Feed W H)
    (family : Family W H S) (index : Nat) (reader : Reader S) : Prop where
  poisoned_eq : reader.poisoned = true
  held_eq_none : reader.held = none
  run_read (size : Nat) :
    family.runBy setting read index (.read size) = (.bytes (.error .poisoned), family)
  run_drain (size : Nat) :
    family.runBy setting read index (.drain size) = (.drained [] (some .poisoned), family)
  calls_eq (command : Command) :
    (family.runBy setting read index command).2.feed.calls = family.feed.calls
  answers_alike (sound : Reader S) (command : Command) : sound.poisoned = false →
    sound.position = reader.position →
    (∀ size, command ≠ .read size ∧ command ≠ .drain size) →
    (family.runBy setting read index command).1
        = ((family.update index sound family.feed).runBy setting read index command).1
      ∧ (family.runBy setting read index command).2.positions
        = ((family.update index sound family.feed).runBy setting read index command).2.positions
  copies_sound (offset number : Nat) :
    (family.runBy setting read index (.copy offset)).1 = .copied (.ok number) →
    ∃ copy, (family.runBy setting read index (.copy offset)).2.member? number = some copy
      ∧ copy = Reader.startAt setting offset ∧ copy.poisoned = false

/-- Where a member changes, its position changes. -/
theorem positions_update :
  (family.update index reader feed).positions = family.positions.set index (some reader.position)
  := by
  rw [positions, positions, update, List.map_set]
  rfl

/-- A member that goes has no position. -/
theorem positions_remove (hmember : family.member? index = some reader) :
  (family.remove index).positions = family.positions.set index none
  := by
  rw [remove, hmember, positions, positions]
  dsimp only
  rw [List.map_set]
  rfl

/-- To read a poisoned member fails at once and changes nothing. -/
theorem runBy_read_of_poisoned (hread : Reader.Poisons read)
    (hmember : family.member? index = some reader) (hpoisoned : reader.poisoned = true)
    (size : Nat) :
  family.runBy setting read index (.read size) = (.bytes (.error .poisoned), family)
  := by
  simp only [runBy, hmember, hread.spent hpoisoned, update_self hmember]

/-- To read a poisoned member to the end fails at once and changes nothing. -/
theorem runBy_drain_of_poisoned (hread : Reader.Poisons read)
    (hmember : family.member? index = some reader) (hpoisoned : reader.poisoned = true)
    (size : Nat) :
  family.runBy setting read index (.drain size) = (.drained [] (some .poisoned), family)
  := by
  simp only [runBy, hmember, hread.drain hpoisoned, update_self hmember]

/-- Nothing that a poisoned member without a stream is told makes a call. -/
theorem calls_runBy_of_poisoned (hread : Reader.Poisons read)
    (hmember : family.member? index = some reader) (hpoisoned : reader.poisoned = true)
    (hheld : reader.held = none) (command : Command) :
  (family.runBy setting read index command).2.feed.calls = family.feed.calls
  := by
  cases command with
  | read size => rw [runBy_read_of_poisoned hread hmember hpoisoned]
  | drain size => rw [runBy_drain_of_poisoned hread hmember hpoisoned]
  | moveTo offset =>
      simp only [runBy, hmember]
      apply Reader.calls_moveTo hheld
  | seek target =>
      simp only [runBy, hmember]
      rcases Reader.seek_cases setting target reader family.feed with heq | heq
      · simp only [update, heq]
      · simp only [update, heq]
        apply Reader.calls_moveTo hheld
  | copy offset =>
      simp only [runBy, hmember]
      split <;> rfl
  | close =>
      simp only [runBy, hmember, Reader.release, hheld]
      rfl
  | drop => simp only [runBy, hmember, remove, hheld]

/-- What a member answers to anything but a read, and where it comes to, depends on nothing but its
position. -/
theorem runBy_update_of_position_eq {sound : Reader S} {command : Command}
    (hmember : family.member? index = some reader) (hpos : sound.position = reader.position)
    (hcommand : ∀ size, command ≠ .read size ∧ command ≠ .drain size) :
  (family.runBy setting read index command).1
      = ((family.update index sound family.feed).runBy setting read index command).1
    ∧ (family.runBy setting read index command).2.positions
      = ((family.update index sound family.feed).runBy setting read index command).2.positions
  := by
  have hmember' : (family.update index sound family.feed).member? index = some sound :=
    member?_update hmember
  have hset : (family.update index sound family.feed).positions = family.positions := by
    rw [positions_update, hpos, ← positions_update, update_self hmember]
  cases command with
  | read size => exact absurd rfl (hcommand size).1
  | drain size => exact absurd rfl (hcommand size).2
  | moveTo offset =>
      obtain ⟨houtcome, hposition⟩ : _ ∧ _ := Reader.moveTo_congr setting offset hpos
      simp only [runBy, hmember, hmember', positions_update, hset]
      exact ⟨congrArg Reply.moved houtcome.symm, by rw [hposition]⟩
  | seek target =>
      obtain ⟨houtcome, hposition⟩ : _ ∧ _ := Reader.seek_congr setting target hpos
      simp only [runBy, hmember, hmember', positions_update, hset]
      exact ⟨congrArg Reply.sought houtcome.symm, by rw [hposition]⟩
  | copy offset =>
      simp only [runBy, hmember, hmember']
      cases Reader.copyAt setting offset with
      | error e => exact ⟨rfl, hset.symm⟩
      | ok copy =>
          refine ⟨by simp only [update, List.length_set], ?_⟩
          simp only [positions, List.map_append]
          rw [positions, positions] at hset
          rw [hset]
  | close =>
      simp only [runBy, hmember, hmember', positions_update, hset, Reader.release_fst,
        Reader.position] at hpos ⊢
      simp only [hpos, and_self]
  | drop =>
      simp only [runBy, hmember, hmember', positions_remove hmember, positions_remove hmember',
        hset, and_self]

/-- A copy that is made is a member, and a reader as a new one. -/
theorem member?_runBy_copy (hmember : family.member? index = some reader) {offset number : Nat}
    (hcopy : (family.runBy setting read index (.copy offset)).1 = .copied (.ok number)) :
  (family.runBy setting read index (.copy offset)).2.member? number
    = some (Reader.startAt setting offset)
  := by
  have hcopyAt : Reader.copyAt setting offset = .ok (Reader.startAt setting offset)
      ∧ family.members.length = number := by
    simp only [runBy, hmember, Reader.copyAt] at hcopy ⊢
    cases hreach : Reader.checkReach setting offset with
    | error e => simp [hreach] at hcopy
    | ok _ =>
        simp only [hreach, Reply.copied.injEq, Except.ok.injEq] at hcopy
        exact ⟨rfl, hcopy⟩
  obtain ⟨hok, rfl⟩ := hcopyAt
  simp only [runBy, hmember, hok]
  rw [member?, List.getElem?_append_right (Nat.le_refl _), Nat.sub_self]
  rfl

/-- A poisoned member that holds no stream is spent. -/
theorem spent_of_poisoned (hread : Reader.Poisons read)
    (hmember : family.member? index = some reader) (hpoisoned : reader.poisoned = true)
    (hheld : reader.held = none) :
  family.Spent setting read index reader
  := by
  constructor
  case poisoned_eq => exact hpoisoned
  case held_eq_none => exact hheld
  case run_read => exact runBy_read_of_poisoned hread hmember hpoisoned
  case run_drain => exact runBy_drain_of_poisoned hread hmember hpoisoned
  case calls_eq => exact calls_runBy_of_poisoned hread hmember hpoisoned hheld
  case answers_alike =>
      intro sound command _ hpos hcommand
      exact runBy_update_of_position_eq hmember hpos hcommand
  case copies_sound =>
      intro offset number hcopy
      exact ⟨_, member?_runBy_copy hmember hcopy, rfl, rfl⟩

/-- A member stays until it is told to go. -/
theorem exists_member_runBy (setting : Setting W H S)
    (read : Nat → Reader S → Feed W H → Except ReadError Bytes × Reader S × Feed W H) {i : Nat}
    {command : Command} (hmember : family.member? index = some reader)
    (hstays : (i, command) ≠ (index, .drop)) :
  ∃ reader', (family.runBy setting read i command).2.member? index = some reader'
  := by
  by_cases hi : i = index
  · subst hi
    rw [runBy, hmember]
    cases command with
    | copy offset =>
        dsimp only
        split
        · refine ⟨reader, ?_⟩
          rw [member?_eq_some_iff] at hmember ⊢
          rw [List.getElem?_append_left (lt_length_of_member? (member?_eq_some_iff.mpr hmember))]
          apply hmember
        · exact ⟨reader, hmember⟩
    | drop => exact absurd rfl hstays
    | _ => exact ⟨_, member?_update hmember⟩
  · exact ⟨reader, member?_runBy_of_ne hi hmember⟩

/-- A member stays until it is told to go, whatever else is told to the members. -/
theorem exists_member_runAllBy (setting : Setting W H S)
    (read : Nat → Reader S → Feed W H → Except ReadError Bytes × Reader S × Feed W H)
    {commands : List (Nat × Command)} (hmember : family.member? index = some reader)
    (hstays : (index, .drop) ∉ commands) :
  ∃ reader', (family.runAllBy setting read commands).2.member? index = some reader'
  := by
  induction commands generalizing family reader with
  | nil => exact ⟨reader, hmember⟩
  | cons c commands ih =>
      obtain ⟨i, command⟩ := c
      rw [List.mem_cons, not_or] at hstays
      obtain ⟨reader', hmember'⟩ :=
        exists_member_runBy setting read hmember (Ne.symm hstays.1)
      rw [runAllBy_cons]
      apply ih hmember' hstays.2

/-- Whether they read at once or by tasks, the members that are poisoned are those of which a read
has failed.  A member that is poisoned stays so, whatever it and the others are told: it holds no
stream and makes no calls, its reads fail at once, and otherwise it answers as a reader at the same
offset that is not poisoned; and its copies are not poisoned when they are made. -/
theorem failed_read_poisons_for_good (hreads : Reader.Reads setting read) (world : W)
    {done : List (Nat × Command)}
    (hmember : ((start setting world).runAllBy setting read done).2.member? index = some reader) :
  let reached := (start setting world).runAllBy setting read done
  (reader.poisoned = true ↔ Reply.HasFailed index done reached.1)
    ∧ (reader.poisoned = true → ∀ more, (index, .drop) ∉ more →
        ∃ reader', (reached.2.runAllBy setting read more).2.member? index = some reader'
          ∧ (reached.2.runAllBy setting read more).2.Spent setting read index reader')
  := by
  intro reached
  have hpoisons := hreads.poisons
  have haccounts := accounts_runAllBy setting hpoisons (accounts_start setting world) done
  have hiff := haccounts.poisoned_iff hmember
  refine ⟨by simpa using hiff, fun hpoisoned more hstays => ?_⟩
  obtain ⟨reader', hmember'⟩ := exists_member_runAllBy setting read hmember hstays
  have haccounts' := accounts_runAllBy setting hpoisons haccounts more
  have hpoisoned' := (haccounts'.poisoned_iff hmember').mpr (.inl (hiff.mp hpoisoned))
  exact ⟨reader', hmember', spent_of_poisoned hpoisons hmember' hpoisoned'
    (haccounts'.held_eq_none hmember' hpoisoned')⟩

/-- A reader that comes to a run whose source is not registered, and a copy of it that does not come
so far.  Neither a move that fails nor the failure of the other reader poisons the copy. -/
theorem failed_read_poisons_for_good_unregistered :
  let run : ItemRun := ⟨⟨7⟩, ⟨⟨1⟩, "a", 1⟩, ⟨⟨1, [], []⟩, 0, 1⟩, []⟩
  let setting : SuspendingSetting (Registry ScriptedSource) SourceId ScriptedStream :=
    ⟨Registry.polledSupply, ⟨[10], 2, [.run run]⟩, .standard, true⟩
  let waiting := setting.waiting .suspending
  let read := Reader.readByTask setting
  let done : List (Nat × Command) :=
    [(0, .copy 0), (0, .read 8), (1, .moveTo 9), (1, .read 1), (0, .moveTo 9)]
  let reached := (start waiting ⟨[]⟩).runAllBy waiting read done
  let later := (reached.2.runAllBy waiting read [(0, .moveTo 0), (1, .read 0), (0, .close)]).2
  Reader.Reads waiting read
    ∧ reached.2.member? 0 = some ⟨⟨1, 0, 0⟩, none, true⟩ ∧ Reply.HasFailed 0 done reached.1
    ∧ reached.2.member? 1 = some ⟨⟨1, 0, 0⟩, none, false⟩ ∧ ¬ Reply.HasFailed 1 done reached.1
    ∧ ∃ reader, later.member? 0 = some reader ∧ later.Spent waiting read 0 reader
  := by
  intro run setting waiting read done reached later
  have hreads : Reader.Reads waiting read := .byTasks setting
  have hfirst : reached.2.member? 0 = some ⟨⟨1, 0, 0⟩, none, true⟩ := by
    simp only [reached, done, read, waiting, setting, run]
    cbv
  have hcopy : reached.2.member? 1 = some ⟨⟨1, 0, 0⟩, none, false⟩ := by
    simp only [reached, done, read, waiting, setting, run]
    cbv
  obtain ⟨hfailed, hspent⟩ := failed_read_poisons_for_good hreads ⟨[]⟩ hfirst
  obtain ⟨hsound, -⟩ := failed_read_poisons_for_good hreads ⟨[]⟩ hcopy
  refine ⟨hreads, hfirst, hfailed.mp rfl, hcopy, fun hbad => ?_, ?_⟩
  · cases hsound.mpr hbad
  · apply hspent rfl [(0, .moveTo 0), (1, .read 0), (0, .close)]
    decide

end Family

end PieceStream
