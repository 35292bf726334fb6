import PieceStream.Proofs.Likeness
import PieceStream.Proofs.Suspension

/-!
# Likenesses of tasks

Readers of two settings that are alike do alike when they read by tasks, even where interruptions
are not tolerated while bytes are passed over.  Each stage of a task comes to what its reader would
come to if it waited for the answers that the stage polls for.
-/

namespace PieceStream

variable {W H S W' H' S' : Type}

/-! ### Stages -/

/-- What progress comes to when its task is completed. -/
def Progress.outcome (setting : SuspendingSetting W H S) :
    Progress W H S → Except ReadError Bytes × Reader S × Feed W H
  | .running task => task.complete setting
  | .finished outcome reader feed => (outcome, reader, feed)

namespace Task

/-- The task has done with bytes in memory and does not pass over any: it opens a range or asks for
payload bytes. -/
def IsAcquiring (task : Task W H S) : Prop :=
  (∃ span handle, task.stage = .opening span handle) ∨ ∃ span item, task.stage = .asking span item

variable {setting : SuspendingSetting W H S} {task task' : Task W H S} {span : PayloadRest}
  {item : HeldStream S} {feed : Feed W H}

/-- A task comes to what its next step comes to. -/
theorem complete_eq_outcome :
  task.complete setting = (task.step setting).outcome setting
  := by
  cases hstep : task.step setting with
  | running task' => apply complete_of_running hstep
  | finished outcome reader feed => apply complete_of_finished hstep

/-- A task that opens a range or asks for payload bytes goes on to do so. -/
theorem isAcquiring_step (h : task.IsAcquiring) (hstep : task.step setting = .running task') :
  task'.IsAcquiring
  := by
  rcases h with ⟨span, handle, hstage⟩ | ⟨span, item, hstage⟩
  · simp only [step, hstage, stepOpening] at hstep
    split at hstep
    · cases hstep
      exact .inl ⟨_, _, rfl⟩
    · split at hstep
      · cases hstep
        exact .inr ⟨_, _, rfl⟩
      · cases hstep
  · simp only [step, hstage, stepAsking] at hstep
    split at hstep
    · cases hstep
      exact .inr ⟨_, _, rfl⟩
    · cases hstep
    · cases hstep
    · split at hstep
      · cases hstep
        exact .inr ⟨_, _, rfl⟩
      · cases hstep

/-- A step that opens a range or asks for payload bytes does not change the rest. -/
theorem IsAcquiring.rest_step (h : task.IsAcquiring) :
  (task.step setting).rest setting = task.rest setting
  := by
  rcases h with ⟨span, handle, hstage⟩ | ⟨span, item, hstage⟩
  · rw [step, hstage, rest, hstage]
    apply rest_stepOpening hstage
  · rw [step, hstage, rest, hstage]
    apply rest_stepAsking

/-- To open a range or to ask for payload bytes by a task is to wait for them. -/
theorem IsAcquiring.complete_eq_rest (h : task.IsAcquiring) :
  task.complete setting = task.rest setting
  := by
  induction task using complete.induct setting with
  | case1 task outcome reader feed hstep =>
      rw [complete_of_finished hstep, ← h.rest_step, hstep]
      rfl
  | case2 task task' hstep ih =>
      rw [complete_of_running hstep, ih (isAcquiring_step h hstep), ← h.rest_step, hstep]
      rfl

/-- To start opening comes to what opening comes to. -/
theorem outcome_startOpening :
  (task.startOpening setting span feed).outcome setting
    = task.handOut setting span ((setting.waiting .suspending).openFor span feed)
  := by
  rw [← rest_startOpening]
  rcases hsource : (setting.waiting .suspending).sourceFor span feed with ⟨_ | handle, feed'⟩
  · rw [startOpening, hsource]
    rfl
  · rw [startOpening, hsource]
    apply IsAcquiring.complete_eq_rest
    exact .inl ⟨span, handle, rfl⟩

/-- A task that has passed over all bytes asks for those of the payload. -/
theorem complete_skipped (hstage : task.stage = .skipping span item 0) :
  task.complete setting = task.handOut setting span (.ok item, task.feed)
  := by
  have hstep : task.step setting = .running { task with stage := .asking span item } := by
    rw [step, hstage]
    rfl
  rw [complete_of_running hstep, IsAcquiring.complete_eq_rest (.inr ⟨span, item, rfl⟩)]
  rfl

/-- A task that passes over bytes goes by the answer that it polls for. -/
theorem complete_skipping {gap : Nat} (hgap : 0 < gap)
    (hstage : task.stage = .skipping span item gap) :
  task.complete setting
    = match setting.supply.awaited.ask .skip (min Supply.skipSize gap) item task.feed with
      | (.ok [], item, feed) =>
        (.error (.unexpectedEnd span.path item.itemPos), { task.reader with held := none },
          feed.drop item)
      | (.ok (b :: bs), item, feed) =>
        let item := { item with itemPos := item.itemPos + (b :: bs).length }
        { task with feed := feed, stage := .skipping span item (gap - (b :: bs).length) }.complete
          setting
      | (.error e, item, feed) =>
        if setting.persistent ∧ e.isInterruption then
          { task with feed := feed, stage := .skipping span item gap }.complete setting
        else
          (.error (.sourceReadFailure span.path (.io e)), { task.reader with held := none },
            feed.drop item)
  := by
  induction hpatience : setting.supply.patienceFor item task.feed using Nat.strongRecOn
    generalizing item task with
  | ind patience ih =>
      have hstep : task.step setting = task.stepSkipping setting span item gap := by
        rw [step, hstage]
      rw [complete_eq_outcome, hstep, stepSkipping, if_neg (Nat.ne_of_gt hgap)]
      rcases hask : setting.supply.ask .skip (min Supply.skipSize gap) item task.feed
        with ⟨_ | e | bytes, item', feed'⟩
      · rw [PolledSupply.awaited_ask_of_pending hask]
        have hlt := setting.supply.patienceFor_lt_of_pending hask
        rw [hpatience] at hlt
        apply ih _ hlt rfl rfl
      · rw [PolledSupply.awaited_ask_of_ready hask]
        dsimp only
        split <;> rfl
      · rw [PolledSupply.awaited_ask_of_ready hask]
        cases bytes <;> rfl

end Task

/-! ### Readers -/

namespace Setting.Likeness

variable {left : SuspendingSetting W H S} {right : SuspendingSetting W' H' S'}
  {likeness : (left.waiting .suspending).Likeness (right.waiting .suspending)}
  {pos : Nat} {span : PayloadRest} {item : HeldStream S} {other : HeldStream S'}
  {reader : Reader S} {twin : Reader S'} {f : Feed W H} {g : Feed W' H'}

/-- What comes to the same does so with the same bytes before it. -/
theorem Agree.map {α β : Type} {x : Except α β × Reader S × Feed W H}
    {y : Except α β × Reader S' × Feed W' H'} (h : likeness.Agree x y) (φ : β → β) :
  likeness.Agree (x.1.map φ, x.2) (y.1.map φ, y.2)
  := by
  cases h with
  | intro hreaders hfeeds => exact .intro hreaders hfeeds

/-- Bytes of streams acquired alike are handed out alike. -/
theorem handOut {filled : Bytes} {room : Nat} {before : Feed W H} {before' : Feed W' H'}
    {stage : Stage H S} {stage' : Stage H' S'} {acquired : Except ReadError (HeldStream S)}
    {acquired' : Except ReadError (HeldStream S')} (hlaid : left.piece.Laid)
    (hspan : span.At left.piece pos)
    (h : likeness.Readers pos reader twin)
    (hsame : SameOutcome (likeness.Streams pos) acquired acquired')
    (hplace : ∀ item, acquired = .ok item →
      item.block = span.block ∧ item.itemPos = span.itemOffset)
    (hfeeds : likeness.Feeds f g) :
  likeness.Agree (Task.handOut left ⟨reader, before, filled, room, stage⟩ span (acquired, f))
    (Task.handOut right ⟨twin, before', filled, room, stage'⟩ span (acquired', g))
  := by
  rw [Task.handOut, Task.handOut]
  apply Agree.map
  cases hsame with
  | error e => exact .intro h.bare hfeeds
  | ok hstreams =>
      obtain ⟨hblock, hpos⟩ := hplace _ rfl
      obtain ⟨outcome, kept, kept', f', g', hleft, hright, hkept, hblock', hfeeds'⟩ :=
        askFor hspan room hstreams hblock hpos hfeeds
      rw [hleft, hright]
      apply takeIn hlaid hspan h.bare _ hkept hblock' hfeeds'
      rintro bytes rfl
      have hlength := Setting.length_le_of_askFor hleft
      omega

/-- Tasks that pass over bytes come to the same. -/
theorem completeSkipping {gap room : Nat} (filled : Bytes) (hlaid : left.piece.Laid)
    (hpersistent : right.persistent = left.persistent) (hspan : span.At left.piece pos)
    (h : likeness.Readers pos reader twin)
    (hstreams : likeness.Streams pos item other) (hblock : item.block = span.block)
    (hgap : item.itemPos + gap = span.itemOffset) (hfeeds : likeness.Feeds f g) :
  likeness.Agree (Task.complete left ⟨reader, f, filled, room, .skipping span item gap⟩)
    (Task.complete right ⟨twin, g, filled, room, .skipping span other gap⟩)
  := by
  induction gap, item, f using Supply.passOver.induct (left.waiting .suspending).supply
      generalizing other g with
  | case1 item f =>
      have hplace : ∀ item', (.ok item : Except ReadError (HeldStream S)) = .ok item' →
          item'.block = span.block ∧ item'.itemPos = span.itemOffset := by
        rintro _ ⟨⟩
        exact ⟨hblock, hgap⟩
      rw [Task.complete_skipped rfl, Task.complete_skipped rfl]
      apply handOut hlaid hspan h (.ok hstreams) hplace hfeeds
  | case2 gap item f hne next f' hask =>
      obtain ⟨_, _, next', _, g', hleft, hright, h', hfeeds'⟩ :=
        askSkip hspan hstreams hblock hgap hfeeds
      cases hask.symm.trans hleft
      have hpos := Nat.pos_of_ne_zero hne
      have hplace : next'.itemPos = next.itemPos := (likeness.place_eq h').2
      rw [Task.complete_skipping hpos rfl, Task.complete_skipping hpos rfl]
      simp only [SuspendingSetting.waiting] at hask hright
      simp only [hask, hright, hplace]
      exact .intro h.bare (likeness.drop hfeeds' h')
  | case3 gap item f hne b bs next f' hask ih =>
      obtain ⟨_, _, next', _, g', hleft, hright, h', hfeeds'⟩ :=
        askSkip hspan hstreams hblock hgap hfeeds
      cases hask.symm.trans hleft
      have hpos := Nat.pos_of_ne_zero hne
      obtain ⟨hblock', hpos', -⟩ := Supply.quiet_of_ask hask
      have hle : (b :: bs).length ≤ gap := Nat.le_trans
        ((left.waiting .suspending).supply.length_le_of_ask hask) (Nat.min_le_right _ _)
      rw [Task.complete_skipping hpos rfl, Task.complete_skipping hpos rfl]
      simp only [SuspendingSetting.waiting] at hask hright
      simp only [hask, hright]
      apply ih h' (hblock'.trans hblock) _ hfeeds'
      rw [hpos', Nat.add_assoc, Nat.add_sub_of_le hle, hgap]
  | case4 gap item f hne e next f' hask he ih =>
      obtain ⟨_, _, next', _, g', hleft, hright, h', hfeeds'⟩ :=
        askSkip hspan hstreams hblock hgap hfeeds
      cases hask.symm.trans hleft
      have hpos := Nat.pos_of_ne_zero hne
      obtain ⟨hblock', hpos', -⟩ := Supply.quiet_of_ask hask
      rw [Task.complete_skipping hpos rfl, Task.complete_skipping hpos rfl]
      simp only [SuspendingSetting.waiting] at hask hright
      simp only [hask, hright, he, and_true, hpersistent]
      split
      · apply ih h' (hblock'.trans hblock) _ hfeeds'
        rw [hpos', hgap]
      · exact .intro h.bare (likeness.drop hfeeds' h')
  | case5 gap item f hne e next f' hask he =>
      obtain ⟨_, _, next', _, g', hleft, hright, h', hfeeds'⟩ :=
        askSkip hspan hstreams hblock hgap hfeeds
      cases hask.symm.trans hleft
      have hpos := Nat.pos_of_ne_zero hne
      rw [Task.complete_skipping hpos rfl, Task.complete_skipping hpos rfl]
      simp only [SuspendingSetting.waiting] at hask hright
      simp only [hask, hright, he, Bool.false_eq_true, and_false, if_false]
      exact .intro h.bare (likeness.drop hfeeds' h')

/-- Tasks that start opening come to the same. -/
theorem outcomeOpening {filled : Bytes} {room : Nat} {before : Feed W H} {before' : Feed W' H'}
    {stage : Stage H S} {stage' : Stage H' S'} (hlaid : left.piece.Laid)
    (hspan : span.At left.piece pos)
    (h : likeness.Readers pos reader twin)
    (hfeeds : likeness.Feeds f g) :
  likeness.Agree
    ((Task.startOpening left ⟨reader, before, filled, room, stage⟩ span f).outcome left)
    ((Task.startOpening right ⟨twin, before', filled, room, stage'⟩ span g).outcome right)
  := by
  obtain ⟨outcome, outcome', f', g', hleft, hright, hsame, hfeeds'⟩ :=
    likeness.openFor hspan hfeeds
  rw [Task.outcome_startOpening, Task.outcome_startOpening, hleft, hright]
  apply handOut hlaid hspan h hsame _ hfeeds'
  rintro item rfl
  obtain ⟨hblock, hpos, -⟩ := Setting.openings_openFor hleft
  exact ⟨hblock, hpos⟩

/-- Tasks that come to a payload come to the same. -/
theorem outcomeFilling {filled : Bytes} {room : Nat} (hlaid : left.piece.Laid)
    (hpersistent : right.persistent = left.persistent) (hroom : 0 < room)
    (hseg : reader.cursor.segment left.piece = .payload span)
    (hseg' : twin.cursor.segment right.piece = .payload span) (hspan : span.At left.piece pos)
    (h : likeness.Readers pos reader twin) (hfeeds : likeness.Feeds f g) :
  likeness.Agree ((Task.stepFilling left ⟨reader, f, filled, room, .filling⟩).outcome left)
    ((Task.stepFilling right ⟨twin, g, filled, room, .filling⟩).outcome right)
  := by
  have hbare := h.bare
  have hheld := h.held
  simp only [Task.stepFilling, hseg, hseg', Nat.ne_of_gt hroom, if_false]
  cases hitem : reader.held with
  | none =>
      rw [hitem] at hheld
      generalize twin.held = held at hheld ⊢
      cases hheld with
      | none => apply outcomeOpening hlaid hspan hbare hfeeds
  | some item =>
      have hblock := h.block_eq hlaid hspan hitem
      rw [hitem] at hheld
      generalize twin.held = held at hheld ⊢
      cases hheld with
      | @some _ other hstreams =>
          obtain ⟨hblock', hpos'⟩ := likeness.place_eq hstreams
          rcases Nat.lt_trichotomy item.itemPos span.itemOffset with hlt | heq | hgt
          · simp only [Approach.toward, hblock', hpos', hblock, hlt, Nat.ne_of_lt hlt, true_and,
              and_false, if_false, if_true]
            apply completeSkipping filled hlaid hpersistent hspan hbare hstreams hblock
              (Nat.add_sub_of_le (Nat.le_of_lt hlt)) (likeness.note _ hfeeds)
          · have hplace : ∀ item', (.ok item : Except ReadError (HeldStream S)) = .ok item' →
                item'.block = span.block ∧ item'.itemPos = span.itemOffset := by
              rintro _ ⟨⟩
              exact ⟨hblock, heq⟩
            simp only [Approach.toward, hblock', hpos', hblock, heq, and_self, if_true,
              Progress.outcome]
            rw [Task.IsAcquiring.complete_eq_rest (.inr ⟨span, item, rfl⟩),
              Task.IsAcquiring.complete_eq_rest (.inr ⟨span, other, rfl⟩)]
            apply handOut hlaid hspan hbare (.ok hstreams) hplace hfeeds
          · simp only [Approach.toward, hblock', hpos', hblock, Nat.ne_of_gt hgt,
              Nat.not_lt_of_gt hgt, and_false, if_false]
            apply outcomeOpening hlaid hspan hbare (releaseStream hstreams hfeeds)

/-- Tasks that fill buffers come to the same. -/
theorem completeFilling (hlaid : left.piece.Laid) (hpersistent : right.persistent = left.persistent)
    (filled : Bytes) (room : Nat) (h : likeness.Readers pos reader twin)
    (hfeeds : likeness.Feeds f g) :
  likeness.Agree (Task.complete left ⟨reader, f, filled, room, .filling⟩)
    (Task.complete right ⟨twin, g, filled, room, .filling⟩)
  := by
  -- Each step either passes bytes in memory, which takes room, or comes to a payload.
  induction room using Nat.strongRecOn generalizing pos reader twin f g filled with
  | ind room ih =>
      have hcursor : reader.cursor = Cursor.settled left.piece pos := h.standsAt.cursor_eq
      have hsize : pos ≤ left.piece.size := h.standsAt.le_size
      have hsame : twin.cursor.segment right.piece = reader.cursor.segment left.piece :=
        congrArg₂ Cursor.segment likeness.piece_eq h.cursor_eq
      have hstands := Cursor.standsAt_segment hlaid hsize
      rw [← hcursor] at hstands
      rw [Task.complete_eq_outcome, Task.complete_eq_outcome, Task.step, Task.step]
      rcases Nat.eq_zero_or_pos room with rfl | hroom
      · exact .intro h hfeeds
      · cases hseg : reader.cursor.segment left.piece with
        | finish =>
            simp only [Task.stepFilling, hsame, hseg, Nat.ne_of_gt hroom, if_false]
            exact .intro h hfeeds
        | bytes available =>
            have hsegment := hseg
            rw [hcursor] at hsegment
            have hne := List.length_pos_iff.mpr (Cursor.ne_nil_of_segment hseg)
            have hlength : (available.take room).length = min room available.length :=
              List.length_take
            have hend : pos + (available.take room).length ≤ left.piece.size := by
              have := (Cursor.segment_add hlaid hsize hsegment).1
              omega
            obtain ⟨h', hfeeds'⟩ := advance (available.take room).length hlaid h hend hfeeds
            simp only [Task.stepFilling, hsame, hseg, Nat.ne_of_gt hroom, if_false]
            apply ih _ (by omega) _ h' hfeeds'
        | payload span =>
            rw [hseg] at hstands
            cases hstands with
            | payload hspan =>
                apply outcomeFilling hlaid hpersistent hroom hseg (hsame.trans hseg) hspan h hfeeds

/-- Reads by tasks come to the same. -/
theorem readsAlike_readByTask (likeness : (left.waiting .suspending).Likeness
    (right.waiting .suspending)) (hlaid : left.piece.Laid)
    (hpersistent : right.persistent = left.persistent) :
  likeness.ReadsAlike (Reader.readByTask left) (Reader.readByTask right)
  := by
  intro size pos reader twin f g h hfeeds
  rw [Reader.readByTask, Reader.readByTask, h.poisoned_eq]
  split
  · exact .intro h hfeeds
  · apply poisonOnError
    apply completeFilling hlaid hpersistent [] size h hfeeds

end Setting.Likeness

end PieceStream
