import Mathlib
import PieceStream.Proofs.Manner
import PieceStream.Proofs.Tolerance
import PieceStream.Reading.Script

/-!
# Reading by tasks

Whatever stage a task has reached, a reader that waits for the supply can take over from it: what
is left of the task, done at once, is the rest of the task.  A step does not change the rest, so
that a completed task comes to what a read comes to.  Interruptions while bytes are passed over are
the exception, for tasks that do not go on after them: the first one cuts a task short.

Mathlib is imported whole for the equations with which `cbv` runs readers, here and in the modules
built on this one.
-/

namespace PieceStream

variable {W H S : Type}

/-! ### Waiting for answers -/

namespace Supply

variable {supply : Supply W H S} {item item' : HeldStream S} {feed feed' : Feed W H}

/-- Questions go on alike where the next one is answered alike. -/
theorem askUninterrupted_congr {size : Nat}
    (h : supply.ask .payload size item feed = supply.ask .payload size item' feed') :
  supply.askUninterrupted size item feed = supply.askUninterrupted size item' feed'
  := by
  rcases hask : supply.ask .payload size item' feed' with ⟨e | bytes, item'', feed''⟩
  · rw [hask] at h
    cases he : e.isInterruption with
    | true =>
        rw [askUninterrupted_of_interruption h he, askUninterrupted_of_interruption hask he]
    | false => rw [askUninterrupted_of_error h he, askUninterrupted_of_error hask he]
  · rw [hask] at h
    rw [askUninterrupted_of_ok h, askUninterrupted_of_ok hask]

/-- Bytes are passed over alike where the next question is answered alike. -/
theorem passOver_congr {gap : Nat} (hgap : 0 < gap)
    (h : supply.ask .skip (min skipSize gap) item feed
      = supply.ask .skip (min skipSize gap) item' feed') :
  supply.passOver gap item feed = supply.passOver gap item' feed'
  := by
  rcases hask : supply.ask .skip (min skipSize gap) item' feed' with ⟨e | bytes, item'', feed''⟩
  · rw [hask] at h
    cases he : e.isInterruption with
    | true =>
        rw [passOver_of_interruption hgap h he, passOver_of_interruption hgap hask he]
    | false => rw [passOver_of_error hgap h he, passOver_of_error hgap hask he]
  · rw [hask] at h
    cases bytes with
    | nil => rw [passOver_of_nil hgap h, passOver_of_nil hgap hask]
    | cons b bs =>
        have hb := List.cons_ne_nil b bs
        rw [passOver_of_ok hgap hb h, passOver_of_ok hgap hb hask]

end Supply

namespace PolledSupply

variable {supply : PolledSupply W H S} {purpose : Purpose} {size : Nat}
  {item item' : HeldStream S} {feed feed' : Feed W H}

/-- An answer polled for is the one waited for. -/
theorem awaited_ask_of_ready {outcome : Except IoError Bytes}
    (h : supply.ask purpose size item feed = (.ready outcome, item', feed')) :
  supply.awaited.ask purpose size item feed = (outcome, item', feed')
  := by
  rcases hread : supply.read item.stream size feed.world with ⟨_ | answer, s, w⟩
  · rw [ask, hread] at h
    cases h
  · rw [ask, hread] at h
    cases h
    simp only [Supply.ask, awaited, awaitRead_of_ready hread]

/-- Where an answer is pending, it is still waited for afterwards. -/
theorem awaited_ask_of_pending
    (h : supply.ask purpose size item feed = (.pending, item', feed')) :
  supply.awaited.ask purpose size item feed = supply.awaited.ask purpose size item' feed'
  := by
  rcases hread : supply.read item.stream size feed.world with ⟨_ | answer, s, w⟩
  · rw [ask, hread] at h
    cases h
    simp only [Supply.ask, awaited, awaitRead_of_pending hread]
  · rw [ask, hread] at h
    cases h

end PolledSupply

namespace SuspendingSetting

variable {setting : SuspendingSetting W H S} {manner : Manner} {span : PayloadRest} {handle : H}
  {feed : Feed W H} {w : W}

/-- A range polled for is the one waited for. -/
theorem openFrom_of_ready {outcome : Except SourceError S} {notes : List Note}
    (h : setting.supply.openRange handle span.path span.itemOffset
      ((setting.waiting manner).lengthFor span) feed.world = (.ready (outcome, notes), w)) :
  (setting.waiting manner).openFrom handle span feed
    = Setting.conclude span outcome notes { feed with world := w }
  := by
  have hopen := PolledSupply.awaitOpen_of_ready h
  simp only [Setting.openFrom, waiting, PolledSupply.awaited] at hopen ⊢
  rw [hopen]

/-- Where a range is pending, it is still waited for afterwards. -/
theorem openFrom_of_pending
    (h : setting.supply.openRange handle span.path span.itemOffset
      ((setting.waiting manner).lengthFor span) feed.world = (.pending, w)) :
  (setting.waiting manner).openFrom handle span feed
    = (setting.waiting manner).openFrom handle span { feed with world := w }
  := by
  have hopen := PolledSupply.awaitOpen_of_pending h
  simp only [Setting.openFrom, waiting, PolledSupply.awaited] at hopen ⊢
  rw [hopen]

end SuspendingSetting

/-! ### The rest of a task -/

namespace Task

variable (setting : SuspendingSetting W H S)

/-- Hands out bytes of `span` from the stream acquired. -/
def handOut (task : Task W H S) (span : PayloadRest)
    (acquired : Except ReadError (HeldStream S) × Feed W H) :
    Except ReadError Bytes × Reader S × Feed W H :=
  let waiting := setting.waiting .suspending
  let (outcome, reader, feed) :=
    task.reader.takeIn waiting (waiting.askFor span task.room acquired)
  (outcome.map (task.filled ++ ·), reader, feed)

/-- What the task comes to if it is done at once from here on. -/
def rest (task : Task W H S) : Except ReadError Bytes × Reader S × Feed W H :=
  let waiting := setting.waiting .suspending
  match task.stage with
  | .filling =>
    let (outcome, reader, feed) := task.reader.gather waiting task.room task.feed
    (outcome.map (task.filled ++ ·), reader, feed)
  | .opening span handle => task.handOut setting span (waiting.openFrom handle span task.feed)
  | .skipping span item gap =>
    task.handOut setting span
      (Setting.concludeSkip span (waiting.supply.passOver gap item task.feed))
  | .asking span item => task.handOut setting span (.ok item, task.feed)

end Task

/-- What progress comes to if the task is done at once from here on. -/
def Progress.rest (setting : SuspendingSetting W H S) :
    Progress W H S → Except ReadError Bytes × Reader S × Feed W H
  | .running task => task.rest setting
  | .finished outcome reader feed => (outcome, reader, feed)

/-- The feed of a task under way or finished. -/
def Progress.feed : Progress W H S → Feed W H
  | .running task => task.feed
  | .finished _ _ feed => feed

/-- The task has failed because a stream was interrupted, and has given the stream up. -/
def Progress.CutShort (progress : Progress W H S) : Prop :=
  ∃ e reader feed, progress = .finished (.error e) reader feed
    ∧ e.isInterruption = true ∧ reader.held = none

namespace Task

variable {setting : SuspendingSetting W H S} {task : Task W H S} {span : PayloadRest}
  {item : HeldStream S}

/-- What the reader held before does not matter once a stream has been acquired. -/
theorem handOut_bare {acquired : Except ReadError (HeldStream S) × Feed W H} :
  task.bare.handOut setting span acquired = task.handOut setting span acquired
  := by
  rcases htaken : (setting.waiting .suspending).askFor span task.room acquired
    with ⟨_ | _, held, feed⟩ <;> simp only [handOut, bare, htaken, Reader.takeIn]

/-- Bytes are handed out alike where questions are answered alike. -/
theorem handOut_congr {item' : HeldStream S} {feed feed' : Feed W H}
    (h : setting.supply.awaited.askUninterrupted (min span.remaining task.room) item feed
      = setting.supply.awaited.askUninterrupted (min span.remaining task.room) item' feed') :
  task.handOut setting span (.ok item, feed) = task.handOut setting span (.ok item', feed')
  := by
  simp only [handOut, Setting.askFor, SuspendingSetting.waiting, h]

/-- A step of asking does not change the rest. -/
theorem rest_stepAsking :
  (task.stepAsking setting span item).rest setting
    = task.handOut setting span (.ok item, task.feed)
  := by
  rcases hask : setting.supply.ask .payload (min span.remaining task.room) item task.feed
    with ⟨_ | e | bytes, item', feed'⟩
  · have hnext := Supply.askUninterrupted_congr (PolledSupply.awaited_ask_of_pending hask)
    rw [stepAsking, hask, handOut_congr hnext]
    rfl
  · have hwait := PolledSupply.awaited_ask_of_ready hask
    rw [stepAsking, hask]
    cases he : e.isInterruption with
    | true =>
        have hnext := Supply.askUninterrupted_of_interruption hwait he
        simp only [he, if_true]
        apply (handOut_congr hnext).symm
    | false =>
        have hnext := Supply.askUninterrupted_of_error hwait he
        simp only [he, handOut, Setting.askFor, SuspendingSetting.waiting, hnext]
        rfl
  · have hnext := Supply.askUninterrupted_of_ok (PolledSupply.awaited_ask_of_ready hask)
    simp only [stepAsking, hask, handOut, Setting.askFor, SuspendingSetting.waiting, hnext]
    cases bytes with
    | nil => rfl
    | cons b bs => rfl

/-- Passing over bytes and handing out others takes no call back. -/
theorem calls_suffix_skipping {gap : Nat} {feed : Feed W H} :
  feed.calls <:+ (task.handOut setting span (Setting.concludeSkip span
    (setting.supply.awaited.passOver gap item feed))).2.2.calls
  := by
  let waiting := setting.waiting .suspending
  obtain ⟨skipped, item', f₁, _, hskip, -, h₁⟩ :=
    setting.supply.awaited.abreast_passOver (Feed.Abreast.refl (f := feed)) gap item
  obtain ⟨acquired, f₂, _, hacquire, -, h₂⟩ := Setting.abreast_concludeSkip h₁ span skipped item'
  obtain ⟨taken, held, f₃, _, htake, -, h₃⟩ :=
    waiting.abreast_askFor .suspending h₂ span task.room acquired
  obtain ⟨outcome, reader, f₄, _, hout, -, h₄⟩ :=
    Reader.abreast_takeIn waiting .suspending h₃ task.reader taken held
  simp only [handOut, hskip, hacquire, waiting] at htake hout ⊢
  rw [htake, hout]
  apply h₄.calls_suffix

/-- A step of skipping does not change the rest, or the task is cut short there. -/
theorem compares_stepSkipping {gap : Nat} :
  setting.Compares task.feed
    (task.handOut setting span (Setting.concludeSkip span
      (setting.supply.awaited.passOver gap item task.feed))).2.2
    (task.stepSkipping setting span item gap).feed
    ((task.stepSkipping setting span item gap).rest setting
      = task.handOut setting span (Setting.concludeSkip span
          (setting.supply.awaited.passOver gap item task.feed)))
    (task.stepSkipping setting span item gap).CutShort
  := by
  rcases Nat.eq_zero_or_pos gap with rfl | hgap
  · rw [stepSkipping, if_pos rfl, Supply.passOver_zero]
    exact .same rfl fun _ h => h
  rw [stepSkipping, if_neg (Nat.ne_of_gt hgap)]
  rcases hask : setting.supply.ask .skip (min Supply.skipSize gap) item task.feed
    with ⟨_ | e | bytes, item', feed'⟩
  · have hspared := PolledSupply.skipInterrupted_ask hask (by rintro _ _ ⟨⟩)
    rw [Supply.passOver_congr hgap (PolledSupply.awaited_ask_of_pending hask)]
    exact .same rfl fun _ => hspared.mp
  · have hwait := PolledSupply.awaited_ask_of_ready hask
    cases he : e.isInterruption with
    | true =>
        have hinterrupted := Supply.skipInterrupted_of_ask hwait he
        rw [Supply.passOver_of_interruption hgap hwait he]
        cases hpersistent : setting.persistent with
        | true =>
            simp only [he, and_self, if_true]
            exact .same rfl fun hnot => by cases hpersistent.symm.trans hnot
        | false =>
            simp only [Bool.false_eq_true, false_and, if_false]
            -- What is left for those who wait still records the interruption.
            apply SuspendingSetting.Compares.cut hpersistent
              (hinterrupted.mono calls_suffix_skipping)
              (Feed.skipInterrupted_drop.mpr hinterrupted)
            exact ⟨_, _, _, rfl, he, rfl⟩
    | false =>
        have hspared : feed'.SkipInterrupted ↔ task.feed.SkipInterrupted := by
          apply PolledSupply.skipInterrupted_ask hask
          rintro _ - ⟨⟩
          exact he
        rw [Supply.passOver_of_error hgap hwait he]
        simp only [he, Bool.false_eq_true, and_false, if_false]
        exact .same rfl fun _ h => hspared.mp (Feed.skipInterrupted_drop.mp h)
  · have hwait := PolledSupply.awaited_ask_of_ready hask
    have hspared := PolledSupply.skipInterrupted_ask hask (by rintro _ _ ⟨⟩)
    cases bytes with
    | nil =>
        rw [Supply.passOver_of_nil hgap hwait]
        obtain ⟨gap, rfl⟩ := Nat.exists_eq_succ_of_ne_zero (Nat.ne_of_gt hgap)
        exact .same rfl fun _ h => hspared.mp (Feed.skipInterrupted_drop.mp h)
    | cons b bs =>
        rw [Supply.passOver_of_ok hgap (List.cons_ne_nil b bs) hwait]
        exact .same rfl fun _ => hspared.mp

/-- A step of opening does not change the rest. -/
theorem rest_stepOpening {handle : H} (hstage : task.stage = .opening span handle) :
  (task.stepOpening setting span handle).rest setting
    = task.handOut setting span ((setting.waiting .suspending).openFrom handle span task.feed)
  := by
  obtain ⟨reader, feed, filled, room, stage⟩ := task
  cases hstage
  rcases hopen : setting.supply.openRange handle span.path span.itemOffset
    ((setting.waiting .suspending).lengthFor span) feed.world with ⟨_ | ⟨outcome, notes⟩, w⟩
  · rw [SuspendingSetting.openFrom_of_pending hopen, stepOpening]
    simp only [hopen]
    rfl
  · rw [SuspendingSetting.openFrom_of_ready hopen, stepOpening]
    simp only [hopen]
    cases outcome with
    | ok stream => rfl
    | error e => rfl

/-- To start opening does not change the rest. -/
theorem rest_startOpening {feed : Feed W H} :
  (task.startOpening setting span feed).rest setting
    = task.handOut setting span ((setting.waiting .suspending).openFor span feed)
  := by
  rcases hsource : (setting.waiting .suspending).sourceFor span feed with ⟨_ | handle, feed'⟩
  · rw [startOpening, hsource, Setting.openFor, hsource]
    rfl
  · rw [startOpening, hsource, Setting.openFor, hsource]
    rfl

/-- A step of filling does not change the rest. -/
theorem rest_stepFilling (hstage : task.stage = .filling) :
  (task.stepFilling setting).rest setting = task.rest setting
  := by
  obtain ⟨reader, feed, filled, room, stage⟩ := task
  cases hstage
  have hpiece : setting.piece = (setting.waiting .suspending).piece := rfl
  rw [stepFilling]
  rcases Nat.eq_zero_or_pos room with rfl | hroom
  · simp only [Progress.rest, rest, Reader.gather_zero, Except.map, List.append_nil, if_true]
  simp only [Nat.ne_of_gt hroom, if_false]
  rw [hpiece]
  cases hseg : reader.cursor.segment (setting.waiting .suspending).piece with
  | finish =>
      simp only [Progress.rest, rest, Reader.gather_of_finish hseg, Except.map, List.append_nil]
  | bytes available =>
      simp only [Progress.rest, rest, Reader.gather_of_bytes hroom hseg]
      rcases reader.advance (setting.waiting .suspending) (available.take room).length feed
        with ⟨reader', feed'⟩
      rcases reader'.gather (setting.waiting .suspending) (room - (available.take room).length)
        feed' with ⟨_ | more, reader'', feed''⟩
      · rfl
      · simp only [Except.map, List.append_assoc]
  | payload span =>
      simp only [rest, Reader.gather_of_payload hroom hseg, Setting.takePayload, Setting.acquire]
      cases Approach.toward reader.held span with
      | ready item => apply handOut_bare
      | skip item gap => apply handOut_bare
      | reopen stale =>
          cases stale with
          | none => apply rest_startOpening.trans handOut_bare
          | some stale => apply rest_startOpening.trans handOut_bare

/-! #### What interruptions a step meets -/

theorem skipInterrupted_startOpening {feed : Feed W H} :
  (task.startOpening setting span feed).feed.SkipInterrupted ↔ feed.SkipInterrupted
  := by
  have hfound : ((setting.waiting .suspending).sourceFor span feed).2.SkipInterrupted
      ↔ feed.SkipInterrupted := Setting.skipInterrupted_sourceFor
  rw [startOpening]
  generalize (setting.waiting .suspending).sourceFor span feed = found at hfound ⊢
  rcases found with ⟨e | handle, feed'⟩
  · apply hfound
  · apply Setting.skipInterrupted_announce.trans hfound

theorem skipInterrupted_stepFilling :
  (task.stepFilling setting).feed.SkipInterrupted ↔ task.feed.SkipInterrupted
  := by
  rw [stepFilling]
  split
  · rfl
  · split
    · rfl
    · apply Reader.skipInterrupted_advance
    · split
      · rfl
      · apply Feed.skipInterrupted_note
      · apply skipInterrupted_startOpening.trans Feed.skipInterrupted_release
      · apply skipInterrupted_startOpening

theorem skipInterrupted_stepOpening {handle : H} :
  (task.stepOpening setting span handle).feed.SkipInterrupted ↔ task.feed.SkipInterrupted
  := by
  rw [stepOpening]
  dsimp only
  rcases setting.supply.openRange handle span.path span.itemOffset
    ((setting.waiting .suspending).lengthFor span) task.feed.world with ⟨_ | ⟨outcome, notes⟩, w⟩
  · rfl
  · cases outcome <;> apply Feed.skipInterrupted_notes

theorem skipInterrupted_stepAsking :
  (task.stepAsking setting span item).feed.SkipInterrupted ↔ task.feed.SkipInterrupted
  := by
  rw [stepAsking]
  rcases hask : setting.supply.ask .payload (min span.remaining task.room) item task.feed
    with ⟨_ | e | _ | ⟨b, bs⟩, item', feed'⟩
  all_goals have hspared := PolledSupply.skipInterrupted_ask hask (by rintro _ ⟨⟩)
  · exact hspared
  · dsimp only
    split <;> exact hspared
  · exact hspared
  · apply Reader.skipInterrupted_advance.trans hspared

/-- A step does not change the rest, or the task is cut short there. -/
theorem compares_step :
  setting.Compares task.feed (task.rest setting).2.2 (task.step setting).feed
    ((task.step setting).rest setting = task.rest setting) (task.step setting).CutShort
  := by
  obtain ⟨reader, feed, filled, room, stage⟩ := task
  cases stage with
  | filling => exact .same (rest_stepFilling rfl) fun _ => skipInterrupted_stepFilling.mp
  | opening span handle =>
      exact .same (rest_stepOpening rfl) fun _ => skipInterrupted_stepOpening.mp
  | skipping span item gap => apply compares_stepSkipping
  | asking span item => exact .same rest_stepAsking fun _ => skipInterrupted_stepAsking.mp

/-- A completed task comes to what it comes to when done at once, or it is cut short. -/
theorem compares_complete :
  setting.Compares task.feed (task.rest setting).2.2 (task.complete setting).2.2
    (task.complete setting = task.rest setting)
    (∃ e reader feed, task.complete setting = (.error e, reader, feed)
      ∧ e.isInterruption = true ∧ reader.held = none)
  := by
  induction task using complete.induct setting with
  | case1 task outcome reader feed hstep =>
      have hcompares : setting.Compares task.feed _ _ _ _ := compares_step
      rw [hstep] at hcompares
      rw [complete_of_finished hstep]
      cases hcompares with
      | same hrest hspared => exact .same hrest hspared
      | cut hpersistent hwaited htaken h =>
          obtain ⟨e, reader, feed, ⟨⟩, h⟩ := h
          exact .cut hpersistent hwaited htaken ⟨e, reader, feed, rfl, h⟩
  | case2 task task' hstep ih =>
      have hcompares : setting.Compares task.feed _ _ _ _ := compares_step
      rw [hstep] at hcompares
      rw [complete_of_running hstep]
      cases hcompares with
      | cut _ _ _ h =>
          obtain ⟨e, reader, feed, ⟨⟩, -⟩ := h
      | same hrest hspared =>
          have hrest : task'.rest setting = task.rest setting := hrest
          rw [← hrest]
          cases ih with
          | same h hspared' => exact .same h fun hnot hfeed => hspared hnot (hspared' hnot hfeed)
          | cut hpersistent hwaited htaken h => exact .cut hpersistent hwaited htaken h

end Task

/-! ### Readers and families -/

namespace Reader

variable {setting : SuspendingSetting W H S} {size : Nat} {reader : Reader S} {feed : Feed W H}

variable (setting size reader feed) in
/-- A read by a task is a read, or the reader is cut short. -/
theorem compares_readByTask :
  setting.Compares feed (reader.read (setting.waiting .suspending) size feed).2.2
    (reader.readByTask setting size feed).2.2
    (reader.readByTask setting size feed = reader.read (setting.waiting .suspending) size feed)
    (∃ e reader' feed', reader.readByTask setting size feed = (.error e, reader', feed')
      ∧ reader'.CutShort e)
  := by
  let task : Task W H S := ⟨reader, feed, [], size, .filling⟩
  have hrest : task.rest setting = reader.gather (setting.waiting .suspending) size feed := by
    simp only [task, Task.rest]
    rcases reader.gather (setting.waiting .suspending) size feed with ⟨_ | bytes, reader', feed'⟩
    · rfl
    · rfl
  rw [readByTask, read]
  split
  · exact .same rfl fun _ h => h
  · have hcompares : setting.Compares feed _ _ _ _ := task.compares_complete
    rw [hrest] at hcompares
    cases hcompares with
    | same h hspared =>
        refine .same (congrArg _ h) fun hnot htaken => hspared hnot ?_
        apply skipInterrupted_poisonOnError.mp htaken
    | cut hpersistent hwaited htaken h =>
        obtain ⟨e, reader', feed', h, he, -⟩ := h
        refine .cut hpersistent (hwaited.mono (calls_suffix_poisonOnError _ _ _))
          (skipInterrupted_poisonOnError.mpr htaken) ?_
        rw [h]
        exact ⟨_, _, _, rfl, he, rfl, congrArg Reader.held release_fst⟩

variable (setting size reader feed) in
/-- Reads by tasks one after the other are reads, or the reader is cut short. -/
theorem compares_drainWithin (calls : Nat) :
  setting.Compares feed
    (drainWithin (fun reader feed => reader.read (setting.waiting .suspending) size feed)
      calls reader feed).2.2.2
    (drainWithin (readByTask setting size) calls reader feed).2.2.2
    (drainWithin (readByTask setting size) calls reader feed
      = drainWithin (fun reader feed => reader.read (setting.waiting .suspending) size feed)
          calls reader feed)
    (∃ portions e reader' feed', drainWithin (readByTask setting size) calls reader feed
        = (portions, some e, reader', feed') ∧ reader'.CutShort e)
  := by
  induction calls generalizing reader feed with
  | zero => exact .same rfl fun _ h => h
  | succ calls ih =>
      have hread := compares_readByTask setting size reader feed
      rcases htask : reader.readByTask setting size feed with ⟨outcome, reader', feed'⟩
      rw [htask] at hread
      simp only [drainWithin, htask]
      cases hread with
      | cut hpersistent hwaited htaken h =>
          obtain ⟨e, _, _, ⟨⟩, hcut⟩ := h
          refine .cut hpersistent (hwaited.mono ?_) htaken ⟨_, _, _, _, rfl, hcut⟩
          rcases reader.read (setting.waiting .suspending) size feed
            with ⟨_ | _ | ⟨b, bs⟩, reader'', feed''⟩
          · apply List.suffix_rfl
          · apply List.suffix_rfl
          · apply calls_suffix_drainWithin
      | same h hspared =>
          rw [← h]
          rcases outcome with e | _ | ⟨b, bs⟩
          · exact .same rfl hspared
          · exact .same rfl hspared
          · cases ih reader' feed' with
            | same h hspared' =>
                refine .same ?_ fun hnot hfeed => hspared hnot (hspared' hnot hfeed)
                simp only [h]
            | cut hpersistent hwaited htaken h =>
                obtain ⟨portions, e, reader'', feed'', h, hcut⟩ := h
                refine .cut hpersistent hwaited htaken ?_
                simp only [h]
                exact ⟨_, _, _, _, rfl, hcut⟩

/-- A read by a task is a read, if interruptions are tolerated. -/
theorem readByTask_eq_read
    (h : setting.Tolerates (reader.read (setting.waiting .suspending) size feed).2.2) :
  reader.readByTask setting size feed = reader.read (setting.waiting .suspending) size feed
  := (compares_readByTask setting size reader feed).same_of_waited h

end Reader

namespace Family

variable {setting : SuspendingSetting W H S} {family : Family W H S}

variable (setting family) in
/-- A member that reads by tasks does what it is told as one that waits, or it is cut short. -/
theorem compares_runByTasks (index : Nat) (command : Command) :
  setting.Compares family.feed (family.run (setting.waiting .suspending) index command).2.feed
    (family.runByTasks setting index command).2.feed
    (family.runByTasks setting index command
      = family.run (setting.waiting .suspending) index command)
    ((family.runByTasks setting index command).2.CutShort index
      (family.runByTasks setting index command).1)
  := by
  rw [runByTasks, run, runBy, runBy]
  cases hmember : family.member? index with
  | none => exact .same rfl fun _ h => h
  | some reader =>
      cases command with
      | read size =>
          cases reader.compares_readByTask setting size family.feed with
          | same h hspared => exact .same (by simp only [h]) hspared
          | cut hpersistent hwaited htaken h =>
              obtain ⟨e, reader', feed', h, hcut⟩ := h
              refine .cut hpersistent hwaited htaken ⟨e, reader', ?_, ?_, hcut⟩
              · simp only [h, Reply.failure?]
              · simp only [h, member?_update hmember]
      | drain size =>
          have hdrain := reader.compares_drainWithin setting size family.feed
            (setting.piece.size - reader.position + 1)
          cases hdrain with
          | same h hspared =>
              refine .same ?_ hspared
              have h : reader.drain (setting.waiting .suspending) _ family.feed = _ := h
              simp only [h]
              rfl
          | cut hpersistent hwaited htaken h =>
              obtain ⟨portions, e, reader', feed', h, hcut⟩ := h
              have h : reader.drain (setting.waiting .suspending) _ family.feed = _ := h
              refine .cut hpersistent hwaited htaken ⟨e, reader', ?_, ?_, hcut⟩
              · simp only [h, Reply.failure?]
              · simp only [h, member?_update hmember]
      | moveTo offset => exact .same rfl fun _ => Reader.skipInterrupted_moveTo.mp
      | seek target => exact .same rfl fun _ => Reader.skipInterrupted_seek.mp
      | copy offset =>
          refine .same rfl fun _ h => ?_
          dsimp only at h
          split at h <;> exact h
      | close => exact .same rfl fun _ => Reader.skipInterrupted_release.mp
      | drop => exact .same rfl fun _ => skipInterrupted_remove.mp

/-- Interruptions stay on the record of members that read by tasks. -/
theorem skipInterrupted_runAllByTasks (h : family.feed.SkipInterrupted)
    (commands : List (Nat × Command)) :
  (family.runAllByTasks setting commands).2.feed.SkipInterrupted
  := by
  induction commands generalizing family with
  | nil => exact h
  | cons command commands ih =>
      obtain ⟨index, command⟩ := command
      rw [runAllByTasks_cons]
      apply ih
      cases compares_runByTasks setting family index command with
      | same hsame =>
          rw [hsame]
          apply h.mono (calls_suffix_runAll (setting.waiting .suspending) [(index, command)])
      | cut _ _ htaken => exact htaken

variable (setting family) in
/-- Members that read by tasks do what they are told as ones that wait, until one of them is cut
short. -/
theorem compares_runAllByTasks (commands : List (Nat × Command)) :
  setting.Compares family.feed (family.runAll (setting.waiting .suspending) commands).2.feed
    (family.runAllByTasks setting commands).2.feed
    (family.runAllByTasks setting commands
      = family.runAll (setting.waiting .suspending) commands)
    (∃ done index command, done ++ [(index, command)] <+: commands
      ∧ ((family.runAllByTasks setting done).2.feed.SkipInterrupted → family.feed.SkipInterrupted)
      ∧ ((family.runAllByTasks setting done).2.runByTasks setting index command).2.CutShort index
          ((family.runAllByTasks setting done).2.runByTasks setting index command).1)
  := by
  induction commands generalizing family with
  | nil => exact .same rfl fun _ h => h
  | cons first commands ih =>
      obtain ⟨index, command⟩ := first
      cases compares_runByTasks setting family index command with
      | cut hpersistent hwaited htaken hcut =>
          refine .cut hpersistent ?_ ?_ ⟨[], index, command, ?_, fun h => h, hcut⟩
          · apply hwaited.mono
            apply calls_suffix_runAll
          · apply skipInterrupted_runAllByTasks htaken
          · apply List.prefix_append [(index, command)]
      | same hnow hspared =>
          rcases htask : family.runByTasks setting index command with ⟨reply, family'⟩
          rw [htask] at hnow hspared
          simp only [runAllByTasks_cons, runAll_cons, htask, ← hnow]
          cases ih family' with
          | same h hspared' =>
              refine .same ?_ fun hnot hfeed => hspared hnot (hspared' hnot hfeed)
              simp only [h]
          | cut hpersistent hwaited htaken h =>
              obtain ⟨done, index', command', hprefix, hbefore, hcut⟩ := h
              refine .cut hpersistent hwaited htaken ⟨(index, command) :: done, index', command',
                (List.prefix_cons_inj _).mpr hprefix, ?_, ?_⟩
              · rw [runAllByTasks_cons, htask]
                exact fun h => hspared hpersistent (hbefore h)
              · rw [runAllByTasks_cons, htask]
                exact hcut

/-- Members that read by tasks do what they are told as ones that wait, if interruptions are
tolerated. -/
theorem runAllByTasks_eq_runAll {commands : List (Nat × Command)}
    (h : setting.Tolerates (family.runAll (setting.waiting .suspending) commands).2.feed) :
  family.runAllByTasks setting commands = family.runAll (setting.waiting .suspending) commands
  := (compares_runAllByTasks setting family commands).same_of_waited h

/-- Suspending readers and blocking ones answer every command alike, and after every command they
stand at the same offsets, hold the same streams or none, are poisoned or not alike, and have made
the same calls in the same order.  Interruptions while bytes are passed over are the exception,
unless tasks go on after them. -/
theorem runAllByTasks_agrees (setting : SuspendingSetting W H S) (world : W)
    {done commands : List (Nat × Command)} (hdone : done <+: commands)
    (h : setting.Tolerates ((start (setting.waiting .blocking) world).runAll
      (setting.waiting .blocking) commands).2.feed) :
  let suspending := (start (setting.waiting .suspending) world).runAllByTasks setting done
  let blocking := (start (setting.waiting .blocking) world).runAll (setting.waiting .blocking) done
  suspending.1 = blocking.1 ∧ suspending.2.members = blocking.2.members
    ∧ suspending.2.feed.world = blocking.2.feed.world
    ∧ suspending.2.feed.handles = blocking.2.feed.handles
    ∧ suspending.2.feed.calls = blocking.2.feed.calls
  := by
  obtain ⟨more, rfl⟩ := hdone
  let waiting := setting.waiting .suspending
  have hstart : Abreast (Feed.start world setting.piece.blocks.length) (start waiting world)
      (start (setting.waiting .blocking) world) := ⟨rfl, Feed.Abreast.refl⟩
  obtain ⟨replies, F, G, hF, hG, hagree⟩ := abreast_runAll waiting .blocking hstart done
  have hblocking : waiting.inManner .blocking = setting.waiting .blocking := rfl
  rw [hblocking] at hG
  have htolerates : setting.Tolerates F.feed := by
    rw [runAll_append, hG] at h
    apply h.anti
    rw [hagree.feeds.calls_eq]
    apply calls_suffix_runAll (setting.waiting .blocking) more
  have hF' : (start (setting.waiting .suspending) world).runAllByTasks setting done
      = (replies, F) := by
    rw [← hF]
    apply runAllByTasks_eq_runAll
    rw [hF]
    apply htolerates
  intro suspending blocking
  simp only [suspending, blocking, hF', hG]
  exact ⟨trivial, hagree.members_eq, hagree.feeds.world_eq, hagree.feeds.handles_eq,
    hagree.feeds.calls_eq⟩

/-- A reader that fails when the item is to be opened anew, and a copy of it that does not.  The
first stream is delayed, cut short and interrupted. -/
theorem runAllByTasks_agrees_failing_source :
  let item : Item := ⟨⟨1⟩, "a", 7⟩
  let run : ItemRun :=
    ⟨⟨0⟩, item, ⟨⟨2, [7], [8]⟩, 0, 2⟩, [⟨⟨6, [], []⟩, 5, 2⟩, ⟨⟨8, [], []⟩, 1, 1⟩]⟩
  let piece : Piece := ⟨[1, 2], 11, [.run run, .inline ⟨⟨9, [], []⟩, [5, 6]⟩]⟩
  let interruption : IoError := ⟨.interrupted, "interrupted"⟩
  let failure : SourceError := .io ⟨.other, "gone"⟩
  let turns : List ReadTurn := [.pending, .atMost 1, .fail interruption, .pending, .atMost 1]
  let registry : Registry ScriptedSource :=
    ⟨[(⟨0⟩, ⟨.memory ⟨[("a", [10, 11, 12, 13, 14, 15, 16])]⟩, [none],
      [.proceed turns, .fail failure]⟩)]⟩
  let setting : SuspendingSetting (Registry ScriptedSource) SourceId ScriptedStream :=
    ⟨Registry.polledSupply, piece, .standard, false⟩
  let commands : List (Nat × Command) :=
    [(0, .read 9), (0, .read 9), (0, .read 9), (0, .copy 5), (0, .read 9), (0, .read 9),
      (1, .read 1), (1, .seek (.fromHere 5)), (1, .read 1)]
  let blocking : Setting (Registry ScriptedSource) SourceId ScriptedStream :=
    ⟨Registry.supply, piece, .standard, .blocking⟩
  ((start (setting.waiting .suspending) registry).runAllByTasks setting commands).1
      = [.bytes (.ok [1, 2, 7, 8, 10]), .bytes (.ok [11]), .bytes (.ok [15, 16]), .copied (.ok 1),
          .bytes (.error (.sourceReadFailure "a" failure)), .bytes (.error .poisoned),
          .bytes (.ok [11]), .sought (.ok 11), .bytes (.ok [])]
    ∧ ((start (setting.waiting .suspending) registry).runAllByTasks setting commands).2.feed.calls
      = ((start blocking registry).runAll blocking commands).2.feed.calls
  := by
  intro item run piece interruption failure turns registry setting commands blocking
  have hblocking : setting.waiting .blocking = blocking := by
    simp only [SuspendingSetting.waiting, setting, Registry.awaited_polledSupply, blocking]
  have htolerates : setting.Tolerates
      ((start (setting.waiting .blocking) registry).runAll (setting.waiting .blocking)
        commands).2.feed := by
    have hspared : ((start blocking registry).runAll blocking commands).2.feed.calls.any
        Event.isInterruptedSkip = false := by cbv
    rw [hblocking]
    intro hinterrupted
    rw [Feed.SkipInterrupted, hspared] at hinterrupted
    cases hinterrupted
  obtain ⟨hreplies, -, -, -, hcalls⟩ :=
    runAllByTasks_agrees setting registry (List.prefix_refl commands) htolerates
  rw [hblocking] at hreplies hcalls
  refine ⟨hreplies.trans ?_, hcalls⟩
  cbv

end Family

end PieceStream
