import PieceStream.Proofs.Poisoning
import PieceStream.Proofs.Standing
import PieceStream.Proofs.TaskLikeness

/-!
# The course of a read

Whether it is done at once or by a task, a read of a reader that has not failed takes one of three
courses.  Bytes in memory fill the buffer or lead to the end of the piece; or they lead to a payload
of which bytes are taken in once; or the reader fails at that payload and gives its stream up.
-/

namespace PieceStream

variable {W H S : Type}

/-- What may come of passing over the `gap` bytes before the next ones of a stream.  Only those who
are persistent go on after an interruption. -/
inductive Supply.PassesOver (supply : Supply W H S) (persistent : Bool) :
    Nat → HeldStream S → Feed W H → Except IoError Nat × HeldStream S × Feed W H → Prop
  | done {item : HeldStream S} {feed : Feed W H} :
      PassesOver supply persistent 0 item feed (.ok 0, item, feed)
  | lacking {gap : Nat} {item item' : HeldStream S} {feed feed' : Feed W H} (hgap : 0 < gap)
      (hask : supply.ask .skip (min skipSize gap) item feed = (.ok [], item', feed')) :
      PassesOver supply persistent gap item feed (.ok gap, item', feed')
  | further {gap : Nat} {item item' : HeldStream S} {feed feed' : Feed W H} {bytes : Bytes}
      {passed : Except IoError Nat × HeldStream S × Feed W H} (hgap : 0 < gap) (hne : bytes ≠ [])
      (hask : supply.ask .skip (min skipSize gap) item feed = (.ok bytes, item', feed'))
      (h : PassesOver supply persistent (gap - bytes.length)
        { item' with itemPos := item'.itemPos + bytes.length } feed' passed) :
      PassesOver supply persistent gap item feed passed
  | interrupted {gap : Nat} {item item' : HeldStream S} {feed feed' : Feed W H} {e : IoError}
      {passed : Except IoError Nat × HeldStream S × Feed W H} (hgap : 0 < gap)
      (hask : supply.ask .skip (min skipSize gap) item feed = (.error e, item', feed'))
      (hpersistent : persistent = true) (he : e.isInterruption = true)
      (h : PassesOver supply persistent gap item' feed' passed) :
      PassesOver supply persistent gap item feed passed
  | failed {gap : Nat} {item item' : HeldStream S} {feed feed' : Feed W H} {e : IoError}
      (hgap : 0 < gap)
      (hask : supply.ask .skip (min skipSize gap) item feed = (.error e, item', feed'))
      (he : persistent = true → e.isInterruption = false) :
      PassesOver supply persistent gap item feed (.error e, item', feed')

/-- What may come of bringing a stream to the bytes of `span`. -/
inductive Setting.Acquires (setting : Setting W H S) (persistent : Bool)
    (held : Option (HeldStream S)) (span : PayloadRest) (feed : Feed W H) :
    Except ReadError (HeldStream S) × Feed W H → Prop
  | ready {item : HeldStream S} (happroach : Approach.toward held span = .ready item) :
      Acquires setting persistent held span feed (.ok item, feed)
  | skip {item : HeldStream S} {gap : Nat} {passed : Except IoError Nat × HeldStream S × Feed W H}
      (happroach : Approach.toward held span = .skip item gap)
      (hpassed : setting.supply.PassesOver persistent gap item
        (feed.note (.skipping span.path item.itemPos gap)) passed) :
      Acquires setting persistent held span feed (concludeSkip span passed)
  | reopen {stale : HeldStream S} (happroach : Approach.toward held span = .reopen (some stale)) :
      Acquires setting persistent held span feed (setting.openFor span (feed.release stale))
  | fresh (happroach : Approach.toward held span = .reopen none) :
      Acquires setting persistent held span feed (setting.openFor span feed)

namespace Reader

/-- Hands out bytes of `span` from the stream acquired, behind those that the buffer holds already.
-/
def takeAfter (setting : Setting W H S) (filled : Bytes) (room : Nat) (span : PayloadRest)
    (reader : Reader S) (acquired : Except ReadError (HeldStream S) × Feed W H) :
    Except ReadError Bytes × Reader S × Feed W H :=
  let (outcome, reader, feed) := reader.takeIn setting (setting.askFor span room acquired)
  (outcome.map (filled ++ ·), reader, feed)

/-- To fill a buffer by acquiring a stream once and asking it once. -/
structure FillsByAsking (setting : Setting W H S) (persistent : Bool)
    (fill : Bytes → Nat → Reader S → Feed W H → Except ReadError Bytes × Reader S × Feed W H) : Prop
    extends Fills setting fill where
  payload {filled : Bytes} {room : Nat} {reader : Reader S} {feed : Feed W H} {span : PayloadRest} :
    0 < room → reader.cursor.segment setting.piece = .payload span →
    ∃ acquired, setting.Acquires persistent reader.held span feed acquired
      ∧ fill filled room reader feed = reader.takeAfter setting filled room span acquired

/-- Readers read by filling a buffer, and are poisoned where that fails. -/
def ReadsByFilling (setting : Setting W H S) (persistent : Bool)
    (read : Nat → Reader S → Feed W H → Except ReadError Bytes × Reader S × Feed W H) : Prop :=
  ∃ fill, FillsByAsking setting persistent fill ∧ ∀ size reader feed, read size reader feed
    = if reader.poisoned then (.error .poisoned, reader, feed)
      else poisonOnError setting (fill [] size reader feed)

/-- What a read of a reader that stands at `pos` may come to. -/
inductive Course (setting : Setting W H S) (pos size : Nat) (reader : Reader S) (feed : Feed W H) :
    Except ReadError Bytes × Reader S × Feed W H → Prop
  /-- The bytes in memory fill the buffer or reach the end. -/
  | memory {copied : Bytes} {reader' : Reader S} {feed' : Feed W H}
      (passes : reader.Passes setting.piece pos feed copied reader' feed')
      (length_le : copied.length ≤ size)
      (full_or_end : copied.length = size ∨ pos + copied.length = setting.piece.size) :
      Course setting pos size reader feed (.ok copied, reader', feed')
  /-- Behind the bytes in memory there are bytes of a payload. -/
  | payload {copied bytes : Bytes} {readerA : Reader S} {feedA feedB : Feed W H}
      {held : Option (HeldStream S)} {span : PayloadRest}
      (passes : reader.Passes setting.piece pos feed copied readerA feedA)
      (at_span : span.At setting.piece (pos + copied.length)) (length_lt : copied.length < size)
      (take_eq : setting.takePayload readerA.held span (size - copied.length) feedA
        = (.ok bytes, held, feedB)) :
      Course setting pos size reader feed
        (.ok (copied ++ bytes), ({ readerA with held := held }.advance setting bytes.length feedB))
  /-- The payload behind the bytes in memory cannot be had. -/
  | failure {copied : Bytes} {e : ReadError} {readerA : Reader S} {feedA feed' : Feed W H}
      {span : PayloadRest} (passes : reader.Passes setting.piece pos feed copied readerA feedA)
      (at_span : span.At setting.piece (pos + copied.length)) (length_lt : copied.length < size) :
      Course setting pos size reader feed (.error e, ⟨readerA.cursor, none, true⟩, feed')

end Reader

/-! ### Acquiring a stream -/

namespace Supply

variable {supply : Supply W H S} {persistent : Bool}

/-- Those who wait pass over bytes persistently. -/
theorem passesOver_passOver (gap : Nat) (item : HeldStream S) (feed : Feed W H) :
  supply.PassesOver true gap item feed (supply.passOver gap item feed)
  := by
  induction gap, item, feed using passOver.induct supply with
  | case1 item feed =>
      rw [passOver_zero]
      apply PassesOver.done
  | case2 gap item feed hne item' feed' hask =>
      have hgap := Nat.pos_of_ne_zero hne
      rw [passOver_of_nil hgap hask]
      apply PassesOver.lacking hgap hask
  | case3 gap item feed hne b bs item' feed' hask ih =>
      have hgap := Nat.pos_of_ne_zero hne
      rw [passOver_of_ok hgap (List.cons_ne_nil b bs) hask]
      apply PassesOver.further hgap (List.cons_ne_nil b bs) hask ih
  | case4 gap item feed hne e item' feed' hask he ih =>
      have hgap := Nat.pos_of_ne_zero hne
      rw [passOver_of_interruption hgap hask he]
      apply PassesOver.interrupted hgap hask rfl he ih
  | case5 gap item feed hne e item' feed' hask he =>
      have hgap := Nat.pos_of_ne_zero hne
      have he : e.isInterruption = false := Bool.not_eq_true _ ▸ he
      rw [passOver_of_error hgap hask he]
      apply PassesOver.failed hgap hask fun _ => he

/-- Whoever passes over bytes comes to what those who wait come to, or fails. -/
theorem PassesOver.eq_or_error {gap : Nat} {item : HeldStream S} {feed : Feed W H}
    {passed : Except IoError Nat × HeldStream S × Feed W H}
    (h : supply.PassesOver persistent gap item feed passed) :
  supply.passOver gap item feed = passed
    ∨ ∃ e item' feed', passed = (.error e, item', feed')
  := by
  induction h with
  | done => exact .inl passOver_zero
  | lacking hgap hask => exact .inl (passOver_of_nil hgap hask)
  | further hgap hne hask _ ih =>
      rw [passOver_of_ok hgap hne hask]
      apply ih
  | interrupted hgap hask _ he _ ih =>
      rw [passOver_of_interruption hgap hask he]
      apply ih
  | failed => exact .inr ⟨_, _, _, rfl⟩

end Supply

namespace Setting

variable {setting : Setting W H S} {persistent : Bool} {held : Option (HeldStream S)}
  {span : PayloadRest} {feed : Feed W H}

/-- Those who wait acquire streams persistently. -/
theorem acquires_acquire :
  setting.Acquires true held span feed (setting.acquire held span feed)
  := by
  rw [acquire]
  cases happroach : Approach.toward held span with
  | ready item => apply Acquires.ready happroach
  | skip item gap => apply Acquires.skip happroach (Supply.passesOver_passOver _ _ _)
  | reopen stale =>
      cases stale with
      | none => apply Acquires.fresh happroach
      | some stale => apply Acquires.reopen happroach

/-- Whoever acquires a stream comes to what those who wait come to, or fails. -/
theorem Acquires.eq_or_error {acquired : Except ReadError (HeldStream S) × Feed W H}
    (h : setting.Acquires persistent held span feed acquired) :
  acquired = setting.acquire held span feed ∨ ∃ e feed', acquired = (.error e, feed')
  := by
  rw [acquire]
  cases h with
  | ready happroach => simp only [happroach, true_or]
  | skip happroach hpassed =>
      simp only [happroach]
      rcases hpassed.eq_or_error with rfl | ⟨e, item', feed', rfl⟩
      · exact .inl rfl
      · exact .inr ⟨_, _, rfl⟩
  | reopen happroach => simp only [happroach, true_or]
  | fresh happroach => simp only [happroach, true_or]

end Setting

/-! ### Tasks -/

namespace Task

variable {setting : SuspendingSetting W H S} {task : Task W H S} {span : PayloadRest}
  {item : HeldStream S}

variable (setting) in
/-- A task that passes over bytes hands out bytes behind them, or fails. -/
theorem exists_passesOver (filled : Bytes) (room gap : Nat) (reader : Reader S) (feed : Feed W H) :
  let waiting := setting.waiting .suspending
  ∃ passed, waiting.supply.PassesOver setting.persistent gap item feed passed
    ∧ Task.complete setting ⟨reader, feed, filled, room, .skipping span item gap⟩
      = reader.takeAfter waiting filled room span (Setting.concludeSkip span passed)
  := by
  intro waiting
  induction gap, item, feed using Supply.passOver.induct setting.supply.awaited with
  | case1 item feed => exact ⟨_, .done, complete_skipped rfl⟩
  | case2 gap item feed hne item' feed' hask =>
      have hgap := Nat.pos_of_ne_zero hne
      obtain ⟨lacking, rfl⟩ := Nat.exists_eq_succ_of_ne_zero hne
      refine ⟨_, .lacking hgap hask, ?_⟩
      rw [complete_skipping hgap rfl]
      simp only [hask]
      rfl
  | case3 gap item feed hne b bs item' feed' hask ih =>
      have hgap := Nat.pos_of_ne_zero hne
      obtain ⟨passed, hpassed, hcomplete⟩ := ih
      refine ⟨passed, .further hgap (List.cons_ne_nil b bs) hask hpassed, ?_⟩
      rw [complete_skipping hgap rfl]
      simp only [hask]
      apply hcomplete
  | case4 gap item feed hne e item' feed' hask he ih =>
      have hgap := Nat.pos_of_ne_zero hne
      rw [complete_skipping hgap rfl]
      simp only [hask, he, and_true]
      cases hpersistent : setting.persistent with
      | true =>
          obtain ⟨passed, hpassed, hcomplete⟩ := ih
          rw [hpersistent] at hpassed
          exact ⟨passed, .interrupted hgap hask rfl he hpassed, hcomplete⟩
      | false => exact ⟨_, .failed hgap hask (by simp), rfl⟩
  | case5 gap item feed hne e item' feed' hask he =>
      have hgap := Nat.pos_of_ne_zero hne
      have he : e.isInterruption = false := Bool.not_eq_true _ ▸ he
      refine ⟨_, .failed hgap hask fun _ => he, ?_⟩
      rw [complete_skipping hgap rfl]
      simp only [hask, he, Bool.false_eq_true, and_false, if_false]
      rfl

/-- Fills a buffer by a task, behind the bytes that it holds already. -/
def fillAfter (setting : SuspendingSetting W H S) (filled : Bytes) (room : Nat) (reader : Reader S)
    (feed : Feed W H) : Except ReadError Bytes × Reader S × Feed W H :=
  Task.complete setting ⟨reader, feed, filled, room, .filling⟩

/-- A task that comes to a payload acquires a stream and hands out bytes of it. -/
theorem fillAfter_payload {filled : Bytes} {room : Nat} {reader : Reader S} {feed : Feed W H}
    (hroom : 0 < room) (hseg : reader.cursor.segment setting.piece = .payload span) :
  let waiting := setting.waiting .suspending
  ∃ acquired, waiting.Acquires setting.persistent reader.held span feed acquired
    ∧ fillAfter setting filled room reader feed
      = reader.takeAfter waiting filled room span acquired
  := by
  intro waiting
  rw [fillAfter, complete_eq_outcome]
  simp only [step, stepFilling, Nat.ne_of_gt hroom, if_false, hseg]
  cases happroach : Approach.toward reader.held span with
  | ready item =>
      refine ⟨_, .ready happroach, ?_⟩
      simp only [Progress.outcome]
      rw [IsAcquiring.complete_eq_rest (.inr ⟨span, item, rfl⟩)]
      apply handOut_bare
  | skip item gap =>
      obtain ⟨passed, hpassed, hcomplete⟩ := exists_passesOver setting filled room gap
        { reader with held := none } (feed.note (.skipping span.path item.itemPos gap))
      exact ⟨_, .skip happroach hpassed, hcomplete⟩
  | reopen stale =>
      cases stale with
      | none => exact ⟨_, .fresh happroach, outcome_startOpening.trans handOut_bare⟩
      | some stale => exact ⟨_, .reopen happroach, outcome_startOpening.trans handOut_bare⟩

/-- To complete a task is one way to fill a buffer. -/
theorem fillsByAsking_fillAfter (setting : SuspendingSetting W H S) :
  Reader.FillsByAsking (setting.waiting .suspending) setting.persistent (fillAfter setting)
  := by
  constructor
  case payload => exact fillAfter_payload
  case toFills =>
      constructor
      case full =>
          intro filled reader feed
          rw [fillAfter, complete_eq_outcome]
          rfl
      case finish =>
          intro filled room reader feed hseg
          have hseg : reader.cursor.segment setting.piece = .finish := hseg
          rw [fillAfter, complete_eq_outcome, step, stepFilling]
          simp only [hseg, ite_self]
          rfl
      case bytes =>
          intro filled room reader feed available hroom hseg
          have hseg : reader.cursor.segment setting.piece = .bytes available := hseg
          rw [fillAfter, complete_eq_outcome, step, stepFilling]
          simp only [hseg, Nat.ne_of_gt hroom, if_false]
          rfl

end Task

/-! ### Reads -/

namespace Reader

variable {setting : Setting W H S} {reader : Reader S} {feed : Feed W H} {pos size : Nat}
  {read : Nat → Reader S → Feed W H → Except ReadError Bytes × Reader S × Feed W H}
  {fill : Bytes → Nat → Reader S → Feed W H → Except ReadError Bytes × Reader S × Feed W H}

/-- To gather bytes asks a stream once. -/
theorem fillsByAsking_gatherAfter (setting : Setting W H S) :
  FillsByAsking setting true (gatherAfter setting)
  := by
  constructor
  case toFills => apply fills_gatherAfter
  case payload =>
      intro filled room reader feed span hroom hseg
      refine ⟨_, setting.acquires_acquire, ?_⟩
      rw [gatherAfter, gather_of_payload hroom hseg]
      rfl

/-- Readers that wait read by gathering bytes. -/
theorem readsByFilling_read (setting : Setting W H S) :
  ReadsByFilling setting true fun size reader feed => reader.read setting size feed
  := by
  refine ⟨_, fillsByAsking_gatherAfter setting, fun size reader feed => ?_⟩
  rw [gatherAfter_nil]
  rfl

/-- Readers that read by tasks fill buffers by tasks. -/
theorem readsByFilling_readByTask (setting : SuspendingSetting W H S) :
  ReadsByFilling (setting.waiting .suspending) setting.persistent (readByTask setting)
  := ⟨_, Task.fillsByAsking_fillAfter setting, fun _ _ _ => rfl⟩

/-- However readers read, they fill a buffer. -/
theorem Reads.readsByFilling (h : Reads setting read) :
  ∃ persistent, ReadsByFilling setting persistent read
  := by
  cases h with
  | atOnce => exact ⟨true, readsByFilling_read setting⟩
  | byTasks setting => exact ⟨_, readsByFilling_readByTask setting⟩

/-- What comes of asking leaves the cursor where it is unless bytes are handed out. -/
theorem takeAfter_cases (setting : Setting W H S) (filled : Bytes) (room : Nat) (span : PayloadRest)
    (reader : Reader S) (acquired : Except ReadError (HeldStream S) × Feed W H) :
  (∃ bytes held feed', setting.askFor span room acquired = (.ok bytes, held, feed')
      ∧ reader.takeAfter setting filled room span acquired
        = (.ok (filled ++ bytes),
            ({ reader with held := held } : Reader S).advance setting bytes.length feed'))
    ∨ ∃ e held feed', reader.takeAfter setting filled room span acquired
        = (.error e, { reader with held := held }, feed')
  := by
  rcases hask : setting.askFor span room acquired with ⟨e | bytes, held, feed'⟩
  · right
    rw [takeAfter, hask]
    exact ⟨_, _, _, rfl⟩
  · left
    refine ⟨bytes, held, feed', rfl, ?_⟩
    rw [takeAfter, hask]
    rfl

/-- To fail at the payload behind the bytes in memory is one of the courses. -/
theorem Passes.course_of_failure {copied : Bytes} {readerA : Reader S} {feedA feedB : Feed W H}
    {span : PayloadRest} {e : ReadError} {held : Option (HeldStream S)}
    (hpasses : reader.Passes setting.piece pos feed copied readerA feedA)
    (hspan : span.At setting.piece (pos + copied.length)) (hlt : copied.length < size) :
  Course setting pos size reader feed
    (poisonOnError setting (.error e, { readerA with held := held }, feedB))
  := by
  obtain ⟨feed', hpoisoned⟩ := poisonOnError_error setting e { readerA with held := held } feedB
  rw [hpoisoned]
  apply Course.failure hpasses hspan hlt

/-- However readers read, a read of one that has not failed takes one of the courses. -/
theorem Reads.course (hreads : Reads setting read) (hlaid : setting.piece.Laid)
    (h : reader.StandsAt setting.piece pos) (hsound : reader.poisoned = false) (size : Nat)
    (feed : Feed W H) :
  Course setting pos size reader feed (read size reader feed)
  := by
  obtain ⟨persistent, fill, hfill, hread⟩ := hreads.readsByFilling
  rw [hread size reader feed]
  simp only [hsound, Bool.false_eq_true, if_false]
  obtain ⟨copied, readerA, feedA, hpasses, hcases⟩ := hfill.cases hlaid [] size h feed
  rw [List.nil_append] at hcases
  rcases hcases with ⟨hle, hend, hfilled⟩ | ⟨span, hspan, hlt, hseg, hfilled⟩
  · rw [hfilled]
    exact .memory hpasses hle hend
  · rw [hfilled]
    obtain ⟨acquired, hacquired, htaken⟩ := hfill.payload (Nat.sub_pos_of_lt hlt) hseg
    rw [htaken]
    rcases takeAfter_cases setting copied (size - copied.length) span readerA acquired
      with ⟨bytes, held, feedB, hask, hout⟩ | ⟨e, held, feedB, hout⟩
    · rw [hout]
      rcases hacquired.eq_or_error with rfl | ⟨e, feed', rfl⟩
      · exact .payload hpasses hspan hlt hask
      · cases hask
    · rw [hout]
      apply hpasses.course_of_failure hspan hlt

/-! ### Where reads lead -/

/-- After any course a reader that has not failed stands behind what is handed out, and one that
fails stands at the payload byte that comes next. -/
theorem Course.standsAt {taken : Except ReadError Bytes × Reader S × Feed W H}
    (hcourse : Course setting pos size reader feed taken) (hlaid : setting.piece.Laid)
    (hsound : reader.poisoned = false) :
  (∀ bytes, taken.1 = .ok bytes → bytes.length ≤ size ∧ taken.2.1.poisoned = false
      ∧ taken.2.1.StandsAt setting.piece (pos + bytes.length))
    ∧ ∀ e, taken.1 = .error e → taken.2.1.poisoned = true
      ∧ ∃ stop span, setting.piece.NextPayload pos stop span ∧ stop - pos < size
          ∧ taken.2.1.StandsAt setting.piece stop
  := by
  cases hcourse with
  | memory hpasses hle =>
      refine ⟨?_, nofun⟩
      rintro _ ⟨⟩
      exact ⟨hle, hpasses.poisoned_eq.trans hsound, hpasses.standsAt⟩
  | payload hpasses hspan hlt htake =>
      obtain ⟨hlength, hpoisoned, hstands⟩ :=
        standsAt_takePayload hlaid hpasses.standsAt hspan htake
      refine ⟨?_, nofun⟩
      rintro _ ⟨⟩
      rw [List.length_append, ← Nat.add_assoc]
      exact ⟨by omega, hpoisoned.trans (hpasses.poisoned_eq.trans hsound), hstands⟩
  | failure hpasses hspan hlt =>
      refine ⟨nofun, ?_⟩
      rintro _ ⟨⟩
      refine ⟨rfl, _, _, ⟨Nat.le_add_right _ _, hpasses.clear, hspan⟩, by omega, ?_⟩
      exact standsAt_of_held_eq_none hpasses.standsAt.cursor_eq hpasses.standsAt.le_size rfl

/-- However readers read, a read that goes well takes a reader forward by the bytes that it hands
out.  One that fails takes it to the payload byte that comes next, unless the reader has failed
before. -/
theorem Reads.standsAt_read (hreads : Reads setting read) (hlaid : setting.piece.Laid)
    (h : reader.StandsAt setting.piece pos) (size : Nat) (feed : Feed W H) :
  ∃ outcome reader' feed', read size reader feed = (outcome, reader', feed')
    ∧ (∀ bytes, outcome = .ok bytes → bytes.length ≤ size ∧ reader'.poisoned = false
        ∧ reader'.StandsAt setting.piece (pos + bytes.length))
    ∧ ∀ e, outcome = .error e → reader'.poisoned = true
        ∧ (reader.poisoned = true ∧ reader' = reader
          ∨ reader.poisoned = false ∧ ∃ stop span, setting.piece.NextPayload pos stop span
              ∧ stop - pos < size ∧ reader'.StandsAt setting.piece stop)
  := by
  cases hpoisoned : reader.poisoned with
  | true =>
      refine ⟨_, _, _, hreads.poisons.spent hpoisoned, nofun, fun e _ => ⟨hpoisoned, .inl ?_⟩⟩
      exact ⟨rfl, rfl⟩
  | false =>
      obtain ⟨hok, herror⟩ :=
        (hreads.course hlaid h hpoisoned size feed).standsAt hlaid hpoisoned
      refine ⟨_, _, _, rfl, hok, fun e he => ?_⟩
      obtain ⟨hpoisoned', hstop⟩ := herror e he
      exact ⟨hpoisoned', .inr ⟨rfl, hstop⟩⟩

/-- Readers stand somewhere, however they read and whatever they are told. -/
theorem Reads.kept_standsAt (hreads : Reads setting read) (hlaid : setting.piece.Laid) :
  Kept setting read fun reader => ∃ pos, reader.StandsAt setting.piece pos
  := by
  constructor
  case startAt =>
      intro offset hreach
      exact ⟨offset, standsAt_startAt hlaid hreach⟩
  case read =>
      rintro size reader feed ⟨pos, h⟩
      obtain ⟨outcome, reader', feed', hread, hok, herror⟩ := hreads.standsAt_read hlaid h size feed
      rw [hread]
      cases outcome with
      | ok bytes => exact ⟨_, (hok bytes rfl).2.2⟩
      | error e =>
          rcases (herror e rfl).2 with ⟨-, rfl⟩ | ⟨-, stop, span, -, -, hstands⟩
          · exact ⟨pos, h⟩
          · exact ⟨stop, hstands⟩
  case release =>
      rintro reader ⟨pos, h⟩
      exact ⟨pos, standsAt_of_held_eq_none h.cursor_eq h.le_size rfl⟩
  case move =>
      rintro reader offset hreach -
      exact ⟨offset, standsAt_of_held_eq_none (Cursor.locate_eq hlaid hreach) hreach rfl⟩

end Reader

/-! ### Families -/

namespace Family

variable {setting : Setting W H S} {family : Family W H S}
  {read : Nat → Reader S → Feed W H → Except ReadError Bytes × Reader S × Feed W H}

/-- Members stand somewhere, whatever one of them is told. -/
theorem stands_runBy (hreads : Reader.Reads setting read) (hlaid : setting.piece.Laid)
    (h : family.Stands setting.piece) (index : Nat) (command : Command) :
  (family.runBy setting read index command).2.Stands setting.piece
  := every_runBy (hreads.kept_standsAt hlaid) h index command

/-- Members stand somewhere, whatever they are told one after the other. -/
theorem stands_runAllBy (hreads : Reader.Reads setting read) (hlaid : setting.piece.Laid)
    (h : family.Stands setting.piece) (commands : List (Nat × Command)) :
  (family.runAllBy setting read commands).2.Stands setting.piece
  := every_runAllBy (hreads.kept_standsAt hlaid) h commands

/-- The reader of a new family stands at the start. -/
theorem stands_start (hlaid : setting.piece.Laid) (world : W) :
  (start setting world : Family W H S).Stands setting.piece
  := every_start ((Reader.Reads.atOnce setting).kept_standsAt hlaid) world

end Family

end PieceStream
