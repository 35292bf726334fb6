import PieceStream.Reading.Family

/-!
# Suspension

A supply that has to be polled opens ranges and reads streams in its own time: an answer is
pending until it is ready.  A suspending reader serves a read by a task.  The task goes on step by
step, polls once in a step, and stands still where the answer is pending.  The same supply awaited,
every question being polled until it is answered, is one that blocking readers can draw from.
-/

namespace PieceStream

/-- What polling yields. -/
inductive Poll (α : Type) where
  | pending
  | ready (answer : α)

/-- What suspending readers draw bytes from. -/
structure PolledSupply (W H S : Type) where
  /-- Finds a source, at once. -/
  resolve : SourceId → W → Except SourceError H × W
  /-- Opens at most that many bytes of an item from an offset on; the source may take notes. -/
  openRange : H → String → Nat → Nat → W → Poll (Except SourceError S × List Note) × W
  /-- Asks a stream for at most that many bytes. -/
  read : S → Nat → W → Poll (Except IoError Bytes) × S × W
  /-- How often in a row opening can still be pending. -/
  delay : H → String → Nat → Nat → W → Nat
  /-- How often in a row the stream can still be pending or interrupted. -/
  patience : S → W → Nat
  length_le_of_read {s : S} {n : Nat} {w : W} {bs : Bytes} :
    (read s n w).1 = .ready (.ok bs) → bs.length ≤ n
  delay_lt_of_pending {h : H} {path : String} {offset length : Nat} {w : W} :
    (openRange h path offset length w).1 = .pending →
      delay h path offset length (openRange h path offset length w).2 < delay h path offset length w
  patience_lt_of_pending {s : S} {n : Nat} {w : W} : (read s n w).1 = .pending →
    patience (read s n w).2.1 (read s n w).2.2 < patience s w
  patience_lt_of_interruption {s : S} {n : Nat} {w : W} {e : IoError} :
    (read s n w).1 = .ready (.error e) → e.isInterruption = true →
      patience (read s n w).2.1 (read s n w).2.2 < patience s w

variable {W H S : Type}

namespace PolledSupply

variable (supply : PolledSupply W H S)

/-! ### Awaiting answers -/

/-- Polls until a range is opened. -/
def awaitOpen (handle : H) (path : String) (offset length : Nat) (w : W) :
    Except SourceError S × List Note × W :=
  match _h : supply.openRange handle path offset length w with
  | (.ready (outcome, notes), w') => (outcome, notes, w')
  | (.pending, w') => awaitOpen handle path offset length w'
termination_by supply.delay handle path offset length w
decreasing_by
  have hw : w' = _ := (congrArg (·.2) _h).symm
  subst hw
  apply supply.delay_lt_of_pending (congrArg (·.1) _h)

/-- Polls until a stream is read. -/
def awaitRead (s : S) (n : Nat) (w : W) : Except IoError Bytes × S × W :=
  match _h : supply.read s n w with
  | (.ready outcome, s', w') => (outcome, s', w')
  | (.pending, s', w') => awaitRead s' n w'
termination_by supply.patience s w
decreasing_by
  have hs : s' = _ := (congrArg (·.2.1) _h).symm
  have hw : w' = _ := (congrArg (·.2.2) _h).symm
  subst hs hw
  apply supply.patience_lt_of_pending (congrArg (·.1) _h)

section

variable {supply} {s s' : S} {n : Nat} {w w' : W}

theorem awaitOpen_of_ready {handle : H} {path : String} {offset length : Nat}
    {outcome : Except SourceError S} {notes : List Note}
    (h : supply.openRange handle path offset length w = (.ready (outcome, notes), w')) :
  supply.awaitOpen handle path offset length w = (outcome, notes, w')
  := by
  rw [awaitOpen]
  split <;> simp_all

theorem awaitOpen_of_pending {handle : H} {path : String} {offset length : Nat}
    (h : supply.openRange handle path offset length w = (.pending, w')) :
  supply.awaitOpen handle path offset length w = supply.awaitOpen handle path offset length w'
  := by
  rw [awaitOpen]
  split <;> simp_all

theorem awaitRead_of_ready {outcome : Except IoError Bytes}
    (h : supply.read s n w = (.ready outcome, s', w')) :
  supply.awaitRead s n w = (outcome, s', w')
  := by
  rw [awaitRead]
  split <;> simp_all

theorem awaitRead_of_pending (h : supply.read s n w = (.pending, s', w')) :
  supply.awaitRead s n w = supply.awaitRead s' n w'
  := by
  rw [awaitRead]
  split <;> simp_all

/-- The answer awaited is one that the stream gives when it is ready. -/
theorem exists_read_of_awaitRead :
  ∃ s' w', supply.patience s' w' ≤ supply.patience s w
    ∧ supply.read s' n w' = (.ready (supply.awaitRead s n w).1, (supply.awaitRead s n w).2)
  := by
  induction hp : supply.patience s w using Nat.strongRecOn generalizing s w with
  | ind p ih =>
      subst hp
      rcases hread : supply.read s n w with ⟨_ | outcome, s', w'⟩
      · have hlt := supply.patience_lt_of_pending (congrArg (·.1) hread)
        rw [hread] at hlt
        obtain ⟨s'', w'', hle, h⟩ := ih _ hlt rfl
        rw [awaitRead_of_pending hread]
        exact ⟨s'', w'', Nat.le_trans hle (Nat.le_of_lt hlt), h⟩
      · rw [awaitRead_of_ready hread]
        exact ⟨s, w, Nat.le_refl _, hread⟩

end

/-- The supply of those who wait until they are answered. -/
def awaited : Supply W H S where
  resolve := supply.resolve
  openRange := supply.awaitOpen
  read := supply.awaitRead
  patience := supply.patience
  length_le_of_read {s n w bs} h := by
    obtain ⟨s', w', -, hread⟩ := supply.exists_read_of_awaitRead
    rw [h] at hread
    apply supply.length_le_of_read (congrArg (·.1) hread)
  patience_lt_of_interruption {s n w e} h he := by
    obtain ⟨s', w', hle, hread⟩ := supply.exists_read_of_awaitRead
    have hlt := supply.patience_lt_of_interruption (by rw [hread, h]) he
    rw [hread] at hlt
    apply Nat.lt_of_lt_of_le hlt hle

/-- Polls the stream of an item once.  An answer is recorded. -/
def ask (purpose : Purpose) (size : Nat) (item : HeldStream S) (feed : Feed W H) :
    Poll (Except IoError Bytes) × HeldStream S × Feed W H :=
  let polled := supply.read item.stream size feed.world
  let item := { item with stream := polled.2.1 }
  let feed := { feed with world := polled.2.2 }
  match polled.1 with
  | .pending => (.pending, item, feed)
  | .ready outcome =>
    (.ready outcome, item,
      feed.record (.asked item.source purpose size (outcome.map List.length)))

/-- How often in a row the stream of an item can still be pending or interrupted. -/
def patienceFor (item : HeldStream S) (feed : Feed W H) : Nat :=
  supply.patience item.stream feed.world

section

variable {supply} {purpose : Purpose} {size : Nat} {item item' : HeldStream S}
  {feed feed' : Feed W H}

theorem patienceFor_lt_of_pending
    (h : supply.ask purpose size item feed = (.pending, item', feed')) :
  supply.patienceFor item' feed' < supply.patienceFor item feed
  := by
  rw [ask] at h
  dsimp only at h
  split at h
  · next hpending =>
    cases h
    apply supply.patience_lt_of_pending hpending
  · cases h

theorem patienceFor_lt_of_interruption {e : IoError}
    (h : supply.ask purpose size item feed = (.ready (.error e), item', feed'))
    (he : e.isInterruption = true) :
  supply.patienceFor item' feed' < supply.patienceFor item feed
  := by
  rw [ask] at h
  dsimp only at h
  split at h
  · cases h
  · next hready =>
    cases h
    apply supply.patience_lt_of_interruption hready he

end

end PolledSupply

/-! ### Tasks -/

/-- What suspending readers of one family have in common and never change. -/
structure SuspendingSetting (W H S : Type) where
  supply : PolledSupply W H S
  piece : Piece
  options : ReadOptions
  /-- Whether passing over bytes goes on after an interruption.  They are copied away by a routine
  that is not the readers' own; as it has been seen to run, it goes on. -/
  persistent : Bool

/-- The setting of readers of either manner that wait for the supply. -/
def SuspendingSetting.waiting (setting : SuspendingSetting W H S) (manner : Manner) :
    Setting W H S :=
  ⟨setting.supply.awaited, setting.piece, setting.options, manner⟩

/-- What a task is about to do. -/
inductive Stage (H S : Type) where
  /-- To look at what the cursor stands on. -/
  | filling
  /-- To open the range that starts with the bytes of `span`. -/
  | opening (span : PayloadRest) (handle : H)
  /-- To pass over the `gap` bytes before those of `span`. -/
  | skipping (span : PayloadRest) (item : HeldStream S) (gap : Nat)
  /-- To ask for bytes of `span`. -/
  | asking (span : PayloadRest) (item : HeldStream S)

/-- A read under way: the bytes handed out so far, the room left and what comes next.  While the
stream is with the stage, the reader holds none. -/
structure Task (W H S : Type) where
  reader : Reader S
  feed : Feed W H
  filled : Bytes
  room : Nat
  stage : Stage H S

/-- What a step of a task leads to. -/
inductive Progress (W H S : Type) where
  | running (task : Task W H S)
  | finished (outcome : Except ReadError Bytes) (reader : Reader S) (feed : Feed W H)

namespace Task

variable (setting : SuspendingSetting W H S)

/-- Ends with a failure and leaves the reader with the stream held then. -/
def fail (task : Task W H S) (e : ReadError) (held : Option (HeldStream S)) (feed : Feed W H) :
    Progress W H S :=
  .finished (.error e) { task.reader with held := held } feed

/-- The task after the stream has been taken from the reader. -/
def bare (task : Task W H S) : Task W H S :=
  { task with reader := { task.reader with held := none } }

/-- Finds the source and asks for the range that starts with the bytes of `span`. -/
def startOpening (task : Task W H S) (span : PayloadRest) (feed : Feed W H) : Progress W H S :=
  match (setting.waiting .suspending).sourceFor span feed with
  | (.error e, feed) => task.fail (.sourceUnavailable span.run.source e) none feed
  | (.ok handle, feed) =>
    let feed := (setting.waiting .suspending).announce span feed
    .running { task with feed := feed, stage := .opening span handle }

/-- Hands out bytes in memory, or decides what to do about the stream held. -/
def stepFilling (task : Task W H S) : Progress W H S :=
  if task.room = 0 then .finished (.ok task.filled) task.reader task.feed
  else
    match task.reader.cursor.segment setting.piece with
    | .finish => .finished (.ok task.filled) task.reader task.feed
    | .bytes available =>
      let copied := available.take task.room
      let (reader, feed) :=
        task.reader.advance (setting.waiting .suspending) copied.length task.feed
      .running ⟨reader, feed, task.filled ++ copied, task.room - copied.length, .filling⟩
    | .payload span =>
      match Approach.toward task.reader.held span with
      | .ready item => .running { task.bare with stage := .asking span item }
      | .skip item gap =>
        let feed := task.feed.note (.skipping span.path item.itemPos gap)
        .running { task.bare with feed := feed, stage := .skipping span item gap }
      | .reopen (some stale) => task.bare.startOpening setting span (task.feed.release stale)
      | .reopen none => task.bare.startOpening setting span task.feed

/-- Polls until the range is open. -/
def stepOpening (task : Task W H S) (span : PayloadRest) (handle : H) : Progress W H S :=
  let length := (setting.waiting .suspending).lengthFor span
  match setting.supply.openRange handle span.path span.itemOffset length task.feed.world with
  | (.pending, world) => .running { task with feed := { task.feed with world := world } }
  | (.ready (outcome, notes), world) =>
    match Setting.conclude span outcome notes { task.feed with world := world } with
    | (.ok item, feed) => .running { task with feed := feed, stage := .asking span item }
    | (.error e, feed) => task.fail e none feed

/-- Polls until bytes have been passed over, as many as the gap.  A stream that fails meanwhile is
given up. -/
def stepSkipping (task : Task W H S) (span : PayloadRest) (item : HeldStream S) (gap : Nat) :
    Progress W H S :=
  if gap = 0 then .running { task with stage := .asking span item }
  else
    match setting.supply.ask .skip (min Supply.skipSize gap) item task.feed with
    | (.pending, item, feed) =>
      .running { task with feed := feed, stage := .skipping span item gap }
    | (.ready (.ok []), item, feed) =>
      task.fail (.unexpectedEnd span.path item.itemPos) none (feed.drop item)
    | (.ready (.ok (b :: bs)), item, feed) =>
      let count := (b :: bs).length
      let item := { item with itemPos := item.itemPos + count }
      .running { task with feed := feed, stage := .skipping span item (gap - count) }
    | (.ready (.error e), item, feed) =>
      if setting.persistent ∧ e.isInterruption then
        .running { task with feed := feed, stage := .skipping span item gap }
      else task.fail (.sourceReadFailure span.path (.io e)) none (feed.drop item)

/-- Polls until there are bytes, and hands them out. -/
def stepAsking (task : Task W H S) (span : PayloadRest) (item : HeldStream S) : Progress W H S :=
  match setting.supply.ask .payload (min span.remaining task.room) item task.feed with
  | (.pending, item, feed) => .running { task with feed := feed, stage := .asking span item }
  | (.ready (.ok []), item, feed) =>
    task.fail (.unexpectedEnd span.path item.itemPos) (some item) feed
  | (.ready (.ok (b :: bs)), item, feed) =>
    let bytes := b :: bs
    let held := some { item with itemPos := item.itemPos + bytes.length }
    let (reader, feed) :=
      { task.reader with held := held }.advance (setting.waiting .suspending) bytes.length feed
    .finished (.ok (task.filled ++ bytes)) reader feed
  | (.ready (.error e), item, feed) =>
    if e.isInterruption then .running { task with feed := feed, stage := .asking span item }
    else task.fail (.sourceReadFailure span.path (.io e)) (some item) feed

/-- Goes one step on. -/
def step (task : Task W H S) : Progress W H S :=
  match task.stage with
  | .filling => task.stepFilling setting
  | .opening span handle => task.stepOpening setting span handle
  | .skipping span item gap => task.stepSkipping setting span item gap
  | .asking span item => task.stepAsking setting span item

/-- How far the stage is from the end of the task. -/
def rank : Stage H S → Nat
  | .filling => 2
  | .opening _ _ | .skipping _ _ _ => 1
  | .asking _ _ => 0

/-- The bytes that the stage has still to pass over. -/
def gap : Stage H S → Nat
  | .skipping _ _ gap => gap
  | _ => 0

/-- How often in a row the answer that the stage polls for can still be put off. -/
def wait (task : Task W H S) : Nat :=
  match task.stage with
  | .filling => 0
  | .opening span handle =>
    setting.supply.delay handle span.path span.itemOffset
      ((setting.waiting .suspending).lengthFor span) task.feed.world
  | .skipping _ item _ | .asking _ item => setting.supply.patienceFor item task.feed

/-- What shrinks with every step. -/
def measure (task : Task W H S) : Nat × Nat × Nat × Nat :=
  (task.room, rank task.stage, gap task.stage, task.wait setting)

/-- Measures in the order in which they shrink. -/
abbrev Shrinks : Nat × Nat × Nat × Nat → Nat × Nat × Nat × Nat → Prop :=
  Prod.Lex (· < ·) (Prod.Lex (· < ·) (Prod.Lex (· < ·) (· < ·)))

section

variable {setting} {task task' : Task W H S} {span : PayloadRest} {item : HeldStream S}

theorem shrinks_of_stepAsking (hstage : task.stage = .asking span item)
    (h : task.stepAsking setting span item = .running task') :
  Shrinks (task'.measure setting) (task.measure setting)
  := by
  obtain ⟨reader, feed, filled, room, stage⟩ := task
  cases hstage
  rw [stepAsking] at h
  split at h
  · next hask =>
    cases h
    exact .right _ (.right _ (.right _ (PolledSupply.patienceFor_lt_of_pending hask)))
  · cases h
  · cases h
  · next hask =>
    split at h
    · next he =>
      cases h
      exact .right _ (.right _ (.right _ (PolledSupply.patienceFor_lt_of_interruption hask he)))
    · cases h

theorem shrinks_of_stepSkipping {gap : Nat} (hstage : task.stage = .skipping span item gap)
    (h : task.stepSkipping setting span item gap = .running task') :
  Shrinks (task'.measure setting) (task.measure setting)
  := by
  obtain ⟨reader, feed, filled, room, stage⟩ := task
  cases hstage
  rw [stepSkipping] at h
  split at h
  · cases h
    exact .right _ (.left _ _ Nat.zero_lt_one)
  · next hgap =>
    split at h
    · next hask =>
      cases h
      exact .right _ (.right _ (.right _ (PolledSupply.patienceFor_lt_of_pending hask)))
    · cases h
    · cases h
      exact .right _ (.right _ (.left _ _ (Nat.sub_lt (Nat.pos_of_ne_zero hgap) (Nat.succ_pos _))))
    · next hask =>
      split at h
      · next he =>
        cases h
        exact .right _ (.right _ (.right _ (PolledSupply.patienceFor_lt_of_interruption hask he.2)))
      · cases h

theorem shrinks_of_stepOpening {handle : H} (hstage : task.stage = .opening span handle)
    (h : task.stepOpening setting span handle = .running task') :
  Shrinks (task'.measure setting) (task.measure setting)
  := by
  obtain ⟨reader, feed, filled, room, stage⟩ := task
  cases hstage
  rw [stepOpening] at h
  dsimp only at h
  split at h
  · next world hopen =>
    cases h
    have hlt := setting.supply.delay_lt_of_pending (congrArg (·.1) hopen)
    rw [hopen] at hlt
    exact .right _ (.right _ (.right _ hlt))
  · split at h
    · cases h
      exact .right _ (.left _ _ Nat.zero_lt_one)
    · cases h

theorem shrinks_of_startOpening {feed : Feed W H}
    (h : task.startOpening setting span feed = .running task') (hstage : task.stage = .filling) :
  Shrinks (task'.measure setting) (task.measure setting)
  := by
  obtain ⟨reader, feed, filled, room, stage⟩ := task
  cases hstage
  rw [startOpening] at h
  dsimp only at h
  split at h
  · cases h
  · cases h
    exact .right _ (.left _ _ Nat.one_lt_two)

theorem shrinks_of_stepFilling (hstage : task.stage = .filling)
    (h : task.stepFilling setting = .running task') :
  Shrinks (task'.measure setting) (task.measure setting)
  := by
  obtain ⟨reader, feed, filled, room, stage⟩ := task
  cases hstage
  rw [stepFilling] at h
  split at h
  · cases h
  · next hroom =>
    split at h
    · cases h
    · next available hbytes =>
      cases h
      have hpos := List.length_pos_iff.mpr (Cursor.ne_nil_of_segment hbytes)
      have hroom : 0 < room := Nat.pos_of_ne_zero hroom
      apply Prod.Lex.left
      apply Nat.sub_lt hroom
      rw [List.length_take]
      apply Nat.lt_min.mpr ⟨hroom, hpos⟩
    · split at h
      · cases h
        exact .right _ (.left _ _ Nat.zero_lt_two)
      · cases h
        exact .right _ (.left _ _ Nat.one_lt_two)
      · have hshrinks := shrinks_of_startOpening h rfl
        apply hshrinks
      · have hshrinks := shrinks_of_startOpening h rfl
        apply hshrinks

/-- Every step brings a task nearer to its end. -/
theorem shrinks_of_step (h : task.step setting = .running task') :
  Shrinks (task'.measure setting) (task.measure setting)
  := by
  rw [step] at h
  split at h
  · next hstage => apply shrinks_of_stepFilling hstage h
  · next hstage => apply shrinks_of_stepOpening hstage h
  · next hstage => apply shrinks_of_stepSkipping hstage h
  · next hstage => apply shrinks_of_stepAsking hstage h

end

/-- Goes on to the end. -/
def complete (task : Task W H S) : Except ReadError Bytes × Reader S × Feed W H :=
  match _h : task.step setting with
  | .finished outcome reader feed => (outcome, reader, feed)
  | .running task => complete task
termination_by task.measure setting
decreasing_by apply shrinks_of_step _h

section

variable {setting} {task task' : Task W H S}

theorem complete_of_finished {outcome : Except ReadError Bytes} {reader : Reader S}
    {feed : Feed W H} (h : task.step setting = .finished outcome reader feed) :
  task.complete setting = (outcome, reader, feed)
  := by
  rw [complete]
  split <;> simp_all

theorem complete_of_running (h : task.step setting = .running task') :
  task.complete setting = task'.complete setting
  := by
  rw [complete]
  split <;> simp_all

end

end Task

/-! ### Readers and families -/

/-- Hands out at most `size` bytes by a task.  No bytes mean the end of the piece, unless none were
asked for. -/
def Reader.readByTask (setting : SuspendingSetting W H S) (size : Nat) (reader : Reader S)
    (feed : Feed W H) : Except ReadError Bytes × Reader S × Feed W H :=
  if reader.poisoned then (.error .poisoned, reader, feed)
  else
    poisonOnError (setting.waiting .suspending)
      (Task.complete setting ⟨reader, feed, [], size, .filling⟩)

namespace Family

variable (setting : SuspendingSetting W H S)

/-- Gives a command to the member of that number, which reads by tasks. -/
def runByTasks (index : Nat) (command : Command) (family : Family W H S) :
    Reply × Family W H S :=
  family.runBy (setting.waiting .suspending) (Reader.readByTask setting) index command

/-- Gives commands to members in order, which read by tasks. -/
def runAllByTasks (commands : List (Nat × Command)) (family : Family W H S) :
    List Reply × Family W H S :=
  family.runAllBy (setting.waiting .suspending) (Reader.readByTask setting) commands

/-- Commands given in order are given one after another. -/
theorem runAllByTasks_cons {setting : SuspendingSetting W H S} {family : Family W H S} {index : Nat}
    {command : Command} {rest : List (Nat × Command)} :
  family.runAllByTasks setting ((index, command) :: rest)
    = let (reply, family) := family.runByTasks setting index command
      let (replies, family) := family.runAllByTasks setting rest
      (reply :: replies, family)
  := rfl

end Family

end PieceStream
