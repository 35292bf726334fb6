import PieceStream.Source.Opening

/-!
# Files opened call by call

A file opened with its limit yields what the stream yields by which opening a range of an item is
described.  A task that is polled makes the calls that are made when each of them is waited for, and
comes to the same outcome once three of them have been answered.
-/

namespace PieceStream

variable {source : DiskSource} {path : String} {offset length : Nat} {polls : List Bool}

/-- What fails keeps its failure when results are mapped, and nothing else gets one. -/
theorem map_eq_error_iff {ε α β : Type} {f : α → β} {outcome : Except ε α} {error : ε} :
  outcome.map f = .error error ↔ outcome = .error error
  := by
  cases outcome <;> simp [Except.map]

/-! ### Reading within the limit -/

/-- Behind a portion of a range lies what the length of the portion leaves of it. -/
theorem drop_take_portion {bytes : Bytes} {left n : Nat} :
  (bytes.take left).drop n
    = (bytes.drop (bytes.take (min n left)).length).take (left - (bytes.take (min n left)).length)
  := by
  rcases Nat.le_total n left with hle | hle
  · rw [Nat.min_eq_left hle, drop_take_length]
  · have hempty : ∀ m, left ≤ m → (bytes.take left).drop m = [] := fun m hm =>
      List.drop_eq_nil_of_le (Nat.le_trans (List.length_take_le _ _) hm)
    rw [Nat.min_eq_right hle, ← drop_take_length, hempty n hle, hempty left (Nat.le_refl _)]

/-- A file read within its limit yields what its stream yields. -/
theorem FileRange.read_stream (range : FileRange) (n : Nat) :
  range.stream.read n = ((range.read n).1, (range.read n).2.stream)
  := by
  obtain ⟨⟨place, node, position⟩, left⟩ := range
  cases node with
  | directory =>
      cases left with
      | zero => simp [stream, ItemStream.read, read]
      | succ left => cases n <;> simp [stream, ItemStream.read, read, FileHandle.read]
  | file data =>
      dsimp only [stream, ItemStream.read, read, FileHandle.read, FileHandle.moveTo]
      split
      · next hleft =>
        subst hleft
        simp
      · rw [List.take_take, drop_take_portion, List.drop_drop]

/-! ### The file of an item -/

namespace DiskSource

/-- The names added to a path are those of the components. -/
theorem pushNames_eq (file : List String) (components : List Path.Component) :
  pushNames file components = (Path.namesOf components).map (file ++ ·)
  := by
  induction components generalizing file with
  | nil => rw [pushNames, Path.namesOf, Except.map, List.append_nil]
  | cons component rest ih =>
      cases component with
      | root | parent => rfl
      | current => rw [pushNames, Path.namesOf, ih]
      | name text =>
          rw [pushNames, Path.namesOf, ih]
          cases Path.namesOf rest with
          | error message => rfl
          | ok names => exact congrArg Except.ok (List.append_assoc file [text] names)

/-- The file of an item is that of the names of its path below the root. -/
theorem filePath_eq (source : DiskSource) (path : String) :
  source.filePath path = (itemNames path).map (source.root ++ ·)
  := by
  rw [filePath, pushNames_eq, itemNames, Path.itemNames]
  rcases Path.namesOf (Path.components path) with message | _ | ⟨name, names⟩
  · rfl
  · simp [Except.map]
  · simp [Except.map]

/-- To open a range is to wait for each call. -/
theorem openRange_eq (source : DiskSource) (path : String) (offset length : Nat) :
  source.openRange path offset length
    = (source.openWaiting path offset length).1.map FileRange.stream
  := by
  rw [openRange, openWaiting, filePath_eq]
  cases itemNames path with
  | error error => rfl
  | ok names =>
      dsimp only [Except.map, bind, Except.bind]
      rw [openFile, List.drop_left]
      rcases source.tree.find (source.tree.pathText (source.root ++ names)) source.root names
        with error | ⟨place, node⟩
      · dsimp only [openingFailure]
        split <;> rfl
      · cases node with
        | directory => rfl
        | file data =>
            dsimp only [FileHandle.checkStart]
            split <;> rfl

end DiskSource

/-! ### Answers in time -/

namespace OpeningTask

variable (source path offset length)

/-- What comes of a task, and which calls it still makes, if all of them are answered. -/
def rest : OpeningTask → Except SourceError FileRange × List FileCall
  | .opening file =>
    match source.openFile file with
    | .error error => (.error (DiskSource.openingFailure path error), [])
    | .ok handle =>
      match handle.checkStart path offset with
      | .error error => (.error error, [.measure])
      | .ok () => (.ok ⟨handle.moveTo offset, length⟩, [.measure, .moveTo offset])
  | .measuring handle =>
    match handle.checkStart path offset with
    | .error error => (.error error, [])
    | .ok () => (.ok ⟨handle.moveTo offset, length⟩, [.moveTo offset])
  | .moving handle => (.ok ⟨handle.moveTo offset, length⟩, [])
  | .finished outcome => (outcome, [])

/-- How many answers a task needs at most. -/
def left : OpeningTask → Nat
  | .opening _ => 3
  | .measuring _ => 2
  | .moving _ => 1
  | .finished _ => 0

variable {source path offset length} {task : OpeningTask}

/-- A task that goes on comes to what would have come of it. -/
theorem rest_resume (task : OpeningTask) :
  rest source path offset length task
    = ((rest source path offset length (resume source path offset length task).1).1,
        (resume source path offset length task).2
          ++ (rest source path offset length (resume source path offset length task).1).2)
  := by
  cases task with
  | opening file =>
      rw [rest, resume]
      cases source.openFile file with
      | error error => rfl
      | ok handle =>
          dsimp only [rest]
          cases handle.checkStart path offset <;> rfl
  | measuring handle =>
      rw [rest, resume]
      cases handle.checkStart path offset <;> rfl
  | moving handle => rfl
  | finished outcome => rfl

variable (source path offset length) in
/-- An answer brings a task nearer to its end. -/
theorem left_resume_le (task : OpeningTask) :
  (resume source path offset length task).1.left ≤ task.left - 1
  := by
  cases task with
  | opening file =>
      rw [resume]
      cases source.openFile file <;> simp [left]
  | measuring handle =>
      rw [resume]
      cases handle.checkStart path offset <;> simp [left]
  | moving handle => exact Nat.le_refl 0
  | finished outcome => exact Nat.le_refl 0

variable (source path offset length) in
/-- Polled again and again, a task comes to what would have come of it. -/
theorem rest_poll (task : OpeningTask) (polls : List Bool) :
  rest source path offset length task
    = ((rest source path offset length (poll source path offset length task polls).1).1,
        (poll source path offset length task polls).2
          ++ (rest source path offset length (poll source path offset length task polls).1).2)
  := by
  induction polls generalizing task with
  | nil => rfl
  | cons answered polls ih =>
      cases answered with
      | false => apply ih
      | true =>
          rw [rest_resume, ih (resume source path offset length task).1]
          simp only [poll, List.append_assoc]

/-- A task at its end makes no call. -/
theorem poll_finished (outcome : Except SourceError FileRange) (polls : List Bool) :
  poll source path offset length (.finished outcome) polls = (.finished outcome, [])
  := by
  induction polls with
  | nil => rfl
  | cons answered polls ih =>
      cases answered with
      | false => exact ih
      | true => simp only [poll, resume, ih, List.append_nil]

variable (source path offset length) in
/-- Every answer brings a task nearer to its end. -/
theorem left_poll_le (task : OpeningTask) (polls : List Bool) :
  (poll source path offset length task polls).1.left ≤ task.left - polls.count true
  := by
  induction polls generalizing task with
  | nil => exact Nat.le_refl _
  | cons answered polls ih =>
      cases answered with
      | false =>
          rw [List.count_cons_of_ne (by decide)]
          apply ih
      | true =>
          have hnext := left_resume_le source path offset length task
          have hlast := ih (resume source path offset length task).1
          rw [List.count_cons_self, poll]
          dsimp only
          omega

/-- A task that needs no answer has come to its end. -/
theorem exists_outcome? (h : task.left = 0) :
  ∃ outcome, task.outcome? = some outcome
  := by
  cases task with
  | finished outcome => exact ⟨outcome, rfl⟩
  | _ => cases h

/-- No call follows the outcome. -/
theorem rest_of_outcome? {outcome : Except SourceError FileRange}
    (h : task.outcome? = some outcome) :
  rest source path offset length task = (outcome, [])
  := by
  cases task with
  | finished outcome' => cases h; rfl
  | _ => cases h

/-- What comes of a new task, and all its calls, are those of waiting for each call. -/
theorem openWaiting_eq_rest (source : DiskSource) (path : String) (offset length : Nat) :
  source.openWaiting path offset length
    = ((rest source path offset length (start source path).1).1,
        (start source path).2 ++ (rest source path offset length (start source path).1).2)
  := by
  rw [DiskSource.openWaiting, start]
  cases source.filePath path with
  | error error => rfl
  | ok file =>
      dsimp only [rest]
      cases source.openFile file with
      | error error => rfl
      | ok handle =>
          dsimp only
          cases handle.checkStart path offset <;> rfl

end OpeningTask

namespace DiskSource

/-- The task that opens a range, polled so often, with the calls left to it. -/
theorem exists_task_openPolled (source : DiskSource) (path : String) (offset length : Nat)
    (polls : List Bool) :
  ∃ task : OpeningTask, task.left ≤ 3 - polls.count true
    ∧ (source.openPolled path offset length polls).1 = task.outcome?
    ∧ source.openWaiting path offset length
        = ((task.rest source path offset length).1,
            (source.openPolled path offset length polls).2
              ++ (task.rest source path offset length).2)
  := by
  let fresh := OpeningTask.start source path
  have hfresh : fresh.1.left ≤ 3 := by
    cases fresh.1 <;> simp [OpeningTask.left]
  have hleft := OpeningTask.left_poll_le source path offset length fresh.1 polls
  refine ⟨(OpeningTask.poll source path offset length fresh.1 polls).1, by omega, rfl, ?_⟩
  rw [OpeningTask.openWaiting_eq_rest,
    OpeningTask.rest_poll source path offset length fresh.1 polls, openPolled,
    List.append_assoc]

/-- However often the task has been polled, it has made no other calls. -/
theorem isPrefix_openPolled (source : DiskSource) (path : String) (offset length : Nat)
    (polls : List Bool) :
  (source.openPolled path offset length polls).2 <+: (source.openWaiting path offset length).2
  := by
  obtain ⟨task, -, -, hrest⟩ := exists_task_openPolled source path offset length polls
  exact ⟨_, (congrArg (·.2) hrest).symm⟩

/-- What comes of the task is what comes of waiting. -/
theorem openWaiting_of_openPolled {outcome : Except SourceError FileRange}
    (h : (source.openPolled path offset length polls).1 = some outcome) :
  source.openWaiting path offset length
    = (outcome, (source.openPolled path offset length polls).2)
  := by
  obtain ⟨task, -, houtcome, hrest⟩ := exists_task_openPolled source path offset length polls
  rw [hrest, OpeningTask.rest_of_outcome? (houtcome.symm.trans h), List.append_nil]

/-- Once three calls have been answered the range is open, or has failed to open. -/
theorem openPolled_eq (h : 3 ≤ polls.count true) :
  source.openPolled path offset length polls
    = (some (source.openWaiting path offset length).1,
        (source.openWaiting path offset length).2)
  := by
  obtain ⟨task, hleft, htask, -⟩ := exists_task_openPolled source path offset length polls
  have hfinished : task.left = 0 := by omega
  obtain ⟨outcome, houtcome⟩ := OpeningTask.exists_outcome? hfinished
  rw [houtcome] at htask
  rw [openWaiting_of_openPolled htask]
  exact Prod.ext htask rfl

end DiskSource

end PieceStream
