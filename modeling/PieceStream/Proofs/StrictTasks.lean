import Mathlib.Data.Prod.Basic
import PieceStream.Proofs.StrictReaders
import PieceStream.Reading.Suspension

/-!
# Strict arithmetic of tasks

A task counts what a reader counts, step by step.  It breaches nothing if its cursor is settled
within a piece that fits and the stream that it holds has not come past the bytes wanted, which
every step preserves.  So neither readers that wait nor readers that read by tasks ever breach
anything over a piece that was built.
-/

namespace PieceStream

variable {W H S : Type}

namespace PolledSupply

variable {supply : PolledSupply W H S} {purpose : Purpose} {size : Nat} {item item' : HeldStream S}
  {feed feed' : Feed W H}

theorem itemPos_of_ask {polled : Poll (Except IoError Bytes)}
    (h : supply.ask purpose size item feed = (polled, item', feed')) :
  item'.itemPos = item.itemPos
  := by
  rw [ask] at h
  dsimp only at h
  split at h <;> cases h <;> rfl

theorem length_le_of_ask {bytes : Bytes}
    (h : supply.ask purpose size item feed = (.ready (.ok bytes), item', feed')) :
  bytes.length ≤ size
  := by
  rw [ask] at h
  dsimp only at h
  split at h
  · cases h
  · next hready =>
    cases h
    apply supply.length_le_of_read hready

end PolledSupply

/-! ### Steps -/

namespace Task

variable (setting : SuspendingSetting W H S)

/-- Finds the source and asks for the range that starts with the bytes of `span`.  The length to ask
for is computed when the source has been found. -/
def strictStartOpening (task : Task W H S) (span : PayloadRest) (feed : Feed W H) :
    Strict (Progress W H S) := do
  match (setting.waiting .suspending).sourceFor span feed with
  | (.error e, feed) => return task.fail (.sourceUnavailable span.run.source e) none feed
  | (.ok handle, feed) =>
    let _ ← setting.options.readAhead.strictLengthToAsk span.run span.entry span.itemOffset
    let feed := (setting.waiting .suspending).announce span feed
    return .running { task with feed := feed, stage := .opening span handle }

/-- Hands out bytes in memory, or decides what to do about the stream held. -/
def strictStepFilling (task : Task W H S) : Strict (Progress W H S) := do
  if task.room = 0 then return .finished (.ok task.filled) task.reader task.feed
  else
    match ← task.reader.cursor.strictSegment setting.piece with
    | .finish => return .finished (.ok task.filled) task.reader task.feed
    | .bytes available =>
      let copied ← Strict.take (min available.length task.room) available
      let rest ← Strict.shrink task.room copied.length
      let (reader, feed) ←
        task.reader.strictAdvance (setting.waiting .suspending) copied.length task.feed
      return .running ⟨reader, feed, task.filled ++ copied, rest, .filling⟩
    | .payload span =>
      match ← Approach.strictToward task.reader.held span with
      | .ready item => return .running { task.bare with stage := .asking span item }
      | .skip item gap =>
        let feed := task.feed.note (.skipping span.path item.itemPos gap)
        return .running { task.bare with feed := feed, stage := .skipping span item gap }
      | .reopen (some stale) => task.bare.strictStartOpening setting span (task.feed.release stale)
      | .reopen none => task.bare.strictStartOpening setting span task.feed

/-- Polls until bytes have been passed over, as many as the gap. -/
def strictStepSkipping (task : Task W H S) (span : PayloadRest) (item : HeldStream S) (gap : Nat) :
    Strict (Progress W H S) := do
  if gap = 0 then return .running { task with stage := .asking span item }
  else
    match setting.supply.ask .skip (min Supply.skipSize gap) item task.feed with
    | (.pending, item, feed) =>
      return .running { task with feed := feed, stage := .skipping span item gap }
    | (.ready (.ok []), item, feed) =>
      return task.fail (.unexpectedEnd span.path item.itemPos) none (feed.drop item)
    | (.ready (.ok (b :: bs)), item, feed) =>
      let itemPos ← Strict.add item.itemPos (b :: bs).length
      let gap ← Strict.sub gap (b :: bs).length
      let item := { item with itemPos := itemPos }
      return .running { task with feed := feed, stage := .skipping span item gap }
    | (.ready (.error e), item, feed) =>
      if setting.persistent ∧ e.isInterruption then
        return .running { task with feed := feed, stage := .skipping span item gap }
      else return task.fail (.sourceReadFailure span.path (.io e)) none (feed.drop item)

/-- Polls until there are bytes, and hands them out. -/
def strictStepAsking (task : Task W H S) (span : PayloadRest) (item : HeldStream S) :
    Strict (Progress W H S) := do
  let want ← Strict.within (min span.remaining task.room) task.room
  match setting.supply.ask .payload want item task.feed with
  | (.pending, item, feed) =>
    return .running { task with feed := feed, stage := .asking span item }
  | (.ready (.ok []), item, feed) =>
    return task.fail (.unexpectedEnd span.path item.itemPos) (some item) feed
  | (.ready (.ok (b :: bs)), item, feed) =>
    let bytes := b :: bs
    let itemPos ← Strict.add item.itemPos bytes.length
    let held := some { item with itemPos := itemPos }
    let (reader, feed) ←
      { task.reader with held := held }.strictAdvance (setting.waiting .suspending) bytes.length
        feed
    return .finished (.ok (task.filled ++ bytes)) reader feed
  | (.ready (.error e), item, feed) =>
    if e.isInterruption then
      return .running { task with feed := feed, stage := .asking span item }
    else return task.fail (.sourceReadFailure span.path (.io e)) (some item) feed

/-- Goes one step on.  To poll for a range that has been asked for computes nothing. -/
def strictStep (task : Task W H S) : Strict (Progress W H S) := do
  match task.stage with
  | .filling => task.strictStepFilling setting
  | .opening span handle => return task.stepOpening setting span handle
  | .skipping span item gap => task.strictStepSkipping setting span item gap
  | .asking span item => task.strictStepAsking setting span item

/-- Goes on to the end. -/
def strictComplete (task : Task W H S) : Strict (Reader.Outcome W H S) := do
  match ← task.strictStep setting with
  | .finished outcome reader feed => return (outcome, reader, feed)
  | .running task' =>
    if _h : Shrinks (task'.measure setting) (task.measure setting) then strictComplete task'
    else .error .stuck
termination_by task.measure setting
decreasing_by apply _h

end Task

/-- The stream of the stage has not come past the bytes wanted, and these are the payload at
`pos`. -/
def Stage.Within (piece : Piece) (pos : Nat) : Stage H S → Prop
  | .filling => True
  | .opening span _ => span.At piece pos
  | .skipping span item gap => span.At piece pos ∧ item.itemPos + gap = span.itemOffset
  | .asking span item => span.At piece pos ∧ item.itemPos = span.itemOffset

/-- The cursor of the task is settled within the piece, its stage is within reach of the bytes
there, and what it has filled and its room make up `size` bytes. -/
structure Task.Placed (piece : Piece) (size : Nat) (task : Task W H S) : Prop where
  exists_pos : ∃ pos ≤ piece.size, task.reader.cursor = Cursor.settled piece pos
    ∧ task.stage.Within piece pos
  size_eq : task.filled.length + task.room = size

/-- The task goes on placed, or the reader is left placed with at most `size` bytes. -/
def Progress.Placed (piece : Piece) (size : Nat) : Progress W H S → Prop
  | .running task => task.Placed piece size
  | .finished outcome reader _ =>
    reader.Placed piece ∧ ∀ bytes, outcome = .ok bytes → bytes.length ≤ size

namespace Task

variable {setting : SuspendingSetting W H S} {task : Task W H S} {span : PayloadRest}
  {item : HeldStream S} {pos size : Nat}

/-- To go forward within the piece breaches nothing. -/
theorem advance_eq {reader : Reader S} {n : Nat} (hfits : setting.piece.Fits)
    (hcursor : reader.cursor = Cursor.settled setting.piece pos)
    (hend : pos + n ≤ setting.piece.size) (feed : Feed W H) :
  reader.strictAdvance (setting.waiting .suspending) n feed
      = .ok (reader.advance (setting.waiting .suspending) n feed)
    ∧ (reader.advance (setting.waiting .suspending) n feed).1.cursor
      = Cursor.settled setting.piece (pos + n)
  := by
  have hfits : (setting.waiting .suspending).piece.Fits := hfits
  apply Reader.strictAdvance_eq hfits hcursor hend

theorem placed_fail (h : task.reader.Placed setting.piece) (e : ReadError)
    (held : Option (HeldStream S)) (feed : Feed W H) :
  (task.fail e held feed).Placed setting.piece size
  := ⟨h, nofun⟩

/-- To look for a source and compute the length to ask for breaches nothing. -/
theorem strictStartOpening_eq (hfits : setting.piece.Fits) (hspan : span.At setting.piece pos)
    (hpos : pos ≤ setting.piece.size)
    (hcursor : task.reader.cursor = Cursor.settled setting.piece pos)
    (hsize : task.filled.length + task.room = size) (feed : Feed W H) :
  task.strictStartOpening setting span feed = .ok (task.startOpening setting span feed)
    ∧ (task.startOpening setting span feed).Placed setting.piece size
  := by
  have hrun := hfits.run_exact (List.mem_of_getElem? hspan.run_eq)
  have hlength := ReadAhead.strictLengthToAsk_eq hrun hspan.entry_le setting.options.readAhead
    span.itemOffset
  rw [strictStartOpening, startOpening, hlength]
  rcases (setting.waiting .suspending).sourceFor span feed with ⟨_ | handle, feed'⟩
  · exact ⟨rfl, placed_fail ⟨pos, hpos, hcursor⟩ _ _ _⟩
  · exact ⟨rfl, ⟨pos, hpos, hcursor, hspan⟩, hsize⟩

/-- To hand out bytes in memory or to decide about the stream held breaches nothing. -/
theorem strictStepFilling_eq (hfits : setting.piece.Fits) (h : task.Placed setting.piece size) :
  task.strictStepFilling setting = .ok (task.stepFilling setting)
    ∧ (task.stepFilling setting).Placed setting.piece size
  := by
  obtain ⟨⟨pos, hpos, hcursor, -⟩, hsize⟩ := h
  have hplaced : task.reader.Placed setting.piece := ⟨pos, hpos, hcursor⟩
  have hfilled : ∀ bytes, (.ok task.filled : Except ReadError Bytes) = .ok bytes →
      bytes.length ≤ size := by
    rintro _ ⟨⟩
    omega
  rw [strictStepFilling, stepFilling]
  split
  · exact ⟨rfl, hplaced, hfilled⟩
  · next hroom =>
    have hroom := Nat.pos_of_ne_zero hroom
    rw [hcursor, Cursor.strictSegment_eq hfits hpos, Strict.ok_bind]
    cases hseg : (Cursor.settled setting.piece pos).segment setting.piece with
    | finish => exact ⟨rfl, hplaced, hfilled⟩
    | bytes available =>
        obtain ⟨hne, hlen, hend⟩ := Cursor.copied_of_segment hfits.laid hpos hseg hroom
        obtain ⟨hadvance, hcursor'⟩ := advance_eq hfits hcursor hend task.feed
        dsimp only
        rw [Strict.take_min_eq, Strict.ok_bind, Strict.shrink_eq hne hlen, Strict.ok_bind, hadvance]
        refine ⟨rfl, ⟨_, hend, hcursor', trivial⟩, ?_⟩
        dsimp only
        rw [List.length_append]
        omega
    | payload span =>
        have hspan := (Cursor.segment_eq_payload_iff hfits.laid hpos).mp hseg
        dsimp only
        rw [Approach.strictToward_eq, Strict.ok_bind]
        cases happroach : Approach.toward task.reader.held span with
        | ready item =>
            have hitem := Approach.itemPos_of_ready happroach
            exact ⟨rfl, ⟨pos, hpos, hcursor, hspan, hitem⟩, hsize⟩
        | skip item gap =>
            have hitem := Approach.itemPos_of_skip happroach
            exact ⟨rfl, ⟨pos, hpos, hcursor, hspan, hitem⟩, hsize⟩
        | reopen stale =>
            have hbare : task.bare.reader.cursor = Cursor.settled setting.piece pos := hcursor
            cases stale with
            | none => apply strictStartOpening_eq hfits hspan hpos hbare hsize
            | some stale => apply strictStartOpening_eq hfits hspan hpos hbare hsize

/-- The range that is opened starts with the bytes wanted. -/
theorem placed_stepOpening {handle : H} (h : task.Placed setting.piece size)
    (hstage : task.stage = .opening span handle) :
  (task.stepOpening setting span handle).Placed setting.piece size
  := by
  obtain ⟨⟨pos, hpos, hcursor, hwithin⟩, hsize⟩ := h
  rw [stepOpening]
  dsimp only
  split
  · exact ⟨⟨pos, hpos, hcursor, hwithin⟩, hsize⟩
  · rw [hstage] at hwithin
    split
    · next hconclude =>
      exact ⟨⟨pos, hpos, hcursor, hwithin, Setting.itemPos_of_conclude hconclude⟩, hsize⟩
    · exact placed_fail ⟨pos, hpos, hcursor⟩ _ _ _

/-- To poll until bytes have been passed over breaches nothing. -/
theorem strictStepSkipping_eq {gap : Nat} (hfits : setting.piece.Fits)
    (h : task.Placed setting.piece size) (hstage : task.stage = .skipping span item gap) :
  task.strictStepSkipping setting span item gap = .ok (task.stepSkipping setting span item gap)
    ∧ (task.stepSkipping setting span item gap).Placed setting.piece size
  := by
  obtain ⟨⟨pos, hpos, hcursor, hwithin⟩, hsize⟩ := h
  rw [hstage] at hwithin
  obtain ⟨hspan, hitem⟩ := hwithin
  have hplaced : task.reader.Placed setting.piece := ⟨pos, hpos, hcursor⟩
  rw [strictStepSkipping, stepSkipping]
  split
  · next hgap =>
    rw [hgap] at hitem
    exact ⟨rfl, ⟨pos, hpos, hcursor, hspan, hitem⟩, hsize⟩
  · rcases hask : setting.supply.ask .skip (min Supply.skipSize gap) item task.feed
      with ⟨_ | _ | _ | ⟨b, bs⟩, item', feed'⟩
    all_goals have hitem' := PolledSupply.itemPos_of_ask hask
    · exact ⟨rfl, ⟨pos, hpos, hcursor, hspan, by rw [hitem', hitem]⟩, hsize⟩
    · dsimp only
      split
      · exact ⟨rfl, ⟨pos, hpos, hcursor, hspan, by rw [hitem', hitem]⟩, hsize⟩
      · exact ⟨rfl, placed_fail hplaced _ _ _⟩
    · exact ⟨rfl, placed_fail hplaced _ _ _⟩
    · have hlen := PolledSupply.length_le_of_ask hask
      have hlt := hspan.offset_lt hfits
      dsimp only
      rw [Strict.add_eq (by omega), Strict.ok_bind, Strict.sub_eq (by omega)]
      refine ⟨rfl, ⟨pos, hpos, hcursor, hspan, ?_⟩, hsize⟩
      dsimp only
      omega

/-- To poll until there are bytes breaches nothing. -/
theorem strictStepAsking_eq (hfits : setting.piece.Fits)
    (h : task.Placed setting.piece size) (hstage : task.stage = .asking span item) :
  task.strictStepAsking setting span item = .ok (task.stepAsking setting span item)
    ∧ (task.stepAsking setting span item).Placed setting.piece size
  := by
  obtain ⟨⟨pos, hpos, hcursor, hwithin⟩, hsize⟩ := h
  rw [hstage] at hwithin
  obtain ⟨hspan, hitem⟩ := hwithin
  have hplaced : task.reader.Placed setting.piece := ⟨pos, hpos, hcursor⟩
  rw [strictStepAsking, stepAsking, Strict.within_eq (Nat.min_le_right _ _), Strict.ok_bind]
  rcases hask : setting.supply.ask .payload (min span.remaining task.room) item task.feed
    with ⟨_ | _ | _ | ⟨b, bs⟩, item', feed'⟩
  all_goals have hitem' := PolledSupply.itemPos_of_ask hask
  · exact ⟨rfl, ⟨pos, hpos, hcursor, hspan, by rw [hitem', hitem]⟩, hsize⟩
  · dsimp only
    split
    · exact ⟨rfl, ⟨pos, hpos, hcursor, hspan, by rw [hitem', hitem]⟩, hsize⟩
    · exact ⟨rfl, placed_fail hplaced _ _ _⟩
  · exact ⟨rfl, placed_fail hplaced _ _ _⟩
  · have hlen := PolledSupply.length_le_of_ask hask
    have hlt := hspan.offset_lt hfits
    have hend : pos + (b :: bs).length ≤ setting.piece.size := by
      have hle := hspan.le_size hfits.laid
      omega
    have hheld : ({ task.reader with
        held := some { item' with itemPos := item'.itemPos + (b :: bs).length } } : Reader S).cursor
          = Cursor.settled setting.piece pos := hcursor
    obtain ⟨hadvance, hcursor'⟩ := advance_eq hfits hheld hend feed'
    dsimp only
    rw [Strict.add_eq (by omega), Strict.ok_bind, hadvance]
    refine ⟨rfl, ⟨_, hend, hcursor'⟩, ?_⟩
    rintro _ ⟨⟩
    rw [List.length_append]
    omega

/-- To go one step on breaches nothing. -/
theorem strictStep_eq (hfits : setting.piece.Fits) (h : task.Placed setting.piece size) :
  task.strictStep setting = .ok (task.step setting)
    ∧ (task.step setting).Placed setting.piece size
  := by
  rw [strictStep, step]
  cases hstage : task.stage with
  | filling => apply strictStepFilling_eq hfits h
  | opening span handle => exact ⟨rfl, placed_stepOpening h hstage⟩
  | skipping span item gap => apply strictStepSkipping_eq hfits h hstage
  | asking span item => apply strictStepAsking_eq hfits h hstage

/-- To go on to the end breaches nothing. -/
theorem sound_complete (hfits : setting.piece.Fits) (h : task.Placed setting.piece size) :
  Reader.Sound setting.piece size (task.strictComplete setting) (task.complete setting)
  := by
  induction task using complete.induct setting with
  | case1 task outcome reader feed hstep =>
      obtain ⟨heq, hplaced⟩ := strictStep_eq hfits h
      rw [hstep] at heq hplaced
      rw [strictComplete, heq, complete_of_finished hstep]
      exact ⟨rfl, hplaced.1, hplaced.2⟩
  | case2 task task' hstep ih =>
      obtain ⟨heq, hplaced⟩ := strictStep_eq hfits h
      rw [hstep] at heq hplaced
      rw [strictComplete, heq, complete_of_running hstep, Strict.ok_bind]
      dsimp only
      rw [dif_pos (shrinks_of_step hstep)]
      apply ih hplaced

end Task

/-! ### Readers and families -/

/-- Hands out at most `size` bytes by a task. -/
def Reader.strictReadByTask (setting : SuspendingSetting W H S) (size : Nat) (reader : Reader S)
    (feed : Feed W H) : Strict (Outcome W H S) := do
  if reader.poisoned then return (.error .poisoned, reader, feed)
  else
    return poisonOnError (setting.waiting .suspending)
      (← Task.strictComplete setting ⟨reader, feed, [], size, .filling⟩)

/-- To read by a task breaches nothing. -/
theorem Reader.sound_readByTask {setting : SuspendingSetting W H S} {reader : Reader S}
    (hfits : setting.piece.Fits) (h : reader.Placed setting.piece) (size : Nat) (feed : Feed W H) :
  Sound setting.piece size (reader.strictReadByTask setting size feed)
    (reader.readByTask setting size feed)
  := by
  rw [strictReadByTask, readByTask]
  split
  · exact ⟨rfl, h, nofun⟩
  · obtain ⟨pos, hpos, hcursor⟩ := h
    have htask : Task.Placed setting.piece size
        (⟨reader, feed, [], size, .filling⟩ : Task W H S) :=
      ⟨⟨pos, hpos, hcursor, trivial⟩, Nat.zero_add size⟩
    have hsound : Sound (setting.waiting .suspending).piece size _ _ :=
      Task.sound_complete hfits htask
    apply hsound.poisonOnError

namespace Family

/-- Gives commands in order to the members of a new family, which read by tasks. -/
def strictRunAllByTasks (setting : SuspendingSetting W H S) (world : W)
    (commands : List (Nat × Command)) : Strict (List Reply × Family W H S) := do
  let family ← strictStart (setting.waiting .suspending) world
  family.strictRunAllBy (setting.waiting .suspending) (Reader.strictReadByTask setting) commands

/-- Whatever a family that reads by tasks is told to do breaches nothing. -/
theorem strictRunAllByTasks_eq {setting : SuspendingSetting W H S} (hfits : setting.piece.Fits)
    (world : W) (commands : List (Nat × Command)) :
  strictRunAllByTasks setting world commands
    = .ok ((start (setting.waiting .suspending) world).runAllByTasks setting commands)
  := by
  have hfits' : (setting.waiting .suspending).piece.Fits := hfits
  obtain ⟨hstart, hplaced⟩ := strictStart_eq (S := S) hfits' world
  rw [strictRunAllByTasks, hstart, Strict.ok_bind]
  apply strictRunAllBy_eq hfits' _ hplaced
  intro reader hreader size feed
  apply Reader.sound_readByTask hfits hreader

end Family

/-- To build a piece breaches nothing, whatever the plan.  Of a piece that is built, nothing that
can be asked of its blocks and nothing that readers of either kind are told to do breaches anything,
whatever their sources answer. -/
theorem Plan.build_breaches_nothing (plan : Plan) :
  plan.strictBuild = .ok plan.build
    ∧ ∀ piece, plan.build = .ok piece →
      (∀ block ∈ piece.blocks, block.Exact)
      ∧ (∀ {W H S : Type} (setting : Setting W H S) (world : W) (commands : List (Nat × Command)),
          setting.piece = piece →
            Family.strictRunAll setting world commands
              = .ok ((Family.start setting world).runAll setting commands))
      ∧ ∀ {W H S : Type} (setting : SuspendingSetting W H S) (world : W)
          (commands : List (Nat × Command)), setting.piece = piece →
            Family.strictRunAllByTasks setting world commands
              = .ok ((Family.start (setting.waiting .suspending) world).runAllByTasks setting
                  commands)
  := by
  use plan.strictBuild_eq
  intro piece hbuild
  have hfits := fits_of_build hbuild
  refine ⟨fun block hblock => hfits.block_exact hblock, ?_, ?_⟩
  · rintro W H S setting world commands rfl
    apply Family.strictRunAll_eq hfits
  · rintro W H S setting world commands rfl
    apply Family.strictRunAllByTasks_eq hfits

/-- The last payload of the piece and the range of the item that it is both end at the largest word,
where an empty block follows.  The source yields as many zeros as it is asked for. -/
theorem Plan.build_breaches_nothing_at_limit :
  let last : UInt64 := 18446744073709551615
  let item : Item := ⟨⟨1⟩, "a", last⟩
  let plan : Plan := ⟨[1], last, [.item 1 [7] [8] ⟨0⟩ item 3 (last - 3), .inline last [] [] []]⟩
  let piece : Piece :=
    ⟨[1], last.toNat,
      [.run ⟨⟨0⟩, item, ⟨⟨1, [7], [8]⟩, 3, last.toNat - 3⟩, []⟩,
        .inline ⟨⟨last.toNat, [], []⟩, []⟩]⟩
  let supply : Supply Unit Unit Unit :=
    { resolve := fun _ w => (.ok (), w)
      openRange := fun _ _ _ _ w => (.ok (), [], w)
      read := fun s n w => (.ok (List.replicate n 0), s, w)
      patience := fun _ _ => 0
      length_le_of_read := by
        rintro s n w _ ⟨⟩
        rw [List.length_replicate]
      patience_lt_of_interruption := nofun }
  let setting : Setting Unit Unit Unit := ⟨supply, piece, .standard, .blocking⟩
  let commands : List (Nat × Command) :=
    [(0, .seek (.fromEnd (-2))), (0, .read 5), (0, .copy last.toNat), (1, .read 1),
      (0, .seek (.fromHere 1)), (0, .moveTo 0), (0, .read 4), (0, .close)]
  plan.build = .ok piece
    ∧ Family.strictRunAll setting () commands
      = .ok ((Family.start setting ()).runAll setting commands)
    ∧ ((Family.start setting ()).runAll setting commands).2.positions = [some 4, some last.toNat]
  := by
  intro last item plan piece supply setting commands
  have hbuild : plan.build = .ok piece := by decide +kernel
  refine ⟨hbuild, ?_, by decide +kernel⟩
  apply ((Plan.build_breaches_nothing plan).2 piece hbuild).2.1 setting () commands rfl

end PieceStream
