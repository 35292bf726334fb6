import Mathlib.Data.List.Perm.Basic
import PieceStream.Proofs.Shortage
import PieceStream.Proofs.Tallies

/-!
# Releases

Every stream that was opened is at any time in one of four places: a reader holds it, a note says
that it was given up, it was taken away without a note because bytes could not be passed over, or a
reader that was dropped has taken it along.  A note on a stream that is given up names the block
that it was opened for and the place in the item up to which it has delivered bytes.
-/

namespace PieceStream

variable {W H S : Type}

/-- A copy holds no stream. -/
theorem Reader.held_of_copyAt {setting : Setting W H S} {offset : Nat} {copy : Reader S}
    (h : copyAt setting offset = .ok copy) :
  copy.held = none
  := by
  rw [copyAt] at h
  split at h
  · cases h
  · cases h
    rfl

namespace Family

/-- The streams that members hold. -/
def heldStreams (family : Family W H S) : List (HeldStream S) :=
  family.members.filterMap fun member => member.bind Reader.held

/-- The streams that all members but one hold. -/
def heldByOthers (family : Family W H S) (index : Nat) : List (HeldStream S) :=
  (family.members.set index none).filterMap fun member => member.bind Reader.held

/-- The streams held are those of a member and those of the others. -/
theorem heldStreams_perm {family : Family W H S} {index : Nat} {reader : Reader S}
    (h : family.member? index = some reader) :
  family.heldStreams.Perm (reader.held.toList ++ family.heldByOthers index)
  := by
  obtain ⟨hlt, hget⟩ := List.getElem?_eq_some_iff.mp (member?_eq_some_iff.mp h)
  let holds : Option (Reader S) → Option (HeldStream S) := fun member => member.bind Reader.held
  have hmember := (List.getElem_cons_eraseIdx_perm hlt).symm.filterMap holds
  have hothers : (family.heldByOthers index).Perm
      ((family.members.eraseIdx index).filterMap holds) :=
    (List.set_perm_cons_eraseIdx hlt none).filterMap holds
  rw [hget, List.filterMap_cons] at hmember
  refine hmember.trans (List.Perm.trans ?_ (hothers.symm.append_left _))
  obtain ⟨cursor, _ | item, poisoned⟩ := reader
  · apply List.Perm.refl
  · apply List.Perm.refl

/-- A copy that holds no stream leaves the streams held as they are. -/
theorem heldStreams_append {family : Family W H S} {copy : Reader S} (h : copy.held = none) :
  ({ family with members := family.members ++ [some copy] } : Family W H S).heldStreams
    = family.heldStreams
  := by
  rw [heldStreams, List.filterMap_append, List.filterMap_cons]
  simp only [Option.bind_some, h, List.filterMap_nil, List.append_nil]
  rfl

variable {setting : Setting W H S} {persistent : Bool} {left : List Whereabouts}
  {family : Family (AuditedWorld W) (AuditedSource H) (AuditedStream S)} {index : Nat}
  {reader reader' : Reader (AuditedStream S)} {feed : Feed (AuditedWorld W) (AuditedSource H)}
  {read : Nat → Reader (AuditedStream S) → Feed (AuditedWorld W) (AuditedSource H) →
    Except ReadError Bytes × Reader (AuditedStream S) × Feed (AuditedWorld W) (AuditedSource H)}

/-- Where the streams are that members hold. -/
def whereabouts (family : Family (AuditedWorld W) (AuditedSource H) (AuditedStream S)) :
    List Whereabouts :=
  family.heldStreams.map HeldStream.whereabouts

/-- Where streams are is where that of a member is and where those of the others are. -/
theorem whereabouts_perm (hmember : family.member? index = some reader) (left : List Whereabouts) :
  (family.whereabouts ++ left).Perm (whereaboutsOf reader.held
    ++ ((family.heldByOthers index).map HeldStream.whereabouts ++ left))
  := by
  have hperm := ((heldStreams_perm hmember).map HeldStream.whereabouts).append_right left
  rw [List.map_append, List.append_assoc] at hperm
  obtain ⟨cursor, _ | item, poisoned⟩ := reader <;> apply hperm

/-- What one member does keeps all streams accounted for. -/
theorem tallied_update (hmember : family.member? index = some reader)
    (h : family.feed.Tallied setting.piece persistent (family.whereabouts ++ left))
    (hstep : ∀ others,
      family.feed.Tallied setting.piece persistent (whereaboutsOf reader.held ++ others) →
      feed.Tallied setting.piece persistent (whereaboutsOf reader'.held ++ others)) :
  (family.update index reader' feed).feed.Tallied setting.piece persistent
    ((family.update index reader' feed).whereabouts ++ left)
  := by
  have hothers : (family.update index reader' feed).heldByOthers index
      = family.heldByOthers index := by
    rw [heldByOthers, update, List.set_set]
    rfl
  have hmember' : (family.update index reader' feed).member? index = some reader' :=
    member?_update hmember
  apply Feed.Tallied.perm _ (whereabouts_perm hmember' left).symm
  rw [hothers]
  apply hstep _ (h.perm (whereabouts_perm hmember left))

/-- A member that is dropped takes the stream that it holds along. -/
theorem tallied_remove
    (h : family.feed.Tallied setting.piece persistent (family.whereabouts ++ left)) (index : Nat) :
  ∃ left', (family.remove index).feed.Tallied setting.piece persistent
      ((family.remove index).whereabouts ++ left')
    ∧ left'.length ≤ left.length + 1
  := by
  rw [remove]
  cases hmember : family.member? index with
  | none => exact ⟨left, h, Nat.le_succ _⟩
  | some reader =>
      have hone : (whereaboutsOf reader.held).length ≤ 1 := by
        cases reader.held with
        | none => apply Nat.zero_le
        | some item => apply Nat.le_refl
      refine ⟨whereaboutsOf reader.held ++ left, ?_, by rw [List.length_append]; omega⟩
      have hothers := (h.perm (whereabouts_perm hmember left)).perm
        (List.perm_append_comm_assoc _ _ _)
      obtain ⟨cursor, _ | item, poisoned⟩ := reader
      · apply hothers
      · have hdropped : (family.feed.drop item).Tallied setting.piece persistent
            ((family.heldByOthers index).map HeldStream.whereabouts
              ++ (whereaboutsOf (some item) ++ left)) :=
          hothers.record rfl rfl rfl
        apply hdropped

/-- A command keeps all streams accounted for, and at most one goes with a member that is dropped.
-/
theorem tallied_runBy (hreads : Reader.ReadsByFilling setting.audited persistent read)
    (hdiscreet : setting.supply.Discreet)
    (h : family.feed.Tallied setting.piece persistent (family.whereabouts ++ left)) (index : Nat)
    (command : Command) :
  ∃ left', (family.runBy setting.audited read index command).2.feed.Tallied setting.piece persistent
      ((family.runBy setting.audited read index command).2.whereabouts ++ left')
    ∧ left'.length ≤ left.length + if command = .drop then 1 else 0
  := by
  rw [runBy]
  cases hmember : family.member? index with
  | none => exact ⟨left, h, Nat.le_add_right _ _⟩
  | some reader =>
      cases command with
      | read size =>
          refine ⟨left, tallied_update hmember h fun others hothers => ?_, Nat.le_refl _⟩
          apply hreads.tallied hdiscreet size hothers
      | drain size =>
          refine ⟨left, tallied_update hmember h fun others hothers => ?_, Nat.le_refl _⟩
          let tallied : Reader (AuditedStream S) → Feed (AuditedWorld W) (AuditedSource H) →
              Prop := fun reader feed =>
            feed.Tallied setting.piece persistent (whereaboutsOf reader.held ++ others)
          have hstart : tallied reader family.feed := hothers
          apply Reader.drainWithin_preserves _ _ hstart
          intro reader' feed' h'
          apply hreads.tallied hdiscreet size h'
      | moveTo offset =>
          refine ⟨left, tallied_update hmember h fun others hothers => ?_, Nat.le_refl _⟩
          apply Reader.tallied_moveTo offset hothers
      | seek target =>
          refine ⟨left, tallied_update hmember h fun others hothers => ?_, Nat.le_refl _⟩
          apply Reader.tallied_seek target hothers
      | copy offset =>
          refine ⟨left, ?_, Nat.le_refl _⟩
          dsimp only
          split
          · next copy hcopy =>
            rw [whereabouts, heldStreams_append (Reader.held_of_copyAt hcopy)]
            apply h
          · apply h
      | close =>
          refine ⟨left, tallied_update hmember h fun others hothers => ?_, Nat.le_refl _⟩
          apply Reader.tallied_release hothers
      | drop =>
          apply tallied_remove h index

/-- Commands keep all streams accounted for, and at most one goes with each member that is dropped.
-/
theorem tallied_runAllBy (hreads : Reader.ReadsByFilling setting.audited persistent read)
    (hdiscreet : setting.supply.Discreet)
    (h : family.feed.Tallied setting.piece persistent (family.whereabouts ++ left))
    (commands : List (Nat × Command)) :
  ∃ left', (family.runAllBy setting.audited read commands).2.feed.Tallied setting.piece persistent
      ((family.runAllBy setting.audited read commands).2.whereabouts ++ left')
    ∧ left'.length ≤ left.length + commands.countP (·.2 = .drop)
  := by
  induction commands generalizing family left with
  | nil => exact ⟨left, h, Nat.le_refl _⟩
  | cons c commands ih =>
      obtain ⟨index, command⟩ := c
      obtain ⟨left', h', hlength⟩ := tallied_runBy hreads hdiscreet h index command
      obtain ⟨left'', h'', hlength'⟩ := ih h'
      rw [runAllBy_cons, List.countP_cons]
      refine ⟨left'', h'', ?_⟩
      simp only [decide_eq_true_eq]
      omega

/-- A new family has opened no streams. -/
theorem tallied_start (setting : Setting W H S) (persistent : Bool) (world : W) :
  (start setting.audited ⟨world, 0, []⟩).feed.Tallied setting.piece persistent
    ((start setting.audited ⟨world, 0, []⟩).whereabouts ++ [])
  := by
  have hnone {block : Nat} {handle : AuditedSource H}
      (h : (List.replicate setting.piece.blocks.length none)[block]? = some (some handle)) :
      False := by
    obtain ⟨hlt, hget⟩ := List.getElem?_eq_some_iff.mp h
    rw [List.getElem_replicate] at hget
    cases hget
  refine ⟨[], [], rfl, rfl, List.Perm.refl _, nofun, rfl, List.length_replicate, ?_, ?_, ?_⟩
  · intro block handle run h
    cases hnone h
  · intro block handle h
    cases hnone h
  · intro block block' handle handle' h
    cases hnone h

/-- Whatever members are told, however they read and whatever comes of it, every stream that was
opened is in one of four places, as an audit bears out that lets readers do as they do without it.
Notes say of some that they were given up, each note of one stream, and each names the block whose
source the stream was opened from and the place in the item up to which the stream has delivered
bytes.  Others were taken away without a note because bytes could not be passed over by them, each
time one.  Others went with members that were dropped.  The rest are held by members. -/
theorem streams_tallied {plan : Plan} (hbuild : plan.build = .ok setting.piece)
    {read : Nat → Reader S → Feed W H → Except ReadError Bytes × Reader S × Feed W H}
    {read' : Nat → Reader (AuditedStream S) → Feed (AuditedWorld W) (AuditedSource H) →
      Except ReadError Bytes × Reader (AuditedStream S) ×
        Feed (AuditedWorld W) (AuditedSource H)}
    (hreads : Reader.ReadsAudited setting persistent read read')
    (hdiscreet : setting.supply.Discreet) (world : W) (commands : List (Nat × Command)) :
  let audited := (start setting.audited ⟨world, 0, []⟩).runAllBy setting.audited read' commands
  let held := audited.2.whereabouts
  let feed := audited.2.feed
  (audited.1, audited.2.unaudited) = (start setting world).runAllBy setting read commands
    ∧ feed.openings = feed.world.openings.map Opening.event
    ∧ (∀ {block block' : Nat} {handle handle' : AuditedSource H},
        feed.handles[block]? = some (some handle) → feed.handles[block']? = some (some handle') →
        handle.find = handle'.find → block = block')
    ∧ ∃ released lost left : List Whereabouts,
      feed.releases = released.map (fun spot => (spot.block, spot.itemPos))
      ∧ feed.failedSkips persistent = lost.map Whereabouts.source
      ∧ left.length ≤ commands.countP (·.2 = .drop)
      ∧ (∀ spot ∈ released ++ lost ++ (held ++ left), feed.Confirms setting.piece spot)
      ∧ ((released ++ lost ++ (held ++ left)).map Whereabouts.number).Perm feed.world.opened
      ∧ feed.world.opened.Nodup
  := by
  intro audited held feed
  obtain ⟨left, ⟨released, lost, h⟩, hleft⟩ :=
    tallied_runAllBy hreads.readsByFilling hdiscreet (tallied_start setting persistent world)
      commands
  rw [List.length_nil, Nat.zero_add] at hleft
  exact ⟨runAllBy_audited hreads (Plan.laid_of_build hbuild) world commands, h.openings_eq,
    h.keptApart.find_inj, released, lost, left, h.releases_eq, h.failedSkips_eq, hleft, h.confirms,
    h.numbers_perm, AuditedWorld.nodup_opened⟩

/-- Sources of a registry note the files that they open, and nothing else. -/
theorem discreet_registry :
  Registry.supply.Discreet
  := by
  intro handle path offset length registry block itemPos hmem
  have hnotes (source : Source) :
      .releasing block itemPos ∉ Registry.openingNotes source path offset length := by
    rw [Registry.openingNotes]
    cases source.fileText? path with
    | none => simp
    | some file => simp
  simp only [Registry.supply, Registry.openScripted] at hmem
  split at hmem
  · cases hmem
  · next scripted _ =>
    split at hmem
    · apply hnotes _ hmem
    · apply hnotes _ hmem
    · cases hmem

/-- One stream comes to the end of the item while bytes are passed over, another one is read to the
end of its run, and a third one is held, be it at once or by tasks. -/
theorem streams_tallied_failed_skip :
  let item : Item := ⟨⟨1⟩, "a", 6⟩
  let other : Item := ⟨⟨2⟩, "b", 1⟩
  let plan : Plan := ⟨[], 3,
    [.item 0 [] [] ⟨0⟩ item 0 1, .item 1 [] [] ⟨0⟩ item 5 1, .item 2 [] [] ⟨0⟩ other 0 1]⟩
  let piece : Piece := ⟨[], 3, [.run ⟨⟨0⟩, item, ⟨⟨0, [], []⟩, 0, 1⟩, [⟨⟨1, [], []⟩, 5, 1⟩]⟩,
    .run ⟨⟨0⟩, other, ⟨⟨2, [], []⟩, 0, 1⟩, []⟩]⟩
  let registry : Registry ScriptedSource :=
    ⟨[(⟨0⟩, ⟨.memory ⟨[("a", [10, 11, 12]), ("b", [20])]⟩, [], []⟩)]⟩
  let blocking : Setting (Registry ScriptedSource) SourceId ScriptedStream :=
    ⟨Registry.supply, piece, .standard, .blocking⟩
  let suspending : SuspendingSetting (Registry ScriptedSource) SourceId ScriptedStream :=
    ⟨Registry.polledSupply, piece, .standard, false⟩
  let commands : List (Nat × Command) :=
    [(0, .read 8), (0, .read 8), (0, .copy 2), (1, .read 8), (0, .copy 0), (2, .read 1)]
  let atOnce := (start blocking.audited ⟨registry, 0, []⟩).runAll blocking.audited commands
  let byTasks := (start (suspending.waiting .suspending).audited ⟨registry, 0, []⟩).runAllBy
    (suspending.waiting .suspending).audited (Reader.readByTask suspending.audited) commands
  let openings : List Opening :=
    [⟨0, ⟨0⟩, "a", 0, 6, some 3⟩, ⟨1, ⟨0⟩, "b", 0, 1, some 1⟩, ⟨0, ⟨0⟩, "a", 0, 6, some 1⟩]
  plan.build = .ok piece ∧ Registry.supply.Discreet
    ∧ ∀ audited ∈ [atOnce, byTasks],
      audited.2.feed.world.openings = openings ∧ audited.2.feed.releases = [(1, 1)]
      ∧ ∃ released lost : List Whereabouts,
        released.map (fun spot => (spot.block, spot.itemPos)) = [(1, 1)]
        ∧ lost.map Whereabouts.source = [⟨0⟩]
        ∧ ((released ++ lost ++ audited.2.whereabouts).map Whereabouts.number).Perm [0, 1, 2]
  := by
  intro item other plan piece registry blocking suspending commands atOnce byTasks openings
  have hbuild : plan.build = .ok piece := rfl
  have hwaiting : (suspending.waiting .suspending).supply.Discreet := by
    have hsupply : (suspending.waiting .suspending).supply = Registry.supply :=
      Registry.awaited_polledSupply
    rw [hsupply]
    apply discreet_registry
  refine ⟨hbuild, discreet_registry, fun audited haudited => ?_⟩
  rcases List.mem_pair.mp haudited with rfl | rfl
  · have hopenings : atOnce.2.feed.world.openings = openings := by
      simp only [atOnce, commands, blocking, registry, piece, other, item]
      cbv
    have hopened : atOnce.2.feed.world.opened = [0, 1, 2] := by
      rw [AuditedWorld.opened, hopenings]
      rfl
    have hreleases : atOnce.2.feed.releases = [(1, 1)] := by
      simp only [atOnce, commands, blocking, registry, piece, other, item]
      cbv
    have hfailed : atOnce.2.feed.failedSkips true = [⟨0⟩] := by
      simp only [atOnce, commands, blocking, registry, piece, other, item]
      cbv
    obtain ⟨-, -, -, released, lost, left, hreleased, hlost, hleft, -, hperm, -⟩ :=
      streams_tallied hbuild (.atOnce blocking) discreet_registry registry commands
    refine ⟨hopenings, hreleases, released, lost, hreleased.symm.trans hreleases,
      hlost.symm.trans hfailed, ?_⟩
    rw [List.length_eq_zero_iff.mp (Nat.le_zero.mp hleft), List.append_nil] at hperm
    exact hperm.trans (List.Perm.of_eq hopened)
  · have hopenings : byTasks.2.feed.world.openings = openings := by
      simp only [byTasks, commands, suspending, registry, piece, other, item]
      cbv
    have hopened : byTasks.2.feed.world.opened = [0, 1, 2] := by
      rw [AuditedWorld.opened, hopenings]
      rfl
    have hreleases : byTasks.2.feed.releases = [(1, 1)] := by
      simp only [byTasks, commands, suspending, registry, piece, other, item]
      cbv
    have hfailed : byTasks.2.feed.failedSkips false = [⟨0⟩] := by
      simp only [byTasks, commands, suspending, registry, piece, other, item]
      cbv
    obtain ⟨-, -, -, released, lost, left, hreleased, hlost, hleft, -, hperm, -⟩ :=
      streams_tallied hbuild (.byTasks suspending) hwaiting registry commands
    refine ⟨hopenings, hreleases, released, lost, hreleased.symm.trans hreleases,
      hlost.symm.trans hfailed, ?_⟩
    rw [List.length_eq_zero_iff.mp (Nat.le_zero.mp hleft), List.append_nil] at hperm
    exact hperm.trans (List.Perm.of_eq hopened)

/-- A stream is opened that comes to the end of the item while bytes are passed over.  The reader
holds it no longer, and no note says that it was given up. -/
theorem failed_skip_leaves_no_release :
  let item : Item := ⟨⟨1⟩, "a", 6⟩
  let plan : Plan := ⟨[], 2, [.item 0 [] [] ⟨0⟩ item 0 1, .item 1 [] [] ⟨0⟩ item 5 1]⟩
  let piece : Piece := ⟨[], 2, [.run ⟨⟨0⟩, item, ⟨⟨0, [], []⟩, 0, 1⟩, [⟨⟨1, [], []⟩, 5, 1⟩]⟩]⟩
  let registry : Registry ScriptedSource := ⟨[(⟨0⟩, ⟨.memory ⟨[("a", [10, 11, 12])]⟩, [], []⟩)]⟩
  let setting : Setting (Registry ScriptedSource) SourceId ScriptedStream :=
    ⟨Registry.supply, piece, .standard, .blocking⟩
  let after := (start setting registry).runAll setting [(0, .read 8), (0, .read 8)]
  plan.build = .ok piece
    ∧ Reply.outcomesOf 0 [(0, .read 8), (0, .read 8)] after.1
        = [.ok [10], .error (.unexpectedEnd "a" 3)]
    ∧ after.2.feed.openings = [.opened ⟨0⟩ 0 6 "a"]
    ∧ (after.2.member? 0).map (fun reader => reader.held.isSome) = some false
    ∧ after.2.feed.releases = []
  := by
  intro item plan piece registry setting after
  refine ⟨rfl, ?_, ?_, ?_, ?_⟩ <;> simp only [after, setting, registry, piece, item]
  · cbv
  · cbv
  · cbv
  · cbv

end Family

end PieceStream
