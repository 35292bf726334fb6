import PieceStream.Proofs.Audit
import PieceStream.Proofs.Courses

/-!
# Tallies

Every stream that was opened is at any time in one of three places: a note says that it was given
up, it was taken away without a note because bytes could not be passed over, or somebody has it.
An audit bears out where each of them is said to be.  Whatever a reader does keeps the tally, be the
reader one that waits or one that reads by tasks.
-/

namespace PieceStream

variable {W H S : Type}

/-- The block and the item offset that a note on a stream given up names. -/
def Event.release? : Event → Option (Nat × Nat)
  | .noted (.releasing block itemPos) => some (block, itemPos)
  | _ => none

/-- The source of the stream by which bytes could not be passed over: there were none, or it failed.
Only to those who are not persistent an interruption is a failure. -/
def Event.failedSkip? (persistent : Bool) : Event → Option SourceId
  | .asked source .skip _ (.ok count) => if count = 0 then some source else none
  | .asked source .skip _ (.error e) =>
    if persistent ∧ e.isInterruption then none else some source
  | _ => none

/-- What the notes on streams given up name, the latest first. -/
def Feed.releases (feed : Feed W H) : List (Nat × Nat) := feed.latest.filterMap Event.release?

/-- The sources of the streams by which bytes could not be passed over, the latest first. -/
def Feed.failedSkips (persistent : Bool) (feed : Feed W H) : List SourceId :=
  feed.latest.filterMap (Event.failedSkip? persistent)

/-- Sources take no notes of streams given up, which is for readers to do. -/
def Supply.Discreet (supply : Supply W H S) : Prop :=
  ∀ (handle : H) (path : String) (offset length : Nat) (w : W) (block itemPos : Nat),
    .releasing block itemPos ∉ (supply.openRange handle path offset length w).2.1

/-- The stream that was held before it was decided what to do with it. -/
def Approach.held : Approach S → Option (HeldStream S)
  | .ready item => some item
  | .skip item _ => some item
  | .reopen stale => stale

theorem Approach.held_toward (held : Option (HeldStream S)) (span : PayloadRest) :
  (toward held span).held = held
  := by
  cases held with
  | none => rfl
  | some item =>
      rw [toward]
      split
      · rfl
      · split <;> rfl

/-! ### Whereabouts -/

/-- Where a stream is said to be: the number of the call that opened it, its source, the block that
it serves, and the place in the item at which it stands. -/
structure Whereabouts where
  number : Nat
  source : SourceId
  block : Nat
  itemPos : Nat

/-- Where a reader takes the stream that it holds to be. -/
def HeldStream.whereabouts (item : HeldStream (AuditedStream S)) : Whereabouts :=
  ⟨item.stream.number, item.source, item.block, item.itemPos⟩

/-- Where the stream is, if there is one. -/
def whereaboutsOf (held : Option (HeldStream (AuditedStream S))) : List Whereabouts :=
  (held.map HeldStream.whereabouts).toList

/-- The audit bears out where the stream is said to be.  The call of that number has opened a range
of the item of the run at that block, from the source kept for that block, and the stream has
delivered the bytes up to that place. -/
def Feed.Confirms (piece : Piece) (feed : Feed (AuditedWorld W) (AuditedSource H))
    (spot : Whereabouts) : Prop :=
  ∃ opening handle run, feed.world.openings[spot.number]? = some opening
    ∧ feed.handles[spot.block]? = some (some handle) ∧ opening.find = handle.find
    ∧ piece.blocks[spot.block]? = some (.run run) ∧ spot.source = run.source
    ∧ opening.source = run.source ∧ opening.path = run.item.path
    ∧ opening.reached = some spot.itemPos

/-- The sources kept for blocks are those of their runs, and no two blocks keep one.  `finds` is the
number of sources found. -/
structure AuditedSource.KeptApart (piece : Piece) (finds : Nat)
    (handles : List (Option (AuditedSource H))) : Prop where
  length_eq : handles.length = piece.blocks.length
  source_eq {block : Nat} {handle : AuditedSource H} {run : ItemRun} :
    handles[block]? = some (some handle) → piece.blocks[block]? = some (.run run) →
    handle.source = run.source
  find_lt {block : Nat} {handle : AuditedSource H} : handles[block]? = some (some handle) →
    handle.find < finds
  find_inj {block block' : Nat} {handle handle' : AuditedSource H} :
    handles[block]? = some (some handle) → handles[block']? = some (some handle') →
    handle.find = handle'.find → block = block'

/-- The streams opened are those given up with a note, those taken away without one, and others. -/
structure Feed.Tallies (piece : Piece) (persistent : Bool) (released lost others : List Whereabouts)
    (feed : Feed (AuditedWorld W) (AuditedSource H)) : Prop where
  releases_eq : feed.releases = released.map fun spot => (spot.block, spot.itemPos)
  failedSkips_eq : feed.failedSkips persistent = lost.map Whereabouts.source
  numbers_perm : ((released ++ lost ++ others).map Whereabouts.number).Perm feed.world.opened
  confirms : ∀ spot ∈ released ++ lost ++ others, feed.Confirms piece spot
  openings_eq : feed.openings = feed.world.openings.map Opening.event
  keptApart : AuditedSource.KeptApart piece feed.world.finds feed.handles

/-- All streams opened but the others are accounted for. -/
def Feed.Tallied (piece : Piece) (persistent : Bool) (others : List Whereabouts)
    (feed : Feed (AuditedWorld W) (AuditedSource H)) : Prop :=
  ∃ released lost, feed.Tallies piece persistent released lost others

/-- A source that has just been found is kept for the block of its run. -/
theorem AuditedSource.KeptApart.set {piece : Piece} {finds block : Nat} {run : ItemRun}
    {handles : List (Option (AuditedSource H))} {handle : H} (h : KeptApart piece finds handles)
    (hrun : piece.blocks[block]? = some (.run run)) :
  KeptApart piece (finds + 1) (handles.set block (some ⟨finds, run.source, handle⟩))
  := by
  -- What is kept for a block now is the new source, or it was kept before.
  have hkept {block' : Nat} {handle' : AuditedSource H}
      (h' : (handles.set block (some ⟨finds, run.source, handle⟩))[block']? = some (some handle')) :
      (block' = block ∧ handle' = ⟨finds, run.source, handle⟩)
        ∨ handles[block']? = some (some handle') := by
    rcases Decidable.eq_or_ne block block' with rfl | hne
    · obtain ⟨hlt, hget⟩ := List.getElem?_eq_some_iff.mp h'
      rw [List.getElem_set_self] at hget
      cases hget
      exact .inl ⟨rfl, rfl⟩
    · rw [List.getElem?_set_ne hne] at h'
      exact .inr h'
  constructor
  case length_eq =>
      rw [List.length_set]
      apply h.length_eq
  case source_eq =>
      intro block' handle' run' h' hrun'
      rcases hkept h' with ⟨rfl, rfl⟩ | h'
      · rw [hrun] at hrun'
        cases hrun'
        rfl
      · apply h.source_eq h' hrun'
  case find_lt =>
      intro block' handle' h'
      rcases hkept h' with ⟨rfl, rfl⟩ | h'
      · apply Nat.lt_succ_self
      · apply Nat.lt_succ_of_lt (h.find_lt h')
  case find_inj =>
      intro block' block'' handle' handle'' h' h'' heq
      rcases hkept h' with ⟨rfl, rfl⟩ | hbefore' <;> rcases hkept h'' with ⟨rfl, rfl⟩ | hbefore''
      · rfl
      · exact absurd heq.symm (Nat.ne_of_lt (h.find_lt hbefore''))
      · exact absurd heq (Nat.ne_of_lt (h.find_lt hbefore'))
      · apply h.find_inj hbefore' hbefore'' heq

/-- What is borne out stays so while the call is known and the source is kept. -/
theorem Feed.Confirms.mono {piece : Piece} {feed feed' : Feed (AuditedWorld W) (AuditedSource H)}
    {spot : Whereabouts} (h : feed.Confirms piece spot)
    (hopening : ∀ opening, feed.world.openings[spot.number]? = some opening →
      feed'.world.openings[spot.number]? = some opening)
    (hhandle : ∀ handle, feed.handles[spot.block]? = some (some handle) →
      feed'.handles[spot.block]? = some (some handle)) :
  feed'.Confirms piece spot
  := by
  obtain ⟨opening, handle, run, hget, hkept, hrest⟩ := h
  exact ⟨opening, handle, run, hopening _ hget, hhandle _ hkept, hrest⟩

namespace Feed.Tallied

variable {piece : Piece} {persistent : Bool} {others others' : List Whereabouts}
  {feed : Feed (AuditedWorld W) (AuditedSource H)} {item : HeldStream (AuditedStream S)}
  {spot : Whereabouts} {event : Event} {world : W}

/-- The order of the others does not matter. -/
theorem perm (h : feed.Tallied piece persistent others) (hperm : others.Perm others') :
  feed.Tallied piece persistent others'
  := by
  obtain ⟨released, lost, h⟩ := h
  have hall := hperm.append_left (released ++ lost)
  refine ⟨released, lost, h.releases_eq, h.failedSkips_eq, ?_, ?_, h.openings_eq, h.keptApart⟩
  · apply (hall.symm.map _).trans h.numbers_perm
  · intro spot hspot
    apply h.confirms spot (hall.mem_iff.mpr hspot)

/-- Events of other kinds do not matter. -/
theorem record (h : feed.Tallied piece persistent others) (hrelease : event.release? = none)
    (hskip : event.failedSkip? persistent = none) (hopening : event.isOpening = false) :
  (feed.record event).Tallied piece persistent others
  := by
  obtain ⟨released, lost, h⟩ := h
  refine ⟨released, lost, ?_, ?_, h.numbers_perm, h.confirms, ?_, h.keptApart⟩
  · rw [Feed.releases, Feed.record, List.filterMap_cons, hrelease]
    apply h.releases_eq
  · rw [Feed.failedSkips, Feed.record, List.filterMap_cons, hskip]
    apply h.failedSkips_eq
  · rw [Feed.openings_record_of_not hopening]
    apply h.openings_eq

/-- Notes of sources do not matter. -/
theorem notes {notes : List Note} (h : feed.Tallied piece persistent others)
    (hnotes : ∀ block itemPos, .releasing block itemPos ∉ notes) :
  (notes.foldl Feed.note feed).Tallied piece persistent others
  := by
  induction notes generalizing feed with
  | nil => apply h
  | cons note notes ih =>
      have hrelease : (Event.noted note).release? = none := by
        cases note with
        | releasing block itemPos => exact absurd List.mem_cons_self (hnotes block itemPos)
        | _ => rfl
      apply ih (h.record hrelease rfl rfl)
      intro block itemPos hmem
      apply hnotes block itemPos (List.mem_cons_of_mem _ hmem)

/-- A stream that is given up moves to those with a note. -/
theorem release (h : feed.Tallied piece persistent (item.whereabouts :: others)) :
  (feed.release item).Tallied piece persistent others
  := by
  obtain ⟨released, lost, h⟩ := h
  have hperm : (released ++ lost ++ item.whereabouts :: others).Perm
      (item.whereabouts :: released ++ lost ++ others) := List.perm_middle
  refine ⟨item.whereabouts :: released, lost, ?_, h.failedSkips_eq, ?_, ?_, ?_, h.keptApart⟩
  · rw [List.map_cons, ← h.releases_eq]
    rfl
  · apply (hperm.symm.map _).trans h.numbers_perm
  · intro spot hspot
    apply h.confirms spot (hperm.mem_iff.mpr hspot)
  · rw [Feed.openings_release]
    apply h.openings_eq

/-- A stream by which bytes could not be passed over is taken away without a note. -/
theorem lose (h : feed.Tallied piece persistent (spot :: others))
    (hskip : event.failedSkip? persistent = some spot.source) (hrelease : event.release? = none)
    (hopening : event.isOpening = false) :
  (feed.record event).Tallied piece persistent others
  := by
  obtain ⟨released, lost, h⟩ := h
  have hperm : (released ++ lost ++ spot :: others).Perm (released ++ spot :: lost ++ others) := by
    rw [List.append_assoc, List.append_assoc]
    apply List.perm_middle.append_left
  refine ⟨released, spot :: lost, ?_, ?_, ?_, ?_, ?_, h.keptApart⟩
  · rw [Feed.releases, Feed.record, List.filterMap_cons, hrelease]
    apply h.releases_eq
  · rw [Feed.failedSkips, Feed.record, List.filterMap_cons, hskip, List.map_cons,
      ← h.failedSkips_eq]
    rfl
  · apply (hperm.symm.map _).trans h.numbers_perm
  · intro spot' hspot'
    apply h.confirms spot' (hperm.mem_iff.mpr hspot')
  · rw [Feed.openings_record_of_not hopening]
    apply h.openings_eq

/-- A world that differs from the one before in what is not written down does not matter. -/
theorem inWorld (h : feed.Tallied piece persistent others) (world : W) :
  ({ feed with world := { feed.world with world := world } } : Feed _ _).Tallied piece persistent
    others
  := by
  obtain ⟨released, lost, h⟩ := h
  exact ⟨released, lost, h.releases_eq, h.failedSkips_eq, h.numbers_perm, h.confirms,
    h.openings_eq, h.keptApart⟩

/-- A source found for a block for which none was kept does not matter. -/
theorem find (h : feed.Tallied piece persistent others) {block : Nat} {run : ItemRun} {handle : H}
    (hnone : feed.handles[block]?.join = none) (hrun : piece.blocks[block]? = some (.run run)) :
  (⟨⟨world, feed.world.finds + 1, feed.world.openings⟩,
    feed.handles.set block (some ⟨feed.world.finds, run.source, handle⟩),
    feed.latest⟩ : Feed _ _).Tallied piece persistent others
  := by
  obtain ⟨released, lost, h⟩ := h
  refine ⟨released, lost, h.releases_eq, h.failedSkips_eq, h.numbers_perm, ?_, h.openings_eq,
    h.keptApart.set hrun⟩
  intro spot hspot
  refine (h.confirms spot hspot).mono (fun opening hget => hget) fun handle' hhandle => ?_
  dsimp only
  rw [List.getElem?_set_ne, hhandle]
  rintro rfl
  rw [hhandle] at hnone
  cases hnone

/-- A call to open a range brings the stream that it opens, if it opens one. -/
theorem opening (h : feed.Tallied piece persistent others) {opening : Opening}
    {spots : List Whereabouts} (hevent : opening.event = event)
    (hnumbers : spots.map Whereabouts.number
      = if opening.delivered.isSome then [feed.world.openings.length] else [])
    (hconfirms : ∀ spot ∈ spots, ({ feed with
      world := feed.world.afterOpening world opening } : Feed _ _).Confirms piece spot) :
  (({ feed with world := feed.world.afterOpening world opening } : Feed _ _).record event).Tallied
    piece persistent (spots ++ others)
  := by
  subst hevent
  obtain ⟨released, lost, h⟩ := h
  have hperm : (released ++ lost ++ others ++ spots).Perm
      (released ++ lost ++ (spots ++ others)) := by
    rw [List.append_assoc]
    apply List.perm_append_comm.append_left
  refine ⟨released, lost, h.releases_eq, h.failedSkips_eq, ?_, ?_, ?_, h.keptApart⟩
  · apply (hperm.symm.map _).trans
    rw [List.map_append, hnumbers]
    apply (h.numbers_perm.append_right _).trans
    rw [Feed.record, AuditedWorld.opened_afterOpening]
  · intro spot hspot
    rcases List.mem_append.mp (hperm.mem_iff.mpr hspot) with hbefore | hnew
    · refine (h.confirms spot hbefore).mono (fun opening' hget => ?_) fun handle hhandle => hhandle
      obtain ⟨hlt', -⟩ := List.getElem?_eq_some_iff.mp hget
      rw [← hget]
      apply List.getElem?_append_left hlt'
    · apply hconfirms spot hnew
  · have hopenings : feed.openings ++ [opening.event]
        = (feed.world.openings ++ [opening]).map Opening.event := by
      rw [List.map_append, h.openings_eq]
      rfl
    rw [Feed.openings_record]
    apply hopenings

/-- A stream that delivers bytes goes on by as many. -/
theorem deliver (h : feed.Tallied piece persistent (spot :: others)) (count : Nat) :
  ({ feed with world := feed.world.afterRead world spot.number count } : Feed _ _).Tallied piece
    persistent ({ spot with itemPos := spot.itemPos + count } :: others)
  := by
  obtain ⟨released, lost, h⟩ := h
  have hnumbers := (List.perm_middle.map Whereabouts.number).symm.trans h.numbers_perm
  have hnodup := hnumbers.nodup_iff.mpr AuditedWorld.nodup_opened
  refine ⟨released, lost, h.releases_eq, h.failedSkips_eq, ?_, ?_, ?_, h.keptApart⟩
  · rw [AuditedWorld.opened_afterRead]
    refine (List.perm_middle.map _).trans ?_
    exact hnumbers
  · intro spot' hspot'
    rcases List.mem_cons.mp (List.perm_middle.mem_iff.mp hspot') with rfl | hother
    · obtain ⟨opening, handle, run, hget, hkept, hfind, hrun, hspot, hsource, hpath, hreached⟩ :=
        h.confirms spot (List.perm_middle.mem_iff.mpr List.mem_cons_self)
      refine ⟨opening.deliver count, handle, run, ?_, hkept, hfind, hrun, hspot, hsource, hpath, ?_⟩
      · rw [AuditedWorld.afterRead, List.getElem?_modify_eq, hget]
        rfl
      · apply Opening.reached_deliver hreached
    · have hne : spot.number ≠ spot'.number := by
        rintro heq
        apply (List.nodup_cons.mp hnodup).1
        rw [heq]
        apply List.mem_map_of_mem hother
      have hmem := List.perm_middle.mem_iff.mpr (List.mem_cons_of_mem spot hother)
      refine (h.confirms spot' hmem).mono (fun opening hget => ?_) fun handle hhandle => hhandle
      rw [AuditedWorld.afterRead, List.getElem?_modify_ne _ _ hne, hget]
  · rw [AuditedWorld.events_afterRead]
    apply h.openings_eq

end Feed.Tallied

/-! ### Streams -/

namespace Supply

variable {supply : Supply W H S} {piece : Piece} {persistent : Bool} {others : List Whereabouts}
  {feed feed' : Feed (AuditedWorld W) (AuditedSource H)} {item item' : HeldStream (AuditedStream S)}
  {purpose : Purpose} {size : Nat} {outcome : Except IoError Bytes}

/-- One more question does not matter; the stream goes on by the bytes that it delivers. -/
theorem tallied_ask (h : feed.Tallied piece persistent (item.whereabouts :: others))
    (hask : supply.audited.ask purpose size item feed = (outcome, item', feed'))
    (hskip : (Event.asked item.source purpose size (outcome.map List.length)).failedSkip? persistent
      = none) :
  feed'.Tallied piece persistent
    (({ item' with itemPos := item'.itemPos + delivered outcome }).whereabouts :: others)
  := by
  cases hask
  apply (h.deliver _).record rfl hskip rfl

/-- A question that puts an end to passing over bytes takes the stream away. -/
theorem tallied_lose (h : feed.Tallied piece persistent (item.whereabouts :: others))
    (hask : supply.audited.ask purpose size item feed = (outcome, item', feed'))
    (hskip : (Event.asked item.source purpose size (outcome.map List.length)).failedSkip? persistent
      = some item.source) :
  (feed'.drop item').Tallied piece persistent others
  := by
  cases hask
  apply ((h.deliver _).lose hskip rfl rfl).record rfl rfl rfl

/-- Questions asked until there is no interruption do not matter. -/
theorem tallied_askUninterrupted (h : feed.Tallied piece persistent (item.whereabouts :: others))
    (size : Nat) :
  ∃ outcome item' feed', supply.audited.askUninterrupted size item feed = (outcome, item', feed')
    ∧ feed'.Tallied piece persistent
      (({ item' with itemPos := item'.itemPos + delivered outcome }).whereabouts :: others)
  := by
  induction item, feed using askUninterrupted.induct supply.audited size with
  | case1 item feed bytes item' feed' hask =>
      exact ⟨_, _, _, askUninterrupted_of_ok hask, tallied_ask h hask rfl⟩
  | case2 item feed e item' feed' hask he ih =>
      rw [askUninterrupted_of_interruption hask he]
      apply ih (tallied_ask h hask rfl)
  | case3 item feed e item' feed' hask he =>
      have he : e.isInterruption = false := Bool.not_eq_true _ ▸ he
      exact ⟨_, _, _, askUninterrupted_of_error hask he, tallied_ask h hask rfl⟩

/-- To pass over bytes does not matter, unless it fails and takes the stream away. -/
theorem PassesOver.tallied {gap : Nat} {span : PayloadRest}
    {passed : Except IoError Nat × HeldStream (AuditedStream S)
      × Feed (AuditedWorld W) (AuditedSource H)}
    (hpassed : supply.audited.PassesOver persistent gap item feed passed)
    (h : feed.Tallied piece persistent (item.whereabouts :: others)) :
  (Setting.concludeSkip span passed).2.Tallied piece persistent
    (whereaboutsOf (Setting.concludeSkip span passed).1.toOption ++ others)
  := by
  induction hpassed with
  | done => apply h
  | lacking hgap hask =>
      obtain ⟨lacking, rfl⟩ := Nat.exists_eq_succ_of_ne_zero (Nat.ne_of_gt hgap)
      apply tallied_lose h hask rfl
  | @further gap item item' feed feed' bytes passed hgap hne hask _ ih =>
      apply ih (tallied_ask h hask _)
      rw [Except.map, Event.failedSkip?, if_neg (mt List.length_eq_zero_iff.mp hne)]
  | interrupted hgap hask hpersistent he _ ih =>
      apply ih (tallied_ask h hask _)
      rw [Except.map, Event.failedSkip?, if_pos ⟨hpersistent, he⟩]
  | failed hgap hask he =>
      apply tallied_lose h hask
      rw [Except.map, Event.failedSkip?, if_neg]
      rintro ⟨hpersistent, hinterruption⟩
      cases (he hpersistent).symm.trans hinterruption

end Supply

/-! ### Settings -/

namespace Setting

variable {setting : Setting W H S} {persistent : Bool} {others : List Whereabouts}
  {feed : Feed (AuditedWorld W) (AuditedSource H)} {span : PayloadRest}

/-- To look for a source does not matter; one that is found is kept for the block. -/
theorem tallied_sourceFor (h : feed.Tallied setting.piece persistent others)
    (hrun : setting.piece.blocks[span.block]? = some (.run span.run)) :
  ∃ outcome feed', setting.audited.sourceFor span feed = (outcome, feed')
    ∧ feed'.Tallied setting.piece persistent others
    ∧ ∀ handle, outcome = .ok handle → feed'.handles[span.block]? = some (some handle)
  := by
  have hlt : span.block < feed.handles.length := by
    obtain ⟨released, lost, h⟩ := h
    rw [h.keptApart.length_eq]
    apply (List.getElem?_eq_some_iff.mp hrun).1
  rw [sourceFor]
  cases hkept : feed.handles[span.block]?.join with
  | some handle =>
      refine ⟨_, _, rfl, h, ?_⟩
      rintro _ ⟨⟩
      apply Option.join_eq_some_iff.mp hkept
  | none =>
      simp only [audited, supply_drawingFrom, Supply.audited]
      rcases setting.supply.resolve span.run.source feed.world.world with ⟨e | handle, world⟩
      · exact ⟨_, _, rfl, (h.inWorld world).record rfl rfl rfl, by rintro _ ⟨⟩⟩
      · refine ⟨_, _, rfl, (h.find hkept hrun).record rfl rfl rfl, ?_⟩
        rintro _ ⟨⟩
        apply List.getElem?_set_self hlt

/-- A stream that is opened for a run is one more stream. -/
theorem tallied_openFrom (hdiscreet : setting.supply.Discreet)
    (h : feed.Tallied setting.piece persistent others)
    (hrun : setting.piece.blocks[span.block]? = some (.run span.run)) {handle : AuditedSource H}
    (hkept : feed.handles[span.block]? = some (some handle)) :
  let opened := setting.audited.openFrom handle span (setting.audited.announce span feed)
  opened.2.Tallied setting.piece persistent (whereaboutsOf opened.1.toOption ++ others)
  := by
  intro opened
  have hsource : handle.source = span.run.source := by
    obtain ⟨released, lost, h⟩ := h
    apply h.keptApart.source_eq hkept hrun
  have hdiscreet := hdiscreet handle.handle span.path span.itemOffset
    (setting.audited.lengthFor span) feed.world.world
  have hnoted : (feed.note (.opening setting.manner span.run.source span.path span.itemOffset
      (setting.audited.lengthFor span))).Tallied setting.piece persistent others :=
    h.record rfl rfl rfl
  rcases hopen : setting.supply.openRange handle.handle span.path span.itemOffset
    (setting.audited.lengthFor span) feed.world.world with ⟨outcome, notes, world⟩
  rw [hopen] at hdiscreet
  have hevent : (handle.opening span.path span.itemOffset (setting.audited.lengthFor span)
      outcome).event = .opened span.run.source span.itemOffset (setting.audited.lengthFor span)
        span.path := by
    rw [← hsource]
    rfl
  have haudited := Supply.openRange_audited (w := (setting.audited.announce span feed).world) hopen
  simp only [opened, openFrom, supply_audited, haudited, conclude_snd]
  apply Feed.Tallied.notes _ hdiscreet
  cases outcome with
  | error e =>
      have hnone : ([] : List Whereabouts).map Whereabouts.number = [] := rfl
      exact hnoted.opening hevent hnone (List.forall_mem_nil _)
  | ok stream =>
      refine hnoted.opening hevent rfl fun spot hspot => ?_
      cases List.mem_singleton.mp hspot
      exact ⟨_, handle, span.run, List.getElem?_concat_length, hkept, rfl, hrun, rfl, hsource, rfl,
        rfl⟩

/-- A stream that is opened for a run, if there is a source, is one more stream. -/
theorem tallied_openFor (hdiscreet : setting.supply.Discreet)
    (h : feed.Tallied setting.piece persistent others)
    (hrun : setting.piece.blocks[span.block]? = some (.run span.run)) :
  let opened := setting.audited.openFor span feed
  opened.2.Tallied setting.piece persistent (whereaboutsOf opened.1.toOption ++ others)
  := by
  obtain ⟨outcome, feed', hfound, h', hkept⟩ := tallied_sourceFor h hrun
  rw [openFor, hfound]
  cases outcome with
  | error e => apply h'
  | ok handle => apply tallied_openFrom hdiscreet h' hrun (hkept handle rfl)

/-- A stream that is brought to the bytes wanted takes the place of the one held. -/
theorem Acquires.tallied {held : Option (HeldStream (AuditedStream S))}
    {acquired : Except ReadError (HeldStream (AuditedStream S))
      × Feed (AuditedWorld W) (AuditedSource H)}
    (hacquired : setting.audited.Acquires persistent held span feed acquired)
    (hdiscreet : setting.supply.Discreet)
    (h : feed.Tallied setting.piece persistent (whereaboutsOf held ++ others))
    (hrun : setting.piece.blocks[span.block]? = some (.run span.run)) :
  acquired.2.Tallied setting.piece persistent (whereaboutsOf acquired.1.toOption ++ others)
  := by
  rw [← Approach.held_toward held span] at h
  cases hacquired with
  | ready happroach =>
      rw [happroach] at h
      apply h
  | skip happroach hpassed =>
      rw [happroach] at h
      apply hpassed.tallied (h.record rfl rfl rfl)
  | reopen happroach =>
      rw [happroach] at h
      apply tallied_openFor hdiscreet (Feed.Tallied.release h) hrun
  | fresh happroach =>
      rw [happroach] at h
      apply tallied_openFor hdiscreet h hrun

/-- Payload bytes are taken from the stream that is held then. -/
theorem tallied_askFor (span : PayloadRest) (room : Nat)
    {acquired : Except ReadError (HeldStream (AuditedStream S))
      × Feed (AuditedWorld W) (AuditedSource H)}
    (h : acquired.2.Tallied setting.piece persistent
      (whereaboutsOf acquired.1.toOption ++ others)) :
  (setting.audited.askFor span room acquired).2.2.Tallied setting.piece persistent
    (whereaboutsOf (setting.audited.askFor span room acquired).2.1 ++ others)
  := by
  obtain ⟨_ | item, feed⟩ := acquired
  · apply h
  · obtain ⟨outcome, item', feed', hask, h'⟩ :=
      Supply.tallied_askUninterrupted h (min span.remaining room)
    rw [askFor, supply_audited, hask]
    rcases outcome with e | _ | ⟨b, bs⟩
    · apply h'
    · apply h'
    · apply h'

end Setting

/-! ### Readers -/

namespace Reader

variable {setting : Setting W H S} {persistent : Bool} {others : List Whereabouts}
  {reader : Reader (AuditedStream S)} {feed : Feed (AuditedWorld W) (AuditedSource H)}

theorem tallied_release
    (h : feed.Tallied setting.piece persistent (whereaboutsOf reader.held ++ others)) :
  (reader.release feed).2.Tallied setting.piece persistent
    (whereaboutsOf (reader.release feed).1.held ++ others)
  := by
  obtain ⟨cursor, held, poisoned⟩ := reader
  cases held with
  | none => apply h
  | some item => apply Feed.Tallied.release h

theorem tallied_advance (n : Nat)
    (h : feed.Tallied setting.piece persistent (whereaboutsOf reader.held ++ others)) :
  (reader.advance setting.audited n feed).2.Tallied setting.piece persistent
    (whereaboutsOf (reader.advance setting.audited n feed).1.held ++ others)
  := by
  rw [advance]
  rcases reader.cursor.advance setting.audited.piece n with ⟨cursor, _ | _⟩
  · apply h
  · have h : feed.Tallied setting.piece persistent
        (whereaboutsOf ({ reader with cursor := cursor } : Reader _).held ++ others) := h
    apply tallied_release h

/-- Bytes that are handed out do not matter, nor does a failure to get them. -/
theorem tallied_takeAfter {filled : Bytes} {room : Nat} {span : PayloadRest}
    {acquired : Except ReadError (HeldStream (AuditedStream S))
      × Feed (AuditedWorld W) (AuditedSource H)}
    (h : acquired.2.Tallied setting.piece persistent
      (whereaboutsOf acquired.1.toOption ++ others)) :
  (reader.takeAfter setting.audited filled room span acquired).2.2.Tallied setting.piece persistent
    (whereaboutsOf (reader.takeAfter setting.audited filled room span acquired).2.1.held ++ others)
  := by
  have hasked := Setting.tallied_askFor span room h
  rw [takeAfter]
  generalize setting.audited.askFor span room acquired = asked at hasked ⊢
  obtain ⟨_ | bytes, held, feed⟩ := asked
  · apply hasked
  · have hasked : feed.Tallied setting.piece persistent
        (whereaboutsOf ({ reader with held := held } : Reader _).held ++ others) := hasked
    apply tallied_advance bytes.length hasked

/-- A failure of a read does not matter. -/
theorem tallied_poisonOnError {outcome : Except ReadError Bytes}
    (h : feed.Tallied setting.piece persistent (whereaboutsOf reader.held ++ others)) :
  let failed := poisonOnError setting.audited (outcome, reader, feed)
  failed.2.2.Tallied setting.piece persistent (whereaboutsOf failed.2.1.held ++ others)
  := by
  cases outcome with
  | ok bytes => apply h
  | error e => apply tallied_release (h.record rfl rfl rfl)

/-- However readers read, reading does not matter. -/
theorem ReadsByFilling.tallied
    {read : Nat → Reader (AuditedStream S) → Feed (AuditedWorld W) (AuditedSource H) →
      Except ReadError Bytes × Reader (AuditedStream S) ×
        Feed (AuditedWorld W) (AuditedSource H)}
    (hreads : ReadsByFilling setting.audited persistent read)
    (hdiscreet : setting.supply.Discreet) (size : Nat)
    (h : feed.Tallied setting.piece persistent (whereaboutsOf reader.held ++ others)) :
  (read size reader feed).2.2.Tallied setting.piece persistent
    (whereaboutsOf (read size reader feed).2.1.held ++ others)
  := by
  obtain ⟨fill, hfill, hread⟩ := hreads
  let tallied : Reader (AuditedStream S) → Feed (AuditedWorld W) (AuditedSource H) → Prop :=
    fun reader feed =>
      feed.Tallied setting.piece persistent (whereaboutsOf reader.held ++ others)
  have hfilled : tallied (fill [] size reader feed).2.1 (fill [] size reader feed).2.2 := by
    apply hfill.toFills.preserves (P := tallied) _ _ [] size h
    · intro reader feed n h
      apply tallied_advance n h
    · intro filled room reader feed span hroom hseg h
      obtain ⟨acquired, hacquired, hfill⟩ := hfill.payload hroom hseg
      rw [hfill]
      apply tallied_takeAfter
      apply hacquired.tallied hdiscreet h (Cursor.run_of_segment hseg)
  rw [hread]
  split
  · apply h
  · apply tallied_poisonOnError hfilled

/-- Readers that are audited read by filling a buffer. -/
theorem ReadsAudited.readsByFilling
    {read : Nat → Reader S → Feed W H → Except ReadError Bytes × Reader S × Feed W H}
    {read' : Nat → Reader (AuditedStream S) → Feed (AuditedWorld W) (AuditedSource H) →
      Except ReadError Bytes × Reader (AuditedStream S) ×
        Feed (AuditedWorld W) (AuditedSource H)}
    (h : ReadsAudited setting persistent read read') :
  ReadsByFilling setting.audited persistent read'
  := by
  cases h with
  | atOnce => apply readsByFilling_read
  | byTasks setting =>
      rw [← SuspendingSetting.waiting_audited]
      apply readsByFilling_readByTask

theorem tallied_moveTo (offset : Nat)
    (h : feed.Tallied setting.piece persistent (whereaboutsOf reader.held ++ others)) :
  (reader.moveTo setting.audited offset feed).2.2.Tallied setting.piece persistent
    (whereaboutsOf (reader.moveTo setting.audited offset feed).2.1.held ++ others)
  := by
  rw [moveTo]
  split
  · apply h
  · have hnoted : ((reader.release feed).2.note (.repositioned setting.manner offset)).Tallied
        setting.piece persistent (whereaboutsOf (reader.release feed).1.held ++ others) :=
      (tallied_release h).record rfl rfl rfl
    apply hnoted

theorem tallied_seek (target : SeekTarget)
    (h : feed.Tallied setting.piece persistent (whereaboutsOf reader.held ++ others)) :
  (reader.seek setting.audited target feed).2.2.Tallied setting.piece persistent
    (whereaboutsOf (reader.seek setting.audited target feed).2.1.held ++ others)
  := by
  rcases seek_cases setting.audited target reader feed with heq | heq
  · rw [heq]
    apply h
  · rw [heq]
    apply tallied_moveTo _ h

end Reader

end PieceStream
