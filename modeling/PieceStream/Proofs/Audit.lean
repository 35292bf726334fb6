import PieceStream.Proofs.Observation
import PieceStream.Proofs.TaskLikeness

/-!
# Audits

A supply can be audited: every call to open a range is written down in its turn, with the source
that was asked and, if a stream was opened, with the number of bytes that the stream has delivered
up to now.  The sources found are numbered, and a stream knows the number of the call that opened
it.  Readers do the same whether or not their supply is audited, be it asked once for every answer
or polled until there is one.
-/

namespace PieceStream

variable {W H S : Type}

/-- A call to open a range: the source asked, the number under which it was found, the range, and
how many bytes the stream has delivered, if one was opened. -/
structure Opening where
  find : Nat
  source : SourceId
  path : String
  offset : Nat
  length : Nat
  delivered : Option Nat
  deriving DecidableEq, Repr

/-- A world, the number of sources found so far, and the calls to open ranges so far, in order. -/
structure AuditedWorld (W : Type) where
  world : W
  finds : Nat
  openings : List Opening

/-- A source found, and how many were found before it. -/
structure AuditedSource (H : Type) where
  find : Nat
  source : SourceId
  handle : H

/-- A stream, and the number of the call that opened it. -/
structure AuditedStream (S : Type) where
  number : Nat
  stream : S

namespace Opening

/-- The call as readers record it. -/
def event (opening : Opening) : Event :=
  .opened opening.source opening.offset opening.length opening.path

/-- The place in the item up to which the stream has delivered bytes, if one was opened. -/
def reached (opening : Opening) : Option Nat := opening.delivered.map (opening.offset + ·)

/-- The call after the stream has delivered more bytes. -/
def deliver (count : Nat) (opening : Opening) : Opening :=
  { opening with delivered := opening.delivered.map (· + count) }

/-- A stream that delivers more bytes goes on by as many. -/
theorem reached_deliver {opening : Opening} {place count : Nat}
    (h : opening.reached = some place) :
  (opening.deliver count).reached = some (place + count)
  := by
  obtain ⟨find, source, path, offset, length, _ | delivered⟩ := opening
  · cases h
  · cases h
    rw [Nat.add_assoc]
    rfl

end Opening

/-- A call to open a range, given what came of it. -/
def AuditedSource.opening (handle : AuditedSource H) (path : String) (offset length : Nat)
    (outcome : Except SourceError S) : Opening :=
  ⟨handle.find, handle.source, path, offset, length, outcome.toOption.map fun _ => 0⟩

namespace AuditedWorld

variable (w : AuditedWorld W) (world : W)

/-- The world after one more call to open a range. -/
def afterOpening (opening : Opening) : AuditedWorld W :=
  ⟨world, w.finds, w.openings ++ [opening]⟩

/-- The world after a stream has delivered more bytes. -/
def afterRead (number count : Nat) : AuditedWorld W :=
  ⟨world, w.finds, w.openings.modify number (Opening.deliver count)⟩

/-- The numbers of the calls that have opened a stream. -/
def opened : List Nat :=
  (List.range w.openings.length).filter fun number =>
    (w.openings[number]?.bind Opening.delivered).isSome

variable {w world}

/-- No number is that of two calls. -/
theorem nodup_opened :
  w.opened.Nodup
  := List.nodup_range.filter _

/-- A call has the next number. -/
theorem opened_afterOpening {opening : Opening} :
  (w.afterOpening world opening).opened
    = w.opened ++ if opening.delivered.isSome then [w.openings.length] else []
  := by
  rw [opened, opened, afterOpening, List.length_append, List.length_singleton, List.range_succ,
    List.filter_append]
  congr 1
  · apply List.filter_congr
    intro number hnumber
    rw [List.getElem?_append_left (List.mem_range.mp hnumber)]
  · rw [List.filter_singleton, List.getElem?_concat_length, Option.bind_some, Bool.cond_eq_ite]

/-- What a stream delivers does not change which calls have opened one. -/
theorem opened_afterRead {number count : Nat} :
  (w.afterRead world number count).opened = w.opened
  := by
  rw [opened, opened, afterRead, List.length_modify]
  apply List.filter_congr
  intro other _
  rcases Decidable.eq_or_ne number other with rfl | hne
  · dsimp only
    rw [List.getElem?_modify_eq]
    rcases w.openings[number]? with _ | ⟨find, source, path, offset, length, _ | delivered⟩ <;> rfl
  · dsimp only
    rw [List.getElem?_modify_ne _ _ hne]

/-- What a stream delivers does not change what readers have recorded. -/
theorem events_afterRead {number count : Nat} :
  (w.afterRead world number count).openings.map Opening.event = w.openings.map Opening.event
  := by
  apply List.ext_getElem?
  intro other
  rw [List.getElem?_map, List.getElem?_map, afterRead]
  dsimp only
  rw [List.getElem?_modify]
  rcases w.openings[other]? with _ | opening
  · rfl
  · split <;> rfl

end AuditedWorld

/-- The supply with an audit. -/
def Supply.audited (supply : Supply W H S) :
    Supply (AuditedWorld W) (AuditedSource H) (AuditedStream S) where
  resolve source w :=
    match supply.resolve source w.world with
    | (.ok handle, world) => (.ok ⟨w.finds, source, handle⟩, ⟨world, w.finds + 1, w.openings⟩)
    | (.error e, world) => (.error e, { w with world := world })
  openRange handle path offset length w :=
    let (outcome, notes, world) := supply.openRange handle.handle path offset length w.world
    (outcome.map (⟨w.openings.length, ·⟩), notes,
      w.afterOpening world (handle.opening path offset length outcome))
  read s n w :=
    let (outcome, stream, world) := supply.read s.stream n w.world
    (outcome, ⟨s.number, stream⟩, w.afterRead world s.number (delivered outcome))
  patience s w := supply.patience s.stream w.world
  length_le_of_read h := supply.length_le_of_read h
  patience_lt_of_interruption h he := supply.patience_lt_of_interruption h he

/-- A call to open a range is answered as without the audit, and written down. -/
theorem Supply.openRange_audited {supply : Supply W H S} {handle : AuditedSource H} {path : String}
    {offset length : Nat} {w : AuditedWorld W} {outcome : Except SourceError S} {notes : List Note}
    {world : W}
    (h : supply.openRange handle.handle path offset length w.world = (outcome, notes, world)) :
  supply.audited.openRange handle path offset length w
    = (outcome.map (⟨w.openings.length, ·⟩), notes,
        w.afterOpening world (handle.opening path offset length outcome))
  := by
  simp only [audited, h]

namespace PolledSupply

variable (supply : PolledSupply W H S)

/-- Opens a range and writes the call down when it is answered. -/
def openAudited (handle : AuditedSource H) (path : String) (offset length : Nat)
    (w : AuditedWorld W) :
    Poll (Except SourceError (AuditedStream S) × List Note) × AuditedWorld W :=
  match supply.openRange handle.handle path offset length w.world with
  | (.pending, world) => (.pending, { w with world := world })
  | (.ready (outcome, notes), world) =>
    (.ready (outcome.map (⟨w.openings.length, ·⟩), notes),
      w.afterOpening world (handle.opening path offset length outcome))

/-- Asks a stream and writes down how many bytes it delivers when it answers. -/
def readAudited (s : AuditedStream S) (n : Nat) (w : AuditedWorld W) :
    Poll (Except IoError Bytes) × AuditedStream S × AuditedWorld W :=
  match supply.read s.stream n w.world with
  | (.pending, stream, world) => (.pending, ⟨s.number, stream⟩, { w with world := world })
  | (.ready outcome, stream, world) =>
    (.ready outcome, ⟨s.number, stream⟩, w.afterRead world s.number (Supply.delivered outcome))

variable {supply} {s : AuditedStream S} {n : Nat} {w : AuditedWorld W}

theorem openAudited_of_pending {handle : AuditedSource H} {path : String} {offset length : Nat}
    {world : W}
    (h : supply.openRange handle.handle path offset length w.world = (.pending, world)) :
  supply.openAudited handle path offset length w = (.pending, { w with world := world })
  := by
  rw [openAudited, h]

theorem openAudited_of_ready {handle : AuditedSource H} {path : String} {offset length : Nat}
    {world : W} {outcome : Except SourceError S} {notes : List Note}
    (h : supply.openRange handle.handle path offset length w.world
      = (.ready (outcome, notes), world)) :
  supply.openAudited handle path offset length w
    = (.ready (outcome.map (⟨w.openings.length, ·⟩), notes),
        w.afterOpening world (handle.opening path offset length outcome))
  := by
  rw [openAudited, h]

theorem readAudited_of_pending {stream : S} {world : W}
    (h : supply.read s.stream n w.world = (.pending, stream, world)) :
  supply.readAudited s n w = (.pending, ⟨s.number, stream⟩, { w with world := world })
  := by
  rw [readAudited, h]

theorem readAudited_of_ready {outcome : Except IoError Bytes} {stream : S} {world : W}
    (h : supply.read s.stream n w.world = (.ready outcome, stream, world)) :
  supply.readAudited s n w
    = (.ready outcome, ⟨s.number, stream⟩,
        w.afterRead world s.number (Supply.delivered outcome))
  := by
  rw [readAudited, h]

variable (supply) in
/-- The supply to be polled, with an audit. -/
def audited : PolledSupply (AuditedWorld W) (AuditedSource H) (AuditedStream S) where
  resolve source w :=
    match supply.resolve source w.world with
    | (.ok handle, world) => (.ok ⟨w.finds, source, handle⟩, ⟨world, w.finds + 1, w.openings⟩)
    | (.error e, world) => (.error e, { w with world := world })
  openRange := supply.openAudited
  read := supply.readAudited
  delay handle path offset length w := supply.delay handle.handle path offset length w.world
  patience s w := supply.patience s.stream w.world
  length_le_of_read {s n w bs} h := by
    rcases hread : supply.read s.stream n w.world with ⟨_ | outcome, stream, world⟩
    · rw [readAudited_of_pending hread] at h
      cases h
    · rw [readAudited_of_ready hread] at h
      cases h
      apply supply.length_le_of_read (congrArg (·.1) hread)
  delay_lt_of_pending {handle path offset length w} h := by
    rcases hopen : supply.openRange handle.handle path offset length w.world
      with ⟨_ | ⟨outcome, notes⟩, world⟩
    · have hlt := supply.delay_lt_of_pending (congrArg (·.1) hopen)
      rw [openAudited_of_pending hopen]
      rw [hopen] at hlt
      apply hlt
    · rw [openAudited_of_ready hopen] at h
      cases h
  patience_lt_of_pending {s n w} h := by
    rcases hread : supply.read s.stream n w.world with ⟨_ | outcome, stream, world⟩
    · have hlt := supply.patience_lt_of_pending (congrArg (·.1) hread)
      rw [readAudited_of_pending hread]
      rw [hread] at hlt
      apply hlt
    · rw [readAudited_of_ready hread] at h
      cases h
  patience_lt_of_interruption {s n w e} h he := by
    rcases hread : supply.read s.stream n w.world with ⟨_ | outcome, stream, world⟩
    · rw [readAudited_of_pending hread] at h
      cases h
    · rw [readAudited_of_ready hread] at h ⊢
      cases h
      have hlt := supply.patience_lt_of_interruption (congrArg (·.1) hread) he
      rw [hread] at hlt
      apply hlt

/-- A range waited for is the same, and the call is written down once. -/
theorem awaitOpen_audited (handle : AuditedSource H) (path : String) (offset length : Nat)
    (w : AuditedWorld W) :
  supply.audited.awaitOpen handle path offset length w
    = supply.awaited.audited.openRange handle path offset length w
  := by
  induction hd : supply.delay handle.handle path offset length w.world using Nat.strongRecOn
    generalizing w with
  | ind d ih =>
      subst hd
      rcases hopen : supply.openRange handle.handle path offset length w.world
        with ⟨_ | ⟨outcome, notes⟩, world⟩
      · have hlt := supply.delay_lt_of_pending (congrArg (·.1) hopen)
        rw [hopen] at hlt
        have haudited : supply.audited.openRange handle path offset length w = _ :=
          openAudited_of_pending hopen
        rw [awaitOpen_of_pending haudited, ih _ hlt { w with world := world } rfl]
        simp only [Supply.audited, awaited, awaitOpen_of_pending hopen]
        rfl
      · have haudited : supply.audited.openRange handle path offset length w = _ :=
          openAudited_of_ready hopen
        rw [awaitOpen_of_ready haudited]
        simp only [Supply.audited, awaited, awaitOpen_of_ready hopen]

/-- A stream waited for answers the same, and what it delivers is written down once. -/
theorem awaitRead_audited (s : AuditedStream S) (n : Nat) (w : AuditedWorld W) :
  supply.audited.awaitRead s n w = supply.awaited.audited.read s n w
  := by
  induction hp : supply.patience s.stream w.world using Nat.strongRecOn generalizing s w with
  | ind p ih =>
      subst hp
      rcases hread : supply.read s.stream n w.world with ⟨_ | outcome, stream, world⟩
      · have hlt := supply.patience_lt_of_pending (congrArg (·.1) hread)
        rw [hread] at hlt
        have haudited : supply.audited.read s n w = _ := readAudited_of_pending hread
        rw [awaitRead_of_pending haudited,
          ih _ hlt ⟨s.number, stream⟩ { w with world := world } rfl]
        simp only [Supply.audited, awaited, awaitRead_of_pending hread]
        rfl
      · have haudited : supply.audited.read s n w = _ := readAudited_of_ready hread
        rw [awaitRead_of_ready haudited]
        simp only [Supply.audited, awaited, awaitRead_of_ready hread]

/-- To wait for a supply with an audit is to audit the supply that is waited for. -/
theorem awaited_audited :
  supply.audited.awaited = supply.awaited.audited
  := by
  apply Supply.ext
  case resolve => rfl
  case openRange =>
      funext handle path offset length w
      apply awaitOpen_audited
  case read =>
      funext s n w
      apply awaitRead_audited
  case patience => rfl

end PolledSupply

/-! ### Settings -/

/-- The setting with its supply audited. -/
def Setting.audited (setting : Setting W H S) :
    Setting (AuditedWorld W) (AuditedSource H) (AuditedStream S) :=
  setting.drawingFrom setting.supply.audited

@[simp]
theorem Setting.supply_audited {setting : Setting W H S} :
  setting.audited.supply = setting.supply.audited
  := rfl

/-- The setting with its supply audited. -/
def SuspendingSetting.audited (setting : SuspendingSetting W H S) :
    SuspendingSetting (AuditedWorld W) (AuditedSource H) (AuditedStream S) :=
  ⟨setting.supply.audited, setting.piece, setting.options, setting.persistent⟩

/-- Readers that wait for a supply with an audit draw from the supply waited for, with an audit. -/
theorem SuspendingSetting.waiting_audited {setting : SuspendingSetting W H S} {manner : Manner} :
  setting.audited.waiting manner = (setting.waiting manner).audited
  := by
  rw [Setting.audited, waiting, audited, PolledSupply.awaited_audited]
  rfl

/-- The feed without the audit. -/
def Feed.unaudited (feed : Feed (AuditedWorld W) (AuditedSource H)) : Feed W H :=
  ⟨feed.world.world, feed.handles.map (Option.map AuditedSource.handle), feed.latest⟩

/-- What is held without the audit. -/
def HeldStream.unaudited (item : HeldStream (AuditedStream S)) : HeldStream S :=
  item.map AuditedStream.stream

section

variable {setting : Setting W H S} {feed : Feed (AuditedWorld W) (AuditedSource H)}
  {item : HeldStream (AuditedStream S)} {span : PayloadRest}

theorem Feed.unaudited_notes {notes : List Note} :
  (notes.foldl Feed.note feed).unaudited = notes.foldl Feed.note feed.unaudited
  := by
  induction notes generalizing feed with
  | nil => rfl
  | cons note notes ih => apply ih

/-- Sources are found alike. -/
theorem Setting.sourceFor_unaudited :
  setting.sourceFor span feed.unaudited
    = ((setting.audited.sourceFor span feed).1.map AuditedSource.handle,
        (setting.audited.sourceFor span feed).2.unaudited)
  := by
  have hfound : feed.unaudited.handles[span.block]?.join
      = feed.handles[span.block]?.join.map AuditedSource.handle := by
    rw [Feed.unaudited, List.getElem?_map]
    rcases feed.handles[span.block]? with _ | _ | handle <;> rfl
  have hworld : feed.unaudited.world = feed.world.world := rfl
  rw [sourceFor, sourceFor]
  rw [hfound, hworld]
  cases feed.handles[span.block]?.join with
  | some handle => rfl
  | none =>
      rcases hresolve : setting.supply.resolve span.run.source feed.world.world
        with ⟨e | handle, world⟩
      · simp only [audited, supply_drawingFrom, Supply.audited, hresolve, Option.map_none]
        rfl
      · simp only [audited, supply_drawingFrom, Supply.audited, hresolve, Option.map_none,
          Feed.unaudited, Feed.record, List.map_set]
        rfl

/-- Ranges are opened alike. -/
theorem Setting.openFor_unaudited :
  setting.openFor span feed.unaudited
    = ((setting.audited.openFor span feed).1.map HeldStream.unaudited,
        (setting.audited.openFor span feed).2.unaudited)
  := by
  rw [openFor, openFor]
  rw [sourceFor_unaudited]
  rcases setting.audited.sourceFor span feed with ⟨e | handle, feed'⟩
  · rfl
  · have hworld : (setting.announce span feed'.unaudited).world
        = (setting.audited.announce span feed').world.world := rfl
    have hlength : setting.audited.lengthFor span = setting.lengthFor span := rfl
    dsimp only [Except.map]
    rw [openFrom, openFrom]
    rw [hworld, hlength]
    rcases hopen : setting.supply.openRange handle.handle span.path span.itemOffset
      (setting.lengthFor span) (setting.audited.announce span feed').world.world
      with ⟨e | stream, notes, world⟩
    · simp only [audited, supply_drawingFrom, Supply.audited, Except.map] at hopen ⊢
      simp only [hopen, conclude, Feed.unaudited_notes]
      rfl
    · simp only [audited, supply_drawingFrom, Supply.audited, Except.map] at hopen ⊢
      simp only [hopen, conclude, Feed.unaudited_notes]
      rfl

/-- Streams are asked alike. -/
theorem Supply.ask_unaudited {supply : Supply W H S} {purpose : Purpose} {size : Nat} :
  supply.ask purpose size item.unaudited feed.unaudited
    = ((supply.audited.ask purpose size item feed).1,
        (supply.audited.ask purpose size item feed).2.1.unaudited,
        (supply.audited.ask purpose size item feed).2.2.unaudited)
  := rfl

end

/-- Readers are alike whether or not their supply is audited. -/
def Setting.auditLikeness {setting : Setting W H S}
    {double : Supply (AuditedWorld W) (AuditedSource H) (AuditedStream S)}
    (hdouble : double = setting.supply.audited) :
    (setting.drawingFrom double).Likeness setting where
  piece_eq := Setting.piece_drawingFrom.symm
  manner_eq := Setting.manner_drawingFrom.symm
  Feeds f g := g = f.unaudited
  Streams _ item other := other = item.unaudited
  note n h := h ▸ rfl
  drop {f g pos item other} h hstreams := by
    rw [h, hstreams]
    rfl
  place_eq hstreams := by
    rw [hstreams]
    exact ⟨rfl, rfl⟩
  forward hstreams _ _ := hstreams
  openFor {pos span f g} hspan h := by
    subst hdouble h
    have hplain : setting.openFor span f.unaudited = _ := Setting.openFor_unaudited
    rcases hopen : setting.audited.openFor span f with ⟨outcome, f'⟩
    rw [hopen] at hplain
    refine ⟨outcome, _, f', _, hopen, hplain, ?_, rfl⟩
    cases outcome with
    | error e => apply SameOutcome.error
    | ok item => exact .ok rfl
  ask {pos size span item other f g} purpose hspan hstreams hblock hsize h := by
    subst hdouble h hstreams
    have hplain : setting.supply.ask purpose size item.unaudited f.unaudited = _ :=
      Supply.ask_unaudited
    rcases hask : setting.supply.audited.ask purpose size item f with ⟨outcome, next, f'⟩
    rw [hask] at hplain
    refine ⟨outcome, next, _, f', _, hask, hplain, ?_, rfl⟩
    cases outcome <;> rfl

/-! ### Families -/

/-- The ways in which the readers of a setting read, and the same ways where its supply is audited.
It is also told whether passing over bytes goes on after an interruption. -/
inductive Reader.ReadsAudited : Setting W H S → Bool →
    (Nat → Reader S → Feed W H → Except ReadError Bytes × Reader S × Feed W H) →
    (Nat → Reader (AuditedStream S) → Feed (AuditedWorld W) (AuditedSource H) →
      Except ReadError Bytes × Reader (AuditedStream S) ×
        Feed (AuditedWorld W) (AuditedSource H)) → Prop
  | atOnce (setting : Setting W H S) :
      ReadsAudited setting true (fun size reader feed => reader.read setting size feed)
        fun size reader feed => reader.read setting.audited size feed
  | byTasks (setting : SuspendingSetting W H S) :
      ReadsAudited (setting.waiting .suspending) setting.persistent (readByTask setting)
        (readByTask setting.audited)

namespace Family

variable {setting : Setting W H S} {persistent : Bool}
  {read : Nat → Reader S → Feed W H → Except ReadError Bytes × Reader S × Feed W H}
  {read' : Nat → Reader (AuditedStream S) → Feed (AuditedWorld W) (AuditedSource H) →
    Except ReadError Bytes × Reader (AuditedStream S) × Feed (AuditedWorld W) (AuditedSource H)}

/-- The family without the audit. -/
def unaudited (family : Family (AuditedWorld W) (AuditedSource H) (AuditedStream S)) :
    Family W H S :=
  ⟨family.members.map (Option.map (Reader.map AuditedStream.stream)), family.feed.unaudited⟩

/-- Readers that read alike do alike whether or not their supply is audited. -/
theorem runAllBy_unaudited
    {double : Supply (AuditedWorld W) (AuditedSource H) (AuditedStream S)}
    (hdouble : double = setting.supply.audited) (hlaid : setting.piece.Laid)
    (hread : (Setting.auditLikeness hdouble).ReadsAlike read' read) (world : W)
    (commands : List (Nat × Command)) :
  let audited := (start (setting.drawingFrom double) ⟨world, 0, []⟩).runAllBy
    (setting.drawingFrom double) read' commands
  (audited.1, audited.2.unaudited) = (start setting world).runAllBy setting read commands
  := by
  have hlaid' : (setting.drawingFrom double).piece.Laid := hlaid
  have hstart : (Feed.start world setting.piece.blocks.length : Feed W H)
      = (Feed.start ⟨world, 0, []⟩ setting.piece.blocks.length).unaudited := by
    simp only [Feed.start, Feed.unaudited, List.map_replicate]
    rfl
  have hfamilies := (Setting.auditLikeness hdouble).families_start hlaid' hstart
  obtain ⟨replies, F, G, hF, hG, h⟩ := hfamilies.runAllBy hlaid' hread commands
  have hmembers : G.members.map (Option.map id)
      = F.members.map (Option.map (Reader.map AuditedStream.stream)) := by
    apply h.map_eq
    rintro reader twin ⟨pos, -, hcursor, hpoisoned, hheld⟩
    obtain ⟨cursor, held, poisoned⟩ := reader
    obtain ⟨cursor', held', poisoned'⟩ := twin
    obtain ⟨rfl, rfl⟩ : cursor' = cursor ∧ poisoned' = poisoned := ⟨hcursor, hpoisoned⟩
    cases hheld with
    | none => rfl
    | some h =>
        rw [h]
        rfl
  have hfeeds : G.feed = F.feed.unaudited := h.feeds
  intro audited
  simp only [audited, hF, hG]
  rw [Option.map_id, List.map_id] at hmembers
  rw [unaudited, ← hmembers, ← hfeeds]

/-- Readers do alike whether or not their supply is audited. -/
theorem runAllBy_audited (hreads : Reader.ReadsAudited setting persistent read read')
    (hlaid : setting.piece.Laid) (world : W) (commands : List (Nat × Command)) :
  let audited := (start setting.audited ⟨world, 0, []⟩).runAllBy setting.audited read' commands
  (audited.1, audited.2.unaudited) = (start setting world).runAllBy setting read commands
  := by
  cases hreads with
  | atOnce =>
      have hlaid' : setting.audited.piece.Laid := hlaid
      apply runAllBy_unaudited rfl hlaid
      apply (Setting.auditLikeness rfl).readsAlike_read hlaid'
  | byTasks setting =>
      have hlaid' : setting.audited.piece.Laid := hlaid
      rw [← SuspendingSetting.waiting_audited]
      have hdouble : setting.supply.audited.awaited
          = (setting.waiting .suspending).supply.audited := PolledSupply.awaited_audited
      have hpersistent : setting.persistent = setting.audited.persistent := rfl
      apply runAllBy_unaudited hdouble hlaid
      apply Setting.Likeness.readsAlike_readByTask _ hlaid' hpersistent

end Family

end PieceStream
