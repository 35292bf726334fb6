import PieceStream.Proofs.Courses
import PieceStream.Proofs.Observation
import PieceStream.Proofs.Shortage

/-!
# Lookups

Sources are called only where a member has to open a stream: where the payload byte that comes next
is within the buffer, and the member holds no stream of its run that can reach it going forward.
Then the source found for the run is asked for the range.  Only where none has been found for the
run is a source looked for, and if there is one it is found for good, for this run and for no
other.
-/

namespace PieceStream

variable {W H S : Type}

/-- To fill a buffer of that size the reader has to open a stream for the bytes of `span`: they come
next, after bytes in memory that leave room for them, and a stream held of the run is past them. -/
structure Reader.MustOpen (piece : Piece) (size : Nat) (span : PayloadRest) (reader : Reader S) :
    Prop where
  sound : reader.poisoned = false
  ahead : ∃ stop, piece.NextPayload reader.position stop span ∧ stop - reader.position < size
  unserved : ∀ item, reader.held = some item → item.block = span.block →
    span.itemOffset < item.itemPos

/-- No source was called, and the sources found are the same. -/
structure Feed.Idle (feed feed' : Feed (ObservedWorld W) (ObservedSource H)) : Prop where
  calls_eq : feed'.world.calls = feed.world.calls
  handles_eq : feed'.handles = feed.handles

/-- The calls that it takes to open a stream for the bytes of `span`, given how many sources were
found before and which ones are remembered, and the sources remembered then. -/
inductive Setting.Opens (setting : Setting W H S) (span : PayloadRest) (finds : Nat)
    (handles : List (Option (ObservedSource H))) :
    List Call → List (Option (ObservedSource H)) → Prop
  /-- The source found for the run is asked for the range. -/
  | known {handle : ObservedSource H} {success : Bool}
      (hknown : handles[span.block]? = some (some handle)) :
      Opens setting span finds handles
        [.opened handle.number span.path span.itemOffset (setting.lengthFor span) success] handles
  /-- A source is looked for and found for the run, and asked for the range. -/
  | found {handle : ObservedSource H} {success : Bool}
      (hunknown : handles[span.block]?.join = none) (hnumber : handle.number = finds) :
      Opens setting span finds handles
        [.resolved span.run.source (some finds),
          .opened finds span.path span.itemOffset (setting.lengthFor span) success]
        (handles.set span.block (some handle))
  /-- A source is looked for and not found. -/
  | missing (hunknown : handles[span.block]?.join = none) :
      Opens setting span finds handles [.resolved span.run.source none] handles

/-- From the one feed to the other one it was tried to open a stream for the bytes of `span`. -/
def Setting.OpensFor (setting : Setting W H S) (span : PayloadRest)
    (feed feed' : Feed (ObservedWorld W) (ObservedSource H)) : Prop :=
  ∃ made, feed'.world.calls = feed.world.calls ++ made
    ∧ setting.Opens span feed.world.finds feed.handles made feed'.handles

/-! ### What calls no source -/

namespace Feed

variable {feed feed' feed'' : Feed (ObservedWorld W) (ObservedSource H)}
  {item item' : HeldStream (ObservedStream S)}

theorem Idle.refl :
  feed.Idle feed
  := ⟨rfl, rfl⟩

theorem Idle.trans (h : feed.Idle feed') (h' : feed'.Idle feed'') :
  feed.Idle feed''
  := ⟨h'.calls_eq.trans h.calls_eq, h'.handles_eq.trans h.handles_eq⟩

theorem idle_notes (notes : List Note) :
  feed.Idle (notes.foldl Feed.note feed)
  := by
  induction notes generalizing feed with
  | nil => apply Idle.refl
  | cons note notes ih =>
      have hnote : feed.Idle (feed.note note) := ⟨rfl, rfl⟩
      apply hnote.trans ih

end Feed

namespace Supply

variable {supply : Supply W H S} {feed feed' : Feed (ObservedWorld W) (ObservedSource H)}
  {item item' : HeldStream (ObservedStream S)}

theorem idle_of_ask {purpose : Purpose} {size : Nat} {outcome : Except IoError Bytes}
    (h : supply.observed.ask purpose size item feed = (outcome, item', feed')) :
  feed.Idle feed'
  := by
  cases h
  exact ⟨rfl, rfl⟩

theorem idle_askUninterrupted (size : Nat) (item : HeldStream (ObservedStream S))
    (feed : Feed (ObservedWorld W) (ObservedSource H)) :
  feed.Idle (supply.observed.askUninterrupted size item feed).2.2
  := by
  induction item, feed using askUninterrupted.induct supply.observed size with
  | case1 item feed bytes item' feed' hask =>
      rw [askUninterrupted_of_ok hask]
      apply idle_of_ask hask
  | case2 item feed e item' feed' hask he ih =>
      rw [askUninterrupted_of_interruption hask he]
      apply (idle_of_ask hask).trans ih
  | case3 item feed e item' feed' hask he =>
      rw [askUninterrupted_of_error hask (Bool.eq_false_iff.mpr he)]
      apply idle_of_ask hask

theorem idle_passOver (gap : Nat) (item : HeldStream (ObservedStream S))
    (feed : Feed (ObservedWorld W) (ObservedSource H)) :
  feed.Idle (supply.observed.passOver gap item feed).2.2
  := by
  induction gap, item, feed using passOver.induct supply.observed with
  | case1 item feed =>
      rw [passOver_zero]
      apply Feed.Idle.refl
  | case2 gap item feed hne item' feed' hask =>
      rw [passOver_of_nil (Nat.pos_of_ne_zero hne) hask]
      apply idle_of_ask hask
  | case3 gap item feed hne b bs item' feed' hask ih =>
      rw [passOver_of_ok (Nat.pos_of_ne_zero hne) (List.cons_ne_nil b bs) hask]
      apply (idle_of_ask hask).trans ih
  | case4 gap item feed hne e item' feed' hask he ih =>
      rw [passOver_of_interruption (Nat.pos_of_ne_zero hne) hask he]
      apply (idle_of_ask hask).trans ih
  | case5 gap item feed hne e item' feed' hask he =>
      rw [passOver_of_error (Nat.pos_of_ne_zero hne) hask (Bool.eq_false_iff.mpr he)]
      apply idle_of_ask hask

end Supply

namespace Setting

variable {setting : Setting W H S} {span : PayloadRest}
  {feed feed' feed'' : Feed (ObservedWorld W) (ObservedSource H)}

theorem idle_conclude (span : PayloadRest) (outcome : Except SourceError (ObservedStream S))
    (notes : List Note) (feed : Feed (ObservedWorld W) (ObservedSource H)) :
  feed.Idle (conclude span outcome notes feed).2
  := by
  cases outcome <;> apply Feed.idle_notes notes

theorem idle_concludeSkip (span : PayloadRest)
    (skipped : Except IoError Nat × HeldStream (ObservedStream S)
      × Feed (ObservedWorld W) (ObservedSource H)) :
  skipped.2.2.Idle (concludeSkip span skipped).2
  := by
  obtain ⟨_ | _ | lacking, item, feed⟩ := skipped <;> exact ⟨rfl, rfl⟩

theorem idle_askFor (span : PayloadRest) (room : Nat)
    (acquired : Except ReadError (HeldStream (ObservedStream S))
      × Feed (ObservedWorld W) (ObservedSource H)) :
  acquired.2.Idle (setting.observed.askFor span room acquired).2.2
  := by
  rw [askFor.eq_def]
  split
  · apply Feed.Idle.refl
  · next item feed =>
    have hask := setting.supply.idle_askUninterrupted (min span.remaining room) item feed
    rw [supply_observed]
    split <;> rename_i heq <;> rw [heq] at hask <;> apply hask

/-- What calls no source may come before and after. -/
theorem OpensFor.of_idle {feed₁ feed₂ : Feed (ObservedWorld W) (ObservedSource H)}
    (h : setting.OpensFor span feed₁ feed₂) (hbefore : feed.Idle feed₁)
    (hafter : feed₂.Idle feed') :
  setting.OpensFor span feed feed'
  := by
  obtain ⟨made, hcalls, hopens⟩ := h
  have hfinds : feed₁.world.finds = feed.world.finds := by
    rw [ObservedWorld.finds, ObservedWorld.finds, hbefore.calls_eq]
  refine ⟨made, ?_, ?_⟩
  · rw [hafter.calls_eq, hcalls, hbefore.calls_eq]
  · rw [hafter.handles_eq, ← hbefore.handles_eq, ← hfinds]
    apply hopens

/-- To open a range is one call to the source. -/
theorem calls_openFrom (handle : ObservedSource H) (span : PayloadRest)
    (feed : Feed (ObservedWorld W) (ObservedSource H)) :
  ∃ success, (setting.observed.openFrom handle span feed).2.world.calls
      = feed.world.calls
        ++ [.opened handle.number span.path span.itemOffset (setting.lengthFor span) success]
    ∧ (setting.observed.openFrom handle span feed).2.handles = feed.handles
  := by
  obtain ⟨notes, -, hcases⟩ := setting.supply.openRange_observed handle span.path span.itemOffset
    (setting.lengthFor span) feed.world
  rw [openFrom, lengthFor_observed]
  rcases hcases with ⟨stream, world, hopen⟩ | ⟨e, world, hopen⟩
  · simp only [supply_observed, hopen]
    exact ⟨true, (idle_conclude span _ notes _).calls_eq, (idle_conclude span _ notes _).handles_eq⟩
  · simp only [supply_observed, hopen]
    exact ⟨false, (idle_conclude span _ notes _).calls_eq,
      (idle_conclude span _ notes _).handles_eq⟩

/-- A source remembered is not looked for.  One that is found is remembered, and has the next
number. -/
theorem sourceFor_cases (span : PayloadRest) (feed : Feed (ObservedWorld W) (ObservedSource H)) :
  (∃ handle, feed.handles[span.block]? = some (some handle)
      ∧ setting.observed.sourceFor span feed = (.ok handle, feed))
    ∨ feed.handles[span.block]?.join = none
      ∧ ((∃ handle feed', setting.observed.sourceFor span feed = (.ok handle, feed')
          ∧ handle.number = feed.world.finds
          ∧ feed'.world.calls
            = feed.world.calls ++ [.resolved span.run.source (some feed.world.finds)]
          ∧ feed'.handles = feed.handles.set span.block (some handle))
        ∨ ∃ e feed', setting.observed.sourceFor span feed = (.error e, feed')
          ∧ feed'.world.calls = feed.world.calls ++ [.resolved span.run.source none]
          ∧ feed'.handles = feed.handles)
  := by
  rw [sourceFor]
  cases hfound : feed.handles[span.block]?.join with
  | some handle => exact .inl ⟨handle, Option.join_eq_some_iff.mp hfound, rfl⟩
  | none =>
      right
      rcases setting.supply.resolve_observed span.run.source feed.world
        with ⟨source, world, hresolve⟩ | ⟨e, world, hresolve⟩
      · rw [supply_observed, hresolve]
        exact ⟨rfl, .inl ⟨_, _, rfl, rfl, rfl, rfl⟩⟩
      · rw [supply_observed, hresolve]
        exact ⟨rfl, .inr ⟨_, _, rfl, rfl, rfl⟩⟩

/-- To open a stream takes the calls that it has to take. -/
theorem opensFor_openFor (span : PayloadRest) (feed : Feed (ObservedWorld W) (ObservedSource H)) :
  setting.OpensFor span feed (setting.observed.openFor span feed).2
  := by
  rw [openFor]
  rcases sourceFor_cases span feed with ⟨handle, hknown, hsource⟩
    | ⟨hunknown, ⟨handle, feed', hsource, hnumber, hlooked, hset⟩
      | ⟨e, feed', hsource, hlooked, hset⟩⟩
  · obtain ⟨success, hcalls, hhandles⟩ :=
      calls_openFrom handle span (setting.observed.announce span feed)
    rw [hsource]
    refine ⟨_, hcalls, ?_⟩
    rw [hhandles]
    apply Opens.known hknown
  · obtain ⟨success, hcalls, hhandles⟩ :=
      calls_openFrom handle span (setting.observed.announce span feed')
    have hcalls : (setting.observed.openFrom handle span
        (setting.observed.announce span feed')).2.world.calls = feed'.world.calls ++ _ := hcalls
    have hhandles : (setting.observed.openFrom handle span
        (setting.observed.announce span feed')).2.handles = feed'.handles := hhandles
    rw [hlooked, List.append_assoc, hnumber] at hcalls
    rw [hsource]
    refine ⟨_, hcalls, ?_⟩
    rw [hhandles, hset]
    apply Opens.found hunknown hnumber
  · rw [hsource]
    refine ⟨_, hlooked, ?_⟩
    rw [hset]
    apply Opens.missing hunknown

/-- A stream that stands where the bytes are or before them is gone on with, and no source is
called. -/
theorem idle_acquire {item : HeldStream (ObservedStream S)} (hblock : item.block = span.block)
    (hle : item.itemPos ≤ span.itemOffset)
    (feed : Feed (ObservedWorld W) (ObservedSource H)) :
  feed.Idle (setting.observed.acquire (some item) span feed).2
  := by
  rw [acquire, Approach.toward]
  rcases Nat.lt_or_eq_of_le hle with hlt | heq
  · simp only [hblock, Nat.ne_of_lt hlt, hlt, and_false, and_self, if_true, if_false]
    have hnoted : feed.Idle (feed.note (.skipping span.path item.itemPos
      (span.itemOffset - item.itemPos))) := ⟨rfl, rfl⟩
    apply hnoted.trans
    apply (setting.supply.idle_passOver (span.itemOffset - item.itemPos) item _).trans
    apply idle_concludeSkip span
  · simp only [hblock, heq, and_self, if_true]
    apply Feed.Idle.refl

/-- Without a stream that can reach the bytes going forward one is opened. -/
theorem opensFor_acquire {held : Option (HeldStream (ObservedStream S))}
    (hheld : ∀ item, held = some item → item.block = span.block → span.itemOffset < item.itemPos)
    (feed : Feed (ObservedWorld W) (ObservedSource H)) :
  setting.OpensFor span feed (setting.observed.acquire held span feed).2
  := by
  rw [acquire]
  cases held with
  | none => apply opensFor_openFor
  | some item =>
      have htoward : Approach.toward (some item) span = .reopen (some item) := by
        rw [Approach.toward]
        by_cases hblock : item.block = span.block
        · have hlt := hheld item rfl hblock
          simp only [hblock, Nat.ne_of_gt hlt, Nat.not_lt_of_gt hlt, and_false, if_false]
        · simp only [hblock, false_and, if_false]
      have hreleased : feed.Idle (feed.release item) := ⟨rfl, rfl⟩
      rw [htoward]
      apply (opensFor_openFor span (feed.release item)).of_idle hreleased Feed.Idle.refl

end Setting

/-! ### Readers -/

/-- One payload at most comes next. -/
theorem Piece.NextPayload.eq {piece : Piece} {pos stop stop' : Nat} {span span' : PayloadRest}
    (hlaid : piece.Laid) (h : piece.NextPayload pos stop span)
    (h' : piece.NextPayload pos stop' span') :
  span' = span
  := by
  rcases Nat.lt_trichotomy stop stop' with hlt | rfl | hlt
  · exact absurd h.at_stop (h'.clear stop h.le hlt span)
  · apply Cursor.eq_of_at hlaid h'.at_stop h.at_stop
  · exact absurd h'.at_stop (h.clear stop' h'.le hlt span')

namespace Reader

variable {setting : Setting W H S} {piece : Piece} {pos size : Nat}
  {reader : Reader (ObservedStream S)} {feed : Feed (ObservedWorld W) (ObservedSource H)}

theorem idle_release (reader : Reader (ObservedStream S))
    (feed : Feed (ObservedWorld W) (ObservedSource H)) :
  feed.Idle (reader.release feed).2
  := by
  obtain ⟨cursor, _ | item, poisoned⟩ := reader <;> exact ⟨rfl, rfl⟩

theorem idle_takeIn (reader : Reader (ObservedStream S))
    (taken : Except ReadError Bytes × Option (HeldStream (ObservedStream S))
      × Feed (ObservedWorld W) (ObservedSource H)) :
  taken.2.2.Idle (reader.takeIn setting.observed taken).2.2
  := by
  obtain ⟨_ | bytes, held, feed⟩ := taken
  · apply Feed.Idle.refl
  · rw [takeIn, advance]
    dsimp only
    split
    · apply idle_release
    · apply Feed.Idle.refl

theorem idle_poisonOnError
    (read : Except ReadError Bytes × Reader (ObservedStream S)
      × Feed (ObservedWorld W) (ObservedSource H)) :
  read.2.2.Idle (poisonOnError setting.observed read).2.2
  := by
  obtain ⟨e | bytes, reader, feed⟩ := read
  · have hnoted : feed.Idle (feed.note (.readFailed setting.observed.manner reader.position e)) :=
      ⟨rfl, rfl⟩
    apply hnoted.trans (idle_release reader _)
  · apply Feed.Idle.refl

/-- To hand out the bytes taken, behind others, calls no source. -/
theorem idle_handOut (copied : Bytes) (reader : Reader (ObservedStream S)) (room : Nat)
    (span : PayloadRest)
    (acquired : Except ReadError (HeldStream (ObservedStream S))
      × Feed (ObservedWorld W) (ObservedSource H)) :
  let taken := reader.takeIn setting.observed (setting.observed.askFor span room acquired)
  acquired.2.Idle
    (poisonOnError setting.observed (taken.1.map (copied ++ ·), taken.2)).2.2
  := by
  intro taken
  have hasked : acquired.2.Idle (setting.observed.askFor span room acquired).2.2 :=
    Setting.idle_askFor span room acquired
  have htaken : Feed.Idle _ taken.2.2 := idle_takeIn reader _
  have hended : Feed.Idle taken.2.2
      (poisonOnError setting.observed (taken.1.map (copied ++ ·), taken.2)).2.2 :=
    idle_poisonOnError (taken.1.map (copied ++ ·), taken.2)
  apply (hasked.trans htaken).trans hended

theorem idle_moveTo (offset : Nat) (reader : Reader (ObservedStream S))
    (feed : Feed (ObservedWorld W) (ObservedSource H)) :
  feed.Idle (reader.moveTo setting.observed offset feed).2.2
  := by
  rw [moveTo]
  split
  · apply Feed.Idle.refl
  · have hreleased := idle_release reader feed
    exact ⟨hreleased.calls_eq, hreleased.handles_eq⟩

theorem idle_seek (target : SeekTarget) (reader : Reader (ObservedStream S))
    (feed : Feed (ObservedWorld W) (ObservedSource H)) :
  feed.Idle (reader.seek setting.observed target feed).2.2
  := by
  rcases seek_cases setting.observed target reader feed with heq | heq
  · rw [heq]
    apply Feed.Idle.refl
  · rw [heq]
    apply idle_moveTo

/-- Where bytes in memory fill the buffer or go up to the end, no stream has to be opened. -/
theorem not_mustOpen_of_clear {count : Nat} {span : PayloadRest} (hlaid : piece.Laid)
    (hpos : reader.position = pos) (hclear : piece.ClearBetween pos (pos + count))
    (hend : count = size ∨ pos + count = piece.size) :
  ¬ reader.MustOpen piece size span
  := by
  intro hmust
  obtain ⟨stop, hnext, hlt⟩ := hmust.ahead
  rw [hpos] at hnext hlt
  have hle := hnext.at_stop.le_size hlaid
  have hremaining := hnext.at_stop.remaining_pos
  have hstop := hnext.le
  apply hclear stop hstop (by omega) span hnext.at_stop

/-- A reader that passes bytes in memory up to a payload has to open a stream for it exactly if the
stream that it holds then, if any, cannot reach it. -/
theorem mustOpen_iff_of_passes {copied : Bytes} {reader' : Reader (ObservedStream S)}
    {feed' : Feed (ObservedWorld W) (ObservedSource H)} {span : PayloadRest} (hlaid : piece.Laid)
    (hpoisoned : reader.poisoned = false) (hposition : reader.position = pos)
    (hpasses : reader.Passes piece pos feed copied reader' feed')
    (hspan : span.At piece (pos + copied.length)) (hroom : copied.length < size) :
  reader.MustOpen piece size span ↔ ∀ item, reader'.held = some item → item.block = span.block →
    span.itemOffset < item.itemPos
  := by
  have hsettled : (Cursor.settled piece (pos + copied.length)).block = span.block :=
    congrArg Cursor.block (hspan.settled_eq hlaid)
  constructor
  · intro hmust item hitem hblock
    rcases hpasses.held with ⟨hsame, -⟩ | ⟨left, -, hnone, -, -⟩
    · apply hmust.unserved item (hsame.symm.trans hitem) hblock
    · rw [hnone] at hitem
      cases hitem
  · intro hunserved
    refine ⟨hpoisoned, ?_, fun item hitem hblock => ?_⟩
    · rw [hposition]
      exact ⟨_, ⟨Nat.le_add_right _ _, hpasses.clear, hspan⟩, by omega⟩
    · rcases hpasses.held with ⟨hsame, -⟩ | ⟨left, hleft, -, -, hbehind⟩
      · apply hunserved item (hsame.trans hitem) hblock
      · -- A stream given up on the way was one of an earlier run.
        rw [hleft] at hitem
        cases hitem
        have hbehind : item.block < span.block := hsettled ▸ hbehind
        omega

/-- A read calls sources exactly if it has to open a stream, and then it takes the calls that this
has to take. -/
theorem opensFor_or_idle_read (hlaid : setting.piece.Laid)
    (h : reader.StandsAt setting.piece pos) (size : Nat)
    (feed : Feed (ObservedWorld W) (ObservedSource H)) :
  (∃ span, reader.MustOpen setting.piece size span
      ∧ setting.OpensFor span feed (reader.read setting.observed size feed).2.2)
    ∨ (∀ span, ¬ reader.MustOpen setting.piece size span)
      ∧ feed.Idle (reader.read setting.observed size feed).2.2
  := by
  rw [read]
  cases hpoisoned : reader.poisoned with
  | true =>
      refine .inr ⟨fun span hmust => ?_, Feed.Idle.refl⟩
      rw [hmust.sound] at hpoisoned
      cases hpoisoned
  | false =>
      simp only [Bool.false_eq_true, if_false]
      have hposition := h.position_eq
      have hlaid' : setting.observed.piece.Laid := hlaid
      obtain ⟨copied, reader', feed', hpasses, hcases⟩ := gather_cases hlaid' size h feed
      have hidle : feed.Idle feed' := by
        rcases hpasses.held with ⟨-, rfl⟩ | ⟨item, -, -, rfl, -⟩
        · apply Feed.Idle.refl
        · exact ⟨rfl, rfl⟩
      rcases hcases with ⟨-, hend, hgather⟩ | ⟨span, hspan, hlt, hgather⟩
      · right
        rw [hgather]
        exact ⟨fun span => not_mustOpen_of_clear hlaid hposition hpasses.clear hend, hidle⟩
      · have hnext : setting.piece.NextPayload pos (pos + copied.length) span :=
          ⟨Nat.le_add_right _ _, hpasses.clear, hspan⟩
        have hgather : reader.gather setting.observed size feed
            = ((reader'.takeIn setting.observed _).1.map (copied ++ ·), _) := hgather
        have hmust := mustOpen_iff_of_passes hlaid hpoisoned hposition hpasses hspan hlt
        rw [hgather, Setting.takePayload]
        by_cases hunserved : ∀ item, reader'.held = some item → item.block = span.block →
          span.itemOffset < item.itemPos
        · left
          refine ⟨span, hmust.mpr hunserved, ?_⟩
          apply (Setting.opensFor_acquire hunserved feed').of_idle hidle
          apply idle_handOut copied reader' _ span _
        · right
          constructor
          · intro span' hmust'
            obtain ⟨stop, hnext', -⟩ := hmust'.ahead
            rw [hposition] at hnext'
            cases hnext.eq hlaid hnext'
            apply hunserved (hmust.mp hmust')
          · simp only [not_forall, Nat.not_lt] at hunserved
            obtain ⟨item, hitem, hblock, hle⟩ := hunserved
            rw [hitem]
            apply hidle.trans
            apply (Setting.idle_acquire hblock hle feed').trans
            apply idle_handOut copied reader' _ span _

end Reader

/-! ### What is remembered -/

/-- Every source found is remembered for one run, for which it was looked for. -/
structure Feed.Slotted (piece : Piece) (feed : Feed (ObservedWorld W) (ObservedSource H)) :
    Prop where
  length_eq : feed.handles.length = piece.blocks.length
  numbers_perm : ((feed.handles.filterMap id).map (·.number)).Perm (List.range feed.world.finds)
  exists_run : ∀ (block : Nat) (handle : ObservedSource H),
    feed.handles[block]? = some (some handle) → ∃ run, piece.blocks[block]? = some (.run run)
      ∧ .resolved run.source (some handle.number) ∈ feed.world.calls

namespace Feed.Slotted

variable {piece : Piece} {feed feed' : Feed (ObservedWorld W) (ObservedSource H)} {block : Nat}
  {run : ItemRun} {handle : ObservedSource H} {made : List Call}

/-- Calls that find no source change nothing. -/
theorem afterCalls (h : feed.Slotted piece)
    (hcalls : feed'.world.calls = feed.world.calls ++ made) (hmade : made.countP Call.isFind = 0)
    (hhandles : feed'.handles = feed.handles) :
  feed'.Slotted piece
  := by
  have hfinds : feed'.world.finds = feed.world.finds := by
    rw [ObservedWorld.finds, ObservedWorld.finds, hcalls, List.countP_append, hmade, Nat.add_zero]
  constructor
  case length_eq => rw [hhandles, h.length_eq]
  case numbers_perm =>
      rw [hhandles, hfinds]
      apply h.numbers_perm
  case exists_run =>
      intro block handle hblock
      rw [hhandles] at hblock
      obtain ⟨run, hrun, hcall⟩ := h.exists_run block handle hblock
      rw [hcalls]
      exact ⟨run, hrun, List.mem_append_left _ hcall⟩

/-- A source that is found for a run gets the next number and the slot of the run. -/
theorem afterFind (h : feed.Slotted piece) (hrun : piece.blocks[block]? = some (.run run))
    (hunknown : feed.handles[block]?.join = none) (hnumber : handle.number = feed.world.finds)
    (hcalls : feed'.world.calls
      = feed.world.calls ++ .resolved run.source (some feed.world.finds) :: made)
    (hmade : made.countP Call.isFind = 0)
    (hhandles : feed'.handles = feed.handles.set block (some handle)) :
  feed'.Slotted piece
  := by
  have hfinds : feed'.world.finds = feed.world.finds + 1 := by
    rw [ObservedWorld.finds, ObservedWorld.finds, hcalls, List.countP_append,
      List.countP_cons_of_pos rfl, hmade]
  have hlt : block < feed.handles.length := by
    obtain ⟨hlt, -⟩ := List.getElem?_eq_some_iff.mp hrun
    rw [h.length_eq]
    apply hlt
  have hnone : feed.handles[block] = none := by
    rw [List.getElem?_eq_getElem hlt] at hunknown
    apply hunknown
  constructor
  case length_eq => rw [hhandles, List.length_set, h.length_eq]
  case numbers_perm =>
      have hbefore := (List.getElem_cons_eraseIdx_perm hlt).symm.filterMap id
      have hafter := (List.set_perm_cons_eraseIdx hlt (some handle)).filterMap id
      rw [hnone] at hbefore
      have hnumbers : ((feed'.handles.filterMap id).map (·.number)).Perm
          (handle.number :: (feed.handles.filterMap id).map (·.number)) := by
        rw [hhandles]
        apply (hafter.trans (hbefore.symm.cons handle)).map
      apply hnumbers.trans
      rw [hnumber, hfinds, List.range_succ]
      apply (h.numbers_perm.cons feed.world.finds).trans
      apply (List.perm_append_singleton _ _).symm
  case exists_run =>
      intro block' handle' hblock
      rw [hhandles] at hblock
      rw [hcalls]
      rcases eq_or_ne block' block with rfl | hne
      · rw [List.getElem?_set_self hlt] at hblock
        cases hblock
        rw [hnumber]
        exact ⟨run, hrun, List.mem_append_right _ List.mem_cons_self⟩
      · rw [List.getElem?_set_ne hne.symm] at hblock
        obtain ⟨run', hrun', hcall⟩ := h.exists_run block' handle' hblock
        exact ⟨run', hrun', List.mem_append_left _ hcall⟩

end Feed.Slotted

namespace Setting

variable {setting : Setting W H S} {span : PayloadRest} {piece : Piece}
  {feed feed' : Feed (ObservedWorld W) (ObservedSource H)}

/-- Nothing is forgotten while no source is called. -/
theorem slotted_of_idle (h : feed.Slotted piece) (hidle : feed.Idle feed') :
  feed'.Slotted piece
  := by
  have hcalls : feed'.world.calls = feed.world.calls ++ [] := by
    rw [hidle.calls_eq, List.append_nil]
  apply h.afterCalls hcalls rfl hidle.handles_eq

/-- A source found is remembered for the run that it was looked for. -/
theorem slotted_of_opensFor (hrun : piece.blocks[span.block]? = some (.run span.run))
    (h : feed.Slotted piece) (hopens : setting.OpensFor span feed feed') :
  feed'.Slotted piece
  := by
  obtain ⟨world', handles', latest'⟩ := feed'
  obtain ⟨made, hcalls, hopens⟩ := hopens
  cases hopens with
  | known hknown => apply h.afterCalls hcalls rfl rfl
  | missing hunknown => apply h.afterCalls hcalls rfl rfl
  | found hunknown hnumber => apply h.afterFind hrun hunknown hnumber hcalls rfl rfl

/-- A source remembered is remembered for good. -/
theorem kept_of_opensFor {block : Nat} {handle : ObservedSource H}
    (hopens : setting.OpensFor span feed feed')
    (h : feed.handles[block]? = some (some handle)) :
  feed'.handles[block]? = some (some handle)
  := by
  obtain ⟨world', handles', latest'⟩ := feed'
  obtain ⟨made, -, hopens⟩ := hopens
  cases hopens with
  | known hknown => apply h
  | missing hunknown => apply h
  | found hunknown hnumber =>
      have hne : block ≠ span.block := by
        rintro rfl
        rw [h] at hunknown
        cases hunknown
      apply (List.getElem?_set_ne hne.symm).trans h

/-- What may happen to a feed at once calls no source, or it is tried to open a stream for a run. -/
theorem Step.idle_or_opensFor (h : setting.observed.Step feed feed') :
  feed.Idle feed' ∨ ∃ span : PayloadRest,
    setting.piece.blocks[span.block]? = some (.run span.run) ∧ setting.OpensFor span feed feed'
  := by
  cases h with
  | note => exact .inl ⟨rfl, rfl⟩
  | drop => exact .inl ⟨rfl, rfl⟩
  | ask => exact .inl ⟨rfl, rfl⟩
  | openFor span feed hrun => exact .inr ⟨span, hrun, opensFor_openFor span feed⟩

/-- Every source found stays remembered for the run that it was looked for. -/
theorem slotted_of_leads (h : setting.observed.Leads feed feed')
    (hslotted : feed.Slotted setting.piece) :
  feed'.Slotted setting.piece
  := by
  apply h.preserves _ hslotted
  intro f f' hstep hf
  rcases hstep.idle_or_opensFor with hidle | ⟨span, hrun, hopens⟩
  · apply slotted_of_idle hf hidle
  · apply slotted_of_opensFor hrun hf hopens

/-- A source remembered is remembered for good. -/
theorem kept_of_leads {block : Nat} {handle : ObservedSource H}
    (h : setting.observed.Leads feed feed') (hhandle : feed.handles[block]? = some (some handle)) :
  feed'.handles[block]? = some (some handle)
  := by
  let remembers : Feed (ObservedWorld W) (ObservedSource H) → Prop := fun f =>
    f.handles[block]? = some (some handle)
  have hkept : remembers feed' := by
    apply h.preserves _ hhandle
    intro f f' hstep hf
    rcases hstep.idle_or_opensFor with hidle | ⟨span, -, hopens⟩
    · apply (congrArg (·[block]?) hidle.handles_eq).trans hf
    · apply kept_of_opensFor hopens hf
  apply hkept

end Setting

/-! ### Families -/

namespace Family

/-- What is read to the end is read again and again. -/
theorem exists_reads_of_drainWithin (setting : Setting W H S) {family : Family W H S} {index : Nat}
    {reader : Reader S} (hmember : family.member? index = some reader) (size calls : Nat) :
  ∃ count, (family.runAll setting (List.replicate count (index, .read size))).2
    = family.update index
        (Reader.drainWithin (fun reader feed => reader.read setting size feed) calls reader
          family.feed).2.2.1
        (Reader.drainWithin (fun reader feed => reader.read setting size feed) calls reader
          family.feed).2.2.2
  := by
  induction calls generalizing family reader with
  | zero =>
      refine ⟨0, ?_⟩
      rw [Reader.drainWithin, update_self hmember]
      rfl
  | succ calls ih =>
      rcases hread : reader.read setting size family.feed with ⟨outcome, reader', feed'⟩
      have hrun : family.run setting index (.read size)
          = (.bytes outcome, family.update index reader' feed') := by
        simp only [run, runBy, hmember, hread]
      have honce : (family.runAll setting (List.replicate 1 (index, .read size))).2
          = family.update index reader' feed' := by
        rw [List.replicate_one, runAll_cons, hrun]
        rfl
      rw [Reader.drainWithin, hread]
      rcases outcome with e | _ | ⟨b, bs⟩
      · exact ⟨1, honce⟩
      · exact ⟨1, honce⟩
      · have hmember' : (family.update index reader' feed').member? index = some reader' :=
          member?_update hmember
        obtain ⟨count, hcount⟩ := ih hmember'
        refine ⟨count + 1, ?_⟩
        rw [List.replicate_succ, runAll_cons, hrun]
        apply hcount.trans
        rw [update, update, update, List.set_set]

variable {setting : Setting W H S}

/-- To read to the end is to read again and again. -/
theorem exists_reads_of_drain (family : Family W H S) (index size : Nat) :
  ∃ count, (family.run setting index (.drain size)).2
    = (family.runAll setting (List.replicate count (index, .read size))).2
  := by
  cases hmember : family.member? index with
  | none =>
      refine ⟨0, ?_⟩
      rw [run, runBy, hmember]
      rfl
  | some reader =>
      obtain ⟨count, hcount⟩ := exists_reads_of_drainWithin setting hmember size
        (setting.piece.size - reader.position + 1)
      refine ⟨count, ?_⟩
      rw [hcount, run, runBy, hmember]
      rfl

variable {family : Family (ObservedWorld W) (ObservedSource H) (ObservedStream S)}

/-- A command calls sources exactly if it is a read that has to open a stream. -/
theorem opensFor_or_idle_run (hlaid : setting.piece.Laid) (h : family.Stands setting.piece)
    (index : Nat) {command : Command} (hcommand : ∀ size, command ≠ .drain size) :
  (∃ reader size span, family.member? index = some reader ∧ command = .read size
      ∧ reader.MustOpen setting.piece size span
      ∧ setting.OpensFor span family.feed (family.run setting.observed index command).2.feed)
    ∨ (∀ reader size span, family.member? index = some reader → command = .read size →
        ¬ reader.MustOpen setting.piece size span)
      ∧ family.feed.Idle (family.run setting.observed index command).2.feed
  := by
  rw [run, runBy]
  cases hmember : family.member? index with
  | none => exact .inr ⟨by simp, Feed.Idle.refl⟩
  | some reader =>
      cases command with
      | read size =>
          rcases Reader.opensFor_or_idle_read hlaid (h.member hmember) size family.feed
            with ⟨span, hmust, hopens⟩ | ⟨hspared, hidle⟩
          · exact .inl ⟨reader, size, span, rfl, rfl, hmust, hopens⟩
          · refine .inr ⟨?_, hidle⟩
            rintro _ _ span ⟨⟩ ⟨⟩
            apply hspared span
      | drain size => exact absurd rfl (hcommand size)
      | moveTo offset =>
          exact .inr ⟨by simp, Reader.idle_moveTo offset reader family.feed⟩
      | seek target =>
          exact .inr ⟨by simp, Reader.idle_seek target reader family.feed⟩
      | copy offset =>
          refine .inr ⟨by simp, ?_⟩
          dsimp only
          split <;> apply Feed.Idle.refl
      | close =>
          exact .inr ⟨by simp, Reader.idle_release reader family.feed⟩
      | drop =>
          refine .inr ⟨by simp, ?_⟩
          simp only [remove, hmember]
          split <;> exact ⟨rfl, rfl⟩

/-- In a new family no source has been found. -/
theorem slotted_start (world : W) :
  (start setting.observed ⟨world, []⟩).feed.Slotted setting.piece
  := by
  refine ⟨?_, ?_, fun block handle hblock => ?_⟩
  · apply List.length_replicate
  · have hnone : (start setting.observed ⟨world, []⟩).feed.handles.filterMap id = [] := by
      apply List.filterMap_eq_nil_iff.mpr
      intro handle hmem
      apply List.eq_of_mem_replicate hmem
    rw [hnone]
    apply List.Perm.refl
  · cases List.eq_of_mem_replicate (List.mem_of_getElem? hblock)

/-- Sources are called only where a member has to open a stream for a run.  Then the source found
for the run is asked for the range; only where none has been found for the run is one looked for.  A
source that is found stays remembered for the run, by all members, and for no other run. -/
theorem sources_looked_for {plan : Plan} (hbuild : plan.build = .ok setting.piece) (world : W)
    (commands : List (Nat × Command)) :
  let observed := (start setting.observed ⟨world, []⟩).runAll setting.observed commands
  let family := observed.2
  observed.1 = ((start setting world).runAll setting commands).1
    ∧ ((family.feed.handles.filterMap id).map (·.number)).Perm (List.range family.feed.world.finds)
    ∧ (∀ (block : Nat) (handle : ObservedSource H),
        family.feed.handles[block]? = some (some handle) →
        (∃ run, setting.piece.blocks[block]? = some (.run run)
          ∧ .resolved run.source (some handle.number) ∈ family.feed.world.calls)
        ∧ ∀ more, (family.runAll setting.observed more).2.feed.handles[block]? = some (some handle))
    ∧ (∀ index command, (∀ size, command ≠ .drain size) →
        let after := (family.run setting.observed index command).2.feed
        (∃ reader size span, family.member? index = some reader ∧ command = .read size
            ∧ reader.MustOpen setting.piece size span ∧ setting.OpensFor span family.feed after)
          ∨ (∀ reader size span, family.member? index = some reader → command = .read size →
              ¬ reader.MustOpen setting.piece size span)
            ∧ family.feed.Idle after)
    ∧ ∀ index size, ∃ count, (family.run setting.observed index (.drain size)).2
        = (family.runAll setting.observed (List.replicate count (index, .read size))).2
  := by
  intro observed family
  have hlaid := Plan.laid_of_build hbuild
  have hslotted : family.feed.Slotted setting.piece :=
    Setting.slotted_of_leads (leads_runAll commands _) (slotted_start world)
  have hlaid' : setting.observed.piece.Laid := hlaid
  have hstands : family.Stands setting.piece :=
    stands_runAllBy (.atOnce _) hlaid' (stands_start hlaid' _) commands
  refine ⟨runAll_observed.1, hslotted.numbers_perm, fun block handle hblock => ?_,
    fun index command hcommand => opensFor_or_idle_run hlaid hstands index hcommand,
    exists_reads_of_drain family⟩
  refine ⟨hslotted.exists_run block handle hblock, fun more => ?_⟩
  apply Setting.kept_of_leads (leads_runAll more family) hblock

/-- A source that is not found at first, a copy that finds it, another copy that uses it again, and
a second run of the same source. -/
theorem sources_looked_for_twice :
  let plan : Plan :=
    ⟨[], 2, [.item 0 [] [] ⟨0⟩ ⟨⟨1⟩, "a", 1⟩ 0 1, .item 1 [] [] ⟨0⟩ ⟨⟨2⟩, "b", 1⟩ 0 1]⟩
  let runs : List ItemRun :=
    [⟨⟨0⟩, ⟨⟨1⟩, "a", 1⟩, ⟨⟨0, [], []⟩, 0, 1⟩, []⟩, ⟨⟨0⟩, ⟨⟨2⟩, "b", 1⟩, ⟨⟨1, [], []⟩, 0, 1⟩, []⟩]
  let failure : SourceError := .io ⟨.other, "gone"⟩
  let registry : Registry ScriptedSource :=
    ⟨[(⟨0⟩, ⟨.memory ⟨[("a", [10]), ("b", [20])]⟩, [some failure], []⟩)]⟩
  let setting : Setting (Registry ScriptedSource) SourceId ScriptedStream :=
    ⟨Registry.supply, ⟨[], 2, runs.map .run⟩, .standard, .blocking⟩
  let commands : List (Nat × Command) :=
    [(0, .read 1), (0, .copy 0), (1, .read 1), (1, .read 1), (1, .copy 0), (2, .read 1)]
  let family := ((start setting.observed ⟨registry, []⟩).runAll setting.observed commands).2
  plan.build = .ok setting.piece
    ∧ family.feed.world.calls
        = [.resolved ⟨0⟩ none, .resolved ⟨0⟩ (some 0), .opened 0 "a" 0 1 true,
            .resolved ⟨0⟩ (some 1), .opened 1 "b" 0 1 true, .opened 0 "a" 0 1 true]
    ∧ ((family.feed.handles.filterMap id).map (·.number)).Perm [0, 1]
    ∧ ∃ handle, handle.number = 0
        ∧ ∀ more, (family.runAll setting.observed more).2.feed.handles[0]? = some (some handle)
  := by
  intro plan runs failure registry setting commands family
  have hbuild : plan.build = .ok setting.piece := rfl
  have hcalls : family.feed.world.calls
      = [.resolved ⟨0⟩ none, .resolved ⟨0⟩ (some 0), .opened 0 "a" 0 1 true,
          .resolved ⟨0⟩ (some 1), .opened 1 "b" 0 1 true, .opened 0 "a" 0 1 true] := by
    simp only [family, commands, setting, registry, failure, runs]
    cbv
  have hfirst : (family.feed.handles[0]?.join.map (·.number)) = some 0 := by
    simp only [family, commands, setting, registry, failure, runs]
    cbv
  obtain ⟨-, hperm, hkept, -⟩ := sources_looked_for hbuild registry commands
  have hperm : ((family.feed.handles.filterMap id).map (·.number)).Perm
      (List.range (family.feed.world.calls.countP Call.isFind)) := hperm
  rw [hcalls] at hperm
  obtain ⟨handle, hhandle, hnumber⟩ := Option.map_eq_some_iff.mp hfirst
  exact ⟨hbuild, hcalls, hperm, handle, hnumber,
    (hkept 0 handle (Option.join_eq_some_iff.mp hhandle)).2⟩

end Family

end PieceStream
