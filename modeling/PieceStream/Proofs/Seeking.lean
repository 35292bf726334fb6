import PieceStream.Proofs.Custody
import PieceStream.Proofs.Solitude
import PieceStream.Proofs.StrictLayout

/-!
# Seeking

Where a reader seeks to is computed in the integers.  Within the piece it is then as a copy made
there, but poisoned if it was before; beyond the piece it is as if nothing had been said.  That a
reader does as another follows from its state alone: what has been recorded so far decides nothing.
-/

namespace PieceStream

variable {W H S : Type}

/-- The feed with older events below its own. -/
def Feed.over (older : List Event) (feed : Feed W H) : Feed W H :=
  { feed with latest := feed.latest ++ older }

/-- The feeds differ in nothing but the older events below those of one feed. -/
def Feed.SameOver (older older' : List Event) (f g : Feed W H) : Prop :=
  ∃ feed : Feed W H, f = feed.over older ∧ g = feed.over older'

variable {setting : Setting W H S} {feed : Feed W H} {older older' : List Event}

/-! ### What has been recorded -/

namespace Feed

theorem note_over (note : Note) :
  (feed.over older).note note = (feed.note note).over older
  := rfl

theorem notes_over (notes : List Note) (feed : Feed W H) :
  notes.foldl Feed.note (feed.over older) = (notes.foldl Feed.note feed).over older
  := by
  induction notes generalizing feed with
  | nil => rfl
  | cons note notes ih => rw [List.foldl_cons, note_over, ih, List.foldl_cons]

end Feed

namespace Setting

/-- Whether a source is found does not depend on what has been recorded. -/
theorem sourceFor_over (span : PayloadRest) :
  setting.sourceFor span (feed.over older)
    = ((setting.sourceFor span feed).1, (setting.sourceFor span feed).2.over older)
  := by
  have hhandles : (feed.over older).handles = feed.handles := rfl
  have hworld : (feed.over older).world = feed.world := rfl
  rw [sourceFor, sourceFor, hhandles, hworld]
  cases feed.handles[span.block]?.join with
  | some handle => rfl
  | none =>
      rcases setting.supply.resolve span.run.source feed.world with ⟨e | handle, world⟩
      · rfl
      · rfl

/-- Whether a range is opened does not depend on what has been recorded. -/
theorem openFor_over (span : PayloadRest) :
  setting.openFor span (feed.over older)
    = ((setting.openFor span feed).1, (setting.openFor span feed).2.over older)
  := by
  rw [openFor, openFor, sourceFor_over]
  rcases setting.sourceFor span feed with ⟨e | handle, feed⟩
  · rfl
  · have hannounced : setting.announce span (feed.over older)
        = (setting.announce span feed).over older := rfl
    have hworld : ((setting.announce span feed).over older).world
        = (setting.announce span feed).world := rfl
    dsimp only
    rw [hannounced, openFrom, openFrom, hworld]
    rcases setting.supply.openRange handle span.path span.itemOffset (setting.lengthFor span)
      (setting.announce span feed).world with ⟨outcome, notes, world⟩
    have hnotes : notes.foldl Feed.note
          ({ setting.announce span feed with world := world }.over older)
        = (notes.foldl Feed.note { setting.announce span feed with world := world }).over older :=
      Feed.notes_over notes _
    cases outcome with
    | error e => exact congrArg _ hnotes
    | ok stream => exact congrArg _ hnotes

/-- What a stream answers does not depend on what has been recorded. -/
theorem ask_over (purpose : Purpose) (size : Nat) (item : HeldStream S) :
  setting.supply.ask purpose size item (feed.over older)
    = ((setting.supply.ask purpose size item feed).1,
        (setting.supply.ask purpose size item feed).2.1,
        (setting.supply.ask purpose size item feed).2.2.over older)
  := rfl

/-- Readers that are the same are alike, whatever has been recorded before. -/
theorem exists_likeness_over (setting : Setting W H S) (older older' : List Event) :
  ∃ likeness : setting.Likeness setting, likeness.Feeds = Feed.SameOver older older'
    ∧ ∀ {pos : Nat} {item other : HeldStream S}, likeness.Streams pos item other ↔ other = item
  := by
  refine ⟨⟨rfl, rfl, Feed.SameOver older older', fun _ item other => other = item, ?note, ?drop,
    ?place_eq, fun heq _ _ => heq, ?openFor, ?ask⟩, rfl, Iff.rfl⟩
  case note =>
      rintro _ _ note ⟨feed, rfl, rfl⟩
      exact ⟨feed.note note, rfl, rfl⟩
  case drop =>
      rintro _ _ pos item _ ⟨feed, rfl, rfl⟩ rfl
      exact ⟨feed.drop _, rfl, rfl⟩
  case place_eq =>
      rintro _ _ _ rfl
      exact ⟨rfl, rfl⟩
  case openFor =>
      rintro pos span _ _ - ⟨feed, rfl, rfl⟩
      refine ⟨_, _, _, _, openFor_over span, openFor_over span, ?_, _, rfl, rfl⟩
      cases (setting.openFor span feed).1 with
      | error e => apply SameOutcome.error
      | ok item => exact .ok rfl
  case ask =>
      rintro pos size span _ item _ _ purpose - rfl - - ⟨feed, rfl, rfl⟩
      exact ⟨_, _, _, _, _, ask_over purpose size item, ask_over purpose size item, rfl, _, rfl,
        rfl⟩

end Setting

/-! ### Families that go on alike -/

namespace Family

variable {F G : Family W H S} {reader : Reader S} {index : Nat}
  {read : Nat → Reader S → Feed W H → Except ReadError Bytes × Reader S × Feed W H}

/-- These commands come to the same in both families: they are answered alike, lead to the same
members, the same world and the same sources found, and add the same events. -/
structure GoesOnAs (setting : Setting W H S)
    (read : Nat → Reader S → Feed W H → Except ReadError Bytes × Reader S × Feed W H)
    (commands : List (Nat × Command)) (F G : Family W H S) : Prop where
  replies_eq : (F.runAllBy setting read commands).1 = (G.runAllBy setting read commands).1
  members_eq : (F.runAllBy setting read commands).2.members
    = (G.runAllBy setting read commands).2.members
  world_eq : (F.runAllBy setting read commands).2.feed.world
    = (G.runAllBy setting read commands).2.feed.world
  handles_eq : (F.runAllBy setting read commands).2.feed.handles
    = (G.runAllBy setting read commands).2.feed.handles
  events : ∃ made,
    (F.runAllBy setting read commands).2.feed.latest = made ++ F.feed.latest
      ∧ (G.runAllBy setting read commands).2.feed.latest = made ++ G.feed.latest

/-- Families of the same members go on alike, whatever has been recorded so far. -/
theorem goesOnAs_of_members_eq (hlaid : setting.piece.Laid) (hreads : Reader.Reads setting read)
    (hstands : F.Stands setting.piece) (hmembers : G.members = F.members)
    (hworld : G.feed.world = F.feed.world) (hhandles : G.feed.handles = F.feed.handles)
    (commands : List (Nat × Command)) :
  F.GoesOnAs setting read commands G
  := by
  obtain ⟨likeness, hfeeds, hstreams⟩ :=
    setting.exists_likeness_over F.feed.latest G.feed.latest
  have hmatch {twin reader : Reader S} :
      likeness.Match reader twin ↔ twin = reader ∧ ∃ pos, reader.StandsAt setting.piece pos :=
    Setting.Likeness.match_iff_eq hstreams
  have hfamilies : likeness.Families F G := by
    constructor
    case members =>
        rw [hmembers, List.forall₂_same]
        intro member hmem
        cases member with
        | none => exact .none
        | some reader => exact .some (hmatch.mpr ⟨rfl, hstands reader hmem⟩)
    case feeds =>
        rw [hfeeds]
        refine ⟨⟨F.feed.world, F.feed.handles, []⟩, rfl, ?_⟩
        rw [← hworld, ← hhandles]
        rfl
  obtain ⟨replies, F', G', hF, hG, h'⟩ := hfamilies.runAllBy hlaid (hreads.alike hlaid) commands
  have hsame : G'.members.map (Option.map id) = F'.members.map (Option.map id) :=
    h'.map_eq fun h => (hmatch.mp h).1
  obtain ⟨feed, hfeed, hfeed'⟩ : Feed.SameOver F.feed.latest G.feed.latest F'.feed G'.feed :=
    hfeeds ▸ h'.feeds
  rw [Option.map_id, List.map_id, List.map_id] at hsame
  constructor
  case replies_eq => rw [hF, hG]
  case members_eq => rw [hF, hG, hsame]
  case world_eq => rw [hF, hG, hfeed, hfeed']; rfl
  case handles_eq => rw [hF, hG, hfeed, hfeed']; rfl
  case events =>
      rw [hF, hG, hfeed, hfeed']
      exact ⟨feed.latest, rfl, rfl⟩

end Family

/-! ### Seeks -/

namespace Reader

variable {reader : Reader S} {target : SeekTarget} {offset : Nat}

/-- To give a stream up changes neither the world nor the sources found. -/
theorem feed_release :
  (reader.release feed).2.world = feed.world ∧ (reader.release feed).2.handles = feed.handles
  := by
  rw [release]
  cases reader.held with
  | none => exact ⟨rfl, rfl⟩
  | some item => exact ⟨rfl, rfl⟩

/-- Within the piece a copy can be made: a new reader at the offset. -/
theorem copyAt_of_le (h : offset ≤ setting.piece.size) :
  (copyAt setting offset : Except ReadError (Reader S)) = .ok (startAt setting offset)
  := by
  rw [copyAt, checkReach, if_neg (Nat.not_lt_of_le h)]

/-- Within the piece a reader that moves is then as a new one, but poisoned if it was before. -/
theorem moveTo_of_le (h : offset ≤ setting.piece.size) :
  reader.moveTo setting offset feed
    = (.ok (), { startAt setting offset with poisoned := reader.poisoned },
        (reader.release feed).2.note (.repositioned setting.manner offset))
  := by
  rw [moveTo, checkReach, if_neg (Nat.not_lt_of_le h)]
  simp only [release_fst]
  rfl

/-- Beyond the piece a reader is left as it is. -/
theorem moveTo_of_lt (h : setting.piece.size < offset) :
  reader.moveTo setting offset feed
    = (.error (.seekOutOfRange offset setting.piece.size), reader, feed)
  := by
  rw [moveTo, checkReach, if_pos h]

/-- Within the piece a reader that seeks is then as a new one, but poisoned if it was before. -/
theorem seek_of_within (hsize : setting.piece.size < wordLimit)
    (hle : 0 ≤ targetPosition setting target reader)
    (hreach : targetPosition setting target reader ≤ setting.piece.size) :
  let goal := (targetPosition setting target reader).toNat
  reader.seek setting target feed
    = (.ok goal, { startAt setting goal with poisoned := reader.poisoned },
        (reader.release feed).2.note (.repositioned setting.manner goal))
  := by
  intro goal
  have hgoal : goal ≤ setting.piece.size := Int.toNat_le.mpr hreach
  have hword : ¬ (targetPosition setting target reader < 0
      ∨ (wordLimit : Int) ≤ targetPosition setting target reader) := by
    omega
  rw [seek, if_neg hword, moveTo_of_le hgoal]

/-- Beyond the piece a reader that seeks is left as it is. -/
theorem seek_of_beyond (hlt : setting.piece.size < targetPosition setting target reader)
    (hword : targetPosition setting target reader < wordLimit) :
  let goal := (targetPosition setting target reader).toNat
  reader.seek setting target feed
    = (.error (.outOfReach (.seekOutOfRange goal setting.piece.size)), reader, feed)
  := by
  intro goal
  have hgoal : setting.piece.size < goal := Int.lt_toNat.mpr hlt
  have hword : ¬ (targetPosition setting target reader < 0
      ∨ (wordLimit : Int) ≤ targetPosition setting target reader) := by
    omega
  rw [seek, if_neg hword, moveTo_of_lt hgoal]

/-- A reader that seeks what is not a word is left as it is. -/
theorem seek_of_not_word (h : targetPosition setting target reader < 0
    ∨ (wordLimit : Int) ≤ targetPosition setting target reader) :
  reader.seek setting target feed = (.error .invalidPosition, reader, feed)
  := by
  rw [seek, if_pos h]

end Reader

namespace Family

variable {F : Family W H S} {reader : Reader S} {target : SeekTarget} {index : Nat}
  {read : Nat → Reader S → Feed W H → Except ReadError Bytes × Reader S × Feed W H}

/-- A member that is told to seek comes to what its reader comes to. -/
theorem runBy_seek (hmember : F.member? index = some reader) :
  F.runBy setting read index (.seek target)
    = (.sought (reader.seek setting target F.feed).1,
        F.update index (reader.seek setting target F.feed).2.1
          (reader.seek setting target F.feed).2.2)
  := by
  rw [runBy, hmember]

/-- Where a reader is left as it is by a seek, so is the family. -/
theorem runBy_seek_of_error {e : SeekError} (hmember : F.member? index = some reader)
    (h : reader.seek setting target F.feed = (.error e, reader, F.feed)) :
  F.runBy setting read index (.seek target) = (.sought (.error e), F)
  := by
  rw [runBy_seek hmember, h]
  dsimp only
  rw [update_self hmember]

/-- A reader that has given a stream up before it takes the place of a member goes on as one that
had none, whatever has been noted. -/
theorem goesOnAs_of_release {sought : Reader S} {pos : Nat} (note : Note)
    (hlaid : setting.piece.Laid) (hreads : Reader.Reads setting read)
    (hstands : F.Stands setting.piece) (hsought : sought.StandsAt setting.piece pos)
    (commands : List (Nat × Command)) :
  (F.update index sought ((reader.release F.feed).2.note note)).GoesOnAs setting read commands
    (F.update index sought F.feed)
  := by
  have hmembers : (F.update index sought F.feed).members
      = (F.update index sought ((reader.release F.feed).2.note note)).members := rfl
  obtain ⟨hworld, hhandles⟩ : (reader.release F.feed).2.world = F.feed.world
      ∧ (reader.release F.feed).2.handles = F.feed.handles := Reader.feed_release
  apply goesOnAs_of_members_eq hlaid hreads _ hmembers hworld.symm hhandles.symm
  apply stands_update hstands index hsought

/-- Where a member is told to seek is an integer: an offset, or so much more or less than the size
of the piece or than the place where the member stands.  Within the piece the member comes there and
goes on as if a copy made there stood in its place, poisoned if the member is.  Elsewhere the input
is invalid, whether it is no word or merely beyond the piece, and the whole family is as it was. -/
theorem seek_follows_integers {plan : Plan} (hbuild : plan.build = .ok setting.piece)
    (hreads : Reader.Reads setting read) (world : W) {done : List (Nat × Command)}
    (hmember : ((start setting world).runAllBy setting read done).2.member? index = some reader)
    {target : SeekTarget} {goal : Int}
    (hgoal : (∃ offset : Nat, target = .fromStart offset ∧ goal = (offset : Int))
      ∨ (∃ delta : Int, target = .fromEnd delta ∧ goal = (setting.piece.size : Int) + delta)
      ∨ ∃ delta : Int, target = .fromHere delta ∧ goal = (reader.position : Int) + delta) :
  let reached := ((start setting world).runAllBy setting read done).2
  (0 ≤ goal ∧ goal ≤ setting.piece.size → ∃ copy after,
      Reader.copyAt setting goal.toNat = .ok copy
        ∧ copy.held = none ∧ copy.position = goal.toNat ∧ copy.poisoned = false
        ∧ reached.runBy setting read index (.seek target) = (.sought (.ok goal.toNat), after)
        ∧ after.member? index = some { copy with poisoned := reader.poisoned }
        ∧ ∀ more, after.GoesOnAs setting read more
            (reached.update index { copy with poisoned := reader.poisoned } reached.feed))
    ∧ (¬ (0 ≤ goal ∧ goal ≤ setting.piece.size) → ∃ e,
      reached.runBy setting read index (.seek target) = (.sought (.error e), reached)
        ∧ e.ioKind = .invalidInput
        ∧ (goal < 0 ∨ (wordLimit : Int) ≤ goal → e = .invalidPosition)
        ∧ (0 ≤ goal ∧ goal < (wordLimit : Int) →
            e = .outOfReach (.seekOutOfRange goal.toNat setting.piece.size)))
  := by
  intro reached
  obtain rfl : Reader.targetPosition setting target reader = goal := by
    rcases hgoal with ⟨offset, rfl, rfl⟩ | ⟨delta, rfl, rfl⟩ | ⟨delta, rfl, rfl⟩
    · rfl
    · rfl
    · rfl
  let goal := Reader.targetPosition setting target reader
  have hlaid := Plan.laid_of_build hbuild
  have hsize : setting.piece.size < wordLimit := (Plan.fits_of_build hbuild).size_lt
  have hreached : reached.Stands setting.piece :=
    fun other hmem => ⟨_, (every_attended hlaid hreads world done other hmem).toStandsAt⟩
  constructor
  · rintro ⟨hle, hreach⟩
    have hgoal : goal.toNat ≤ setting.piece.size := Int.toNat_le.mpr hreach
    let sought : Reader S :=
      { Reader.startAt setting goal.toNat with poisoned := reader.poisoned }
    have hsought : sought.StandsAt setting.piece goal.toNat :=
      Reader.standsAt_of_held_eq_none (Cursor.locate_eq hlaid hgoal) hgoal rfl
    let feed := (reader.release reached.feed).2.note (.repositioned setting.manner goal.toNat)
    have hrun : reached.runBy setting read index (.seek target)
        = (.sought (.ok goal.toNat), reached.update index sought feed) := by
      rw [runBy_seek hmember, Reader.seek_of_within hsize hle hreach]
    exact ⟨_, _, Reader.copyAt_of_le hgoal, rfl,
      (Reader.standsAt_startAt hlaid hgoal).position_eq, rfl, hrun, member?_update hmember,
      goesOnAs_of_release _ hlaid hreads hreached hsought⟩
  · intro hout
    by_cases hword : goal < 0 ∨ (wordLimit : Int) ≤ goal
    · refine ⟨_, runBy_seek_of_error hmember (Reader.seek_of_not_word hword), rfl, fun _ => rfl,
        fun hin => ?_⟩
      omega
    · have hlt : (setting.piece.size : Int) < goal := by omega
      have hlimit : goal < (wordLimit : Int) := by omega
      exact ⟨_, runBy_seek_of_error hmember (Reader.seek_of_beyond hlt hlimit), rfl,
        fun h => absurd h hword, fun _ => rfl⟩

/-- A reader in the middle of a payload seeks to an offset, beyond the end, before the start, and a
byte back. -/
theorem seek_follows_integers_within_payload :
  let piece : Piece := ⟨[1], 4, [.run ⟨⟨0⟩, ⟨⟨1⟩, "a", 3⟩, ⟨⟨1, [], []⟩, 0, 3⟩, []⟩]⟩
  let plan : Plan := ⟨[1], 4, [.item 1 [] [] ⟨0⟩ ⟨⟨1⟩, "a", 3⟩ 0 3]⟩
  let registry : Registry ScriptedSource := ⟨[(⟨0⟩, ⟨.memory ⟨[("a", [10, 11, 12])]⟩, [], []⟩)]⟩
  let setting : Setting (Registry ScriptedSource) SourceId ScriptedStream :=
    ⟨Registry.supply, piece, .standard, .blocking⟩
  let read : Nat → Reader ScriptedStream → Feed (Registry ScriptedSource) SourceId →
      Except ReadError Bytes × Reader ScriptedStream × Feed (Registry ScriptedSource) SourceId :=
    fun size reader feed => reader.read setting size feed
  let reached := ((start setting registry).runAllBy setting read [(0, .read 3)]).2
  plan.build = .ok setting.piece ∧ Reader.Reads setting read
    ∧ reached.member? 0 = some ⟨⟨3, 0, 0⟩, some ⟨0, ⟨0⟩, 2, ⟨.buffer [12], []⟩⟩, false⟩
    ∧ reached.runBy setting read 0 (.seek (.fromEnd 1))
      = (.sought (.error (.outOfReach (.seekOutOfRange 5 4))), reached)
    ∧ reached.runBy setting read 0 (.seek (.fromHere (-4)))
      = (.sought (.error .invalidPosition), reached)
    ∧ (∃ after, reached.runBy setting read 0 (.seek (.fromStart 1)) = (.sought (.ok 1), after)
        ∧ after.GoesOnAs setting read [(0, .read 2)]
            (reached.update 0 (Reader.startAt setting 1) reached.feed))
    ∧ ∃ after, reached.runBy setting read 0 (.seek (.fromHere (-1))) = (.sought (.ok 2), after)
        ∧ after.GoesOnAs setting read [(0, .read 9), (0, .copy 0), (1, .drain 2)]
            (reached.update 0 (Reader.startAt setting 2) reached.feed)
  := by
  intro piece plan registry setting read reached
  have hbuild : plan.build = .ok setting.piece := rfl
  have hreads : Reader.Reads setting read := .atOnce setting
  have hmember : reached.member? 0
      = some ⟨⟨3, 0, 0⟩, some ⟨0, ⟨0⟩, 2, ⟨.buffer [12], []⟩⟩, false⟩ := by
    simp only [reached, read, setting, registry, piece]
    cbv
  obtain ⟨e, hbeyond, -, -, he⟩ := (seek_follows_integers hbuild hreads registry hmember
    (.inr (.inl ⟨1, rfl, rfl⟩))).2 (by decide)
  obtain ⟨e', hbefore, -, he', -⟩ := (seek_follows_integers hbuild hreads registry hmember
    (.inr (.inr ⟨-4, rfl, rfl⟩))).2 (by decide)
  obtain ⟨copy, after, hcopy, -, -, -, hstart, -, hgoes⟩ :=
    (seek_follows_integers hbuild hreads registry hmember (.inl ⟨1, rfl, rfl⟩)).1 (by decide)
  obtain ⟨copy', after', hcopy', -, -, -, hback, -, hgoes'⟩ :=
    (seek_follows_integers hbuild hreads registry hmember (.inr (.inr ⟨-1, rfl, rfl⟩))).1
      (by decide)
  cases he (by decide)
  cases he' (by decide)
  cases hcopy
  cases hcopy'
  exact ⟨hbuild, hreads, hmember, hbeyond, hbefore, ⟨after, hstart, hgoes _⟩, after', hback,
    hgoes' _⟩

end Family

end PieceStream
