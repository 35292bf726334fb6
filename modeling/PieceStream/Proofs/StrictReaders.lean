import PieceStream.Proofs.StrictStreams
import PieceStream.Reading.Family

/-!
# Strict arithmetic of readers

A reader counts the bytes that it hands out and the room that is left for more.  It breaches nothing
if its cursor is settled within a piece that fits, and whatever it is told to do its cursor stays
settled there.  What a family of readers is told breaches nothing if its readers read strictly.
-/

namespace PieceStream

variable {W H S : Type}

/-! ### Readers -/

namespace Reader

/-- What a reader has gathered, and how it and its feed stand then. -/
abbrev Outcome (W H S : Type) := Except ReadError Bytes × Reader S × Feed W H

variable (setting : Setting W H S)

/-- A reader at an offset. -/
def strictStartAt (offset : Nat) : Strict (Reader S) := do
  return ⟨← Cursor.strictLocate setting.piece offset, none, false⟩

/-- Moves `n` bytes forward and gives the stream up when a run is left behind. -/
def strictAdvance (n : Nat) (reader : Reader S) (feed : Feed W H) :
    Strict (Reader S × Feed W H) := do
  let (cursor, left) ← reader.cursor.strictAdvance setting.piece n
  let reader := { reader with cursor := cursor }
  return if left then reader.release feed else (reader, feed)

/-- A reader after payload bytes have been asked for. -/
def strictTakeIn (reader : Reader S) :
    Except ReadError Bytes × Option (HeldStream S) × Feed W H → Strict (Outcome W H S)
  | (.error e, held, feed) => return (.error e, { reader with held := held }, feed)
  | (.ok bytes, held, feed) => do
    let (reader, feed) ← { reader with held := held }.strictAdvance setting bytes.length feed
    return (.ok bytes, reader, feed)

/-- Fills a buffer of `room` bytes: bytes in memory as far as they go, and after them what one
question for payload bytes yields. -/
def strictGather (room : Nat) (reader : Reader S) (feed : Feed W H) : Strict (Outcome W H S) := do
  if room = 0 then return (.ok [], reader, feed)
  else
    match ← reader.cursor.strictSegment setting.piece with
    | .finish => return (.ok [], reader, feed)
    | .bytes available =>
      let copied ← Strict.take (min available.length room) available
      let rest ← Strict.shrink room copied.length
      let (reader, feed) ← reader.strictAdvance setting copied.length feed
      let (more, reader, feed) ← strictGather rest reader feed
      return (more.map (copied ++ ·), reader, feed)
    | .payload span =>
      reader.strictTakeIn setting (← setting.strictTakePayload reader.held span room feed)
termination_by room
decreasing_by apply rest.property

/-- Hands out at most `size` bytes. -/
def strictRead (size : Nat) (reader : Reader S) (feed : Feed W H) : Strict (Outcome W H S) := do
  if reader.poisoned then return (.error .poisoned, reader, feed)
  else return poisonOnError setting (← reader.strictGather setting size feed)

/-- Reads into a buffer of `size` bytes until there are no bytes or a read fails, for at most
`calls` times. -/
def strictDrainWithin (size : Nat) (read : Reader S → Feed W H → Strict (Outcome W H S)) :
    Nat → Reader S → Feed W H → Strict (List Bytes × Option ReadError × Reader S × Feed W H)
  | 0, reader, feed => return ([], none, reader, feed)
  | calls + 1, reader, feed => do
    match ← read reader feed with
    | (.error e, reader, feed) => return ([], some e, reader, feed)
    | (.ok [], reader, feed) => return ([[]], none, reader, feed)
    | (.ok (b :: bs), reader, feed) =>
      let _ ← Strict.within (b :: bs).length size
      let (rest, failure, reader, feed) ← strictDrainWithin size read calls reader feed
      return ((b :: bs) :: rest, failure, reader, feed)

/-- Reads into a buffer of `size` bytes until there are no bytes or a read fails. -/
def strictDrain (size : Nat) (read : Reader S → Feed W H → Strict (Outcome W H S))
    (reader : Reader S) (feed : Feed W H) :
    Strict (List Bytes × Option ReadError × Reader S × Feed W H) :=
  strictDrainWithin size read (setting.piece.size - reader.position + 1) reader feed

/-- Moves to an offset and gives the stream up. -/
def strictMoveTo (offset : Nat) (reader : Reader S) (feed : Feed W H) :
    Strict (Except ReadError Unit × Reader S × Feed W H) := do
  match checkReach setting offset with
  | .error e => return (.error e, reader, feed)
  | .ok () =>
    let (reader, feed) := reader.release feed
    let cursor ← Cursor.strictLocate setting.piece offset
    return (.ok (), { reader with cursor := cursor },
      feed.note (.repositioned setting.manner offset))

/-- Moves to a target and returns the position reached. -/
def strictSeek (target : SeekTarget) (reader : Reader S) (feed : Feed W H) :
    Strict (Except SeekError Nat × Reader S × Feed W H) := do
  let position := targetPosition setting target reader
  if position < 0 ∨ (wordLimit : Int) ≤ position then
    return (.error .invalidPosition, reader, feed)
  else
    match ← reader.strictMoveTo setting position.toNat feed with
    | (.error e, reader, feed) => return (.error (.outOfReach e), reader, feed)
    | (.ok (), reader, feed) => return (.ok position.toNat, reader, feed)

/-- A further reader of the piece, at an offset. -/
def strictCopyAt (offset : Nat) : Strict (Except ReadError (Reader S)) := do
  match checkReach setting offset with
  | .error e => return .error e
  | .ok () => return .ok (← strictStartAt setting offset)

/-- The cursor of the reader is settled within the piece. -/
def Placed (piece : Piece) (reader : Reader S) : Prop :=
  ∃ pos ≤ piece.size, reader.cursor = Cursor.settled piece pos

/-- A strict reading of at most `size` bytes breaches nothing, and leaves the reader placed. -/
structure Sound (piece : Piece) (size : Nat) (strict : Strict (Outcome W H S))
    (outcome : Outcome W H S) : Prop where
  eq_ok : strict = .ok outcome
  placed : outcome.2.1.Placed piece
  length_le : ∀ bytes, outcome.1 = .ok bytes → bytes.length ≤ size

variable {setting} {reader : Reader S} {feed : Feed W H} {span : PayloadRest}
  {pos size room : Nat}

/-- A reader at an offset of the piece is placed. -/
theorem placed_locate (hfits : setting.piece.Fits) {offset : Nat}
    (hoffset : offset ≤ setting.piece.size)
    (hcursor : reader.cursor = Cursor.locate setting.piece offset) :
  reader.Placed setting.piece
  := ⟨offset, hoffset, hcursor.trans (Cursor.locate_eq hfits.laid hoffset)⟩

/-- A reader that gives its stream up stays placed. -/
theorem placed_release (h : reader.Placed setting.piece) (feed : Feed W H) :
  (reader.release feed).1.Placed setting.piece
  := by
  rw [release_fst]
  apply h

/-- To start breaches nothing. -/
theorem strictStartAt_eq (hfits : setting.piece.Fits) (offset : Nat) :
  strictStartAt setting offset = .ok (startAt setting offset : Reader S)
  := by
  rw [strictStartAt, Cursor.strictLocate_eq hfits]
  rfl

/-- To go forward within the piece breaches nothing. -/
theorem strictAdvance_eq (hfits : setting.piece.Fits) {n : Nat}
    (hcursor : reader.cursor = Cursor.settled setting.piece pos)
    (hpos : pos + n ≤ setting.piece.size) (feed : Feed W H) :
  reader.strictAdvance setting n feed = .ok (reader.advance setting n feed)
    ∧ (reader.advance setting n feed).1.cursor = Cursor.settled setting.piece (pos + n)
  := by
  have hword : reader.cursor.pos + n < wordLimit := by
    rw [hcursor]
    apply Nat.lt_of_le_of_lt hpos hfits.size_lt
  constructor
  · rw [strictAdvance, Cursor.strictAdvance_eq hfits hword]
    rfl
  · simp only [advance, hcursor]
    split
    · rw [release_fst]
      apply Cursor.advance_settled hfits.laid
    · apply Cursor.advance_settled hfits.laid

/-- Bytes gathered before leave the rest of the room to those that come after. -/
theorem Sound.after {copied : Bytes} {strict : Strict (Outcome W H S)} {outcome : Outcome W H S}
    (h : Sound setting.piece (room - copied.length) strict outcome) (hlen : copied.length ≤ room) :
  Sound setting.piece room
    (do
      let (more, reader, feed) ← strict
      return (more.map (copied ++ ·), reader, feed))
    (outcome.1.map (copied ++ ·), outcome.2)
  := by
  constructor
  case eq_ok =>
      rw [h.eq_ok]
      rfl
  case placed => apply h.placed
  case length_le =>
      intro bytes hbytes
      cases hmore : outcome.1 with
      | error e =>
          rw [hmore] at hbytes
          cases hbytes
      | ok more =>
          rw [hmore] at hbytes
          cases hbytes
          have hle := h.length_le more hmore
          rw [List.length_append]
          omega

/-- To take payload bytes in breaches nothing. -/
theorem sound_takeIn (hfits : setting.piece.Fits)
    (hcursor : reader.cursor = Cursor.settled setting.piece pos)
    (hspan : span.At setting.piece pos) (room : Nat) (feed : Feed W H) :
  Sound setting.piece room
    (reader.strictTakeIn setting (setting.takePayload reader.held span room feed))
    (reader.takeIn setting (setting.takePayload reader.held span room feed))
  := by
  have hpos : pos ≤ setting.piece.size :=
    Nat.le_trans (Nat.le_add_right _ _) (hspan.le_size hfits.laid)
  rcases htake : setting.takePayload reader.held span room feed with ⟨_ | bytes, held, feed'⟩
  · exact ⟨rfl, ⟨pos, hpos, hcursor⟩, nofun⟩
  · have hlen : bytes.length ≤ min span.remaining room := Setting.length_le_of_askFor htake
    have hend : pos + bytes.length ≤ setting.piece.size := by
      have hsize := hspan.le_size hfits.laid
      omega
    have hcursor' : ({ reader with held := held } : Reader S).cursor
        = Cursor.settled setting.piece pos := hcursor
    have hadvance := strictAdvance_eq hfits hcursor' hend feed'
    constructor
    case eq_ok =>
        rw [strictTakeIn, hadvance.1]
        rfl
    case placed => exact ⟨pos + bytes.length, hend, hadvance.2⟩
    case length_le =>
        rintro _ ⟨⟩
        apply Nat.le_trans hlen (Nat.min_le_right _ _)

/-- To fill a buffer breaches nothing. -/
theorem sound_gather (hfits : setting.piece.Fits) (room : Nat)
    (hcursor : reader.cursor = Cursor.settled setting.piece pos)
    (hpos : pos ≤ setting.piece.size) (feed : Feed W H) :
  Sound setting.piece room (reader.strictGather setting room feed)
    (reader.gather setting room feed)
  := by
  induction room using Nat.strongRecOn generalizing pos reader feed with
  | ind room ih =>
      rw [strictGather]
      rcases Nat.eq_zero_or_pos room with rfl | hroom
      · rw [gather_zero]
        exact ⟨rfl, ⟨pos, hpos, hcursor⟩, by rintro _ ⟨⟩; apply Nat.le_refl⟩
      · have hsegment := Cursor.strictSegment_eq hfits hpos
        rw [if_neg (Nat.ne_of_gt hroom), hcursor, hsegment, Strict.ok_bind]
        cases hseg : (Cursor.settled setting.piece pos).segment setting.piece with
        | finish =>
            rw [gather_of_finish (hcursor ▸ hseg)]
            exact ⟨rfl, ⟨pos, hpos, hcursor⟩, by rintro _ ⟨⟩; apply Nat.zero_le⟩
        | bytes available =>
            obtain ⟨hne, hlen, hend⟩ := Cursor.copied_of_segment hfits.laid hpos hseg hroom
            obtain ⟨hadvance, hcursor'⟩ := strictAdvance_eq hfits hcursor hend feed
            have hrest := ih _ (Nat.sub_lt hroom hne) hcursor' hend
              (reader.advance setting (available.take room).length feed).2
            rw [gather_of_bytes hroom (hcursor ▸ hseg)]
            dsimp only
            rw [Strict.take_min_eq, Strict.ok_bind, Strict.shrink_eq hne hlen, Strict.ok_bind,
              hadvance, Strict.ok_bind]
            apply hrest.after hlen
        | payload span =>
            have hspan := (Cursor.segment_eq_payload_iff hfits.laid hpos).mp hseg
            rw [gather_of_payload hroom (hcursor ▸ hseg)]
            dsimp only
            rw [Setting.strictTakePayload_eq hfits hspan, Strict.ok_bind]
            apply sound_takeIn hfits hcursor hspan

/-- To poison a reader after a failure leaves it placed. -/
theorem Sound.poisonOnError {strict : Strict (Outcome W H S)} {outcome : Outcome W H S}
    (h : Sound setting.piece size strict outcome) :
  Sound setting.piece size (do return poisonOnError setting (← strict))
    (poisonOnError setting outcome)
  := by
  obtain ⟨result, reader, feed⟩ := outcome
  constructor
  case eq_ok =>
      rw [h.eq_ok]
      rfl
  case placed =>
      cases result with
      | ok bytes => apply h.placed
      | error e => apply placed_release h.placed
  case length_le =>
      cases result with
      | ok bytes => apply h.length_le
      | error e => nofun

/-- To read breaches nothing. -/
theorem sound_read (hfits : setting.piece.Fits) (h : reader.Placed setting.piece) (size : Nat)
    (feed : Feed W H) :
  Sound setting.piece size (reader.strictRead setting size feed) (reader.read setting size feed)
  := by
  obtain ⟨pos, hpos, hcursor⟩ := h
  rw [strictRead, read]
  split
  · exact ⟨rfl, ⟨pos, hpos, hcursor⟩, nofun⟩
  · apply (sound_gather hfits size hcursor hpos feed).poisonOnError

variable {strictRead : Reader S → Feed W H → Strict (Outcome W H S)}
  {read : Reader S → Feed W H → Outcome W H S}

/-- To read again and again breaches nothing if to read does not. -/
theorem strictDrainWithin_eq
    (hread : ∀ {reader : Reader S}, reader.Placed setting.piece → ∀ feed : Feed W H,
      Sound setting.piece size (strictRead reader feed) (read reader feed))
    (h : reader.Placed setting.piece) (calls : Nat) (feed : Feed W H) :
  strictDrainWithin size strictRead calls reader feed = .ok (drainWithin read calls reader feed)
    ∧ (drainWithin read calls reader feed).2.2.1.Placed setting.piece
  := by
  induction calls generalizing reader feed with
  | zero => exact ⟨rfl, h⟩
  | succ calls ih =>
      obtain ⟨heq, hplaced, hlen⟩ := hread h feed
      rw [strictDrainWithin, drainWithin, heq, Strict.ok_bind]
      rcases houtcome : read reader feed with ⟨_ | _ | ⟨b, bs⟩, reader', feed'⟩
      · rw [houtcome] at hplaced
        exact ⟨rfl, hplaced⟩
      · rw [houtcome] at hplaced
        exact ⟨rfl, hplaced⟩
      · rw [houtcome] at hplaced hlen
        obtain ⟨hrest, hplaced'⟩ := ih hplaced feed'
        refine ⟨?_, hplaced'⟩
        dsimp only
        rw [Strict.within_eq (hlen _ rfl), Strict.ok_bind, hrest]
        rfl

/-- To move breaches nothing. -/
theorem strictMoveTo_eq (hfits : setting.piece.Fits) (h : reader.Placed setting.piece)
    (offset : Nat) (feed : Feed W H) :
  reader.strictMoveTo setting offset feed = .ok (reader.moveTo setting offset feed)
    ∧ (reader.moveTo setting offset feed).2.1.Placed setting.piece
  := by
  rw [strictMoveTo, moveTo, checkReach]
  by_cases hreach : setting.piece.size < offset
  · rw [if_pos hreach]
    exact ⟨rfl, h⟩
  · rw [if_neg hreach]
    constructor
    · dsimp only
      rw [Cursor.strictLocate_eq hfits]
      rfl
    · apply placed_locate hfits (Nat.le_of_not_lt hreach)
      rfl

/-- To seek breaches nothing. -/
theorem strictSeek_eq (hfits : setting.piece.Fits) (h : reader.Placed setting.piece)
    (target : SeekTarget) (feed : Feed W H) :
  reader.strictSeek setting target feed = .ok (reader.seek setting target feed)
    ∧ (reader.seek setting target feed).2.1.Placed setting.piece
  := by
  rw [strictSeek, seek]
  split
  · exact ⟨rfl, h⟩
  · obtain ⟨hmove, hplaced⟩ :=
      strictMoveTo_eq hfits h (targetPosition setting target reader).toNat feed
    rw [hmove, Strict.ok_bind]
    rcases houtcome : reader.moveTo setting (targetPosition setting target reader).toNat feed
      with ⟨_ | _, reader', feed'⟩ <;> rw [houtcome] at hplaced <;> exact ⟨rfl, hplaced⟩

/-- To copy breaches nothing. -/
theorem strictCopyAt_eq (hfits : setting.piece.Fits) (offset : Nat) :
  strictCopyAt setting offset = .ok (copyAt setting offset : Except ReadError (Reader S))
    ∧ ∀ reader : Reader S, copyAt setting offset = .ok reader → reader.Placed setting.piece
  := by
  rw [strictCopyAt, copyAt, checkReach]
  by_cases hreach : setting.piece.size < offset
  · rw [if_pos hreach]
    exact ⟨rfl, nofun⟩
  · rw [if_neg hreach]
    constructor
    · dsimp only
      rw [strictStartAt_eq hfits]
      rfl
    · rintro _ ⟨⟩
      apply placed_locate hfits (Nat.le_of_not_lt hreach)
      rfl

end Reader

/-! ### Families -/

namespace Family

variable (setting : Setting W H S)

/-- A family of one reader, at the start of the piece. -/
def strictStart (world : W) : Strict (Family W H S) := do
  return ⟨[some (← Reader.strictStartAt setting 0)], Feed.start world setting.piece.blocks.length⟩

/-- Gives a command to the member of that number; `read` says how members read. -/
def strictRunBy (read : Nat → Reader S → Feed W H → Strict (Reader.Outcome W H S))
    (index : Nat) (command : Command) (family : Family W H S) :
    Strict (Reply × Family W H S) := do
  match family.member? index with
  | none => return (.absent, family)
  | some reader =>
    match command with
    | .read size =>
      let (outcome, reader, feed) ← read size reader family.feed
      return (.bytes outcome, family.update index reader feed)
    | .drain size =>
      let (portions, failure, reader, feed) ←
        reader.strictDrain setting size (read size) family.feed
      return (.drained portions failure, family.update index reader feed)
    | .moveTo offset =>
      let (outcome, reader, feed) ← reader.strictMoveTo setting offset family.feed
      return (.moved outcome, family.update index reader feed)
    | .seek target =>
      let (outcome, reader, feed) ← reader.strictSeek setting target family.feed
      return (.sought outcome, family.update index reader feed)
    | .copy offset =>
      match ← Reader.strictCopyAt setting offset with
      | .ok copy =>
        return (.copied (.ok family.members.length),
          { family with members := family.members ++ [some copy] })
      | .error e => return (.copied (.error e), family)
    | .close =>
      let (reader, feed) := reader.release family.feed
      return (.done, family.update index reader feed)
    | .drop => return (.done, family.remove index)

/-- Gives commands to members in order; `read` says how members read. -/
def strictRunAllBy (read : Nat → Reader S → Feed W H → Strict (Reader.Outcome W H S)) :
    List (Nat × Command) → Family W H S → Strict (List Reply × Family W H S)
  | [], family => return ([], family)
  | (index, command) :: rest, family => do
    let (reply, family) ← family.strictRunBy setting read index command
    let (replies, family) ← strictRunAllBy read rest family
    return (reply :: replies, family)

/-- Gives commands in order to the members of a new family. -/
def strictRunAll (world : W) (commands : List (Nat × Command)) :
    Strict (List Reply × Family W H S) := do
  let family ← strictStart setting world
  family.strictRunAllBy setting (fun size reader feed => reader.strictRead setting size feed)
    commands

/-- Every member is placed. -/
def Placed (piece : Piece) (family : Family W H S) : Prop :=
  ∀ reader, some reader ∈ family.members → reader.Placed piece

variable {setting} {piece : Piece} {family : Family W H S} {reader : Reader S} {feed : Feed W H}
  {index : Nat}

theorem placed_update (h : family.Placed piece) (hreader : reader.Placed piece) :
  (family.update index reader feed).Placed piece
  := by
  intro reader' hmem
  rcases List.mem_or_eq_of_mem_set hmem with hmem | heq
  · apply h reader' hmem
  · cases heq
    apply hreader

theorem placed_remove (h : family.Placed piece) :
  (family.remove index).Placed piece
  := by
  rw [remove]
  split
  · apply h
  · intro reader' hmem
    rcases List.mem_or_eq_of_mem_set hmem with hmem | heq
    · apply h reader' hmem
    · cases heq

theorem placed_append (h : family.Placed piece) (hreader : reader.Placed piece) :
  Placed piece { family with members := family.members ++ [some reader] }
  := by
  intro reader' hmem
  rcases List.mem_append.mp hmem with hmem | heq
  · apply h reader' hmem
  · cases List.mem_singleton.mp heq
    apply hreader

section

variable {strictRead : Nat → Reader S → Feed W H → Strict (Reader.Outcome W H S)}
  {read : Nat → Reader S → Feed W H → Reader.Outcome W H S}

/-- To obey breaches nothing if to read does not. -/
theorem strictRunBy_eq (hfits : setting.piece.Fits)
    (hread : ∀ {reader : Reader S}, reader.Placed setting.piece → ∀ (size : Nat) (feed : Feed W H),
      Reader.Sound setting.piece size (strictRead size reader feed) (read size reader feed))
    (h : family.Placed setting.piece) (index : Nat) (command : Command) :
  family.strictRunBy setting strictRead index command
      = .ok (family.runBy setting read index command)
    ∧ (family.runBy setting read index command).2.Placed setting.piece
  := by
  rw [strictRunBy, runBy]
  cases hmember : family.member? index with
  | none => exact ⟨rfl, h⟩
  | some reader =>
      have hreader : reader.Placed setting.piece :=
        h reader (List.mem_of_getElem? (member?_eq_some_iff.mp hmember))
      cases command with
      | read size =>
          obtain ⟨heq, hplaced, -⟩ := hread hreader size family.feed
          dsimp only
          rw [heq]
          exact ⟨rfl, placed_update h hplaced⟩
      | drain size =>
          obtain ⟨heq, hplaced⟩ :=
            Reader.strictDrainWithin_eq (hread · size ·) hreader
              (setting.piece.size - reader.position + 1) family.feed
          dsimp only
          rw [Reader.strictDrain, heq]
          exact ⟨rfl, placed_update h hplaced⟩
      | moveTo offset =>
          obtain ⟨heq, hplaced⟩ := Reader.strictMoveTo_eq hfits hreader offset family.feed
          dsimp only
          rw [heq]
          exact ⟨rfl, placed_update h hplaced⟩
      | seek target =>
          obtain ⟨heq, hplaced⟩ := Reader.strictSeek_eq hfits hreader target family.feed
          dsimp only
          rw [heq]
          exact ⟨rfl, placed_update h hplaced⟩
      | copy offset =>
          obtain ⟨heq, hplaced⟩ := Reader.strictCopyAt_eq (S := S) hfits offset
          dsimp only
          rw [heq, Strict.ok_bind]
          cases hcopy : Reader.copyAt (S := S) setting offset with
          | ok copy => exact ⟨rfl, placed_append h (hplaced copy hcopy)⟩
          | error e => exact ⟨rfl, h⟩
      | close => exact ⟨rfl, placed_update h (Reader.placed_release hreader family.feed)⟩
      | drop => exact ⟨rfl, placed_remove h⟩

/-- To obey again and again breaches nothing if to read does not. -/
theorem strictRunAllBy_eq (hfits : setting.piece.Fits)
    (hread : ∀ {reader : Reader S}, reader.Placed setting.piece → ∀ (size : Nat) (feed : Feed W H),
      Reader.Sound setting.piece size (strictRead size reader feed) (read size reader feed))
    (h : family.Placed setting.piece) (commands : List (Nat × Command)) :
  family.strictRunAllBy setting strictRead commands = .ok (family.runAllBy setting read commands)
  := by
  induction commands generalizing family with
  | nil => rfl
  | cons c commands ih =>
      obtain ⟨index, command⟩ := c
      obtain ⟨heq, hplaced⟩ := strictRunBy_eq hfits hread h index command
      rw [strictRunAllBy, heq, Strict.ok_bind]
      dsimp only
      rw [ih hplaced]
      rfl

end

/-- To start a family breaches nothing, and its member is placed. -/
theorem strictStart_eq (hfits : setting.piece.Fits) (world : W) :
  strictStart setting world = .ok (start setting world : Family W H S)
    ∧ (start setting world : Family W H S).Placed setting.piece
  := by
  constructor
  · rw [strictStart, Reader.strictStartAt_eq hfits]
    rfl
  · intro reader hmem
    cases List.mem_singleton.mp hmem
    apply Reader.placed_locate hfits (Nat.zero_le _)
    rfl

/-- Whatever a family is told to do breaches nothing. -/
theorem strictRunAll_eq (hfits : setting.piece.Fits) (world : W)
    (commands : List (Nat × Command)) :
  strictRunAll (S := S) setting world commands = .ok ((start setting world).runAll setting commands)
  := by
  obtain ⟨hstart, hplaced⟩ := strictStart_eq (S := S) hfits world
  rw [strictRunAll, hstart, Strict.ok_bind]
  apply strictRunAllBy_eq hfits _ hplaced
  intro reader hreader size feed
  apply Reader.sound_read hfits hreader

end Family

end PieceStream
