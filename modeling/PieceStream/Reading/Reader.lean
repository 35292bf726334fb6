import PieceStream.Piece.Cursor
import PieceStream.Reading.Options
import PieceStream.Reading.Supply

/-!
# Readers

A reader hands out the bytes of a piece from its position on.  Bytes in memory are handed out
as far as the buffer goes; payload bytes of an item come from a stream, of which a reader holds
at most one, and one call asks for them once.  The stream serves the run that it was opened
for: going forward it passes over what is not needed, going backward it is opened anew, and it
is given up at the end of the run.  A reader that has failed is poisoned: it holds no stream
and fails ever after.

Blocking and suspending readers follow the same rules; they differ in how notes speak of them.
-/

namespace PieceStream

/-- What readers of one family have in common and never change. -/
structure Setting (W H S : Type) where
  supply : Supply W H S
  piece : Piece
  options : ReadOptions
  manner : Manner

/-- A reader of a piece. -/
structure Reader (S : Type) where
  cursor : Cursor
  held : Option (HeldStream S)
  poisoned : Bool

/-- What to do with the stream held before payload bytes are asked for. -/
inductive Approach (S : Type) where
  /-- It stands where the bytes are. -/
  | ready (item : HeldStream S)
  /-- The bytes are `gap` bytes further on. -/
  | skip (item : HeldStream S) (gap : Nat)
  /-- There is none, or one that cannot reach the bytes going forward. -/
  | reopen (stale : Option (HeldStream S))

/-- A position to move to. -/
inductive SeekTarget where
  | fromStart (offset : Nat)
  | fromEnd (delta : Int)
  | fromHere (delta : Int)
  deriving DecidableEq, Repr

variable {W H S : Type}

/-- What to do with the stream held before the bytes of `span` are asked for. -/
def Approach.toward (held : Option (HeldStream S)) (span : PayloadRest) : Approach S :=
  match held with
  | none => .reopen none
  | some item =>
    if item.block = span.block ∧ item.itemPos = span.itemOffset then .ready item
    else if item.block = span.block ∧ item.itemPos < span.itemOffset then
      .skip item (span.itemOffset - item.itemPos)
    else .reopen (some item)

namespace Setting

variable (setting : Setting W H S)

/-- The source of a run.  It is looked for unless an earlier look was successful. -/
def sourceFor (span : PayloadRest) (feed : Feed W H) : Except SourceError H × Feed W H :=
  match feed.handles[span.block]?.join with
  | some handle => (.ok handle, feed)
  | none =>
    let (outcome, world) := setting.supply.resolve span.run.source feed.world
    let feed := { feed with world := world }.record (.resolved span.run.source)
    match outcome with
    | .ok handle =>
      (.ok handle, { feed with handles := feed.handles.set span.block (some handle) })
    | .error e => (.error e, feed)

/-- The length to ask for in order to get the bytes of `span`. -/
def lengthFor (span : PayloadRest) : Nat :=
  setting.options.readAhead.lengthToAsk span.run span.entry span.itemOffset

/-- Records that the range is asked for that starts with the bytes of `span`. -/
def announce (span : PayloadRest) (feed : Feed W H) : Feed W H :=
  let source := span.run.source
  let length := setting.lengthFor span
  let feed := feed.note (.opening setting.manner source span.path span.itemOffset length)
  feed.record (.opened source span.itemOffset length span.path)

/-- What comes of asking for the range that starts with the bytes of `span`. -/
def conclude (span : PayloadRest) (outcome : Except SourceError S) (notes : List Note)
    (feed : Feed W H) : Except ReadError (HeldStream S) × Feed W H :=
  let feed := notes.foldl Feed.note feed
  match outcome with
  | .ok stream => (.ok ⟨span.block, span.run.source, span.itemOffset, stream⟩, feed)
  | .error e => (.error (.sourceReadFailure span.path e), feed)

/-- Opens the range that starts with the bytes of `span`. -/
def openFrom (handle : H) (span : PayloadRest) (feed : Feed W H) :
    Except ReadError (HeldStream S) × Feed W H :=
  let (outcome, notes, world) :=
    setting.supply.openRange handle span.path span.itemOffset (setting.lengthFor span) feed.world
  conclude span outcome notes { feed with world := world }

/-- A stream that starts with the bytes of `span`. -/
def openFor (span : PayloadRest) (feed : Feed W H) :
    Except ReadError (HeldStream S) × Feed W H :=
  match setting.sourceFor span feed with
  | (.error e, feed) => (.error (.sourceUnavailable span.run.source e), feed)
  | (.ok handle, feed) => setting.openFrom handle span (setting.announce span feed)

/-- What comes of passing over the bytes before those of `span`.  A stream that lacks some of them
or fails is given up without a note. -/
def concludeSkip (span : PayloadRest) : Except IoError Nat × HeldStream S × Feed W H →
    Except ReadError (HeldStream S) × Feed W H
  | (.ok 0, item, feed) => (.ok item, feed)
  | (.ok _, item, feed) => (.error (.unexpectedEnd span.path item.itemPos), feed.drop item)
  | (.error e, item, feed) => (.error (.sourceReadFailure span.path (.io e)), feed.drop item)

/-- A stream that stands where the bytes of `span` are. -/
def acquire (held : Option (HeldStream S)) (span : PayloadRest) (feed : Feed W H) :
    Except ReadError (HeldStream S) × Feed W H :=
  match Approach.toward held span with
  | .ready item => (.ok item, feed)
  | .skip item gap =>
    let feed := feed.note (.skipping span.path item.itemPos gap)
    concludeSkip span (setting.supply.passOver gap item feed)
  | .reopen (some stale) => setting.openFor span (feed.release stale)
  | .reopen none => setting.openFor span feed

/-- Asks the stream acquired once for bytes of `span`, at most `room` of them, and returns the
stream held then. -/
def askFor (span : PayloadRest) (room : Nat) : Except ReadError (HeldStream S) × Feed W H →
    Except ReadError Bytes × Option (HeldStream S) × Feed W H
  | (.error e, feed) => (.error e, none, feed)
  | (.ok item, feed) =>
    match setting.supply.askUninterrupted (min span.remaining room) item feed with
    | (.error e, item, feed) => (.error (.sourceReadFailure span.path (.io e)), some item, feed)
    | (.ok [], item, feed) => (.error (.unexpectedEnd span.path item.itemPos), some item, feed)
    | (.ok (b :: bs), item, feed) =>
      let bytes := b :: bs
      (.ok bytes, some { item with itemPos := item.itemPos + bytes.length }, feed)

/-- Asks once for bytes of `span`, at most `room` of them, and returns the stream held then. -/
def takePayload (held : Option (HeldStream S)) (span : PayloadRest) (room : Nat)
    (feed : Feed W H) : Except ReadError Bytes × Option (HeldStream S) × Feed W H :=
  setting.askFor span room (setting.acquire held span feed)

variable {setting} in
/-- The bytes handed out are bytes of the payload, and there is room for them. -/
theorem length_le_of_askFor {span : PayloadRest} {room : Nat} {bytes : Bytes}
    {acquired : Except ReadError (HeldStream S) × Feed W H} {held' : Option (HeldStream S)}
    {feed' : Feed W H} (h : setting.askFor span room acquired = (.ok bytes, held', feed')) :
  bytes.length ≤ min span.remaining room
  := by
  obtain ⟨outcome, feed⟩ := acquired
  cases outcome with
  | error e => cases h
  | ok item =>
      rw [askFor] at h
      split at h
      · cases h
      · cases h
      · next hask =>
        cases h
        apply Supply.length_le_of_askUninterrupted hask

end Setting

namespace Reader

variable (setting : Setting W H S)

/-- A reader at an offset. -/
def startAt (offset : Nat) : Reader S := ⟨Cursor.locate setting.piece offset, none, false⟩

/-- The offset of the next byte. -/
def position (reader : Reader S) : Nat := reader.cursor.pos

/-- Gives the stream up, if one is held. -/
def release (reader : Reader S) (feed : Feed W H) : Reader S × Feed W H :=
  match reader.held with
  | none => (reader, feed)
  | some item => ({ reader with held := none }, feed.release item)

/-- A reader that has given the stream up holds none and is otherwise the same. -/
theorem release_fst {reader : Reader S} {feed : Feed W H} :
  (reader.release feed).1 = { reader with held := none }
  := by
  obtain ⟨cursor, held, poisoned⟩ := reader
  cases held <;> rfl

/-- Moves `n` bytes forward and gives the stream up when a run is left behind. -/
def advance (n : Nat) (reader : Reader S) (feed : Feed W H) : Reader S × Feed W H :=
  let (cursor, left) := reader.cursor.advance setting.piece n
  let reader := { reader with cursor := cursor }
  if left then reader.release feed else (reader, feed)

/-- A reader after payload bytes have been asked for. -/
def takeIn (reader : Reader S) : Except ReadError Bytes × Option (HeldStream S) × Feed W H →
    Except ReadError Bytes × Reader S × Feed W H
  | (.error e, held, feed) => (.error e, { reader with held := held }, feed)
  | (.ok bytes, held, feed) =>
    let (reader, feed) := { reader with held := held }.advance setting bytes.length feed
    (.ok bytes, reader, feed)

/-- Fills a buffer of `room` bytes: bytes in memory as far as they go, and after them what one
question for payload bytes yields. -/
def gather (room : Nat) (reader : Reader S) (feed : Feed W H) :
    Except ReadError Bytes × Reader S × Feed W H :=
  if _hr : room = 0 then (.ok [], reader, feed)
  else
    match _h : reader.cursor.segment setting.piece with
    | .finish => (.ok [], reader, feed)
    | .bytes available =>
      let copied := available.take room
      let (reader, feed) := reader.advance setting copied.length feed
      let (more, reader, feed) := gather (room - copied.length) reader feed
      (more.map (copied ++ ·), reader, feed)
    | .payload span => reader.takeIn setting (setting.takePayload reader.held span room feed)
termination_by room
decreasing_by
  have := List.length_pos_iff.mpr (Cursor.ne_nil_of_segment _h)
  simp only [List.length_take]
  omega

section

variable {setting} {room : Nat} {reader : Reader S} {feed : Feed W H}

theorem gather_zero :
  reader.gather setting 0 feed = (.ok [], reader, feed)
  := by
  rw [gather, dif_pos rfl]

theorem gather_of_finish (h : reader.cursor.segment setting.piece = .finish) :
  reader.gather setting room feed = (.ok [], reader, feed)
  := by
  rw [gather]
  split
  · rfl
  · split <;> simp_all

theorem gather_of_bytes {available : Bytes} (hr : 0 < room)
    (h : reader.cursor.segment setting.piece = .bytes available) :
  reader.gather setting room feed
    = let copied := available.take room
      let (reader, feed) := reader.advance setting copied.length feed
      let (more, reader, feed) := reader.gather setting (room - copied.length) feed
      (more.map (copied ++ ·), reader, feed)
  := by
  rw [gather, dif_neg (Nat.ne_of_gt hr)]
  split <;> simp_all

theorem gather_of_payload {span : PayloadRest} (hr : 0 < room)
    (h : reader.cursor.segment setting.piece = .payload span) :
  reader.gather setting room feed
    = reader.takeIn setting (setting.takePayload reader.held span room feed)
  := by
  rw [gather]
  rw [dif_neg (Nat.ne_of_gt hr)]
  split <;> simp_all

end

/-- After a failure a reader gives its stream up and is poisoned. -/
def poisonOnError : Except ReadError Bytes × Reader S × Feed W H →
    Except ReadError Bytes × Reader S × Feed W H
  | (.ok bytes, reader, feed) => (.ok bytes, reader, feed)
  | (.error e, reader, feed) =>
    let feed := feed.note (.readFailed setting.manner reader.position e)
    let (reader, feed) := reader.release feed
    (.error e, { reader with poisoned := true }, feed)

/-- Hands out at most `size` bytes.  No bytes mean the end of the piece, unless none were asked
for. -/
def read (size : Nat) (reader : Reader S) (feed : Feed W H) :
    Except ReadError Bytes × Reader S × Feed W H :=
  if reader.poisoned then (.error .poisoned, reader, feed)
  else poisonOnError setting (reader.gather setting size feed)

/-- Reads until there are no bytes or a read fails, for at most `calls` times.  Returns what each
successful read handed out. -/
def drainWithin (read : Reader S → Feed W H → Except ReadError Bytes × Reader S × Feed W H) :
    Nat → Reader S → Feed W H → List Bytes × Option ReadError × Reader S × Feed W H
  | 0, reader, feed => ([], none, reader, feed)
  | calls + 1, reader, feed =>
    match read reader feed with
    | (.error e, reader, feed) => ([], some e, reader, feed)
    | (.ok [], reader, feed) => ([[]], none, reader, feed)
    | (.ok (b :: bs), reader, feed) =>
      let (rest, failure, reader, feed) := drainWithin read calls reader feed
      ((b :: bs) :: rest, failure, reader, feed)

/-- Reads until there are no bytes or a read fails.  Every successful read but the last hands out
at least one of the bytes left. -/
def drain (read : Reader S → Feed W H → Except ReadError Bytes × Reader S × Feed W H)
    (reader : Reader S) (feed : Feed W H) :
    List Bytes × Option ReadError × Reader S × Feed W H :=
  drainWithin read (setting.piece.size - reader.position + 1) reader feed

/-- Reads until nothing is handed out or a read fails, and appends what is handed out to an output
whose length was `start` at first.  Returns how much has been appended, or nothing if so many reads
do not come to an end. -/
def appendRest (read : Reader S → Feed W H → Except ReadError Bytes × Reader S × Feed W H)
    (start : Nat) :
    Nat → Bytes → Reader S → Feed W H → Option (Except ReadError Nat × Bytes × Reader S × Feed W H)
  | 0, _, _, _ => none
  | calls + 1, output, reader, feed =>
    match read reader feed with
    | (.error e, reader, feed) => some (.error e, output, reader, feed)
    | (.ok [], reader, feed) => some (.ok (output.length - start), output, reader, feed)
    | (.ok (b :: bs), reader, feed) => appendRest read start calls (output ++ b :: bs) reader feed

/-- Reads until nothing is handed out or a read fails, and appends what is handed out to an output.
Returns how much has been appended, or nothing if so many reads do not come to an end. -/
def readToEnd (read : Reader S → Feed W H → Except ReadError Bytes × Reader S × Feed W H)
    (calls : Nat) (output : Bytes) (reader : Reader S) (feed : Feed W H) :
    Option (Except ReadError Nat × Bytes × Reader S × Feed W H) :=
  appendRest read output.length calls output reader feed

section

variable {read : Reader S → Feed W H → Except ReadError Bytes × Reader S × Feed W H}
  {start calls : Nat} {output bytes : Bytes} {e : ReadError} {reader reader' : Reader S}
  {feed feed' : Feed W H}

/-- A read that fails ends the reading and appends nothing. -/
theorem appendRest_of_error (h : read reader feed = (.error e, reader', feed')) :
  appendRest read start (calls + 1) output reader feed = some (.error e, output, reader', feed')
  := by
  rw [appendRest, h]

/-- A read that hands out nothing ends the reading. -/
theorem appendRest_of_nil (h : read reader feed = (.ok [], reader', feed')) :
  appendRest read start (calls + 1) output reader feed
    = some (.ok (output.length - start), output, reader', feed')
  := by
  rw [appendRest, h]

/-- What a read hands out is appended, and the reading goes on. -/
theorem appendRest_of_ok (hne : bytes ≠ []) (h : read reader feed = (.ok bytes, reader', feed')) :
  appendRest read start (calls + 1) output reader feed
    = appendRest read start calls (output ++ bytes) reader' feed'
  := by
  obtain ⟨b, bs, rfl⟩ := List.exists_cons_of_ne_nil hne
  rw [appendRest, h]

end

/-- The size in which a reader reads to the end. -/
def drainSize : Nat := 8192

/-- Whether an offset lies within the piece or at its end. -/
def checkReach (offset : Nat) : Except ReadError Unit :=
  if setting.piece.size < offset then .error (.seekOutOfRange offset setting.piece.size)
  else .ok ()

/-- Moves to an offset and gives the stream up. -/
def moveTo (offset : Nat) (reader : Reader S) (feed : Feed W H) :
    Except ReadError Unit × Reader S × Feed W H :=
  match checkReach setting offset with
  | .error e => (.error e, reader, feed)
  | .ok () =>
    let (reader, feed) := reader.release feed
    (.ok (), { reader with cursor := Cursor.locate setting.piece offset },
      feed.note (.repositioned setting.manner offset))

/-- The position that a target means, as an integer. -/
def targetPosition (target : SeekTarget) (reader : Reader S) : Int :=
  match target with
  | .fromStart offset => offset
  | .fromEnd delta => setting.piece.size + delta
  | .fromHere delta => reader.position + delta

/-- Moves to a target and returns the position reached. -/
def seek (target : SeekTarget) (reader : Reader S) (feed : Feed W H) :
    Except SeekError Nat × Reader S × Feed W H :=
  let position := targetPosition setting target reader
  if position < 0 ∨ (wordLimit : Int) ≤ position then (.error .invalidPosition, reader, feed)
  else
    match reader.moveTo setting position.toNat feed with
    | (.error e, reader, feed) => (.error (.outOfReach e), reader, feed)
    | (.ok (), reader, feed) => (.ok position.toNat, reader, feed)

/-- A further reader of the piece, at an offset. -/
def copyAt (offset : Nat) : Except ReadError (Reader S) :=
  match checkReach setting offset with
  | .error e => .error e
  | .ok () => .ok (startAt setting offset)

/-- The name of readers of a manner. -/
def typeName : Manner → String
  | .blocking => "PieceReader"
  | .suspending => "AsyncPieceReader"

/-- The state of a reader in words. -/
def describe (reader : Reader S) : String :=
  typeName setting.manner ++ " \x7b size: " ++ toString setting.piece.size ++
    ", position: " ++ toString reader.position ++
    ", stream_open: " ++ toString reader.held.isSome ++
    ", poisoned: " ++ toString reader.poisoned ++ " \x7d"

end Reader

end PieceStream
