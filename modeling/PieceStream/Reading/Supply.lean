import PieceStream.Reading.Note

/-!
# Supplies

A reader knows its sources only through a supply: finding a source, opening a range of one of
its items, asking a stream for bytes.  What a supply answers may depend on a state of its own,
the world, and a stream may be interrupted; but only finitely often in a row, and no answer
is longer than asked for.  All traffic between readers and their supply is recorded as events,
together with the notes of both.
-/

namespace PieceStream

/-- What readers draw bytes from.  `W` is the state of the world, `H` the type of the sources
found and `S` the type of open streams. -/
@[ext]
structure Supply (W H S : Type) where
  /-- Finds a source. -/
  resolve : SourceId → W → Except SourceError H × W
  /-- Opens at most that many bytes of an item from an offset on; the source may take notes. -/
  openRange : H → String → Nat → Nat → W → Except SourceError S × List Note × W
  /-- Asks a stream for at most that many bytes. -/
  read : S → Nat → W → Except IoError Bytes × S × W
  /-- How often in a row the stream can still be interrupted. -/
  patience : S → W → Nat
  length_le_of_read {s : S} {n : Nat} {w : W} {bs : Bytes} :
    (read s n w).1 = .ok bs → bs.length ≤ n
  patience_lt_of_interruption {s : S} {n : Nat} {w : W} {e : IoError} :
    (read s n w).1 = .error e → e.isInterruption = true →
      patience (read s n w).2.1 (read s n w).2.2 < patience s w

/-- What bytes are asked for. -/
inductive Purpose where
  /-- To be handed out. -/
  | payload
  /-- To be passed over. -/
  | skip
  deriving DecidableEq, Repr

/-- Something that happened between readers and their sources. -/
inductive Event where
  /-- A source was looked for. -/
  | resolved (source : SourceId)
  /-- A source was asked to open a range. -/
  | opened (source : SourceId) (offset length : Nat) (path : String)
  /-- A stream was asked for bytes; the outcome is their number or a failure. -/
  | asked (source : SourceId) (purpose : Purpose) (size : Nat) (outcome : Except IoError Nat)
  /-- A stream was given up. -/
  | closed (source : SourceId)
  | noted (note : Note)

/-- Whether the event is a call to a source or a stream, or the end of a stream. -/
def Event.isCall : Event → Bool
  | .noted _ => false
  | _ => true

/-- What readers of one family share: the world, the sources found so far, one for each block
that needed one, and the record of events, the latest first. -/
structure Feed (W H : Type) where
  world : W
  handles : List (Option H)
  latest : List Event

/-- A stream that a reader holds. -/
structure HeldStream (S : Type) where
  /-- The index of the run that the stream was opened for. -/
  block : Nat
  source : SourceId
  /-- The item offset of the next byte of the stream. -/
  itemPos : Nat
  stream : S

namespace Feed

variable {W H S : Type}

/-- The feed of a new family over `blocks` blocks. -/
def start (world : W) (blocks : Nat) : Feed W H := ⟨world, List.replicate blocks none, []⟩

/-- Records an event. -/
def record (feed : Feed W H) (event : Event) : Feed W H :=
  { feed with latest := event :: feed.latest }

/-- The events in the order in which they happened. -/
def events (feed : Feed W H) : List Event := feed.latest.reverse

/-- The calls so far, the latest first. -/
def calls (feed : Feed W H) : List Event := feed.latest.filter Event.isCall

/-- Takes a note. -/
def note (feed : Feed W H) (note : Note) : Feed W H := feed.record (.noted note)

/-- Gives a stream up. -/
def drop (feed : Feed W H) (item : HeldStream S) : Feed W H := feed.record (.closed item.source)

/-- Gives a stream up and takes a note of it. -/
def release (feed : Feed W H) (item : HeldStream S) : Feed W H :=
  (feed.note (.releasing item.block item.itemPos)).drop item

end Feed

namespace Supply

variable {W H S : Type} (supply : Supply W H S)

/-- Asks the stream of an item once. -/
def ask (purpose : Purpose) (size : Nat) (item : HeldStream S) (feed : Feed W H) :
    Except IoError Bytes × HeldStream S × Feed W H :=
  let answer := supply.read item.stream size feed.world
  (answer.1, { item with stream := answer.2.1 },
    { feed with world := answer.2.2 }.record
      (.asked item.source purpose size (answer.1.map List.length)))

/-- How often in a row the stream of an item can still be interrupted. -/
def patienceFor (item : HeldStream S) (feed : Feed W H) : Nat :=
  supply.patience item.stream feed.world

theorem length_le_of_ask {purpose : Purpose} {size : Nat} {item item' : HeldStream S}
    {feed feed' : Feed W H} {bs : Bytes}
    (h : supply.ask purpose size item feed = (.ok bs, item', feed')) :
  bs.length ≤ size
  := by
  apply supply.length_le_of_read
  apply congrArg (·.1) h

theorem patienceFor_lt_of_ask {purpose : Purpose} {size : Nat} {item item' : HeldStream S}
    {feed feed' : Feed W H} {e : IoError}
    (h : supply.ask purpose size item feed = (.error e, item', feed'))
    (he : e.isInterruption = true) :
  supply.patienceFor item' feed' < supply.patienceFor item feed
  := by
  have hr : (supply.read item.stream size feed.world).1 = .error e := congrArg (·.1) h
  have hi : item' = _ := (congrArg (·.2.1) h).symm
  have hf : feed' = _ := (congrArg (·.2.2) h).symm
  subst hi hf
  apply supply.patience_lt_of_interruption hr he

/-- Asks the stream of an item until it is not interrupted. -/
def askUninterrupted (size : Nat) (item : HeldStream S) (feed : Feed W H) :
    Except IoError Bytes × HeldStream S × Feed W H :=
  match _h : supply.ask .payload size item feed with
  | (.ok bytes, item', feed') => (.ok bytes, item', feed')
  | (.error e, item', feed') =>
    if _he : e.isInterruption = true then askUninterrupted size item' feed'
    else (.error e, item', feed')
termination_by supply.patienceFor item feed
decreasing_by apply supply.patienceFor_lt_of_ask _h _he

section

variable {supply} {size : Nat} {item item' : HeldStream S} {feed feed' : Feed W H} {bytes : Bytes}
  {e : IoError}

theorem askUninterrupted_of_ok
    (h : supply.ask .payload size item feed = (.ok bytes, item', feed')) :
  supply.askUninterrupted size item feed = (.ok bytes, item', feed')
  := by
  rw [askUninterrupted]
  split <;> simp_all

theorem askUninterrupted_of_interruption
    (h : supply.ask .payload size item feed = (.error e, item', feed'))
    (he : e.isInterruption = true) :
  supply.askUninterrupted size item feed = supply.askUninterrupted size item' feed'
  := by
  rw [askUninterrupted]
  split <;> simp_all

theorem askUninterrupted_of_error
    (h : supply.ask .payload size item feed = (.error e, item', feed'))
    (he : e.isInterruption = false) :
  supply.askUninterrupted size item feed = (.error e, item', feed')
  := by
  rw [askUninterrupted]
  split <;> simp_all

theorem length_le_of_askUninterrupted
    (h : supply.askUninterrupted size item feed = (.ok bytes, item', feed')) :
  bytes.length ≤ size
  := by
  induction item, feed using askUninterrupted.induct supply size with
  | case1 item feed bytes' item'' feed'' hask =>
      rw [askUninterrupted_of_ok hask] at h
      cases h
      apply supply.length_le_of_ask hask
  | case2 item feed e item'' feed'' hask he ih =>
      rw [askUninterrupted_of_interruption hask he] at h
      apply ih h
  | case3 item feed e item'' feed'' hask he =>
      rw [askUninterrupted_of_error hask (Bool.eq_false_iff.mpr he)] at h
      cases h

end

/-- The most bytes passed over at once. -/
def skipSize : Nat := 8192

/-- Passes over `gap` bytes of an item, and returns how many of them the item lacks.  After an
interruption it asks again. -/
def passOver (gap : Nat) (item : HeldStream S) (feed : Feed W H) :
    Except IoError Nat × HeldStream S × Feed W H :=
  if _hg : gap = 0 then (.ok 0, item, feed)
  else
    match _h : supply.ask .skip (min skipSize gap) item feed with
    | (.ok [], item', feed') => (.ok gap, item', feed')
    | (.ok (b :: bs), item', feed') =>
      passOver (gap - (b :: bs).length)
        { item' with itemPos := item'.itemPos + (b :: bs).length } feed'
    | (.error e, item', feed') =>
      if _he : e.isInterruption = true then passOver gap item' feed'
      else (.error e, item', feed')
termination_by (gap, supply.patienceFor item feed)
decreasing_by
  · apply Prod.Lex.left
    simp only [List.length_cons]
    omega
  · apply Prod.Lex.right _ (supply.patienceFor_lt_of_ask _h _he)

section

variable {supply} {gap : Nat} {item item' : HeldStream S} {feed feed' : Feed W H} {bytes : Bytes}
  {e : IoError}

theorem passOver_zero :
  supply.passOver 0 item feed = (.ok 0, item, feed)
  := by
  rw [passOver]
  rfl

theorem passOver_of_nil (hg : 0 < gap)
    (h : supply.ask .skip (min skipSize gap) item feed = (.ok [], item', feed')) :
  supply.passOver gap item feed = (.ok gap, item', feed')
  := by
  rw [passOver]
  rw [dif_neg (Nat.ne_of_gt hg)]
  split <;> simp_all

theorem passOver_of_ok (hg : 0 < gap) (hb : bytes ≠ [])
    (h : supply.ask .skip (min skipSize gap) item feed = (.ok bytes, item', feed')) :
  supply.passOver gap item feed
    = supply.passOver (gap - bytes.length)
        { item' with itemPos := item'.itemPos + bytes.length } feed'
  := by
  rw [passOver, dif_neg (Nat.ne_of_gt hg)]
  split <;> simp_all

theorem passOver_of_interruption (hg : 0 < gap)
    (h : supply.ask .skip (min skipSize gap) item feed = (.error e, item', feed'))
    (he : e.isInterruption = true) :
  supply.passOver gap item feed = supply.passOver gap item' feed'
  := by
  rw [passOver, dif_neg (Nat.ne_of_gt hg)]
  split <;> simp_all

theorem passOver_of_error (hg : 0 < gap)
    (h : supply.ask .skip (min skipSize gap) item feed = (.error e, item', feed'))
    (he : e.isInterruption = false) :
  supply.passOver gap item feed = (.error e, item', feed')
  := by
  rw [passOver]
  rw [dif_neg (Nat.ne_of_gt hg)]
  split <;> simp_all

end

end Supply

end PieceStream
