import PieceStream.Reading.Reader

/-!
# Families of readers

A family is a reader and all copies made from it, from copies of it, and so on.  Its members
are numbered in the order of their making and share the sources that any of them has found.
Commands are given to one member at a time.
-/

namespace PieceStream

/-- A family of readers; a member that was dropped leaves its number behind. -/
structure Family (W H S : Type) where
  members : List (Option (Reader S))
  feed : Feed W H

/-- What a member can be told to do. -/
inductive Command where
  /-- To hand out at most so many bytes. -/
  | read (size : Nat)
  /-- To hand out at most so many bytes at a time until there are none. -/
  | drain (size : Nat)
  | moveTo (offset : Nat)
  | seek (target : SeekTarget)
  /-- To make a copy that starts at an offset. -/
  | copy (offset : Nat)
  /-- To give the stream up. -/
  | close
  /-- To go. -/
  | drop
  deriving DecidableEq, Repr

/-- What a member answers. -/
inductive Reply where
  | bytes (outcome : Except ReadError Bytes)
  /-- What each successful read handed out, and the failure that came after. -/
  | drained (portions : List Bytes) (failure : Option ReadError)
  | moved (outcome : Except ReadError Unit)
  | sought (outcome : Except SeekError Nat)
  /-- The number of the copy. -/
  | copied (outcome : Except ReadError Nat)
  | done
  /-- There is no such member. -/
  | absent

namespace Family

variable {W H S : Type} (setting : Setting W H S)

/-- A family of one reader, at the start of the piece. -/
def start (world : W) : Family W H S :=
  ⟨[some (Reader.startAt setting 0)], Feed.start world setting.piece.blocks.length⟩

/-- The member of that number, unless it was dropped. -/
def member? (family : Family W H S) (index : Nat) : Option (Reader S) :=
  (family.members[index]?).join

theorem member?_eq_some_iff {family : Family W H S} {index : Nat} {reader : Reader S} :
  family.member? index = some reader ↔ family.members[index]? = some (some reader)
  := by
  simp [member?, Option.join_eq_some_iff]

/-- Where the members stand. -/
def positions (family : Family W H S) : List (Option Nat) :=
  family.members.map (Option.map Reader.position)

/-- The family after a member and the feed have changed. -/
def update (family : Family W H S) (index : Nat) (reader : Reader S) (feed : Feed W H) :
    Family W H S :=
  ⟨family.members.set index (some reader), feed⟩

/-- A member that has changed is the one it has changed to. -/
theorem member?_update {family : Family W H S} {index : Nat} {reader reader' : Reader S}
    {feed : Feed W H} (hmember : family.member? index = some reader) :
  (family.update index reader' feed).member? index = some reader'
  := by
  obtain ⟨hlt, -⟩ := List.getElem?_eq_some_iff.mp (member?_eq_some_iff.mp hmember)
  rw [member?_eq_some_iff, update, List.getElem?_set_self hlt]

/-- The family without a member; the stream it held is given up without a note. -/
def remove (family : Family W H S) (index : Nat) : Family W H S :=
  match family.member? index with
  | none => family
  | some reader =>
    let feed :=
      match reader.held with
      | some item => family.feed.drop item
      | none => family.feed
    ⟨family.members.set index none, feed⟩

/-- The family after all members have been dropped in order. -/
def removeAll (family : Family W H S) : Family W H S :=
  (List.range family.members.length).foldl remove family

/-- Gives a command to the member of that number; `read` says how members read. -/
def runBy (read : Nat → Reader S → Feed W H → Except ReadError Bytes × Reader S × Feed W H)
    (index : Nat) (command : Command) (family : Family W H S) : Reply × Family W H S :=
  match family.member? index with
  | none => (.absent, family)
  | some reader =>
    match command with
    | .read size =>
      let (outcome, reader, feed) := read size reader family.feed
      (.bytes outcome, family.update index reader feed)
    | .drain size =>
      let (portions, failure, reader, feed) := reader.drain setting (read size) family.feed
      (.drained portions failure, family.update index reader feed)
    | .moveTo offset =>
      let (outcome, reader, feed) := reader.moveTo setting offset family.feed
      (.moved outcome, family.update index reader feed)
    | .seek target =>
      let (outcome, reader, feed) := reader.seek setting target family.feed
      (.sought outcome, family.update index reader feed)
    | .copy offset =>
      match Reader.copyAt setting offset with
      | .ok copy =>
        (.copied (.ok family.members.length),
          { family with members := family.members ++ [some copy] })
      | .error e => (.copied (.error e), family)
    | .close =>
      let (reader, feed) := reader.release family.feed
      (.done, family.update index reader feed)
    | .drop => (.done, family.remove index)

/-- Gives commands to members in order; `read` says how members read. -/
def runAllBy (read : Nat → Reader S → Feed W H → Except ReadError Bytes × Reader S × Feed W H) :
    List (Nat × Command) → Family W H S → List Reply × Family W H S
  | [], family => ([], family)
  | (index, command) :: rest, family =>
    let (reply, family) := family.runBy setting read index command
    let (replies, family) := runAllBy read rest family
    (reply :: replies, family)

/-- Gives a command to the member of that number. -/
def run (index : Nat) (command : Command) (family : Family W H S) : Reply × Family W H S :=
  family.runBy setting (fun size reader feed => reader.read setting size feed) index command

/-- Gives commands to members in order. -/
def runAll (commands : List (Nat × Command)) (family : Family W H S) :
    List Reply × Family W H S :=
  family.runAllBy setting (fun size reader feed => reader.read setting size feed) commands

section

variable {setting : Setting W H S} {family : Family W H S} {index : Nat} {command : Command}
  {rest done more : List (Nat × Command)}
  {read : Nat → Reader S → Feed W H → Except ReadError Bytes × Reader S × Feed W H}

/-- Commands given in order are given one after another, however members read. -/
theorem runAllBy_cons :
  family.runAllBy setting read ((index, command) :: rest)
    = let (reply, family) := family.runBy setting read index command
      let (replies, family) := family.runAllBy setting read rest
      (reply :: replies, family)
  := rfl

/-- Commands are given on from where those before them have led, however members read. -/
theorem runAllBy_append :
  family.runAllBy setting read (done ++ more)
    = let (replies, family) := family.runAllBy setting read done
      let (replies', family) := family.runAllBy setting read more
      (replies ++ replies', family)
  := by
  induction done generalizing family with
  | nil => rfl
  | cons command done ih =>
      obtain ⟨index, command⟩ := command
      rw [List.cons_append, runAllBy_cons, runAllBy_cons]
      simp only [ih]
      rfl

/-- Commands given in order are given one after another. -/
theorem runAll_cons :
  family.runAll setting ((index, command) :: rest)
    = let (reply, family) := family.run setting index command
      let (replies, family) := family.runAll setting rest
      (reply :: replies, family)
  := rfl

/-- Commands are given on from where those before them have led. -/
theorem runAll_append :
  family.runAll setting (done ++ more)
    = let (replies, family) := family.runAll setting done
      let (replies', family) := family.runAll setting more
      (replies ++ replies', family)
  := runAllBy_append

end

/-- The events so far, and the family with a blank record. -/
def takeEvents (family : Family W H S) : List Event × Family W H S :=
  (family.feed.events, { family with feed := { family.feed with latest := [] } })

end Family

end PieceStream
