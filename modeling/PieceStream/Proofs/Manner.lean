import PieceStream.Reading.Suspension

/-!
# Readers abreast

Two feeds are abreast if they have seen the same calls, in the same order, and share the world
and the sources found.  Whatever readers do to feeds that are abreast, they answer the same and
leave the feeds abreast: what they do depends neither on notes nor on the manner of reading.
The feeds are compared with an earlier one, so that no call is ever taken back.
-/

namespace PieceStream

variable {W H S : Type}

/-- The feeds agree but for their notes, and their calls go on from those before. -/
structure Feed.Abreast (before f g : Feed W H) : Prop where
  world_eq : f.world = g.world
  handles_eq : f.handles = g.handles
  calls_eq : f.calls = g.calls
  calls_suffix : before.calls <:+ f.calls

namespace Feed

variable {before f g : Feed W H}

/-- A feed is abreast with itself. -/
theorem Abreast.refl :
  f.Abreast f f
  := ⟨rfl, rfl, rfl, List.suffix_rfl⟩

/-- Notes make no difference. -/
theorem Abreast.note (h : before.Abreast f g) (n m : Note) :
  before.Abreast (f.note n) (g.note m)
  := ⟨h.world_eq, h.handles_eq, h.calls_eq, h.calls_suffix⟩

/-- Feeds stay abreast when both record an event. -/
theorem Abreast.record (h : before.Abreast f g) (event : Event) :
  before.Abreast (f.record event) (g.record event)
  := by
  constructor
  case world_eq => apply h.world_eq
  case handles_eq => apply h.handles_eq
  case calls_eq =>
    have hcalls := h.calls_eq
    simp only [calls, Feed.record, List.filter_cons] at hcalls ⊢
    rw [hcalls]
  case calls_suffix =>
    apply h.calls_suffix.trans
    apply List.IsSuffix.filter
    apply List.suffix_cons

/-- Feeds stay abreast when both take the same notes. -/
theorem Abreast.notes (h : before.Abreast f g) (notes : List Note) :
  before.Abreast (notes.foldl Feed.note f) (notes.foldl Feed.note g)
  := by
  induction notes generalizing f g with
  | nil => apply h
  | cons n notes ih => apply ih (h.note n n)

/-- The world may change for both. -/
theorem Abreast.withWorld (h : before.Abreast f g) (w : W) :
  before.Abreast { f with world := w } { g with world := w }
  := ⟨rfl, h.handles_eq, h.calls_eq, h.calls_suffix⟩

/-- Feeds stay abreast when both give a stream up. -/
theorem Abreast.release (h : before.Abreast f g) (item : HeldStream S) :
  before.Abreast (f.release item) (g.release item)
  := (h.note _ _).record _

end Feed

/-! ### Streams -/

namespace Supply

variable {supply : Supply W H S} {before f g : Feed W H}

/-- One question is answered alike. -/
theorem abreast_ask {purpose : Purpose} {size : Nat} {outcome : Except IoError Bytes}
    {item item' : HeldStream S} {f' : Feed W H} (h : before.Abreast f g)
    (hf : supply.ask purpose size item f = (outcome, item', f')) :
  ∃ g', supply.ask purpose size item g = (outcome, item', g') ∧ before.Abreast f' g'
  := by
  rw [ask] at hf ⊢
  rw [← h.world_eq]
  cases hf
  exact ⟨_, rfl, (h.withWorld _).record _⟩

/-- Questions asked until there is no interruption are answered alike. -/
theorem abreast_askUninterrupted (h : before.Abreast f g) (size : Nat) (item : HeldStream S) :
  ∃ outcome item' f' g', supply.askUninterrupted size item f = (outcome, item', f')
    ∧ supply.askUninterrupted size item g = (outcome, item', g') ∧ before.Abreast f' g'
  := by
  induction item, f using askUninterrupted.induct supply size generalizing g with
  | case1 item f bytes item' f' hf =>
      obtain ⟨g', hg, h'⟩ := abreast_ask h hf
      exact ⟨_, _, _, _, askUninterrupted_of_ok hf, askUninterrupted_of_ok hg, h'⟩
  | case2 item f e item' f' hf he ih =>
      obtain ⟨g', hg, h'⟩ := abreast_ask h hf
      rw [askUninterrupted_of_interruption hf he, askUninterrupted_of_interruption hg he]
      apply ih h'
  | case3 item f e item' f' hf he =>
      obtain ⟨g', hg, h'⟩ := abreast_ask h hf
      have he : e.isInterruption = false := Bool.not_eq_true _ ▸ he
      exact ⟨_, _, _, _, askUninterrupted_of_error hf he, askUninterrupted_of_error hg he, h'⟩

/-- Bytes are passed over alike. -/
theorem abreast_passOver (h : before.Abreast f g) (gap : Nat) (item : HeldStream S) :
  ∃ outcome item' f' g', supply.passOver gap item f = (outcome, item', f')
    ∧ supply.passOver gap item g = (outcome, item', g') ∧ before.Abreast f' g'
  := by
  induction gap, item, f using passOver.induct supply generalizing g with
  | case1 item f => exact ⟨_, _, _, _, passOver_zero, passOver_zero, h⟩
  | case2 gap item f hgap item' f' hf =>
      have hpos := Nat.pos_of_ne_zero hgap
      obtain ⟨g', hg, h'⟩ := abreast_ask h hf
      exact ⟨_, _, _, _, passOver_of_nil hpos hf, passOver_of_nil hpos hg, h'⟩
  | case3 gap item f hgap b bs item' f' hf ih =>
      have hpos := Nat.pos_of_ne_zero hgap
      obtain ⟨g', hg, h'⟩ := abreast_ask h hf
      rw [passOver_of_ok hpos (List.cons_ne_nil b bs) hf,
        passOver_of_ok hpos (List.cons_ne_nil b bs) hg]
      apply ih h'
  | case4 gap item f hgap e item' f' hf he ih =>
      have hpos := Nat.pos_of_ne_zero hgap
      obtain ⟨g', hg, h'⟩ := abreast_ask h hf
      rw [passOver_of_interruption hpos hf he, passOver_of_interruption hpos hg he]
      apply ih h'
  | case5 gap item f hgap e item' f' hf he =>
      have hpos := Nat.pos_of_ne_zero hgap
      have he : e.isInterruption = false := Bool.not_eq_true _ ▸ he
      obtain ⟨g', hg, h'⟩ := abreast_ask h hf
      exact ⟨_, _, _, _, passOver_of_error hpos hf he, passOver_of_error hpos hg he, h'⟩

end Supply

/-! ### Settings -/

/-- The setting of readers of another manner. -/
def Setting.inManner (setting : Setting W H S) (manner : Manner) : Setting W H S :=
  { setting with manner := manner }

@[simp]
theorem Setting.inManner_piece {setting : Setting W H S} {manner : Manner} :
  (setting.inManner manner).piece = setting.piece
  := rfl

@[simp]
theorem Setting.inManner_manner {setting : Setting W H S} {manner : Manner} :
  (setting.inManner manner).manner = manner
  := rfl

namespace Setting

variable (setting : Setting W H S) (manner : Manner) {before f g : Feed W H}

/-- Sources are found alike. -/
theorem abreast_sourceFor (h : before.Abreast f g) (span : PayloadRest) :
  ∃ outcome f' g', setting.sourceFor span f = (outcome, f')
    ∧ (setting.inManner manner).sourceFor span g = (outcome, g') ∧ before.Abreast f' g'
  := by
  have hsupply : (setting.inManner manner).supply = setting.supply := rfl
  have hfound : f.handles[span.block]?.join = g.handles[span.block]?.join := by rw [h.handles_eq]
  rw [sourceFor, sourceFor]
  rw [hfound, h.world_eq, hsupply]
  cases g.handles[span.block]?.join with
  | some handle => exact ⟨_, _, _, rfl, rfl, h⟩
  | none =>
      rcases setting.supply.resolve span.run.source g.world with ⟨outcome, w⟩
      have h' := (h.withWorld w).record (.resolved span.run.source)
      cases outcome with
      | error e => exact ⟨_, _, _, rfl, rfl, h'⟩
      | ok handle =>
          refine ⟨_, _, _, rfl, rfl, ⟨h'.world_eq, ?_, h'.calls_eq, h'.calls_suffix⟩⟩
          rw [h'.handles_eq]

/-- What comes of asking for a range is the same. -/
theorem abreast_conclude (h : before.Abreast f g) (span : PayloadRest)
    (outcome : Except SourceError S) (notes : List Note) :
  ∃ outcome' f' g', conclude span outcome notes f = (outcome', f')
    ∧ conclude span outcome notes g = (outcome', g') ∧ before.Abreast f' g'
  := by
  cases outcome with
  | error e => exact ⟨_, _, _, rfl, rfl, h.notes notes⟩
  | ok stream => exact ⟨_, _, _, rfl, rfl, h.notes notes⟩

/-- Ranges are opened alike. -/
theorem abreast_openFor (h : before.Abreast f g) (span : PayloadRest) :
  ∃ outcome f' g', setting.openFor span f = (outcome, f')
    ∧ (setting.inManner manner).openFor span g = (outcome, g') ∧ before.Abreast f' g'
  := by
  obtain ⟨outcome, f', g', hf, hg, h'⟩ := setting.abreast_sourceFor manner h span
  rw [openFor, openFor]
  rw [hf, hg]
  cases outcome with
  | error e => exact ⟨_, _, _, rfl, rfl, h'⟩
  | ok handle =>
      have hannounced : before.Abreast (setting.announce span f')
          ((setting.inManner manner).announce span g') := (h'.note _ _).record _
      have hsupply : (setting.inManner manner).supply = setting.supply := rfl
      have hlength : (setting.inManner manner).lengthFor span = setting.lengthFor span := rfl
      simp only [openFrom]
      rw [hsupply, hlength, hannounced.world_eq]
      apply abreast_conclude (hannounced.withWorld _) span _ _

/-- What comes of passing over bytes is the same. -/
theorem abreast_concludeSkip (h : before.Abreast f g) (span : PayloadRest)
    (outcome : Except IoError Nat) (item : HeldStream S) :
  ∃ outcome' f' g', concludeSkip span (outcome, item, f) = (outcome', f')
    ∧ concludeSkip span (outcome, item, g) = (outcome', g') ∧ before.Abreast f' g'
  := by
  match outcome with
  | .ok 0 => exact ⟨_, _, _, rfl, rfl, h⟩
  | .ok (lacking + 1) => exact ⟨_, _, _, rfl, rfl, h.record _⟩
  | .error e => exact ⟨_, _, _, rfl, rfl, h.record _⟩

/-- Streams are brought to the bytes wanted alike. -/
theorem abreast_acquire (h : before.Abreast f g) (held : Option (HeldStream S))
    (span : PayloadRest) :
  ∃ outcome f' g', setting.acquire held span f = (outcome, f')
    ∧ (setting.inManner manner).acquire held span g = (outcome, g') ∧ before.Abreast f' g'
  := by
  have hsupply : (setting.inManner manner).supply = setting.supply := rfl
  rw [acquire, acquire]
  rw [hsupply]
  cases Approach.toward held span with
  | ready item => exact ⟨_, _, _, rfl, rfl, h⟩
  | skip item gap =>
      let note := Note.skipping span.path item.itemPos gap
      obtain ⟨outcome, item', f', g', hf, hg, h'⟩ :=
        setting.supply.abreast_passOver (h.note note note) gap item
      simp only
      rw [hf, hg]
      apply abreast_concludeSkip h' span outcome item'
  | reopen stale =>
      cases stale with
      | none => apply setting.abreast_openFor manner h span
      | some stale => apply setting.abreast_openFor manner (h.release stale) span

/-- Streams acquired are asked alike. -/
theorem abreast_askFor (h : before.Abreast f g) (span : PayloadRest) (room : Nat)
    (acquired : Except ReadError (HeldStream S)) :
  ∃ outcome held f' g', setting.askFor span room (acquired, f) = (outcome, held, f')
    ∧ (setting.inManner manner).askFor span room (acquired, g) = (outcome, held, g')
    ∧ before.Abreast f' g'
  := by
  have hsupply : (setting.inManner manner).supply = setting.supply := rfl
  cases acquired with
  | error e => exact ⟨_, _, _, _, rfl, rfl, h⟩
  | ok item =>
      obtain ⟨outcome, item', f', g', hf, hg, h'⟩ :=
        setting.supply.abreast_askUninterrupted h (min span.remaining room) item
      simp only [askFor, hsupply, hf, hg]
      cases outcome with
      | error e => exact ⟨_, _, _, _, rfl, rfl, h'⟩
      | ok bytes =>
          cases bytes with
          | nil => exact ⟨_, _, _, _, rfl, rfl, h'⟩
          | cons b bs => exact ⟨_, _, _, _, rfl, rfl, h'⟩

/-- Payload bytes are taken alike. -/
theorem abreast_takePayload (h : before.Abreast f g) (held : Option (HeldStream S))
    (span : PayloadRest) (room : Nat) :
  ∃ outcome held' f' g', setting.takePayload held span room f = (outcome, held', f')
    ∧ (setting.inManner manner).takePayload held span room g = (outcome, held', g')
    ∧ before.Abreast f' g'
  := by
  obtain ⟨acquired, f', g', hf, hg, h'⟩ := setting.abreast_acquire manner h held span
  rw [takePayload, takePayload]
  rw [hf, hg]
  apply setting.abreast_askFor manner h' span room acquired

end Setting

/-! ### Readers -/

namespace Reader

variable (setting : Setting W H S) (manner : Manner) {before f g : Feed W H}

/-- Streams are given up alike. -/
theorem abreast_release (h : before.Abreast f g) (reader : Reader S) :
  ∃ reader' f' g', reader.release f = (reader', f') ∧ reader.release g = (reader', g')
    ∧ before.Abreast f' g'
  := by
  rw [release, release]
  split
  · exact ⟨_, _, _, rfl, rfl, h⟩
  · exact ⟨_, _, _, rfl, rfl, h.release _⟩

/-- Readers go forward alike. -/
theorem abreast_advance (h : before.Abreast f g) (n : Nat) (reader : Reader S) :
  ∃ reader' f' g', reader.advance setting n f = (reader', f')
    ∧ reader.advance (setting.inManner manner) n g = (reader', g') ∧ before.Abreast f' g'
  := by
  have hpiece : (setting.inManner manner).piece = setting.piece := rfl
  rw [advance, advance]
  rw [hpiece]
  rcases reader.cursor.advance setting.piece n with ⟨cursor, _ | _⟩
  · exact ⟨_, _, _, rfl, rfl, h⟩
  · apply abreast_release h _

/-- Payload bytes are handed out alike. -/
theorem abreast_takeIn (h : before.Abreast f g) (reader : Reader S)
    (outcome : Except ReadError Bytes) (held : Option (HeldStream S)) :
  ∃ outcome' reader' f' g', reader.takeIn setting (outcome, held, f) = (outcome', reader', f')
    ∧ reader.takeIn (setting.inManner manner) (outcome, held, g) = (outcome', reader', g')
    ∧ before.Abreast f' g'
  := by
  cases outcome with
  | error e => exact ⟨_, _, _, _, rfl, rfl, h⟩
  | ok bytes =>
      obtain ⟨reader', f', g', hf, hg, h'⟩ :=
        abreast_advance setting manner h bytes.length { reader with held := held }
      simp only [takeIn, hf, hg]
      exact ⟨_, _, _, _, rfl, rfl, h'⟩

/-- Buffers are filled alike. -/
theorem abreast_gather (h : before.Abreast f g) (room : Nat) (reader : Reader S) :
  ∃ outcome reader' f' g', reader.gather setting room f = (outcome, reader', f')
    ∧ reader.gather (setting.inManner manner) room g = (outcome, reader', g')
    ∧ before.Abreast f' g'
  := by
  induction room using Nat.strongRecOn generalizing reader f g with
  | ind room ih =>
      rcases Nat.eq_zero_or_pos room with rfl | hroom
      · exact ⟨_, _, _, _, gather_zero, gather_zero, h⟩
      · have hpiece : (setting.inManner manner).piece = setting.piece := rfl
        cases hseg : reader.cursor.segment setting.piece with
        | finish =>
            exact ⟨_, _, _, _, gather_of_finish hseg, gather_of_finish (hpiece ▸ hseg), h⟩
        | bytes available =>
            have hpos := List.length_pos_iff.mpr (Cursor.ne_nil_of_segment hseg)
            have hlt : room - (available.take room).length < room := by
              rw [List.length_take]
              omega
            obtain ⟨reader', f', g', hf, hg, h'⟩ :=
              abreast_advance setting manner h (available.take room).length reader
            obtain ⟨outcome, reader'', f'', g'', hf', hg', h''⟩ := ih _ hlt h' reader'
            rw [gather_of_bytes hroom hseg, gather_of_bytes hroom (hpiece ▸ hseg)]
            simp only [hf, hg, hf', hg']
            exact ⟨_, _, _, _, rfl, rfl, h''⟩
        | payload span =>
            obtain ⟨outcome, held, f', g', hf, hg, h'⟩ :=
              setting.abreast_takePayload manner h reader.held span room
            rw [gather_of_payload hroom hseg, gather_of_payload hroom (hpiece ▸ hseg), hf, hg]
            apply abreast_takeIn setting manner h' reader outcome held

/-- A failed read poisons alike. -/
theorem abreast_poisonOnError (h : before.Abreast f g) (outcome : Except ReadError Bytes)
    (reader : Reader S) :
  ∃ outcome' reader' f' g', poisonOnError setting (outcome, reader, f) = (outcome', reader', f')
    ∧ poisonOnError (setting.inManner manner) (outcome, reader, g) = (outcome', reader', g')
    ∧ before.Abreast f' g'
  := by
  cases outcome with
  | ok bytes => exact ⟨_, _, _, _, rfl, rfl, h⟩
  | error e =>
      obtain ⟨reader', f', g', hf, hg, h'⟩ := abreast_release
        (h.note (.readFailed setting.manner reader.position e)
          (.readFailed manner reader.position e)) reader
      simp only [poisonOnError, Setting.inManner_manner, hf, hg]
      exact ⟨_, _, _, _, rfl, rfl, h'⟩

/-- A failed read takes no call back. -/
theorem calls_suffix_poisonOnError (outcome : Except ReadError Bytes) (reader : Reader S) :
  f.calls <:+ (poisonOnError setting (outcome, reader, f)).2.2.calls
  := by
  obtain ⟨_, _, f', _, hf, -, h⟩ :=
    abreast_poisonOnError setting setting.manner (Feed.Abreast.refl (f := f)) outcome reader
  rw [hf]
  apply h.calls_suffix

/-- Reads are done alike. -/
theorem abreast_read (h : before.Abreast f g) (size : Nat) (reader : Reader S) :
  ∃ outcome reader' f' g', reader.read setting size f = (outcome, reader', f')
    ∧ reader.read (setting.inManner manner) size g = (outcome, reader', g')
    ∧ before.Abreast f' g'
  := by
  rw [read, read]
  split
  · exact ⟨_, _, _, _, rfl, rfl, h⟩
  · obtain ⟨outcome, reader', f', g', hf, hg, h'⟩ := abreast_gather setting manner h size reader
    rw [hf, hg]
    apply abreast_poisonOnError setting manner h' outcome reader'

/-- A number of reads is done alike. -/
theorem abreast_drainWithin (h : before.Abreast f g) (size calls : Nat) (reader : Reader S) :
  ∃ portions failure reader' f' g',
    drainWithin (fun reader feed => reader.read setting size feed) calls reader f
        = (portions, failure, reader', f')
    ∧ drainWithin (fun reader feed => reader.read (setting.inManner manner) size feed) calls
        reader g = (portions, failure, reader', g')
    ∧ before.Abreast f' g'
  := by
  induction calls generalizing reader f g with
  | zero => exact ⟨_, _, _, _, _, rfl, rfl, h⟩
  | succ calls ih =>
      obtain ⟨outcome, reader', f', g', hf, hg, h'⟩ := abreast_read setting manner h size reader
      simp only [drainWithin, hf, hg]
      match outcome with
      | .error e => exact ⟨_, _, _, _, _, rfl, rfl, h'⟩
      | .ok [] => exact ⟨_, _, _, _, _, rfl, rfl, h'⟩
      | .ok (b :: bs) =>
          obtain ⟨portions, failure, reader'', f'', g'', hf', hg', h''⟩ := ih h' reader'
          simp only [hf', hg']
          exact ⟨_, _, _, _, _, rfl, rfl, h''⟩

/-- A number of reads takes no call back. -/
theorem calls_suffix_drainWithin (size calls : Nat) (reader : Reader S) :
  f.calls <:+ (drainWithin (fun reader feed => reader.read setting size feed) calls
    reader f).2.2.2.calls
  := by
  obtain ⟨_, _, _, f', _, hf, -, h⟩ :=
    abreast_drainWithin setting setting.manner (Feed.Abreast.refl (f := f)) size calls reader
  rw [hf]
  apply h.calls_suffix

/-- Moves are made alike. -/
theorem abreast_moveTo (h : before.Abreast f g) (offset : Nat) (reader : Reader S) :
  ∃ outcome reader' f' g', reader.moveTo setting offset f = (outcome, reader', f')
    ∧ reader.moveTo (setting.inManner manner) offset g = (outcome, reader', g')
    ∧ before.Abreast f' g'
  := by
  have hreach : checkReach (setting.inManner manner) offset = checkReach setting offset := rfl
  rw [moveTo, moveTo]
  rw [hreach]
  cases checkReach setting offset with
  | error e => exact ⟨_, _, _, _, rfl, rfl, h⟩
  | ok _ =>
      obtain ⟨reader', f', g', hf, hg, h'⟩ := abreast_release h reader
      rw [hf, hg]
      exact ⟨_, _, _, _, rfl, rfl, h'.note _ _⟩

/-- Targets are reached alike. -/
theorem abreast_seek (h : before.Abreast f g) (target : SeekTarget) (reader : Reader S) :
  ∃ outcome reader' f' g', reader.seek setting target f = (outcome, reader', f')
    ∧ reader.seek (setting.inManner manner) target g = (outcome, reader', g')
    ∧ before.Abreast f' g'
  := by
  have htarget : targetPosition (setting.inManner manner) target reader
      = targetPosition setting target reader := rfl
  unfold seek
  rw [htarget]
  dsimp only
  split
  · exact ⟨_, _, _, _, rfl, rfl, h⟩
  · obtain ⟨outcome, reader', f', g', hf, hg, h'⟩ :=
      abreast_moveTo setting manner h (targetPosition setting target reader).toNat reader
    rw [hf, hg]
    cases outcome with
    | error e => exact ⟨_, _, _, _, rfl, rfl, h'⟩
    | ok _ => exact ⟨_, _, _, _, rfl, rfl, h'⟩

end Reader

/-! ### Families -/

/-- The families have the same members, and their feeds are abreast. -/
structure Family.Abreast (before : Feed W H) (F G : Family W H S) : Prop where
  members_eq : F.members = G.members
  feeds : before.Abreast F.feed G.feed

namespace Family

variable (setting : Setting W H S) (manner : Manner) {before : Feed W H} {F G : Family W H S}

/-- Members of that number are the same. -/
theorem Abreast.member?_eq (h : Abreast before F G) (index : Nat) :
  F.member? index = G.member? index
  := by
  rw [member?, member?, h.members_eq]

/-- Families stay abreast when a member changes in the same way. -/
theorem Abreast.update {f g : Feed W H} (h : Abreast before F G) (hfeeds : before.Abreast f g)
    (index : Nat) (reader : Reader S) :
  Abreast before (F.update index reader f) (G.update index reader g)
  := by
  constructor
  · simp only [Family.update, h.members_eq]
  · apply hfeeds

/-- Members go alike. -/
theorem Abreast.remove (h : Abreast before F G) (index : Nat) :
  Abreast before (F.remove index) (G.remove index)
  := by
  rw [Family.remove, Family.remove]
  rw [h.member?_eq index]
  cases G.member? index with
  | none => apply h
  | some reader =>
      obtain ⟨cursor, held, poisoned⟩ := reader
      cases held with
      | none => exact ⟨by rw [h.members_eq], h.feeds⟩
      | some item => exact ⟨by rw [h.members_eq], h.feeds.record _⟩

/-- A command is answered alike. -/
theorem abreast_run (h : Abreast before F G) (index : Nat) (command : Command) :
  ∃ reply F' G', F.run setting index command = (reply, F')
    ∧ G.run (setting.inManner manner) index command = (reply, G') ∧ Abreast before F' G'
  := by
  rw [run, run, runBy, runBy]
  rw [h.member?_eq index]
  cases G.member? index with
  | none => exact ⟨_, _, _, rfl, rfl, h⟩
  | some reader =>
      cases command with
      | read size =>
          obtain ⟨outcome, reader', f', g', hf, hg, h'⟩ :=
            Reader.abreast_read setting manner h.feeds size reader
          simp only [hf, hg]
          exact ⟨_, _, _, rfl, rfl, h.update h' index reader'⟩
      | drain size =>
          obtain ⟨portions, failure, reader', f', g', hf, hg, h'⟩ :=
            Reader.abreast_drainWithin setting manner h.feeds size
              (setting.piece.size - reader.position + 1) reader
          simp only [Reader.drain, Setting.inManner_piece, hf, hg]
          exact ⟨_, _, _, rfl, rfl, h.update h' index reader'⟩
      | moveTo offset =>
          obtain ⟨outcome, reader', f', g', hf, hg, h'⟩ :=
            Reader.abreast_moveTo setting manner h.feeds offset reader
          simp only [hf, hg]
          exact ⟨_, _, _, rfl, rfl, h.update h' index reader'⟩
      | seek target =>
          obtain ⟨outcome, reader', f', g', hf, hg, h'⟩ :=
            Reader.abreast_seek setting manner h.feeds target reader
          simp only [hf, hg]
          exact ⟨_, _, _, rfl, rfl, h.update h' index reader'⟩
      | copy offset =>
          have hcopy : Reader.copyAt (setting.inManner manner) offset
              = Reader.copyAt setting offset := rfl
          dsimp only
          rw [hcopy, h.members_eq]
          cases Reader.copyAt setting offset with
          | error e => exact ⟨_, _, _, rfl, rfl, h⟩
          | ok copy => exact ⟨_, _, _, rfl, rfl, ⟨rfl, h.feeds⟩⟩
      | close =>
          obtain ⟨reader', f', g', hf, hg, h'⟩ := Reader.abreast_release h.feeds reader
          simp only [hf, hg]
          exact ⟨_, _, _, rfl, rfl, h.update h' index reader'⟩
      | drop => exact ⟨_, _, _, rfl, rfl, h.remove index⟩

/-- All commands are answered alike. -/
theorem abreast_runAll (h : Abreast before F G) (commands : List (Nat × Command)) :
  ∃ replies F' G', F.runAll setting commands = (replies, F')
    ∧ G.runAll (setting.inManner manner) commands = (replies, G') ∧ Abreast before F' G'
  := by
  induction commands generalizing F G with
  | nil => exact ⟨_, _, _, rfl, rfl, h⟩
  | cons command commands ih =>
      obtain ⟨index, command⟩ := command
      obtain ⟨reply, F', G', hF, hG, h'⟩ := abreast_run setting manner h index command
      obtain ⟨replies, F'', G'', hF', hG', h''⟩ := ih h'
      rw [runAll_cons, runAll_cons, hF, hG]
      simp only [hF', hG']
      exact ⟨_, _, _, rfl, rfl, h''⟩

/-- Commands take no call back. -/
theorem calls_suffix_runAll (commands : List (Nat × Command)) :
  F.feed.calls <:+ (F.runAll setting commands).2.feed.calls
  := by
  obtain ⟨_, F', _, hF, -, h⟩ :=
    abreast_runAll setting setting.manner (F := F) ⟨rfl, Feed.Abreast.refl⟩ commands
  rw [hF]
  apply h.feeds.calls_suffix

end Family

end PieceStream
