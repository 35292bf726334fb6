import PieceStream.Proofs.Suspension

/-!
# Supplies in the guise of others

A supply goes in the guise of another if its worlds, sources and streams stand for those of the
other, and what it answers stands for what the other answers; only that its streams may be
interrupted more often.  Readers that draw from it answer every command as readers that draw from
the other do, and what happens is the same but for interruptions.
-/

namespace PieceStream

variable {W H S W' H' S' : Type}

/-- The supply `double` answers as `supply` does, but for interruptions.  After an interruption of
its own the stream stands for one that answers the same question alike. -/
structure Supply.Guise (double : Supply W' H' S') (supply : Supply W H S) where
  world : W' → W
  handle : H' → H
  stream : S' → S
  resolve_eq (source : SourceId) (w : W') :
    supply.resolve source (world w)
      = ((double.resolve source w).1.map handle, world (double.resolve source w).2)
  openRange_eq (h : H') (path : String) (offset length : Nat) (w : W') :
    supply.openRange (handle h) path offset length (world w)
      = ((double.openRange h path offset length w).1.map stream,
          (double.openRange h path offset length w).2.1,
          world (double.openRange h path offset length w).2.2)
  read_eq (s : S') (n : Nat) (w : W') :
    supply.read (stream s) n (world w)
        = ((double.read s n w).1, stream (double.read s n w).2.1, world (double.read s n w).2.2)
      ∨ ∃ e, (double.read s n w).1 = .error e ∧ e.isInterruption = true
        ∧ supply.read (stream s) n (world w)
          = supply.read (stream (double.read s n w).2.1) n (world (double.read s n w).2.2)

/-- Whether the event is an interruption. -/
def Event.isInterruptedAsk : Event → Bool
  | .asked _ _ _ (.error e) => e.isInterruption
  | _ => false

/-- The events but for interruptions, the latest first. -/
def Feed.uninterrupted (feed : Feed W H) : List Event :=
  feed.latest.filter fun event => !event.isInterruptedAsk

/-- What is held with another stream in place of the stream. -/
def HeldStream.map (f : S' → S) (item : HeldStream S') : HeldStream S :=
  ⟨item.block, item.source, item.itemPos, f item.stream⟩

/-- What is to be done with other streams in place of the streams. -/
def Approach.map (f : S' → S) : Approach S' → Approach S
  | .ready item => .ready (item.map f)
  | .skip item gap => .skip (item.map f) gap
  | .reopen stale => .reopen (stale.map (HeldStream.map f))

/-- The reader with another stream in place of the stream that it holds. -/
def Reader.map (f : S' → S) (reader : Reader S') : Reader S :=
  ⟨reader.cursor, reader.held.map (HeldStream.map f), reader.poisoned⟩

section

variable {f : S' → S} {reader : Reader S'}

@[simp]
theorem Reader.cursor_map :
  (reader.map f).cursor = reader.cursor
  := rfl

@[simp]
theorem Reader.position_map :
  (reader.map f).position = reader.position
  := rfl

@[simp]
theorem Reader.held_map :
  (reader.map f).held = reader.held.map (HeldStream.map f)
  := rfl

@[simp]
theorem Reader.poisoned_map :
  (reader.map f).poisoned = reader.poisoned
  := rfl

end

/-- What is to be done does not depend on the stream itself. -/
theorem Approach.toward_map (f : S' → S) (held : Option (HeldStream S')) (span : PayloadRest) :
  toward (held.map (HeldStream.map f)) span = (toward held span).map f
  := by
  cases held with
  | none => rfl
  | some item =>
      rw [Option.map_some, toward, toward]
      rw [apply_ite (map f), apply_ite (map f)]
      rfl

namespace Supply.Guise

variable {double : Supply W' H' S'} {supply : Supply W H S} {setting : Setting W H S}

/-- What happened is the same but for interruptions that only the one feed has met, and the state of
the one feed stands for the state of the other. -/
structure Fits (guise : double.Guise supply) (f : Feed W' H') (g : Feed W H) : Prop where
  world_eq : g.world = guise.world f.world
  handles_eq : g.handles = f.handles.map (Option.map guise.handle)
  uninterrupted_eq : g.uninterrupted = f.uninterrupted
  skipInterrupted : g.SkipInterrupted → f.SkipInterrupted

variable {guise : double.Guise supply} {f : Feed W' H'} {g : Feed W H}

/-- Feeds keep fitting when both record an event. -/
theorem Fits.record (h : guise.Fits f g) (event : Event) :
  guise.Fits (f.record event) (g.record event)
  := by
  constructor
  case world_eq => apply h.world_eq
  case handles_eq => apply h.handles_eq
  case uninterrupted_eq =>
      have heq := h.uninterrupted_eq
      simp only [Feed.uninterrupted, Feed.record, List.filter_cons] at heq ⊢
      rw [heq]
  case skipInterrupted =>
      rw [Feed.skipInterrupted_record, Feed.skipInterrupted_record]
      apply Or.imp_right h.skipInterrupted

/-- An interruption of the one feed makes no difference. -/
theorem Fits.recordInterruption (h : guise.Fits f g) {event : Event}
    (hevent : event.isInterruptedAsk = true) :
  guise.Fits (f.record event) g
  := by
  constructor
  case world_eq => apply h.world_eq
  case handles_eq => apply h.handles_eq
  case uninterrupted_eq =>
      rw [h.uninterrupted_eq]
      simp only [Feed.uninterrupted, Feed.record, List.filter_cons, hevent, Bool.not_true,
        Bool.false_eq_true, if_false]
  case skipInterrupted =>
      intro hg
      apply Feed.skipInterrupted_record.mpr (.inr (h.skipInterrupted hg))

/-- The worlds may change together. -/
theorem Fits.withWorld (h : guise.Fits f g) (w : W') :
  guise.Fits { f with world := w } { g with world := guise.world w }
  := ⟨rfl, h.handles_eq, h.uninterrupted_eq, h.skipInterrupted⟩

/-- Feeds keep fitting when both take the same notes. -/
theorem Fits.notes (h : guise.Fits f g) (notes : List Note) :
  guise.Fits (notes.foldl Feed.note f) (notes.foldl Feed.note g)
  := by
  induction notes generalizing f g with
  | nil => apply h
  | cons n notes ih => apply ih (h.record _)

/-- Feeds keep fitting when both give a stream up. -/
theorem Fits.release (h : guise.Fits f g) (item : HeldStream S') :
  guise.Fits (f.release item) (g.release (item.map guise.stream))
  := (h.record _).record _

/-! ### Streams -/

/-- One question is answered alike, unless the one stream is interrupted and the other one not. -/
theorem fits_ask {purpose : Purpose} {size : Nat} {outcome : Except IoError Bytes}
    {item item' : HeldStream S'} {f' : Feed W' H'} (h : guise.Fits f g)
    (hf : double.ask purpose size item f = (outcome, item', f')) :
  ∃ g', guise.Fits f' g'
    ∧ (supply.ask purpose size (item.map guise.stream) g
          = (outcome, item'.map guise.stream, g')
      ∨ ∃ e, outcome = .error e ∧ e.isInterruption = true
        ∧ supply.ask purpose size (item.map guise.stream) g
          = supply.ask purpose size (item'.map guise.stream) g')
  := by
  rw [ask] at hf
  cases hf
  rcases guise.read_eq item.stream size f.world with heq | ⟨e, he, hinterruption, heq⟩
  · refine ⟨_, (h.withWorld _).record _, .inl ?_⟩
    simp only [ask, HeldStream.map, h.world_eq, heq]
  · refine ⟨_, (h.withWorld _).recordInterruption ?_, .inr ⟨e, he, hinterruption, ?_⟩⟩
    · rw [he]
      apply hinterruption
    · simp only [ask, HeldStream.map, h.world_eq, heq]

/-- Questions asked until there is no interruption are answered alike. -/
theorem fits_askUninterrupted (h : guise.Fits f g) (size : Nat) (item : HeldStream S') :
  ∃ outcome item' f' g', double.askUninterrupted size item f = (outcome, item', f')
    ∧ supply.askUninterrupted size (item.map guise.stream) g
        = (outcome, item'.map guise.stream, g')
    ∧ guise.Fits f' g'
  := by
  induction item, f using askUninterrupted.induct double size generalizing g with
  | case1 item f bytes item' f' hf =>
      obtain ⟨g', h', hg | ⟨e, ⟨⟩, -⟩⟩ := fits_ask h hf
      exact ⟨_, _, _, _, askUninterrupted_of_ok hf, askUninterrupted_of_ok hg, h'⟩
  | case2 item f e item' f' hf he ih =>
      obtain ⟨g', h', hg | ⟨_, -, -, hg⟩⟩ := fits_ask h hf
      · rw [askUninterrupted_of_interruption hf he, askUninterrupted_of_interruption hg he]
        apply ih h'
      · rw [askUninterrupted_of_interruption hf he, askUninterrupted_congr hg]
        apply ih h'
  | case3 item f e item' f' hf he =>
      obtain ⟨g', h', hg | ⟨_, ⟨⟩, he', -⟩⟩ := fits_ask h hf
      · have he : e.isInterruption = false := Bool.not_eq_true _ ▸ he
        exact ⟨_, _, _, _, askUninterrupted_of_error hf he, askUninterrupted_of_error hg he, h'⟩
      · exact absurd he' he

/-- Bytes are passed over alike. -/
theorem fits_passOver (h : guise.Fits f g) (gap : Nat) (item : HeldStream S') :
  ∃ outcome item' f' g', double.passOver gap item f = (outcome, item', f')
    ∧ supply.passOver gap (item.map guise.stream) g = (outcome, item'.map guise.stream, g')
    ∧ guise.Fits f' g'
  := by
  induction gap, item, f using passOver.induct double generalizing g with
  | case1 item f => exact ⟨_, _, _, _, passOver_zero, passOver_zero, h⟩
  | case2 gap item f hgap item' f' hf =>
      have hpos := Nat.pos_of_ne_zero hgap
      obtain ⟨g', h', hg | ⟨e, ⟨⟩, -⟩⟩ := fits_ask h hf
      exact ⟨_, _, _, _, passOver_of_nil hpos hf, passOver_of_nil hpos hg, h'⟩
  | case3 gap item f hgap b bs item' f' hf ih =>
      have hpos := Nat.pos_of_ne_zero hgap
      obtain ⟨g', h', hg | ⟨e, ⟨⟩, -⟩⟩ := fits_ask h hf
      rw [passOver_of_ok hpos (List.cons_ne_nil b bs) hf,
        passOver_of_ok hpos (List.cons_ne_nil b bs) hg]
      apply ih h'
  | case4 gap item f hgap e item' f' hf he ih =>
      have hpos := Nat.pos_of_ne_zero hgap
      obtain ⟨g', h', hg | ⟨_, -, -, hg⟩⟩ := fits_ask h hf
      · rw [passOver_of_interruption hpos hf he, passOver_of_interruption hpos hg he]
        apply ih h'
      · rw [passOver_of_interruption hpos hf he, passOver_congr hpos hg]
        apply ih h'
  | case5 gap item f hgap e item' f' hf he =>
      have hpos := Nat.pos_of_ne_zero hgap
      obtain ⟨g', h', hg | ⟨_, ⟨⟩, he', -⟩⟩ := fits_ask h hf
      · have he : e.isInterruption = false := Bool.not_eq_true _ ▸ he
        exact ⟨_, _, _, _, passOver_of_error hpos hf he, passOver_of_error hpos hg he, h'⟩
      · exact absurd he' he

end Supply.Guise

/-! ### Settings -/

/-- The setting of readers that draw from another supply. -/
def Setting.drawingFrom (setting : Setting W H S) (double : Supply W' H' S') : Setting W' H' S' :=
  ⟨double, setting.piece, setting.options, setting.manner⟩

section

variable {setting : Setting W H S} {double : Supply W' H' S'}

@[simp]
theorem Setting.supply_drawingFrom :
  (setting.drawingFrom double).supply = double
  := rfl

@[simp]
theorem Setting.piece_drawingFrom :
  (setting.drawingFrom double).piece = setting.piece
  := rfl

@[simp]
theorem Setting.manner_drawingFrom :
  (setting.drawingFrom double).manner = setting.manner
  := rfl

@[simp]
theorem Setting.lengthFor_drawingFrom {span : PayloadRest} :
  (setting.drawingFrom double).lengthFor span = setting.lengthFor span
  := rfl

@[simp]
theorem Reader.checkReach_drawingFrom {offset : Nat} :
  checkReach (setting.drawingFrom double) offset = checkReach setting offset
  := rfl

end

namespace Supply.Guise

variable {setting : Setting W H S} {double : Supply W' H' S'}
  (guise : double.Guise setting.supply) {f : Feed W' H'} {g : Feed W H}

/-- Sources are found alike. -/
theorem fits_sourceFor (h : guise.Fits f g) (span : PayloadRest) :
  ∃ outcome f' g', (setting.drawingFrom double).sourceFor span f = (outcome, f')
    ∧ setting.sourceFor span g = (outcome.map guise.handle, g') ∧ guise.Fits f' g'
  := by
  have hfound : g.handles[span.block]?.join = f.handles[span.block]?.join.map guise.handle := by
    rw [h.handles_eq, List.getElem?_map]
    rcases f.handles[span.block]? with _ | _ | handle <;> rfl
  rw [Setting.sourceFor, Setting.sourceFor]
  rw [hfound, h.world_eq, guise.resolve_eq, Setting.supply_drawingFrom]
  cases f.handles[span.block]?.join with
  | some handle => exact ⟨_, _, _, rfl, rfl, h⟩
  | none =>
      rcases double.resolve span.run.source f.world with ⟨outcome, w⟩
      have h' := (h.withWorld w).record (.resolved span.run.source)
      cases outcome with
      | error e => exact ⟨_, _, _, rfl, rfl, h'⟩
      | ok handle =>
          refine ⟨_, _, _, rfl, rfl, ⟨h'.world_eq, ?_, h'.uninterrupted_eq, h'.skipInterrupted⟩⟩
          rw [h'.handles_eq, List.map_set]
          rfl

/-- What comes of asking for a range is the same. -/
theorem fits_conclude (h : guise.Fits f g) (span : PayloadRest) (outcome : Except SourceError S')
    (notes : List Note) :
  ∃ outcome' f' g', Setting.conclude span outcome notes f = (outcome', f')
    ∧ Setting.conclude span (outcome.map guise.stream) notes g
        = (outcome'.map (HeldStream.map guise.stream), g')
    ∧ guise.Fits f' g'
  := by
  cases outcome with
  | error e => exact ⟨_, _, _, rfl, rfl, h.notes notes⟩
  | ok stream => exact ⟨_, _, _, rfl, rfl, h.notes notes⟩

/-- Ranges are opened alike. -/
theorem fits_openFor (h : guise.Fits f g) (span : PayloadRest) :
  ∃ outcome f' g', (setting.drawingFrom double).openFor span f = (outcome, f')
    ∧ setting.openFor span g = (outcome.map (HeldStream.map guise.stream), g') ∧ guise.Fits f' g'
  := by
  obtain ⟨outcome, f', g', hf, hg, h'⟩ := guise.fits_sourceFor h span
  rw [Setting.openFor, Setting.openFor]
  rw [hf, hg]
  cases outcome with
  | error e => exact ⟨_, _, _, rfl, rfl, h'⟩
  | ok handle =>
      have hannounced : guise.Fits ((setting.drawingFrom double).announce span f')
          (setting.announce span g') := (h'.record _).record _
      dsimp only [Except.map]
      rw [Setting.openFrom, Setting.openFrom]
      rw [Setting.supply_drawingFrom, Setting.lengthFor_drawingFrom, hannounced.world_eq,
        guise.openRange_eq]
      apply guise.fits_conclude (hannounced.withWorld _) span _ _

/-- What comes of passing over bytes is the same. -/
theorem fits_concludeSkip (h : guise.Fits f g) (span : PayloadRest) (outcome : Except IoError Nat)
    (item : HeldStream S') :
  ∃ outcome' f' g', Setting.concludeSkip span (outcome, item, f) = (outcome', f')
    ∧ Setting.concludeSkip span (outcome, item.map guise.stream, g)
        = (outcome'.map (HeldStream.map guise.stream), g')
    ∧ guise.Fits f' g'
  := by
  match outcome with
  | .ok 0 => exact ⟨_, _, _, rfl, rfl, h⟩
  | .ok (lacking + 1) => exact ⟨_, _, _, rfl, rfl, h.record _⟩
  | .error e => exact ⟨_, _, _, rfl, rfl, h.record _⟩

/-- Streams are brought to the bytes wanted alike. -/
theorem fits_acquire (h : guise.Fits f g) (held : Option (HeldStream S')) (span : PayloadRest) :
  ∃ outcome f' g', (setting.drawingFrom double).acquire held span f = (outcome, f')
    ∧ setting.acquire (held.map (HeldStream.map guise.stream)) span g
        = (outcome.map (HeldStream.map guise.stream), g')
    ∧ guise.Fits f' g'
  := by
  rw [Setting.acquire, Setting.acquire]
  rw [Setting.supply_drawingFrom, Approach.toward_map]
  cases Approach.toward held span with
  | ready item => exact ⟨_, _, _, rfl, rfl, h⟩
  | skip item gap =>
      let note := Note.skipping span.path item.itemPos gap
      obtain ⟨outcome, item', f', g', hf, hg, h'⟩ :=
        fits_passOver (h.record (.noted note)) gap item
      have hpos : (item.map guise.stream).itemPos = item.itemPos := rfl
      simp only [Approach.map, Feed.note, hpos, hf, hg, note]
      apply guise.fits_concludeSkip h' span outcome item'
  | reopen stale =>
      cases stale with
      | none => apply guise.fits_openFor h span
      | some stale => apply guise.fits_openFor (h.release stale) span

/-- Streams acquired are asked alike. -/
theorem fits_askFor (h : guise.Fits f g) (span : PayloadRest) (room : Nat)
    (acquired : Except ReadError (HeldStream S')) :
  ∃ outcome held f' g', (setting.drawingFrom double).askFor span room (acquired, f)
        = (outcome, held, f')
    ∧ setting.askFor span room (acquired.map (HeldStream.map guise.stream), g)
        = (outcome, held.map (HeldStream.map guise.stream), g')
    ∧ guise.Fits f' g'
  := by
  cases acquired with
  | error e => exact ⟨_, _, _, _, rfl, rfl, h⟩
  | ok item =>
      obtain ⟨outcome, item', f', g', hf, hg, h'⟩ :=
        fits_askUninterrupted h (min span.remaining room) item
      simp only [Setting.askFor, Except.map, Setting.supply_drawingFrom, hf, hg]
      cases outcome with
      | error e => exact ⟨_, _, _, _, rfl, rfl, h'⟩
      | ok bytes =>
          cases bytes with
          | nil => exact ⟨_, _, _, _, rfl, rfl, h'⟩
          | cons b bs => exact ⟨_, _, _, _, rfl, rfl, h'⟩

/-- Payload bytes are taken alike. -/
theorem fits_takePayload (h : guise.Fits f g) (held : Option (HeldStream S')) (span : PayloadRest)
    (room : Nat) :
  ∃ outcome held' f' g', (setting.drawingFrom double).takePayload held span room f
        = (outcome, held', f')
    ∧ setting.takePayload (held.map (HeldStream.map guise.stream)) span room g
        = (outcome, held'.map (HeldStream.map guise.stream), g')
    ∧ guise.Fits f' g'
  := by
  obtain ⟨acquired, f', g', hf, hg, h'⟩ := guise.fits_acquire h held span
  rw [Setting.takePayload, Setting.takePayload]
  rw [hf, hg]
  apply guise.fits_askFor h' span room acquired

/-! ### Readers -/

/-- Streams are given up alike. -/
theorem fits_release (h : guise.Fits f g) (reader : Reader S') :
  ∃ reader' f' g', reader.release f = (reader', f')
    ∧ (reader.map guise.stream).release g = (reader'.map guise.stream, g') ∧ guise.Fits f' g'
  := by
  obtain ⟨cursor, held, poisoned⟩ := reader
  cases held with
  | none => exact ⟨_, _, _, rfl, rfl, h⟩
  | some item => exact ⟨_, _, _, rfl, rfl, h.release item⟩

/-- Readers go forward alike. -/
theorem fits_advance (h : guise.Fits f g) (n : Nat) (reader : Reader S') :
  ∃ reader' f' g', reader.advance (setting.drawingFrom double) n f = (reader', f')
    ∧ (reader.map guise.stream).advance setting n g = (reader'.map guise.stream, g')
    ∧ guise.Fits f' g'
  := by
  rw [Reader.advance, Reader.advance]
  rw [Setting.piece_drawingFrom, Reader.cursor_map]
  rcases reader.cursor.advance setting.piece n with ⟨cursor, _ | _⟩
  · exact ⟨_, _, _, rfl, rfl, h⟩
  · apply guise.fits_release h { reader with cursor := cursor }

/-- Payload bytes are handed out alike. -/
theorem fits_takeIn (h : guise.Fits f g) (reader : Reader S') (outcome : Except ReadError Bytes)
    (held : Option (HeldStream S')) :
  ∃ outcome' reader' f' g',
    reader.takeIn (setting.drawingFrom double) (outcome, held, f) = (outcome', reader', f')
    ∧ (reader.map guise.stream).takeIn setting
        (outcome, held.map (HeldStream.map guise.stream), g)
        = (outcome', reader'.map guise.stream, g')
    ∧ guise.Fits f' g'
  := by
  cases outcome with
  | error e => exact ⟨_, _, _, _, rfl, rfl, h⟩
  | ok bytes =>
      obtain ⟨reader', f', g', hf, hg, h'⟩ :=
        guise.fits_advance h bytes.length { reader with held := held }
      simp only [Reader.map] at hg
      simp only [Reader.takeIn, Reader.map, hf, hg]
      exact ⟨_, _, _, _, rfl, rfl, h'⟩

/-- Buffers are filled alike. -/
theorem fits_gather (h : guise.Fits f g) (room : Nat) (reader : Reader S') :
  ∃ outcome reader' f' g', reader.gather (setting.drawingFrom double) room f
        = (outcome, reader', f')
    ∧ (reader.map guise.stream).gather setting room g = (outcome, reader'.map guise.stream, g')
    ∧ guise.Fits f' g'
  := by
  induction room using Nat.strongRecOn generalizing reader f g with
  | ind room ih =>
      rcases Nat.eq_zero_or_pos room with rfl | hroom
      · exact ⟨_, _, _, _, Reader.gather_zero, Reader.gather_zero, h⟩
      · have hcursor : (reader.map guise.stream).cursor.segment setting.piece
            = reader.cursor.segment (setting.drawingFrom double).piece := rfl
        cases hseg : reader.cursor.segment (setting.drawingFrom double).piece with
        | finish =>
            exact ⟨_, _, _, _, Reader.gather_of_finish hseg,
              Reader.gather_of_finish (hcursor.trans hseg), h⟩
        | bytes available =>
            have hpos := List.length_pos_iff.mpr (Cursor.ne_nil_of_segment hseg)
            have hlt : room - (available.take room).length < room := by
              rw [List.length_take]
              omega
            obtain ⟨reader', f', g', hf, hg, h'⟩ :=
              guise.fits_advance h (available.take room).length reader
            obtain ⟨outcome, reader'', f'', g'', hf', hg', h''⟩ := ih _ hlt h' reader'
            rw [Reader.gather_of_bytes hroom hseg,
              Reader.gather_of_bytes hroom (hcursor.trans hseg)]
            simp only [hf, hg, hf', hg']
            exact ⟨_, _, _, _, rfl, rfl, h''⟩
        | payload span =>
            obtain ⟨outcome, held, f', g', hf, hg, h'⟩ :=
              guise.fits_takePayload h reader.held span room
            rw [Reader.gather_of_payload hroom hseg,
              Reader.gather_of_payload hroom (hcursor.trans hseg), Reader.held_map, hf, hg]
            apply guise.fits_takeIn h' reader outcome held

/-- A failed read poisons alike. -/
theorem fits_poisonOnError (h : guise.Fits f g) (outcome : Except ReadError Bytes)
    (reader : Reader S') :
  ∃ outcome' reader' f' g',
    Reader.poisonOnError (setting.drawingFrom double) (outcome, reader, f) = (outcome', reader', f')
    ∧ Reader.poisonOnError setting (outcome, reader.map guise.stream, g)
        = (outcome', reader'.map guise.stream, g')
    ∧ guise.Fits f' g'
  := by
  cases outcome with
  | ok bytes => exact ⟨_, _, _, _, rfl, rfl, h⟩
  | error e =>
      obtain ⟨reader', f', g', hf, hg, h'⟩ :=
        guise.fits_release (h.record (.noted (.readFailed setting.manner reader.position e))) reader
      simp only [Reader.poisonOnError, Feed.note, Reader.position_map, Setting.manner_drawingFrom,
        hf, hg]
      exact ⟨_, _, _, _, rfl, rfl, h'⟩

/-- Reads are done alike. -/
theorem fits_read (h : guise.Fits f g) (size : Nat) (reader : Reader S') :
  ∃ outcome reader' f' g', reader.read (setting.drawingFrom double) size f = (outcome, reader', f')
    ∧ (reader.map guise.stream).read setting size g = (outcome, reader'.map guise.stream, g')
    ∧ guise.Fits f' g'
  := by
  rw [Reader.read, Reader.read]
  rw [Reader.poisoned_map]
  split
  · exact ⟨_, _, _, _, rfl, rfl, h⟩
  · obtain ⟨outcome, reader', f', g', hf, hg, h'⟩ := guise.fits_gather h size reader
    rw [hf, hg]
    apply guise.fits_poisonOnError h' outcome reader'

/-- A number of reads is done alike. -/
theorem fits_drainWithin (h : guise.Fits f g) (size calls : Nat) (reader : Reader S') :
  ∃ portions failure reader' f' g',
    Reader.drainWithin (fun reader feed => reader.read (setting.drawingFrom double) size feed) calls
        reader f = (portions, failure, reader', f')
    ∧ Reader.drainWithin (fun reader feed => reader.read setting size feed) calls
        (reader.map guise.stream) g = (portions, failure, reader'.map guise.stream, g')
    ∧ guise.Fits f' g'
  := by
  induction calls generalizing reader f g with
  | zero => exact ⟨_, _, _, _, _, rfl, rfl, h⟩
  | succ calls ih =>
      obtain ⟨outcome, reader', f', g', hf, hg, h'⟩ := guise.fits_read h size reader
      simp only [Reader.drainWithin, hf, hg]
      rcases outcome with e | _ | ⟨b, bs⟩
      · exact ⟨_, _, _, _, _, rfl, rfl, h'⟩
      · exact ⟨_, _, _, _, _, rfl, rfl, h'⟩
      · obtain ⟨portions, failure, reader'', f'', g'', hf', hg', h''⟩ := ih h' reader'
        simp only [hf', hg']
        exact ⟨_, _, _, _, _, rfl, rfl, h''⟩

/-- Moves are made alike. -/
theorem fits_moveTo (h : guise.Fits f g) (offset : Nat) (reader : Reader S') :
  ∃ outcome reader' f' g', reader.moveTo (setting.drawingFrom double) offset f
        = (outcome, reader', f')
    ∧ (reader.map guise.stream).moveTo setting offset g = (outcome, reader'.map guise.stream, g')
    ∧ guise.Fits f' g'
  := by
  rw [Reader.moveTo, Reader.moveTo]
  rw [Reader.checkReach_drawingFrom]
  cases Reader.checkReach setting offset with
  | error e => exact ⟨_, _, _, _, rfl, rfl, h⟩
  | ok _ =>
      obtain ⟨reader', f', g', hf, hg, h'⟩ := guise.fits_release h reader
      rw [hf, hg]
      exact ⟨_, _, _, _, rfl, rfl, h'.record _⟩

/-- Targets are reached alike. -/
theorem fits_seek (h : guise.Fits f g) (target : SeekTarget) (reader : Reader S') :
  ∃ outcome reader' f' g', reader.seek (setting.drawingFrom double) target f
        = (outcome, reader', f')
    ∧ (reader.map guise.stream).seek setting target g = (outcome, reader'.map guise.stream, g')
    ∧ guise.Fits f' g'
  := by
  have htarget : Reader.targetPosition (setting.drawingFrom double) target reader
      = Reader.targetPosition setting target (reader.map guise.stream) := rfl
  unfold Reader.seek
  rw [htarget]
  dsimp only
  split
  · exact ⟨_, _, _, _, rfl, rfl, h⟩
  · obtain ⟨outcome, reader', f', g', hf, hg, h'⟩ := guise.fits_moveTo h
      (Reader.targetPosition setting target (reader.map guise.stream)).toNat reader
    rw [hf, hg]
    cases outcome with
    | error e => exact ⟨_, _, _, _, rfl, rfl, h'⟩
    | ok _ => exact ⟨_, _, _, _, rfl, rfl, h'⟩

/-! ### Families -/

/-- The members of the one family stand for those of the other, and their feeds fit. -/
structure Matches (F : Family W' H' S') (G : Family W H S) : Prop where
  members_eq : G.members = F.members.map (Option.map (Reader.map guise.stream))
  feeds : guise.Fits F.feed G.feed

/-- New families over worlds that stand for one another match. -/
theorem matches_start (world : W') :
  guise.Matches (Family.start (setting.drawingFrom double) world)
    (Family.start setting (guise.world world))
  := by
  have hfeeds : guise.Fits (Feed.start world setting.piece.blocks.length)
      (Feed.start (guise.world world) setting.piece.blocks.length) := by
    refine ⟨rfl, ?_, rfl, fun h => absurd h (Feed.not_skipInterrupted_start _ _)⟩
    rw [Feed.start, Feed.start, List.map_replicate]
    rfl
  exact ⟨rfl, hfeeds⟩

variable {guise} {F : Family W' H' S'} {G : Family W H S}

/-- Members of that number stand for one another. -/
theorem Matches.member?_eq (h : guise.Matches F G) (index : Nat) :
  G.member? index = (F.member? index).map (Reader.map guise.stream)
  := by
  rw [Family.member?, Family.member?, h.members_eq, List.getElem?_map]
  rcases F.members[index]? with _ | _ | reader <;> rfl

/-- Families keep matching when a member changes in the same way. -/
theorem Matches.update (h : guise.Matches F G) (hfeeds : guise.Fits f g) (index : Nat)
    (reader : Reader S') :
  guise.Matches (F.update index reader f) (G.update index (reader.map guise.stream) g)
  := by
  refine ⟨?_, hfeeds⟩
  rw [Family.update, Family.update, h.members_eq, List.map_set]
  rfl

/-- Members go alike. -/
theorem Matches.remove (h : guise.Matches F G) (index : Nat) :
  guise.Matches (F.remove index) (G.remove index)
  := by
  rw [Family.remove, Family.remove]
  rw [h.member?_eq index, h.members_eq]
  cases F.member? index with
  | none => exact h.members_eq ▸ h
  | some reader =>
      obtain ⟨cursor, held, poisoned⟩ := reader
      cases held with
      | none => exact ⟨by simp [List.map_set], h.feeds⟩
      | some item => exact ⟨by simp [List.map_set], h.feeds.record _⟩

/-- A command is answered alike. -/
theorem matches_run (h : guise.Matches F G) (index : Nat) (command : Command) :
  ∃ reply F' G', F.run (setting.drawingFrom double) index command = (reply, F')
    ∧ G.run setting index command = (reply, G') ∧ guise.Matches F' G'
  := by
  rw [Family.run, Family.run, Family.runBy, Family.runBy]
  rw [h.member?_eq index]
  cases F.member? index with
  | none => exact ⟨_, _, _, rfl, rfl, h⟩
  | some reader =>
      cases command with
      | read size =>
          obtain ⟨outcome, reader', f', g', hf, hg, h'⟩ := guise.fits_read h.feeds size reader
          simp only [Option.map_some, hf, hg]
          exact ⟨_, _, _, rfl, rfl, h.update h' index reader'⟩
      | drain size =>
          obtain ⟨portions, failure, reader', f', g', hf, hg, h'⟩ := guise.fits_drainWithin h.feeds
            size (setting.piece.size - reader.position + 1) reader
          simp only [Option.map_some, Reader.drain, Setting.piece_drawingFrom, Reader.position_map,
            hf, hg]
          exact ⟨_, _, _, rfl, rfl, h.update h' index reader'⟩
      | moveTo offset =>
          obtain ⟨outcome, reader', f', g', hf, hg, h'⟩ := guise.fits_moveTo h.feeds offset reader
          simp only [Option.map_some, hf, hg]
          exact ⟨_, _, _, rfl, rfl, h.update h' index reader'⟩
      | seek target =>
          obtain ⟨outcome, reader', f', g', hf, hg, h'⟩ := guise.fits_seek h.feeds target reader
          simp only [Option.map_some, hf, hg]
          exact ⟨_, _, _, rfl, rfl, h.update h' index reader'⟩
      | copy offset =>
          have hcopy : Reader.copyAt setting offset
              = (Reader.copyAt (setting.drawingFrom double) offset).map
                (Reader.map guise.stream) := by
            simp only [Reader.copyAt, Reader.checkReach_drawingFrom]
            cases Reader.checkReach setting offset with
            | error e => rfl
            | ok _ => rfl
          have hlength : G.members.length = F.members.length := by
            rw [h.members_eq, List.length_map]
          dsimp only [Option.map_some]
          rw [hcopy, hlength]
          cases Reader.copyAt (setting.drawingFrom double) offset with
          | error e => exact ⟨_, _, _, rfl, rfl, h⟩
          | ok copy =>
              refine ⟨_, _, _, rfl, rfl, ?_, h.feeds⟩
              simp only [h.members_eq, List.map_append, List.map_cons, List.map_nil,
                Option.map_some]
      | close =>
          obtain ⟨reader', f', g', hf, hg, h'⟩ := guise.fits_release h.feeds reader
          simp only [Option.map_some, hf, hg]
          exact ⟨_, _, _, rfl, rfl, h.update h' index reader'⟩
      | drop => exact ⟨_, _, _, rfl, rfl, h.remove index⟩

/-- All commands are answered alike. -/
theorem matches_runAll (h : guise.Matches F G) (commands : List (Nat × Command)) :
  ∃ replies F' G', F.runAll (setting.drawingFrom double) commands = (replies, F')
    ∧ G.runAll setting commands = (replies, G') ∧ guise.Matches F' G'
  := by
  induction commands generalizing F G with
  | nil => exact ⟨_, _, _, rfl, rfl, h⟩
  | cons command commands ih =>
      obtain ⟨index, command⟩ := command
      obtain ⟨reply, F', G', hF, hG, h'⟩ := matches_run h index command
      obtain ⟨replies, F'', G'', hF', hG', h''⟩ := ih h'
      rw [Family.runAll_cons, Family.runAll_cons, hF, hG]
      simp only [hF', hG']
      exact ⟨_, _, _, rfl, rfl, h''⟩

end Supply.Guise

end PieceStream
