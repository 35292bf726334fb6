import PieceStream.Proofs.Observation
import PieceStream.Proofs.TaskLikeness

/-!
# Ranges

A supply can be made to write down what is demanded of it: the ranges that it is asked to open, and
the bytes that its streams are asked for, each time with the range that the stream was opened for.
Readers do the same whether or not this is written down.  Whatever the supply answers, no range is
empty, and a stream is only asked for bytes of its range.
-/

namespace PieceStream

variable {W H S : Type}

/-- What is demanded of a supply. -/
inductive Demand where
  /-- To open a range of an item. -/
  | range (offset length : Nat)
  /-- To deliver at most `size` bytes of an item from `place` on, by a stream that was opened for
  that range. -/
  | bytes (offset length place size : Nat)
  deriving DecidableEq, Repr

/-- The range has a byte, and the bytes lie within the range of their stream. -/
def Demand.InRange : Demand → Prop
  | .range _ length => 1 ≤ length
  | .bytes offset length place size => offset ≤ place ∧ place + size ≤ offset + length

/-- A world, and what has been demanded so far, in order. -/
structure RangedWorld (W : Type) where
  world : W
  demands : List Demand

/-- All that has been demanded is in range. -/
def RangedWorld.InRange (w : RangedWorld W) : Prop := ∀ demand ∈ w.demands, demand.InRange

/-- A stream, the range that it was opened for, and how many bytes it has delivered. -/
structure RangedStream (S : Type) where
  offset : Nat
  length : Nat
  taken : Nat
  stream : S

namespace RangedStream

/-- What it demands to ask the stream for at most so many bytes. -/
def demand (s : RangedStream S) (size : Nat) : Demand :=
  .bytes s.offset s.length (s.offset + s.taken) size

/-- The stream after it has answered. -/
def past (s : RangedStream S) (outcome : Except IoError Bytes) (stream : S) : RangedStream S :=
  { s with taken := s.taken + Supply.delivered outcome, stream := stream }

end RangedStream

/-- The supply with what is demanded of it written down. -/
def Supply.ranged (supply : Supply W H S) : Supply (RangedWorld W) H (RangedStream S) where
  resolve source w :=
    let (outcome, world) := supply.resolve source w.world
    (outcome, { w with world := world })
  openRange handle path offset length w :=
    let (outcome, notes, world) := supply.openRange handle path offset length w.world
    (outcome.map (⟨offset, length, 0, ·⟩), notes, ⟨world, w.demands ++ [.range offset length]⟩)
  read s n w :=
    let (outcome, stream, world) := supply.read s.stream n w.world
    (outcome, s.past outcome stream, ⟨world, w.demands ++ [s.demand n]⟩)
  patience s w := supply.patience s.stream w.world
  length_le_of_read h := supply.length_le_of_read h
  patience_lt_of_interruption h he := supply.patience_lt_of_interruption h he

namespace PolledSupply

variable (supply : PolledSupply W H S)

/-- Opens a range and writes down that this was demanded. -/
def openRanged (handle : H) (path : String) (offset length : Nat) (w : RangedWorld W) :
    Poll (Except SourceError (RangedStream S) × List Note) × RangedWorld W :=
  match supply.openRange handle path offset length w.world with
  | (.pending, world) => (.pending, ⟨world, w.demands ++ [.range offset length]⟩)
  | (.ready (outcome, notes), world) =>
    (.ready (outcome.map (⟨offset, length, 0, ·⟩), notes),
      ⟨world, w.demands ++ [.range offset length]⟩)

/-- Asks a stream and writes down which bytes were demanded. -/
def readRanged (s : RangedStream S) (n : Nat) (w : RangedWorld W) :
    Poll (Except IoError Bytes) × RangedStream S × RangedWorld W :=
  match supply.read s.stream n w.world with
  | (.pending, stream, world) =>
    (.pending, { s with stream := stream }, ⟨world, w.demands ++ [s.demand n]⟩)
  | (.ready outcome, stream, world) =>
    (.ready outcome, s.past outcome stream, ⟨world, w.demands ++ [s.demand n]⟩)

variable {supply} {s : RangedStream S} {n : Nat} {w : RangedWorld W}

theorem openRanged_of_pending {handle : H} {path : String} {offset length : Nat} {world : W}
    (h : supply.openRange handle path offset length w.world = (.pending, world)) :
  supply.openRanged handle path offset length w
    = (.pending, ⟨world, w.demands ++ [.range offset length]⟩)
  := by
  rw [openRanged, h]

theorem openRanged_of_ready {handle : H} {path : String} {offset length : Nat} {world : W}
    {outcome : Except SourceError S} {notes : List Note}
    (h : supply.openRange handle path offset length w.world = (.ready (outcome, notes), world)) :
  supply.openRanged handle path offset length w
    = (.ready (outcome.map (⟨offset, length, 0, ·⟩), notes),
        ⟨world, w.demands ++ [.range offset length]⟩)
  := by
  rw [openRanged, h]

theorem readRanged_of_pending {stream : S} {world : W}
    (h : supply.read s.stream n w.world = (.pending, stream, world)) :
  supply.readRanged s n w
    = (.pending, { s with stream := stream }, ⟨world, w.demands ++ [s.demand n]⟩)
  := by
  rw [readRanged, h]

theorem readRanged_of_ready {outcome : Except IoError Bytes} {stream : S} {world : W}
    (h : supply.read s.stream n w.world = (.ready outcome, stream, world)) :
  supply.readRanged s n w
    = (.ready outcome, s.past outcome stream, ⟨world, w.demands ++ [s.demand n]⟩)
  := by
  rw [readRanged, h]

variable (supply) in
/-- The supply to be polled, with what is demanded of it written down. -/
def ranged : PolledSupply (RangedWorld W) H (RangedStream S) where
  resolve source w :=
    let (outcome, world) := supply.resolve source w.world
    (outcome, { w with world := world })
  openRange := supply.openRanged
  read := supply.readRanged
  delay handle path offset length w := supply.delay handle path offset length w.world
  patience s w := supply.patience s.stream w.world
  length_le_of_read {s n w bs} h := by
    rcases hread : supply.read s.stream n w.world with ⟨_ | outcome, stream, world⟩
    · rw [readRanged_of_pending hread] at h
      cases h
    · rw [readRanged_of_ready hread] at h
      cases h
      apply supply.length_le_of_read (congrArg (·.1) hread)
  delay_lt_of_pending {handle path offset length w} h := by
    rcases hopen : supply.openRange handle path offset length w.world
      with ⟨_ | ⟨outcome, notes⟩, world⟩
    · have hlt := supply.delay_lt_of_pending (congrArg (·.1) hopen)
      rw [openRanged_of_pending hopen]
      rw [hopen] at hlt
      apply hlt
    · rw [openRanged_of_ready hopen] at h
      cases h
  patience_lt_of_pending {s n w} h := by
    rcases hread : supply.read s.stream n w.world with ⟨_ | outcome, stream, world⟩
    · have hlt := supply.patience_lt_of_pending (congrArg (·.1) hread)
      rw [readRanged_of_pending hread]
      rw [hread] at hlt
      apply hlt
    · rw [readRanged_of_ready hread] at h
      cases h
  patience_lt_of_interruption {s n w e} h he := by
    rcases hread : supply.read s.stream n w.world with ⟨_ | outcome, stream, world⟩
    · rw [readRanged_of_pending hread] at h
      cases h
    · rw [readRanged_of_ready hread] at h ⊢
      cases h
      have hlt := supply.patience_lt_of_interruption (congrArg (·.1) hread) he
      rw [hread] at hlt
      apply hlt

end PolledSupply

/-- The setting with what is demanded of its supply written down. -/
def Setting.ranged (setting : Setting W H S) : Setting (RangedWorld W) H (RangedStream S) :=
  setting.drawingFrom setting.supply.ranged

/-- The setting with what is demanded of its supply written down. -/
def SuspendingSetting.ranged (setting : SuspendingSetting W H S) :
    SuspendingSetting (RangedWorld W) H (RangedStream S) :=
  ⟨setting.supply.ranged, setting.piece, setting.options, setting.persistent⟩

/-! ### What is written down -/

/-- The supply `double` answers as `supply` does and writes down what is demanded, where it may be
polled for an answer more than once. -/
structure Supply.Ranging (double : Supply (RangedWorld W) H (RangedStream S))
    (supply : Supply W H S) : Prop where
  resolve_eq (source : SourceId) (w : RangedWorld W) :
    double.resolve source w
      = ((supply.resolve source w.world).1, ⟨(supply.resolve source w.world).2, w.demands⟩)
  exists_openRange (handle : H) (path : String) (offset length : Nat) (w : RangedWorld W) :
    ∃ times, double.openRange handle path offset length w
      = ((supply.openRange handle path offset length w.world).1.map (⟨offset, length, 0, ·⟩),
          (supply.openRange handle path offset length w.world).2.1,
          ⟨(supply.openRange handle path offset length w.world).2.2,
            w.demands ++ List.replicate times (.range offset length)⟩)
  exists_read (s : RangedStream S) (n : Nat) (w : RangedWorld W) :
    ∃ times, double.read s n w
      = ((supply.read s.stream n w.world).1,
          s.past (supply.read s.stream n w.world).1 (supply.read s.stream n w.world).2.1,
          ⟨(supply.read s.stream n w.world).2.2,
            w.demands ++ List.replicate times (s.demand n)⟩)

/-- A supply that answers at once writes every demand down once. -/
theorem Supply.ranging_ranged (supply : Supply W H S) :
  supply.ranged.Ranging supply
  := by
  constructor
  case resolve_eq => exact fun source w => rfl
  case exists_openRange => exact fun handle path offset length w => ⟨1, rfl⟩
  case exists_read => exact fun s n w => ⟨1, rfl⟩

namespace PolledSupply

variable (supply : PolledSupply W H S)

/-- A range waited for is the same, and the demand is written down with every poll. -/
theorem exists_awaitOpen_ranged (handle : H) (path : String) (offset length : Nat)
    (w : RangedWorld W) :
  ∃ times, supply.ranged.awaitOpen handle path offset length w
    = ((supply.awaitOpen handle path offset length w.world).1.map (⟨offset, length, 0, ·⟩),
        (supply.awaitOpen handle path offset length w.world).2.1,
        ⟨(supply.awaitOpen handle path offset length w.world).2.2,
          w.demands ++ List.replicate times (.range offset length)⟩)
  := by
  -- A poll that is pending writes its demand down as well, before those of the polls after it.
  induction hd : supply.delay handle path offset length w.world using Nat.strongRecOn
    generalizing w with
  | ind d ih =>
      subst hd
      rcases hopen : supply.openRange handle path offset length w.world
        with ⟨_ | ⟨outcome, notes⟩, world⟩
      · have hlt := supply.delay_lt_of_pending (congrArg (·.1) hopen)
        rw [hopen] at hlt
        have hranged : supply.ranged.openRange handle path offset length w = _ :=
          openRanged_of_pending hopen
        obtain ⟨times, h⟩ := ih _ hlt ⟨world, w.demands ++ [.range offset length]⟩ rfl
        use times + 1
        rw [awaitOpen_of_pending hopen, awaitOpen_of_pending hranged, h, List.append_assoc]
        rfl
      · have hranged : supply.ranged.openRange handle path offset length w = _ :=
          openRanged_of_ready hopen
        use 1
        rw [awaitOpen_of_ready hopen, awaitOpen_of_ready hranged]
        rfl

/-- A stream waited for answers the same, and the demand is written down with every poll. -/
theorem exists_awaitRead_ranged (s : RangedStream S) (n : Nat) (w : RangedWorld W) :
  ∃ times, supply.ranged.awaitRead s n w
    = ((supply.awaitRead s.stream n w.world).1,
        s.past (supply.awaitRead s.stream n w.world).1 (supply.awaitRead s.stream n w.world).2.1,
        ⟨(supply.awaitRead s.stream n w.world).2.2,
          w.demands ++ List.replicate times (s.demand n)⟩)
  := by
  induction hp : supply.patience s.stream w.world using Nat.strongRecOn generalizing s w with
  | ind p ih =>
      subst hp
      rcases hread : supply.read s.stream n w.world with ⟨_ | outcome, stream, world⟩
      · have hlt := supply.patience_lt_of_pending (congrArg (·.1) hread)
        rw [hread] at hlt
        have hranged : supply.ranged.read s n w = _ := readRanged_of_pending hread
        obtain ⟨times, h⟩ :=
          ih _ hlt { s with stream := stream } ⟨world, w.demands ++ [s.demand n]⟩ rfl
        use times + 1
        rw [awaitRead_of_pending hread, awaitRead_of_pending hranged, h, List.append_assoc]
        rfl
      · have hranged : supply.ranged.read s n w = _ := readRanged_of_ready hread
        use 1
        rw [awaitRead_of_ready hread, awaitRead_of_ready hranged]
        rfl

/-- A supply that is waited for writes every demand down as often as it is polled. -/
theorem ranging_awaited :
  supply.ranged.awaited.Ranging supply.awaited
  := by
  constructor
  case resolve_eq => exact fun source w => rfl
  case exists_openRange => exact supply.exists_awaitOpen_ranged
  case exists_read => exact supply.exists_awaitRead_ranged

end PolledSupply

/-- What has been demanded is in range if every new demand is. -/
theorem RangedWorld.InRange.demand {w : RangedWorld W} {demand : Demand} (h : w.InRange)
    (hdemand : demand.InRange) (world : W) (times : Nat) :
  (⟨world, w.demands ++ List.replicate times demand⟩ : RangedWorld W).InRange
  := by
  intro other hmem
  rcases List.mem_append.mp hmem with hmem | hmem
  · apply h other hmem
  · rw [List.eq_of_mem_replicate hmem]
    apply hdemand

/-! ### Feeds and streams -/

/-- The feed without what has been written down. -/
def Feed.plain (feed : Feed (RangedWorld W) H) : Feed W H :=
  ⟨feed.world.world, feed.handles, feed.latest⟩

/-- The one feed is the other without what has been written down, all of which is in range. -/
structure Feed.Ranged (f : Feed (RangedWorld W) H) (g : Feed W H) : Prop where
  plain_eq : g = f.plain
  inRange : f.world.InRange

/-- The range of the stream reaches as far as the run that goes on at `pos` needs, and the stream
stands where it has got to within the range. -/
structure HeldStream.Reaches (piece : Piece) (pos : Nat) (item : HeldStream (RangedStream S)) :
    Prop where
  block_eq : item.block = (Cursor.settled piece pos).block
  place_eq : item.itemPos = item.stream.offset + item.stream.taken
  need_le : ∃ r, piece.blocks[item.block]? = some (.run r)
    ∧ r.furthestNeed (Cursor.settled piece pos).entry ≤ item.stream.offset + item.stream.length

variable {setting : Setting W H S} {double : Supply (RangedWorld W) H (RangedStream S)}
  {f : Feed (RangedWorld W) H} {g : Feed W H} {span : PayloadRest} {pos : Nat}
  {item : HeldStream (RangedStream S)}

/-- Feeds match when both record an event. -/
theorem Feed.Ranged.record (h : f.Ranged g) (event : Event) :
  (f.record event).Ranged (g.record event)
  := by
  rw [h.plain_eq]
  exact ⟨rfl, h.inRange⟩

/-- Feeds match when both take the same notes. -/
theorem Feed.Ranged.notes (h : f.Ranged g) (notes : List Note) :
  (notes.foldl Feed.note f).Ranged (notes.foldl Feed.note g)
  := by
  induction notes generalizing f g with
  | nil => apply h
  | cons note notes ih => apply ih (h.record _)

/-- Feeds match when a demand in range is written down and the worlds change together. -/
theorem Feed.Ranged.demand (h : f.Ranged g) {demand : Demand} (hdemand : demand.InRange)
    (world : W) (times : Nat) :
  Feed.Ranged { f with world := ⟨world, f.world.demands ++ List.replicate times demand⟩ }
    { g with world := world }
  := by
  rw [h.plain_eq]
  exact ⟨rfl, h.inRange.demand hdemand world times⟩

/-- The range of a stream goes on to reach as far as is needed while the cursor moves forward within
the run. -/
theorem HeldStream.Reaches.forward {piece : Piece} {pos' : Nat} (h : item.Reaches piece pos)
    (hle : pos ≤ pos') (hblock : item.block = (Cursor.settled piece pos').block) :
  item.Reaches piece pos'
  := by
  obtain ⟨r, hr, hneed⟩ := h.need_le
  refine ⟨hblock, h.place_eq, r, hr, Nat.le_trans ?_ hneed⟩
  rw [h.block_eq] at hr
  apply ItemRun.furthestNeed_settled_anti hle hr (hblock.symm.trans h.block_eq)

/-- Bytes up to the end of a payload are in the range of a stream for its run. -/
theorem HeldStream.Reaches.demand_inRange {piece : Piece} {size : Nat} (hlaid : piece.Laid)
    (h : item.Reaches piece pos) (hspan : span.At piece pos) (hblock : item.block = span.block)
    (hsize : item.itemPos + size ≤ span.itemOffset + span.remaining) :
  (item.stream.demand size).InRange
  := by
  obtain ⟨r, hr, hreach⟩ := h.need_le
  rw [hblock, hspan.run_eq] at hr
  cases hr
  rw [hspan.settled_eq hlaid] at hreach
  rw [h.place_eq] at hsize
  have hneed := hspan.need_le
  refine ⟨Nat.le_add_right _ _, ?_⟩
  apply Nat.le_trans hsize (Nat.le_trans hneed hreach)

/-- The range asked for reaches to the furthest need, and has a byte. -/
theorem Setting.need_le_lengthFor (setting : Setting W H S) (hspan : span.At setting.piece pos) :
  span.run.furthestNeed span.entry ≤ span.itemOffset + setting.lengthFor span
    ∧ 1 ≤ setting.lengthFor span
  := by
  have hremaining := hspan.remaining_pos
  have hneed := hspan.need_le
  have hlength : span.run.furthestNeed span.entry ≤ span.itemOffset + setting.lengthFor span :=
    setting.options.readAhead.furthestNeed_le (Nat.le_trans (Nat.le_add_right _ _) hneed)
  refine ⟨hlength, ?_⟩
  omega

namespace Supply.Ranging

variable (ranging : double.Ranging setting.supply)

include ranging

/-- Sources are found alike. -/
theorem sourceFor (h : f.Ranged g) (span : PayloadRest) :
  ∃ outcome f' g', (setting.drawingFrom double).sourceFor span f = (outcome, f')
    ∧ setting.sourceFor span g = (outcome, g') ∧ f'.Ranged g'
  := by
  obtain ⟨rfl, hrange⟩ := h
  have hhandles : f.plain.handles = f.handles := rfl
  have hworld : f.plain.world = f.world.world := rfl
  rw [Setting.sourceFor, Setting.sourceFor]
  rw [hhandles, hworld, Setting.supply_drawingFrom, ranging.resolve_eq]
  cases f.handles[span.block]?.join with
  | some handle => exact ⟨_, _, _, rfl, rfl, rfl, hrange⟩
  | none =>
      rcases setting.supply.resolve span.run.source f.world.world with ⟨e | handle, world⟩
      · exact ⟨_, _, _, rfl, rfl, rfl, hrange⟩
      · exact ⟨_, _, _, rfl, rfl, rfl, hrange⟩

/-- Ranges are opened alike, and reach as far as is needed. -/
theorem openFor (hlaid : setting.piece.Laid) (hspan : span.At setting.piece pos)
    (h : f.Ranged g) :
  ∃ outcome f' g', (setting.drawingFrom double).openFor span f = (outcome, f')
    ∧ setting.openFor span g = (outcome.map (HeldStream.map RangedStream.stream), g')
    ∧ (∀ item, outcome = .ok item → item.Reaches setting.piece pos) ∧ f'.Ranged g'
  := by
  obtain ⟨hreach, hlength⟩ := setting.need_le_lengthFor hspan
  obtain ⟨found, f', g', hf, hg, h'⟩ := ranging.sourceFor h span
  rw [Setting.openFor, Setting.openFor]
  rw [hf, hg]
  cases found with
  | error e => exact ⟨_, _, _, rfl, rfl, by simp, h'⟩
  | ok handle =>
      have hannounced : ((setting.drawingFrom double).announce span f').Ranged
          (setting.announce span g') := (h'.record _).record _
      obtain ⟨times, hopen⟩ := ranging.exists_openRange handle span.path span.itemOffset
        (setting.lengthFor span) ((setting.drawingFrom double).announce span f').world
      have hworld : (setting.announce span g').world
          = ((setting.drawingFrom double).announce span f').world.world :=
        congrArg Feed.world hannounced.plain_eq
      have hdemand : (Demand.range span.itemOffset (setting.lengthFor span)).InRange := hlength
      dsimp only
      rw [Setting.openFrom, Setting.openFrom]
      rw [Setting.supply_drawingFrom, Setting.lengthFor_drawingFrom, hopen, hworld]
      rcases setting.supply.openRange handle span.path span.itemOffset (setting.lengthFor span)
        ((setting.drawingFrom double).announce span f').world.world with ⟨e | stream, notes, world⟩
      · exact ⟨_, _, _, rfl, rfl, by simp, (hannounced.demand hdemand world times).notes notes⟩
      · refine ⟨_, _, _, rfl, rfl, ?_, (hannounced.demand hdemand world times).notes notes⟩
        rintro _ ⟨⟩
        refine ⟨?_, rfl, span.run, hspan.run_eq, ?_⟩
        · rw [hspan.settled_eq hlaid]
        · rw [hspan.settled_eq hlaid]
          apply hreach

/-- Streams are asked alike, and what is demanded is in range. -/
theorem ask {size : Nat} (purpose : Purpose) (hlaid : setting.piece.Laid)
    (hspan : span.At setting.piece pos) (hitem : item.Reaches setting.piece pos)
    (hblock : item.block = span.block)
    (hsize : item.itemPos + size ≤ span.itemOffset + span.remaining) (h : f.Ranged g) :
  ∃ outcome next f' g', double.ask purpose size item f = (outcome, next, f')
    ∧ setting.supply.ask purpose size (item.map RangedStream.stream) g
      = (outcome, next.map RangedStream.stream, g')
    ∧ (next.past outcome).Reaches setting.piece pos ∧ f'.Ranged g'
  := by
  obtain ⟨times, hread⟩ := ranging.exists_read item.stream size f.world
  have hworld : g.world = f.world.world := congrArg Feed.world h.plain_eq
  have hdemand := hitem.demand_inRange hlaid hspan hblock hsize
  have hstream : (item.map RangedStream.stream).stream = item.stream.stream := rfl
  rw [Supply.ask, Supply.ask]
  rw [hread, hworld, hstream]
  rcases setting.supply.read item.stream.stream size f.world.world with ⟨outcome, stream, world⟩
  refine ⟨_, _, _, _, rfl, rfl, ?_, (h.demand hdemand world times).record _⟩
  obtain ⟨hstands, hplace, hneed⟩ := hitem
  cases outcome with
  | error e => exact ⟨hstands, hplace, hneed⟩
  | ok bytes =>
      refine ⟨hstands, ?_, hneed⟩
      simp only [HeldStream.past, RangedStream.past, Supply.delivered, hplace, Nat.add_assoc]

/-- Readers are alike whether or not it is written down what they demand. -/
def likeness (hlaid : setting.piece.Laid) : (setting.drawingFrom double).Likeness setting where
  piece_eq := Setting.piece_drawingFrom.symm
  manner_eq := Setting.manner_drawingFrom.symm
  Feeds := Feed.Ranged
  Streams pos item other :=
    other = item.map RangedStream.stream ∧ item.Reaches setting.piece pos
  note n h := h.record _
  drop {f g pos item other} h hstreams := by
    obtain ⟨rfl, -⟩ := hstreams
    apply h.record
  place_eq hstreams := by
    obtain ⟨rfl, -⟩ := hstreams
    exact ⟨rfl, rfl⟩
  forward hstreams hle hblock := ⟨hstreams.1, hstreams.2.forward hle hblock⟩
  openFor {pos span f g} hspan h := by
    obtain ⟨outcome, f', g', hf, hg, hreach, h'⟩ := ranging.openFor hlaid hspan h
    refine ⟨outcome, _, f', g', hf, hg, ?_, h'⟩
    cases outcome with
    | error e => apply SameOutcome.error
    | ok item => exact .ok ⟨rfl, hreach item rfl⟩
  ask {pos size span item other f g} purpose hspan hstreams hblock hsize h := by
    obtain ⟨rfl, hitem⟩ := hstreams
    obtain ⟨outcome, next, f', g', hf, hg, hnext, h'⟩ :=
      ranging.ask purpose hlaid hspan hitem hblock hsize h
    refine ⟨outcome, next, _, f', g', hf, hg, ⟨?_, hnext⟩, h'⟩
    cases outcome <;> rfl

end Supply.Ranging

/-! ### Families -/

namespace Family

variable {setting : Setting W H S} {double : Supply (RangedWorld W) H (RangedStream S)}
  {read : Nat → Reader (RangedStream S) → Feed (RangedWorld W) H →
    Except ReadError Bytes × Reader (RangedStream S) × Feed (RangedWorld W) H}
  {read' : Nat → Reader S → Feed W H → Except ReadError Bytes × Reader S × Feed W H}

/-- What readers demand is in range, and writing it down changes nothing. -/
theorem runAllBy_ranged (ranging : double.Ranging setting.supply) (hlaid : setting.piece.Laid)
    (hread : (ranging.likeness hlaid).ReadsAlike read read') (world : W)
    (commands : List (Nat × Command)) :
  let ranged := (start (setting.drawingFrom double) ⟨world, []⟩).runAllBy
    (setting.drawingFrom double) read commands
  ranged.1 = ((start setting world).runAllBy setting read' commands).1
    ∧ ranged.2.feed.world.InRange
  := by
  have hstart : (Feed.start ⟨world, []⟩ setting.piece.blocks.length
      : Feed (RangedWorld W) H).Ranged (Feed.start world setting.piece.blocks.length) :=
    ⟨rfl, nofun⟩
  have hlaid' : (setting.drawingFrom double).piece.Laid := hlaid
  have hfamilies := (ranging.likeness hlaid).families_start hlaid' hstart
  obtain ⟨replies, F, G, hF, hG, h⟩ := hfamilies.runAllBy hlaid' hread commands
  intro ranged
  simp only [ranged, hF, hG]
  exact ⟨trivial, h.feeds.inRange⟩

/-- What readers demand that read at once is in range, and writing it down changes nothing. -/
theorem runAll_ranged (setting : Setting W H S) (hlaid : setting.piece.Laid) (world : W)
    (commands : List (Nat × Command)) :
  let ranged := (start setting.ranged ⟨world, []⟩).runAll setting.ranged commands
  ranged.1 = ((start setting world).runAll setting commands).1
    ∧ ranged.2.feed.world.InRange
  := by
  have hlaid' : setting.ranged.piece.Laid := hlaid
  apply runAllBy_ranged setting.supply.ranging_ranged hlaid
  apply Setting.Likeness.readsAlike_read _ hlaid'

/-- What readers demand that read by tasks is in range, and writing it down changes nothing. -/
theorem runAllByTasks_ranged (setting : SuspendingSetting W H S) (hlaid : setting.piece.Laid)
    (world : W) (commands : List (Nat × Command)) :
  let ranged := (start (setting.ranged.waiting .suspending) ⟨world, []⟩).runAllByTasks
    setting.ranged commands
  ranged.1 = ((start (setting.waiting .suspending) world).runAllByTasks setting commands).1
    ∧ ranged.2.feed.world.InRange
  := by
  let waiting := setting.waiting .suspending
  have ranging : setting.supply.ranged.awaited.Ranging waiting.supply :=
    setting.supply.ranging_awaited
  have hlaid' : setting.ranged.piece.Laid := hlaid
  have hpersistent : setting.persistent = setting.ranged.persistent := rfl
  apply runAllBy_ranged ranging hlaid
  apply Setting.Likeness.readsAlike_readByTask _ hlaid' hpersistent

end Family

end PieceStream
