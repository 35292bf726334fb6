import PieceStream.Proofs.Standing

/-!
# Likenesses

Two settings over one piece are alike if their feeds and the streams that their readers hold can be
matched, so that ranges are opened alike and streams answer alike as long as they are asked for no
more than the payload at hand needs.  Readers that match then do alike whatever they are told, and
still match afterwards.
-/

namespace PieceStream

variable {W H S W' H' S' : Type}

/-- Both outcomes are the same failure, or both go well and what comes of them matches. -/
inductive SameOutcome {ε α β : Type} (P : α → β → Prop) : Except ε α → Except ε β → Prop
  | error (e : ε) : SameOutcome P (.error e) (.error e)
  | ok {a : α} {b : β} (h : P a b) : SameOutcome P (.ok a) (.ok b)

/-- The stream as its reader sees it when it has answered. -/
def HeldStream.past (item : HeldStream S) : Except IoError Bytes → HeldStream S
  | .ok bytes => { item with itemPos := item.itemPos + bytes.length }
  | .error _ => item

/-- How readers of two settings over one piece can be matched. -/
structure Setting.Likeness (left : Setting W H S) (right : Setting W' H' S') where
  piece_eq : right.piece = left.piece
  manner_eq : right.manner = left.manner
  Feeds : Feed W H → Feed W' H' → Prop
  /-- These streams may be held by readers that stand at that offset. -/
  Streams : Nat → HeldStream S → HeldStream S' → Prop
  note {f : Feed W H} {g : Feed W' H'} (n : Note) : Feeds f g → Feeds (f.note n) (g.note n)
  drop {f : Feed W H} {g : Feed W' H'} {pos : Nat} {item : HeldStream S}
    {other : HeldStream S'} : Feeds f g → Streams pos item other →
    Feeds (f.drop item) (g.drop other)
  place_eq {pos : Nat} {item : HeldStream S} {other : HeldStream S'} : Streams pos item other →
    other.block = item.block ∧ other.itemPos = item.itemPos
  /-- The reader has gone forward within the run that the streams were opened for. -/
  forward {pos pos' : Nat} {item : HeldStream S} {other : HeldStream S'} : Streams pos item other →
    pos ≤ pos' → item.block = (Cursor.settled left.piece pos').block → Streams pos' item other
  openFor {pos : Nat} {span : PayloadRest} {f : Feed W H} {g : Feed W' H'} :
    span.At left.piece pos → Feeds f g →
    ∃ outcome outcome' f' g', left.openFor span f = (outcome, f')
      ∧ right.openFor span g = (outcome', g') ∧ SameOutcome (Streams pos) outcome outcome'
      ∧ Feeds f' g'
  ask {pos size : Nat} {span : PayloadRest} {item : HeldStream S} {other : HeldStream S'}
    {f : Feed W H} {g : Feed W' H'} (purpose : Purpose) : span.At left.piece pos →
    Streams pos item other → item.block = span.block →
    item.itemPos + size ≤ span.itemOffset + span.remaining → Feeds f g →
    ∃ outcome next next' f' g', left.supply.ask purpose size item f = (outcome, next, f')
      ∧ right.supply.ask purpose size other g = (outcome, next', g')
      ∧ Streams pos (next.past outcome) (next'.past outcome) ∧ Feeds f' g'

namespace Setting.Likeness

variable {left : Setting W H S} {right : Setting W' H' S'} (likeness : left.Likeness right)

/-- The readers stand at that offset, and all else about them matches. -/
structure Readers (pos : Nat) (reader : Reader S) (other : Reader S') : Prop where
  standsAt : reader.StandsAt left.piece pos
  cursor_eq : other.cursor = reader.cursor
  poisoned_eq : other.poisoned = reader.poisoned
  held : Option.Rel (likeness.Streams pos) reader.held other.held

/-- Two readers have come to the same, and they and their feeds match. -/
inductive Agree {α : Type} : α × Reader S × Feed W H → α × Reader S' × Feed W' H' → Prop
  | intro {a : α} {pos : Nat} {reader : Reader S} {other : Reader S'} {f : Feed W H} {g : Feed W' H'}
      (hreaders : likeness.Readers pos reader other) (hfeeds : likeness.Feeds f g) :
      Agree (a, reader, f) (a, other, g)

variable {likeness} {pos size : Nat} {span : PayloadRest} {item : HeldStream S}
  {other : HeldStream S'} {held : Option (HeldStream S)} {held' : Option (HeldStream S')}
  {reader : Reader S} {twin : Reader S'} {f : Feed W H} {g : Feed W' H'}

/-! ### Streams -/

/-- Questions asked until there is no interruption are answered alike. -/
theorem askUninterrupted (hspan : span.At left.piece pos) (h : likeness.Streams pos item other)
    (hblock : item.block = span.block)
    (hsize : item.itemPos + size ≤ span.itemOffset + span.remaining) (hfeeds : likeness.Feeds f g) :
  ∃ outcome next next' f' g', left.supply.askUninterrupted size item f = (outcome, next, f')
    ∧ right.supply.askUninterrupted size other g = (outcome, next', g')
    ∧ likeness.Streams pos (next.past outcome) (next'.past outcome) ∧ likeness.Feeds f' g'
  := by
  induction item, f using Supply.askUninterrupted.induct left.supply size generalizing other g with
  | case1 item f bytes next f' hask =>
      obtain ⟨_, _, next', _, g', hleft, hright, h', hfeeds'⟩ :=
        likeness.ask .payload hspan h hblock hsize hfeeds
      cases hask.symm.trans hleft
      exact ⟨_, _, _, _, _, Supply.askUninterrupted_of_ok hask,
        Supply.askUninterrupted_of_ok hright, h', hfeeds'⟩
  | case2 item f e next f' hask he ih =>
      obtain ⟨_, _, next', _, g', hleft, hright, h', hfeeds'⟩ :=
        likeness.ask .payload hspan h hblock hsize hfeeds
      cases hask.symm.trans hleft
      obtain ⟨hblock', hpos', -⟩ := Supply.quiet_of_ask hask
      rw [Supply.askUninterrupted_of_interruption hask he,
        Supply.askUninterrupted_of_interruption hright he]
      apply ih h' (hblock'.trans hblock) _ hfeeds'
      rw [hpos']
      apply hsize
  | case3 item f e next f' hask he =>
      obtain ⟨_, _, next', _, g', hleft, hright, h', hfeeds'⟩ :=
        likeness.ask .payload hspan h hblock hsize hfeeds
      cases hask.symm.trans hleft
      have he := Bool.eq_false_iff.mpr he
      exact ⟨_, _, _, _, _, Supply.askUninterrupted_of_error hask he,
        Supply.askUninterrupted_of_error hright he, h', hfeeds'⟩

/-- A question for bytes to be passed over is answered alike. -/
theorem askSkip {gap : Nat} (hspan : span.At left.piece pos) (h : likeness.Streams pos item other)
    (hblock : item.block = span.block) (hgap : item.itemPos + gap = span.itemOffset)
    (hfeeds : likeness.Feeds f g) :
  ∃ outcome next next' f' g',
    left.supply.ask .skip (min Supply.skipSize gap) item f = (outcome, next, f')
    ∧ right.supply.ask .skip (min Supply.skipSize gap) other g = (outcome, next', g')
    ∧ likeness.Streams pos (next.past outcome) (next'.past outcome) ∧ likeness.Feeds f' g'
  := by
  apply likeness.ask .skip hspan h hblock _ hfeeds
  omega

/-- Bytes before the payload are passed over alike. -/
theorem passOver {gap : Nat} (hspan : span.At left.piece pos) (h : likeness.Streams pos item other)
    (hblock : item.block = span.block) (hgap : item.itemPos + gap = span.itemOffset)
    (hfeeds : likeness.Feeds f g) :
  ∃ outcome next next' f' g', left.supply.passOver gap item f = (outcome, next, f')
    ∧ right.supply.passOver gap other g = (outcome, next', g')
    ∧ likeness.Streams pos next next' ∧ likeness.Feeds f' g'
  := by
  -- The place reached and the gap that is left always add up to where the payload starts.
  induction gap, item, f using Supply.passOver.induct left.supply generalizing other g with
  | case1 item f => exact ⟨_, _, _, _, _, Supply.passOver_zero, Supply.passOver_zero, h, hfeeds⟩
  | case2 gap item f hne next f' hask =>
      obtain ⟨_, _, next', _, g', hleft, hright, h', hfeeds'⟩ :=
        askSkip hspan h hblock hgap hfeeds
      cases hask.symm.trans hleft
      have hpos := Nat.pos_of_ne_zero hne
      exact ⟨_, _, _, _, _, Supply.passOver_of_nil hpos hask, Supply.passOver_of_nil hpos hright,
        h', hfeeds'⟩
  | case3 gap item f hne b bs next f' hask ih =>
      obtain ⟨_, _, next', _, g', hleft, hright, h', hfeeds'⟩ :=
        askSkip hspan h hblock hgap hfeeds
      cases hask.symm.trans hleft
      have hpos := Nat.pos_of_ne_zero hne
      obtain ⟨hblock', hpos', -⟩ := Supply.quiet_of_ask hask
      have hle : (b :: bs).length ≤ gap :=
        Nat.le_trans (left.supply.length_le_of_ask hask) (Nat.min_le_right _ _)
      rw [Supply.passOver_of_ok hpos (List.cons_ne_nil b bs) hask,
        Supply.passOver_of_ok hpos (List.cons_ne_nil b bs) hright]
      apply ih h' (hblock'.trans hblock) _ hfeeds'
      rw [hpos', Nat.add_assoc, Nat.add_sub_of_le hle, hgap]
  | case4 gap item f hne e next f' hask he ih =>
      obtain ⟨_, _, next', _, g', hleft, hright, h', hfeeds'⟩ :=
        askSkip hspan h hblock hgap hfeeds
      cases hask.symm.trans hleft
      have hpos := Nat.pos_of_ne_zero hne
      obtain ⟨hblock', hpos', -⟩ := Supply.quiet_of_ask hask
      rw [Supply.passOver_of_interruption hpos hask he,
        Supply.passOver_of_interruption hpos hright he]
      apply ih h' (hblock'.trans hblock) _ hfeeds'
      rw [hpos', hgap]
  | case5 gap item f hne e next f' hask he =>
      obtain ⟨_, _, next', _, g', hleft, hright, h', hfeeds'⟩ :=
        askSkip hspan h hblock hgap hfeeds
      cases hask.symm.trans hleft
      have hpos := Nat.pos_of_ne_zero hne
      have he := Bool.eq_false_iff.mpr he
      exact ⟨_, _, _, _, _, Supply.passOver_of_error hpos hask he,
        Supply.passOver_of_error hpos hright he, h', hfeeds'⟩

/-- What comes of passing over bytes is the same. -/
theorem concludeSkip (outcome : Except IoError Nat) (h : likeness.Streams pos item other)
    (hfeeds : likeness.Feeds f g) :
  ∃ acquired acquired' f' g', Setting.concludeSkip span (outcome, item, f) = (acquired, f')
    ∧ Setting.concludeSkip span (outcome, other, g) = (acquired', g')
    ∧ SameOutcome (likeness.Streams pos) acquired acquired' ∧ likeness.Feeds f' g'
  := by
  match outcome with
  | .ok 0 => exact ⟨_, _, _, _, rfl, rfl, .ok h, hfeeds⟩
  | .ok (lacking + 1) =>
      rw [Setting.concludeSkip, Setting.concludeSkip, (likeness.place_eq h).2]
      · exact ⟨_, _, _, _, rfl, rfl, .error _, likeness.drop hfeeds h⟩
      · exact Nat.succ_ne_zero lacking
      · exact Nat.succ_ne_zero lacking
  | .error e => exact ⟨_, _, _, _, rfl, rfl, .error _, likeness.drop hfeeds h⟩

/-- Streams are given up alike. -/
theorem releaseStream (h : likeness.Streams pos item other) (hfeeds : likeness.Feeds f g) :
  likeness.Feeds (f.release item) (g.release other)
  := by
  obtain ⟨hblock, hpos⟩ := likeness.place_eq h
  rw [Feed.release, Feed.release, hblock, hpos]
  apply likeness.drop (likeness.note _ hfeeds) h

/-- Streams are brought to the bytes wanted alike. -/
theorem acquire (hspan : span.At left.piece pos)
    (hheld : Option.Rel (likeness.Streams pos) held held')
    (hblock : ∀ item, held = some item → item.block = span.block) (hfeeds : likeness.Feeds f g) :
  ∃ outcome outcome' f' g', left.acquire held span f = (outcome, f')
    ∧ right.acquire held' span g = (outcome', g')
    ∧ SameOutcome (likeness.Streams pos) outcome outcome' ∧ likeness.Feeds f' g'
  := by
  cases hheld with
  | none => apply likeness.openFor hspan hfeeds
  | @some item other h =>
      have hblock := hblock item rfl
      obtain ⟨hblock', hpos'⟩ := likeness.place_eq h
      rcases Nat.lt_trichotomy item.itemPos span.itemOffset with hlt | heq | hgt
      · obtain ⟨outcome, next, next', f', g', hleft, hright, h', hfeeds'⟩ :=
          passOver hspan h hblock (Nat.add_sub_of_le (Nat.le_of_lt hlt))
            (likeness.note (.skipping span.path item.itemPos (span.itemOffset - item.itemPos))
              hfeeds)
        simp only [Setting.acquire, Approach.toward, hblock', hpos', hblock, hlt, Nat.ne_of_lt hlt,
          true_and, and_false, if_false, if_true, hleft, hright]
        apply concludeSkip outcome h' hfeeds'
      · simp only [Setting.acquire, Approach.toward, hblock', hpos', hblock, heq, and_self, if_true]
        exact ⟨_, _, _, _, rfl, rfl, .ok h, hfeeds⟩
      · simp only [Setting.acquire, Approach.toward, hblock', hpos', hblock, Nat.ne_of_gt hgt,
          Nat.not_lt_of_gt hgt, and_false, if_false]
        apply likeness.openFor hspan (releaseStream h hfeeds)

/-- Streams acquired are asked alike. -/
theorem askFor (hspan : span.At left.piece pos) (room : Nat) (h : likeness.Streams pos item other)
    (hblock : item.block = span.block) (hpos : item.itemPos = span.itemOffset)
    (hfeeds : likeness.Feeds f g) :
  ∃ outcome kept kept' f' g', left.askFor span room (.ok item, f) = (outcome, kept, f')
    ∧ right.askFor span room (.ok other, g) = (outcome, kept', g')
    ∧ Option.Rel (likeness.Streams pos) kept kept'
    ∧ (∀ item, kept = some item → item.block = span.block) ∧ likeness.Feeds f' g'
  := by
  have hsize : item.itemPos + min span.remaining room ≤ span.itemOffset + span.remaining := by
    omega
  obtain ⟨answer, next, next', f', g', hask, hask', h', hfeeds'⟩ :=
    askUninterrupted hspan h hblock hsize hfeeds
  obtain ⟨hblock', -, -⟩ := Supply.quiet_of_askUninterrupted hask
  have hkept : next.block = span.block := hblock'.trans hblock
  simp only [Setting.askFor, hask, hask']
  rcases answer with e | _ | ⟨b, bs⟩
  · exact ⟨_, _, _, _, _, rfl, rfl, .some h', by simpa using hkept, hfeeds'⟩
  · have hplace : next'.itemPos = next.itemPos := (likeness.place_eq h').2
    dsimp only
    rw [hplace]
    exact ⟨_, _, _, _, _, rfl, rfl, .some h', by simpa using hkept, hfeeds'⟩
  · exact ⟨_, _, _, _, _, rfl, rfl, .some h', by simpa using hkept, hfeeds'⟩

/-- Payload bytes are taken alike. -/
theorem takePayload (hspan : span.At left.piece pos) (room : Nat)
    (hheld : Option.Rel (likeness.Streams pos) held held')
    (hblock : ∀ item, held = some item → item.block = span.block) (hfeeds : likeness.Feeds f g) :
  ∃ outcome kept kept' f' g', left.takePayload held span room f = (outcome, kept, f')
    ∧ right.takePayload held' span room g = (outcome, kept', g')
    ∧ Option.Rel (likeness.Streams pos) kept kept'
    ∧ (∀ item, kept = some item → item.block = span.block) ∧ likeness.Feeds f' g'
  := by
  obtain ⟨outcome, outcome', f', g', hleft, hright, hsame, hfeeds'⟩ :=
    acquire hspan hheld hblock hfeeds
  rw [Setting.takePayload, Setting.takePayload]
  rw [hleft, hright]
  cases hsame with
  | error e => exact ⟨_, _, _, _, _, rfl, rfl, .none, by simp, hfeeds'⟩
  | ok h =>
      obtain ⟨hblock, hpos, -⟩ := Setting.openings_acquire hblock hleft
      apply askFor hspan room h hblock hpos hfeeds'

/-! ### Readers -/

/-- Readers give their streams up alike. -/
theorem release (h : likeness.Readers pos reader twin) (hfeeds : likeness.Feeds f g) :
  likeness.Readers pos (reader.release f).1 (twin.release g).1
    ∧ likeness.Feeds (reader.release f).2 (twin.release g).2
  := by
  obtain ⟨hstands, hcursor, hpoisoned, hheld⟩ := h
  obtain ⟨cursor, held, poisoned⟩ := reader
  obtain ⟨cursor', held', poisoned'⟩ := twin
  cases hheld with
  | none => exact ⟨⟨hstands, hcursor, hpoisoned, .none⟩, hfeeds⟩
  | some h =>
      refine ⟨⟨?_, hcursor, hpoisoned, .none⟩, releaseStream h hfeeds⟩
      apply Reader.standsAt_release hstands f

/-- Streams that are kept go on to match. -/
theorem forwardHeld {pos' : Nat} (h : Option.Rel (likeness.Streams pos) held held')
    (hle : pos ≤ pos')
    (hblock : ∀ item, held = some item → item.block = (Cursor.settled left.piece pos').block) :
  Option.Rel (likeness.Streams pos') held held'
  := by
  cases h with
  | none => exact .none
  | some h => exact .some (likeness.forward h hle (hblock _ rfl))

/-- Readers go forward alike. -/
theorem advance (n : Nat) (hlaid : left.piece.Laid) (h : likeness.Readers pos reader twin)
    (hn : pos + n ≤ left.piece.size) (hfeeds : likeness.Feeds f g) :
  likeness.Readers (pos + n) (reader.advance left n f).1 (twin.advance right n g).1
    ∧ likeness.Feeds (reader.advance left n f).2 (twin.advance right n g).2
  := by
  obtain ⟨hstands, -, -⟩ := Reader.standsAt_advance hlaid h.standsAt hn f
  obtain ⟨cursor, held, poisoned⟩ := reader
  obtain ⟨cursor', held', poisoned'⟩ := twin
  obtain ⟨-, hcursor, hpoisoned, hheld⟩ := h
  obtain rfl : cursor' = cursor := hcursor
  rw [Reader.advance] at hstands ⊢
  rw [Reader.advance, likeness.piece_eq]
  dsimp only at hstands ⊢
  generalize cursor'.advance left.piece n = moved at hstands ⊢
  rcases moved with ⟨cursor, _ | _⟩
  · refine ⟨⟨hstands, rfl, hpoisoned, ?_⟩, hfeeds⟩
    apply forwardHeld hheld (Nat.le_add_right _ _) hstands.block_eq
  · cases hheld with
    | none => exact ⟨⟨hstands, rfl, hpoisoned, .none⟩, hfeeds⟩
    | some h => exact ⟨⟨hstands, rfl, hpoisoned, .none⟩, releaseStream h hfeeds⟩

/-- Payload bytes taken are handed out alike. -/
theorem takeIn (hlaid : left.piece.Laid) (hspan : span.At left.piece pos)
    (h : likeness.Readers pos { reader with held := none } { twin with held := none })
    {outcome : Except ReadError Bytes}
    (hlength : ∀ bytes, outcome = .ok bytes → bytes.length ≤ span.remaining)
    (hheld : Option.Rel (likeness.Streams pos) held held')
    (hblock : ∀ item, held = some item → item.block = span.block) (hfeeds : likeness.Feeds f g) :
  likeness.Agree (reader.takeIn left (outcome, held, f)) (twin.takeIn right (outcome, held', g))
  := by
  have hreaders :
      likeness.Readers pos { reader with held := held } { twin with held := held' } := by
    refine ⟨⟨h.standsAt.cursor_eq, h.standsAt.le_size, ?_, ?_⟩, h.cursor_eq, h.poisoned_eq, hheld⟩
    · rw [hspan.settled_eq hlaid]
      apply hblock
    · rw [hspan.settled_eq hlaid]
      exact fun _ => ⟨_, hspan.run_eq⟩
  cases outcome with
  | error e => exact .intro hreaders hfeeds
  | ok bytes =>
      have hlength := hlength bytes rfl
      have hsize := hspan.le_size hlaid
      obtain ⟨hreaders', hfeeds'⟩ :=
        advance bytes.length hlaid hreaders (by omega) hfeeds
      exact .intro hreaders' hfeeds'

/-- Readers that match do so without their streams. -/
theorem Readers.bare (h : likeness.Readers pos reader twin) :
  likeness.Readers pos { reader with held := none } { twin with held := none }
  := by
  refine ⟨?_, h.cursor_eq, h.poisoned_eq, .none⟩
  exact Reader.standsAt_of_held_eq_none h.standsAt.cursor_eq h.standsAt.le_size rfl

/-- A stream that a reader holds was opened for the run of a payload at which it stands. -/
theorem Readers.block_eq (hlaid : left.piece.Laid) (h : likeness.Readers pos reader twin)
    (hspan : span.At left.piece pos) (hitem : reader.held = some item) :
  item.block = span.block
  := by
  rw [h.standsAt.block_eq item hitem, hspan.settled_eq hlaid]

/-- Buffers are filled alike. -/
theorem gather (hlaid : left.piece.Laid) (room : Nat) (h : likeness.Readers pos reader twin)
    (hfeeds : likeness.Feeds f g) :
  likeness.Agree (reader.gather left room f) (twin.gather right room g)
  := by
  induction room using Nat.strongRecOn generalizing pos reader twin f g with
  | ind room ih =>
      rcases Nat.eq_zero_or_pos room with rfl | hroom
      · rw [Reader.gather_zero, Reader.gather_zero]
        exact .intro h hfeeds
      · have hstands := Cursor.standsAt_segment hlaid h.standsAt.le_size
        rw [← h.standsAt.cursor_eq] at hstands
        have hsame : twin.cursor.segment right.piece = reader.cursor.segment left.piece := by
          rw [likeness.piece_eq, h.cursor_eq]
        cases hseg : reader.cursor.segment left.piece with
        | finish =>
            rw [Reader.gather_of_finish hseg, Reader.gather_of_finish (hsame.trans hseg)]
            exact .intro h hfeeds
        | bytes available =>
            have hsegment := hseg
            rw [h.standsAt.cursor_eq] at hsegment
            have hne := List.length_pos_iff.mpr (Cursor.ne_nil_of_segment hseg)
            have hlength : (available.take room).length = min room available.length :=
              List.length_take
            have hsize := (Cursor.segment_add hlaid h.standsAt.le_size hsegment).1
            obtain ⟨h', hfeeds'⟩ :=
              advance (available.take room).length hlaid h (by omega) hfeeds
            have hmore := ih (room - (available.take room).length) (by omega) h' hfeeds'
            rw [Reader.gather_of_bytes hroom hseg,
              Reader.gather_of_bytes hroom (hsame.trans hseg)]
            dsimp only
            generalize Reader.gather left _ _ _ = x at hmore ⊢
            generalize Reader.gather right _ _ _ = y at hmore ⊢
            cases hmore with
            | intro h'' hfeeds'' => exact .intro h'' hfeeds''
        | payload span =>
            rw [hseg] at hstands
            cases hstands with
            | payload hspan =>
                rw [Reader.gather_of_payload hroom hseg,
                  Reader.gather_of_payload hroom (hsame.trans hseg)]
                obtain ⟨outcome, kept, kept', f', g', hleft, hright, hkept, hblock, hfeeds'⟩ :=
                  takePayload hspan room h.held (fun _ => h.block_eq hlaid hspan) hfeeds
                rw [hleft, hright]
                apply takeIn hlaid hspan h.bare _ hkept hblock hfeeds'
                rintro bytes rfl
                have hlength := Setting.length_le_of_askFor hleft
                omega

/-- A failure poisons alike. -/
theorem poisonOnError {x : Except ReadError Bytes × Reader S × Feed W H}
    {y : Except ReadError Bytes × Reader S' × Feed W' H'} (h : likeness.Agree x y) :
  likeness.Agree (Reader.poisonOnError left x) (Reader.poisonOnError right y)
  := by
  cases h with
  | @intro outcome pos reader twin f g h hfeeds =>
      cases outcome with
      | ok bytes => exact .intro h hfeeds
      | error e =>
          have hplace : twin.position = reader.position := congrArg Cursor.pos h.cursor_eq
          have hnoted := likeness.note (.readFailed left.manner reader.position e) hfeeds
          rw [Reader.poisonOnError, Reader.poisonOnError, likeness.manner_eq, hplace]
          obtain ⟨⟨hstands, hcursor, -, hheld⟩, hfeeds'⟩ := release h hnoted
          refine .intro ⟨?_, hcursor, rfl, hheld⟩ hfeeds'
          exact ⟨hstands.cursor_eq, hstands.le_size, hstands.block_eq, hstands.exists_run⟩

/-- Reads are done alike. -/
theorem read (hlaid : left.piece.Laid) (size : Nat) (h : likeness.Readers pos reader twin)
    (hfeeds : likeness.Feeds f g) :
  likeness.Agree (reader.read left size f) (twin.read right size g)
  := by
  rw [Reader.read, Reader.read, h.poisoned_eq]
  split
  · exact .intro h hfeeds
  · apply poisonOnError (gather hlaid size h hfeeds)

/-- Moves are made alike. -/
theorem moveTo (hlaid : left.piece.Laid) (offset : Nat) (h : likeness.Readers pos reader twin)
    (hfeeds : likeness.Feeds f g) :
  likeness.Agree (reader.moveTo left offset f) (twin.moveTo right offset g)
  := by
  rw [Reader.moveTo, Reader.moveTo, Reader.checkReach, Reader.checkReach, likeness.piece_eq]
  by_cases hreach : left.piece.size < offset
  · rw [if_pos hreach]
    exact .intro h hfeeds
  · have hreach := Nat.le_of_not_lt hreach
    obtain ⟨-, hfeeds'⟩ := release h hfeeds
    have hmoved : likeness.Readers offset
        { reader with cursor := Cursor.locate left.piece offset, held := none }
        { twin with cursor := Cursor.locate left.piece offset, held := none } := by
      refine ⟨?_, rfl, h.poisoned_eq, .none⟩
      exact Reader.standsAt_of_held_eq_none (Cursor.locate_eq hlaid hreach) hreach rfl
    rw [if_neg (Nat.not_lt_of_le hreach), likeness.manner_eq]
    simp only [Reader.release_fst]
    exact .intro hmoved (likeness.note _ hfeeds')

/-- Targets are reached alike. -/
theorem seek (hlaid : left.piece.Laid) (target : SeekTarget) (h : likeness.Readers pos reader twin)
    (hfeeds : likeness.Feeds f g) :
  likeness.Agree (reader.seek left target f) (twin.seek right target g)
  := by
  have htarget : Reader.targetPosition right target twin
      = Reader.targetPosition left target reader := by
    cases target with
    | fromStart offset => rfl
    | fromEnd delta => rw [Reader.targetPosition, Reader.targetPosition, likeness.piece_eq]
    | fromHere delta =>
        rw [Reader.targetPosition, Reader.targetPosition, Reader.position, Reader.position,
          h.cursor_eq]
  unfold Reader.seek
  rw [htarget]
  dsimp only
  split
  · exact .intro h hfeeds
  · have hmove := moveTo hlaid (Reader.targetPosition left target reader).toNat h hfeeds
    generalize reader.moveTo left _ f = x at hmove ⊢
    generalize twin.moveTo right _ g = y at hmove ⊢
    cases hmove with
    | @intro outcome _ _ _ _ _ h' hfeeds' =>
        cases outcome with
        | error e => exact .intro h' hfeeds'
        | ok _ => exact .intro h' hfeeds'

/-- New readers at an offset match. -/
theorem startAt (likeness : left.Likeness right) (hlaid : left.piece.Laid)
    (hpos : pos ≤ left.piece.size) :
  likeness.Readers pos (Reader.startAt left pos) (Reader.startAt right pos)
  := by
  have hcursor : (Reader.startAt right pos : Reader S').cursor
      = (Reader.startAt left pos : Reader S).cursor := by
    rw [Reader.startAt, Reader.startAt, likeness.piece_eq]
  exact ⟨Reader.standsAt_startAt hlaid hpos, hcursor, rfl, .none⟩

/-! ### Families -/

/-- The readers match where they stand. -/
def Match (likeness : left.Likeness right) (reader : Reader S) (twin : Reader S') : Prop :=
  ∃ pos, likeness.Readers pos reader twin

/-- Where streams match exactly if they are the same, readers match exactly if they are the same and
stand somewhere. -/
theorem match_iff_eq {setting : Setting W H S} {likeness : setting.Likeness setting}
    {reader twin : Reader S}
    (hstreams : ∀ {pos : Nat} {item other : HeldStream S},
      likeness.Streams pos item other ↔ other = item) :
  likeness.Match reader twin ↔ twin = reader ∧ ∃ pos, reader.StandsAt setting.piece pos
  := by
  constructor
  · rintro ⟨pos, hstands, hcursor, hpoisoned, hheld⟩
    obtain ⟨cursor, held, poisoned⟩ := reader
    obtain ⟨cursor', held', poisoned'⟩ := twin
    obtain ⟨rfl, rfl⟩ : cursor' = cursor ∧ poisoned' = poisoned := ⟨hcursor, hpoisoned⟩
    refine ⟨?_, pos, hstands⟩
    cases hheld with
    | none => rfl
    | some h => rw [hstreams.mp h]
  · rintro ⟨rfl, pos, hstands⟩
    refine ⟨pos, hstands, rfl, rfl, ?_⟩
    cases twin.held with
    | none => exact .none
    | some item => exact .some (hstreams.mpr rfl)

/-- Readers that match come to the same when they read in these ways, and match afterwards. -/
def ReadsAlike (likeness : left.Likeness right)
    (read : Nat → Reader S → Feed W H → Except ReadError Bytes × Reader S × Feed W H)
    (read' : Nat → Reader S' → Feed W' H' → Except ReadError Bytes × Reader S' × Feed W' H') :
    Prop :=
  ∀ (size : Nat) {pos : Nat} {reader : Reader S} {twin : Reader S'} {f : Feed W H}
    {g : Feed W' H'}, likeness.Readers pos reader twin → likeness.Feeds f g →
    likeness.Agree (read size reader f) (read' size twin g)

/-- Readers come to the same when they read at once. -/
theorem readsAlike_read (likeness : left.Likeness right) (hlaid : left.piece.Laid) :
  likeness.ReadsAlike (fun size reader feed => reader.read left size feed)
    (fun size reader feed => reader.read right size feed)
  := fun size _ _ _ _ _ h hfeeds => read hlaid size h hfeeds

variable {read : Nat → Reader S → Feed W H → Except ReadError Bytes × Reader S × Feed W H}
  {read' : Nat → Reader S' → Feed W' H' → Except ReadError Bytes × Reader S' × Feed W' H'}
  {F : Family W H S} {G : Family W' H' S'} {i j : Nat}

/-- A number of reads is done alike. -/
theorem drainWithin (hread : likeness.ReadsAlike read read') (size calls : Nat)
    (h : likeness.Readers pos reader twin) (hfeeds : likeness.Feeds f g) :
  ∃ portions failure reader' twin' f' g',
    Reader.drainWithin (read size) calls reader f = (portions, failure, reader', f')
    ∧ Reader.drainWithin (read' size) calls twin g = (portions, failure, twin', g')
    ∧ likeness.Match reader' twin' ∧ likeness.Feeds f' g'
  := by
  induction calls generalizing pos reader twin f g with
  | zero => exact ⟨_, _, _, _, _, _, rfl, rfl, ⟨pos, h⟩, hfeeds⟩
  | succ calls ih =>
      have hnow : likeness.Agree (read size reader f) (read' size twin g) := hread size h hfeeds
      rw [Reader.drainWithin, Reader.drainWithin]
      generalize read size reader f = x at hnow ⊢
      generalize read' size twin g = y at hnow ⊢
      cases hnow with
      | @intro outcome pos' _ _ _ _ h' hfeeds' =>
          rcases outcome with e | _ | ⟨b, bs⟩
          · exact ⟨_, _, _, _, _, _, rfl, rfl, ⟨pos', h'⟩, hfeeds'⟩
          · exact ⟨_, _, _, _, _, _, rfl, rfl, ⟨pos', h'⟩, hfeeds'⟩
          · obtain ⟨portions, failure, reader'', twin'', f'', g'', hleft, hright, h'', hfeeds''⟩ :=
              ih h' hfeeds'
            simp only [hleft, hright]
            exact ⟨_, _, _, _, _, _, rfl, rfl, h'', hfeeds''⟩

/-- What comes of a command that is given to member `i` of the one family and member `j` of the
other, if these match. -/
inductive Obey (likeness : left.Likeness right) (F : Family W H S) (G : Family W' H' S')
    (i j : Nat) : Reply × Family W H S → Reply × Family W' H' S' → Prop
  | change (reply : Reply) {reader : Reader S} {twin : Reader S'} {f : Feed W H} {g : Feed W' H'}
      (h : likeness.Match reader twin) (hfeeds : likeness.Feeds f g) :
      Obey likeness F G i j (reply, F.update i reader f) (reply, G.update j twin g)
  | copy {offset : Nat} (hoffset : offset ≤ left.piece.size) :
      Obey likeness F G i j
        (.copied (.ok F.members.length),
          ⟨F.members ++ [some (Reader.startAt left offset)], F.feed⟩)
        (.copied (.ok G.members.length),
          ⟨G.members ++ [some (Reader.startAt right offset)], G.feed⟩)
  | refuse (e : ReadError) :
      Obey likeness F G i j (.copied (.error e), F) (.copied (.error e), G)
  | go {f : Feed W H} {g : Feed W' H'} (hfeeds : likeness.Feeds f g) :
      Obey likeness F G i j (.done, ⟨F.members.set i none, f⟩) (.done, ⟨G.members.set j none, g⟩)

/-- Members that match obey alike. -/
theorem runBy (hlaid : left.piece.Laid) (hread : likeness.ReadsAlike read read')
    (hF : F.member? i = some reader) (hG : G.member? j = some twin)
    (h : likeness.Match reader twin) (hfeeds : likeness.Feeds F.feed G.feed)
    (command : Command) :
  likeness.Obey F G i j (F.runBy left read i command) (G.runBy right read' j command)
  := by
  obtain ⟨pos, h⟩ := h
  rw [Family.runBy, Family.runBy, hF, hG]
  cases command with
  | read size =>
      have hnow : likeness.Agree (read size reader F.feed) (read' size twin G.feed) :=
        hread size h hfeeds
      dsimp only
      generalize read size reader F.feed = x at hnow ⊢
      generalize read' size twin G.feed = y at hnow ⊢
      cases hnow with
      | intro h' hfeeds' => exact .change _ ⟨_, h'⟩ hfeeds'
  | drain size =>
      have hsame :
          right.piece.size - twin.position + 1 = left.piece.size - reader.position + 1 := by
        rw [likeness.piece_eq, Reader.position, Reader.position, h.cursor_eq]
      obtain ⟨portions, failure, reader', twin', f', g', hleft, hright, h', hfeeds'⟩ :=
        drainWithin hread size (left.piece.size - reader.position + 1) h hfeeds
      dsimp only
      rw [Reader.drain, Reader.drain, hsame, hleft, hright]
      exact .change _ h' hfeeds'
  | moveTo offset =>
      have hmove := moveTo hlaid offset h hfeeds
      dsimp only
      generalize reader.moveTo left offset F.feed = x at hmove ⊢
      generalize twin.moveTo right offset G.feed = y at hmove ⊢
      cases hmove with
      | intro h' hfeeds' => exact .change _ ⟨_, h'⟩ hfeeds'
  | seek target =>
      have hseek := seek hlaid target h hfeeds
      dsimp only
      generalize reader.seek left target F.feed = x at hseek ⊢
      generalize twin.seek right target G.feed = y at hseek ⊢
      cases hseek with
      | intro h' hfeeds' => exact .change _ ⟨_, h'⟩ hfeeds'
  | copy offset =>
      simp only [Reader.copyAt, Reader.checkReach, likeness.piece_eq]
      by_cases hreach : left.piece.size < offset
      · simp only [if_pos hreach]
        exact .refuse _
      · simp only [if_neg hreach]
        exact .copy (Nat.le_of_not_lt hreach)
  | close =>
      obtain ⟨h', hfeeds'⟩ := release h hfeeds
      exact .change .done ⟨pos, h'⟩ hfeeds'
  | drop =>
      obtain ⟨-, -, -, hheld⟩ := h
      obtain ⟨cursor, held, poisoned⟩ := reader
      obtain ⟨cursor', held', poisoned'⟩ := twin
      simp only [Family.remove, hF, hG]
      cases hheld with
      | none => exact .go hfeeds
      | some h => exact .go (likeness.drop hfeeds h)

/-- Families match if their members do, one by one, and their feeds. -/
structure Families (likeness : left.Likeness right) (F : Family W H S) (G : Family W' H' S') :
    Prop where
  members : List.Forall₂ (Option.Rel likeness.Match) F.members G.members
  feeds : likeness.Feeds F.feed G.feed

/-- Members of one number match, or neither is there. -/
theorem Families.member?_cases (h : likeness.Families F G) (index : Nat) :
  (F.member? index = none ∧ G.member? index = none)
    ∨ ∃ reader twin, F.member? index = some reader ∧ G.member? index = some twin
        ∧ likeness.Match reader twin
  := by
  rw [Family.member?, Family.member?]
  rcases Nat.lt_or_ge index F.members.length with hlt | hge
  · have hlt' : index < G.members.length := h.members.length_eq ▸ hlt
    have hmatch := h.members.get hlt hlt'
    rw [List.getElem?_eq_getElem hlt, List.getElem?_eq_getElem hlt', Option.join_some,
      Option.join_some]
    simp only [List.get_eq_getElem] at hmatch
    generalize F.members[index] = m at hmatch ⊢
    generalize G.members[index] = m' at hmatch ⊢
    cases hmatch with
    | none => exact .inl ⟨rfl, rfl⟩
    | some hmatch => exact .inr ⟨_, _, rfl, rfl, hmatch⟩
  · rw [List.getElem?_eq_none hge, List.getElem?_eq_none (h.members.length_eq ▸ hge)]
    exact .inl ⟨rfl, rfl⟩

/-- Members match one by one when two that match take the places of others. -/
theorem forall₂_set {α β : Type} {P : α → β → Prop} {as : List α} {bs : List β} {a : α} {b : β}
    (h : List.Forall₂ P as bs) (hab : P a b) (index : Nat) :
  List.Forall₂ P (as.set index a) (bs.set index b)
  := by
  induction h generalizing index with
  | nil => exact .nil
  | cons h hrest ih =>
      cases index with
      | zero => exact .cons hab hrest
      | succ index => exact .cons h (ih index)

/-- Families that match answer a command alike, and match afterwards. -/
theorem Families.runBy (hlaid : left.piece.Laid) (hread : likeness.ReadsAlike read read')
    (h : likeness.Families F G) (index : Nat) (command : Command) :
  ∃ reply F' G', F.runBy left read index command = (reply, F')
    ∧ G.runBy right read' index command = (reply, G') ∧ likeness.Families F' G'
  := by
  rcases h.member?_cases index with ⟨hF, hG⟩ | ⟨reader, twin, hF, hG, hmatch⟩
  · rw [Family.runBy, Family.runBy, hF, hG]
    exact ⟨_, _, _, rfl, rfl, h⟩
  · have hobey := Likeness.runBy hlaid hread hF hG hmatch h.feeds command
    generalize F.runBy left read index command = x at hobey ⊢
    generalize G.runBy right read' index command = y at hobey ⊢
    cases hobey with
    | change reply h' hfeeds =>
        exact ⟨_, _, _, rfl, rfl, forall₂_set h.members (.some h') index, hfeeds⟩
    | @copy offset hoffset =>
        have hcopies : likeness.Match (Reader.startAt left offset) (Reader.startAt right offset) :=
          ⟨offset, startAt likeness hlaid hoffset⟩
        rw [h.members.length_eq]
        refine ⟨_, _, _, rfl, rfl, ?_, h.feeds⟩
        apply List.rel_append h.members (.cons (.some hcopies) .nil)
    | refuse e => exact ⟨_, _, _, rfl, rfl, h⟩
    | go hfeeds => exact ⟨_, _, _, rfl, rfl, forall₂_set h.members .none index, hfeeds⟩

/-- Families that match answer all commands alike, and match afterwards. -/
theorem Families.runAllBy (hlaid : left.piece.Laid) (hread : likeness.ReadsAlike read read')
    (h : likeness.Families F G) (commands : List (Nat × Command)) :
  ∃ replies F' G', F.runAllBy left read commands = (replies, F')
    ∧ G.runAllBy right read' commands = (replies, G') ∧ likeness.Families F' G'
  := by
  induction commands generalizing F G with
  | nil => exact ⟨_, _, _, rfl, rfl, h⟩
  | cons c commands ih =>
      obtain ⟨index, command⟩ := c
      obtain ⟨reply, F', G', hF, hG, h'⟩ := h.runBy hlaid hread index command
      obtain ⟨replies, F'', G'', hF', hG', h''⟩ := ih h'
      simp only [Family.runAllBy, hF, hG, hF', hG']
      exact ⟨_, _, _, rfl, rfl, h''⟩

/-- New families match if their feeds do. -/
theorem families_start (likeness : left.Likeness right) (hlaid : left.piece.Laid) {w : W} {w' : W'}
    (hfeeds : likeness.Feeds (Feed.start w left.piece.blocks.length)
      (Feed.start w' right.piece.blocks.length)) :
  likeness.Families (Family.start left w) (Family.start right w')
  := by
  refine ⟨.cons (.some ⟨0, ?_⟩) .nil, hfeeds⟩
  apply startAt likeness hlaid (Nat.zero_le _)

/-- What is the same for readers that match is the same for the members of families that do. -/
theorem Families.map_eq {α : Type} {φ : Reader S → α} {ψ : Reader S' → α}
    (h : likeness.Families F G)
    (hmatch : ∀ {reader twin}, likeness.Match reader twin → ψ twin = φ reader) :
  G.members.map (Option.map ψ) = F.members.map (Option.map φ)
  := by
  have hmembers := h.members
  generalize F.members = members at hmembers ⊢
  generalize G.members = twins at hmembers ⊢
  induction hmembers with
  | nil => rfl
  | cons hmember _ ih =>
      rw [List.map_cons, List.map_cons, ih]
      cases hmember with
      | none => rfl
      | some h => rw [Option.map_some, Option.map_some, hmatch h]

end Setting.Likeness

end PieceStream
