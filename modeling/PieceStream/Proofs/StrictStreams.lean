import PieceStream.Proofs.StrictCursor
import PieceStream.Reading.Reader

/-!
# Strict arithmetic of streams

A reader keeps the position of the stream that it holds, and a stream may have stopped anywhere.
To bring it to the bytes wanted and to ask it for some of them breaches nothing in a piece that
fits, whatever the sources answer: nothing is passed over behind the bytes wanted, and what a stream
yields is added to its position where it has reached them.
-/

namespace PieceStream

variable {W H S : Type}

/-! ### Streams -/

/-- The length to ask for when entry `entry` of a run needs a stream from `itemOffset` on. -/
def ReadAhead.strictLengthToAsk (readAhead : ReadAhead) (run : ItemRun) (entry itemOffset : Nat) :
    Strict Nat := do
  let need ← run.strictFurthestNeed entry
  match readAhead with
  | .runEnd => return need - itemOffset
  | .itemEnd => return max run.item.size.toNat need - itemOffset

/-- What to do with the stream held before the bytes of `span` are asked for. -/
def Approach.strictToward (held : Option (HeldStream S)) (span : PayloadRest) :
    Strict (Approach S) := do
  match held with
  | none => return .reopen none
  | some item =>
    if item.block = span.block ∧ item.itemPos = span.itemOffset then return .ready item
    else if item.block = span.block ∧ item.itemPos < span.itemOffset then
      return .skip item (← Strict.sub span.itemOffset item.itemPos)
    else return .reopen (some item)

namespace Setting

variable (setting : Setting W H S)

/-- A stream that starts with the bytes of `span`.  The length to ask for is computed when the
source has been found. -/
def strictOpenFor (span : PayloadRest) (feed : Feed W H) :
    Strict (Except ReadError (HeldStream S) × Feed W H) := do
  match setting.sourceFor span feed with
  | (.error e, feed) => return (.error (.sourceUnavailable span.run.source e), feed)
  | (.ok handle, feed) =>
    let _ ← setting.options.readAhead.strictLengthToAsk span.run span.entry span.itemOffset
    return setting.openFrom handle span (setting.announce span feed)

/-- A stream that stands where the bytes of `span` are.  The bytes passed over are added to the
position of the stream held. -/
def strictAcquire (held : Option (HeldStream S)) (span : PayloadRest) (feed : Feed W H) :
    Strict (Except ReadError (HeldStream S) × Feed W H) := do
  match ← Approach.strictToward held span with
  | .ready item => return (.ok item, feed)
  | .skip item gap =>
    let feed := feed.note (.skipping span.path item.itemPos gap)
    let (outcome, reached, feed) := setting.supply.passOver gap item feed
    let itemPos ← Strict.add item.itemPos (reached.itemPos - item.itemPos)
    return concludeSkip span (outcome, { reached with itemPos := itemPos }, feed)
  | .reopen (some stale) => setting.strictOpenFor span (feed.release stale)
  | .reopen none => setting.strictOpenFor span feed

/-- Asks the stream acquired once for bytes of `span`, at most `room` of them. -/
def strictAskFor (span : PayloadRest) (room : Nat)
    (acquired : Except ReadError (HeldStream S) × Feed W H) :
    Strict (Except ReadError Bytes × Option (HeldStream S) × Feed W H) := do
  match acquired with
  | (.error e, feed) => return (.error e, none, feed)
  | (.ok item, feed) =>
    let want ← Strict.within (min span.remaining room) room
    match setting.supply.askUninterrupted want item feed with
    | (.error e, item, feed) =>
      return (.error (.sourceReadFailure span.path (.io e)), some item, feed)
    | (.ok [], item, feed) =>
      return (.error (.unexpectedEnd span.path item.itemPos), some item, feed)
    | (.ok (b :: bs), item, feed) =>
      let itemPos ← Strict.add item.itemPos (b :: bs).length
      return (.ok (b :: bs), some { item with itemPos := itemPos }, feed)

/-- Asks once for bytes of `span`, at most `room` of them, and returns the stream held then. -/
def strictTakePayload (held : Option (HeldStream S)) (span : PayloadRest) (room : Nat)
    (feed : Feed W H) : Strict (Except ReadError Bytes × Option (HeldStream S) × Feed W H) := do
  setting.strictAskFor span room (← setting.strictAcquire held span feed)

end Setting

variable {setting : Setting W H S} {feed feed' : Feed W H} {item item' : HeldStream S}
  {held : Option (HeldStream S)} {span : PayloadRest} {pos : Nat}

/-- A payload byte has an entry. -/
theorem PayloadRest.At.entry_le {piece : Piece} (h : span.At piece pos) :
  span.entry ≤ span.run.entries.length
  := by
  obtain ⟨e, he, -⟩ := h.exists_entry
  apply Nat.le_of_lt (List.getElem?_eq_some_iff.mp he).1

/-- The rest of a payload ends at a word of its item. -/
theorem PayloadRest.At.offset_lt {piece : Piece} (hfits : piece.Fits) (h : span.At piece pos) :
  span.itemOffset + span.remaining < wordLimit
  := by
  obtain ⟨e, he, hsum, -⟩ := h.offset_add_remaining
  rw [hsum]
  apply hfits.itemEnd_lt (List.mem_of_getElem? h.run_eq) e (List.mem_of_mem_drop he)

/-- To compute the length to ask for breaches nothing. -/
theorem ReadAhead.strictLengthToAsk_eq {r : ItemRun} {entry : Nat} (h : r.Exact)
    (hentry : entry ≤ r.entries.length) (readAhead : ReadAhead) (itemOffset : Nat) :
  readAhead.strictLengthToAsk r entry itemOffset = .ok (readAhead.lengthToAsk r entry itemOffset)
  := by
  rw [strictLengthToAsk, h.furthestNeed_eq entry hentry, Strict.ok_bind]
  cases readAhead <;> rfl

namespace Approach

/-- A stream that is ready stands where the bytes wanted are. -/
theorem itemPos_of_ready (h : toward held span = .ready item) :
  item.itemPos = span.itemOffset
  := by
  rw [toward.eq_def] at h
  split at h
  · cases h
  · split at h
    · next hready =>
      cases h
      apply hready.2
    · split at h <;> cases h

/-- A gap reaches from where the stream stands to the bytes wanted. -/
theorem itemPos_of_skip {gap : Nat} (h : toward held span = .skip item gap) :
  item.itemPos + gap = span.itemOffset
  := by
  rw [toward.eq_def] at h
  split at h
  · cases h
  · split at h
    · cases h
    · split at h
      · next hskip =>
        cases h
        apply Nat.add_sub_cancel' (Nat.le_of_lt hskip.2)
      · cases h

/-- To decide what to do with a stream breaches nothing. -/
theorem strictToward_eq :
  strictToward held span = .ok (toward held span)
  := by
  cases held with
  | none => rfl
  | some item =>
      simp only [strictToward, toward]
      split
      · rfl
      · split
        · next hskip =>
          rw [Strict.sub_eq (Nat.le_of_lt hskip.2)]
          rfl
        · rfl

end Approach

namespace Supply

variable {supply : Supply W H S}

theorem itemPos_of_ask {purpose : Purpose} {size : Nat} {outcome : Except IoError Bytes}
    (h : supply.ask purpose size item feed = (outcome, item', feed')) :
  item'.itemPos = item.itemPos
  := (congrArg (·.2.1.itemPos) h).symm

theorem itemPos_of_askUninterrupted {size : Nat} {outcome : Except IoError Bytes}
    (h : supply.askUninterrupted size item feed = (outcome, item', feed')) :
  item'.itemPos = item.itemPos
  := by
  induction item, feed using askUninterrupted.induct supply size with
  | case1 item feed bytes item'' feed'' hask =>
      rw [askUninterrupted_of_ok hask] at h
      cases h
      apply itemPos_of_ask hask
  | case2 item feed e item'' feed'' hask he ih =>
      rw [askUninterrupted_of_interruption hask he] at h
      rw [ih h, itemPos_of_ask hask]
  | case3 item feed e item'' feed'' hask he =>
      rw [askUninterrupted_of_error hask (Bool.eq_false_iff.mpr he)] at h
      cases h
      apply itemPos_of_ask hask

/-- Passing over bytes a stream goes forward by as many as it does not lack. -/
theorem itemPos_of_passOver {gap : Nat} {outcome : Except IoError Nat}
    (h : supply.passOver gap item feed = (outcome, item', feed')) :
  item.itemPos ≤ item'.itemPos ∧ item'.itemPos ≤ item.itemPos + gap
    ∧ (outcome = .ok 0 → item'.itemPos = item.itemPos + gap)
  := by
  induction gap, item, feed using passOver.induct supply with
  | case1 item feed =>
      rw [passOver_zero] at h
      cases h
      exact ⟨Nat.le_refl _, Nat.le_refl _, fun _ => rfl⟩
  | case2 gap item feed hne item'' feed'' hask =>
      have hpos := itemPos_of_ask hask
      rw [passOver_of_nil (Nat.pos_of_ne_zero hne) hask] at h
      cases h
      refine ⟨Nat.le_of_eq hpos.symm, by omega, fun hzero => ?_⟩
      cases hzero
      contradiction
  | case3 gap item feed hne b bs item'' feed'' hask ih =>
      have hpos := itemPos_of_ask hask
      have hlen := supply.length_le_of_ask hask
      rw [passOver_of_ok (Nat.pos_of_ne_zero hne) (List.cons_ne_nil b bs) hask] at h
      obtain ⟨hle, hreach, hall⟩ := ih h
      dsimp only at hle hreach hall
      refine ⟨by omega, by omega, fun hzero => ?_⟩
      have hall := hall hzero
      omega
  | case4 gap item feed hne e item'' feed'' hask he ih =>
      rw [passOver_of_interruption (Nat.pos_of_ne_zero hne) hask he] at h
      rw [← itemPos_of_ask hask]
      apply ih h
  | case5 gap item feed hne e item'' feed'' hask he =>
      have hpos := itemPos_of_ask hask
      rw [passOver_of_error (Nat.pos_of_ne_zero hne) hask (Bool.eq_false_iff.mpr he)] at h
      cases h
      exact ⟨Nat.le_of_eq hpos.symm, by omega, nofun⟩

end Supply

namespace Setting

/-- A range that is opened starts with the bytes wanted. -/
theorem itemPos_of_conclude {outcome : Except SourceError S} {notes : List Note}
    (h : conclude span outcome notes feed = (.ok item, feed')) :
  item.itemPos = span.itemOffset
  := by
  rw [conclude.eq_def] at h
  cases outcome with
  | ok stream =>
      cases h
      rfl
  | error e => cases h

/-- The stream acquired stands where the bytes wanted are. -/
theorem itemPos_of_acquire (h : setting.acquire held span feed = (.ok item, feed')) :
  item.itemPos = span.itemOffset
  := by
  have hopen {feed : Feed W H} (h : setting.openFor span feed = (.ok item, feed')) :
      item.itemPos = span.itemOffset := by
    rw [openFor] at h
    split at h
    · cases h
    · apply itemPos_of_conclude h
  rw [acquire] at h
  split at h
  · next hready =>
    cases h
    apply Approach.itemPos_of_ready hready
  · next stale gap hskip =>
    dsimp only at h
    rw [concludeSkip.eq_def] at h
    split at h
    · next hover =>
      cases h
      rw [(Supply.itemPos_of_passOver hover).2.2 rfl, Approach.itemPos_of_skip hskip]
    · cases h
    · cases h
  · apply hopen h
  · apply hopen h

/-- To open a range breaches nothing. -/
theorem strictOpenFor_eq (hfits : setting.piece.Fits) (hspan : span.At setting.piece pos)
    (feed : Feed W H) :
  setting.strictOpenFor span feed = .ok (setting.openFor span feed)
  := by
  have hrun := hfits.run_exact (List.mem_of_getElem? hspan.run_eq)
  have hlength := ReadAhead.strictLengthToAsk_eq hrun hspan.entry_le setting.options.readAhead
    span.itemOffset
  rw [strictOpenFor, openFor, hlength]
  rcases setting.sourceFor span feed with ⟨_ | _, _⟩ <;> rfl

/-- To bring a stream to the bytes wanted breaches nothing. -/
theorem strictAcquire_eq (hfits : setting.piece.Fits) (hspan : span.At setting.piece pos)
    (held : Option (HeldStream S)) (feed : Feed W H) :
  setting.strictAcquire held span feed = .ok (setting.acquire held span feed)
  := by
  rw [strictAcquire, acquire, Approach.strictToward_eq, Strict.ok_bind]
  cases happroach : Approach.toward held span with
  | ready item => rfl
  | skip item gap =>
      dsimp only
      rcases hover : setting.supply.passOver gap item
        (feed.note (.skipping span.path item.itemPos gap)) with ⟨outcome, reached, feed'⟩
      obtain ⟨hle, hreach, -⟩ := Supply.itemPos_of_passOver hover
      have hgap := Approach.itemPos_of_skip happroach
      have hlt := hspan.offset_lt hfits
      have hsum : item.itemPos + (reached.itemPos - item.itemPos) = reached.itemPos :=
        Nat.add_sub_cancel' hle
      dsimp only
      rw [Strict.add_eq (by omega), Strict.ok_bind, hsum]
      rfl
  | reopen stale =>
      cases stale with
      | none => apply strictOpenFor_eq hfits hspan
      | some stale => apply strictOpenFor_eq hfits hspan

/-- To ask for bytes where the stream has reached them breaches nothing. -/
theorem strictAskFor_eq (hfits : setting.piece.Fits) (hspan : span.At setting.piece pos)
    {acquired : Except ReadError (HeldStream S) × Feed W H} (room : Nat)
    (hpos : ∀ item, acquired.1 = .ok item → item.itemPos = span.itemOffset) :
  setting.strictAskFor span room acquired = .ok (setting.askFor span room acquired)
  := by
  obtain ⟨outcome, feed⟩ := acquired
  cases outcome with
  | error e => rfl
  | ok item =>
      rw [strictAskFor, askFor]
      dsimp only
      rw [Strict.within_eq (Nat.min_le_right _ _), Strict.ok_bind]
      rcases hask : setting.supply.askUninterrupted (min span.remaining room) item feed
        with ⟨_ | _ | ⟨b, bs⟩, item', feed'⟩
      · rfl
      · rfl
      · have hitem : item'.itemPos = span.itemOffset := by
          rw [Supply.itemPos_of_askUninterrupted hask, hpos item rfl]
        have hlen := Supply.length_le_of_askUninterrupted hask
        have hlt := hspan.offset_lt hfits
        dsimp only
        rw [Strict.add_eq (by omega)]
        rfl

/-- To ask for bytes of a payload breaches nothing. -/
theorem strictTakePayload_eq (hfits : setting.piece.Fits) (hspan : span.At setting.piece pos)
    (held : Option (HeldStream S)) (room : Nat) (feed : Feed W H) :
  setting.strictTakePayload held span room feed = .ok (setting.takePayload held span room feed)
  := by
  rw [strictTakePayload, strictAcquire_eq hfits hspan, Strict.ok_bind]
  apply strictAskFor_eq hfits hspan
  intro item hitem
  apply itemPos_of_acquire (Prod.ext hitem rfl)

end Setting

end PieceStream
