import PieceStream.Proofs.Segments

/-!
# Strict arithmetic in layouts

Offsets are computed in `Nat`, where no sum is too large and a difference stops at zero.  A strict
computation is the same with words: a sum that is no word, a difference below zero, and an index or
a range beyond the end of a list end it, and it yields the breach.  What is checked where it is
formed, or meant to stop at zero, needs no strictness; neither do the indices that count members of
a list passed, which its length bounds.

To build a piece and to ask for the layout of one that was built breaches nothing, wherever among
the words its blocks and the ranges of its items end.
-/

namespace PieceStream

/-- Why a strict computation yields nothing else. -/
inductive Breach where
  /-- The sum is not a word. -/
  | overflow (a b : Nat)
  /-- The difference is below zero. -/
  | underflow (a b : Nat)
  /-- The index is that of no member, or the range ends behind the last one. -/
  | outOfRange (index length : Nat)
  /-- The block found does not hold the offset. -/
  | astray (offset : Nat)
  /-- A loop does not get nearer to its end. -/
  | stuck
  deriving DecidableEq, Repr

/-- The outcome of a strict computation. -/
abbrev Strict (α : Type) := Except Breach α

/-! ### Strict operations -/

namespace Strict

variable {α β : Type} {a b pos : Nat} {l : List α}

/-- The sum of two words. -/
def add (a b : Nat) : Strict Nat :=
  if a + b < wordLimit then .ok (a + b) else .error (.overflow a b)

/-- The difference of two words. -/
def sub (a b : Nat) : Strict Nat := if b ≤ a then .ok (a - b) else .error (.underflow a b)

/-- What `b` leaves of what a loop has still to do. -/
def shrink (a b : Nat) : Strict { rest // rest < a } :=
  if h : b ≤ a then
    if hb : 0 < b then .ok ⟨a - b, by omega⟩ else .error .stuck
  else .error (.underflow a b)

/-- The length of a range at the start of a buffer. -/
def within (count room : Nat) : Strict Nat :=
  if count ≤ room then .ok count else .error (.outOfRange count room)

/-- A member by its index. -/
def get (index : Nat) (l : List α) : Strict α :=
  match l[index]? with
  | some x => .ok x
  | none => .error (.outOfRange index l.length)

/-- The range from an index on. -/
def drop (index : Nat) (l : List α) : Strict (List α) :=
  if index ≤ l.length then .ok (l.drop index) else .error (.outOfRange index l.length)

/-- The range before an index. -/
def take (index : Nat) (l : List α) : Strict (List α) :=
  if index ≤ l.length then .ok (l.take index) else .error (.outOfRange index l.length)

/-- The number of members at the front that end at or before `pos`. -/
def passed (stop : α → Strict Nat) (pos : Nat) : List α → Strict Nat
  | [] => .ok 0
  | x :: xs => do
    if (← stop x) ≤ pos then return (← passed stop pos xs) + 1 else return 0

@[simp] theorem ok_bind {f : α → Strict β} {x : α} :
  (Except.ok x >>= f) = f x
  := rfl

@[simp] theorem pure_eq {x : α} :
  (pure x : Strict α) = .ok x
  := rfl

@[simp] theorem ok_map {f : α → β} {x : α} :
  (f <$> (Except.ok x : Strict α)) = .ok (f x)
  := rfl

theorem add_eq (h : a + b < wordLimit) :
  add a b = .ok (a + b)
  := if_pos h

/-- What has a sum has a word for it. -/
theorem lt_of_add_eq {c : Nat} (h : add a b = .ok c) :
  a + b < wordLimit
  := by
  rw [add] at h
  split at h
  · assumption
  · cases h

theorem sub_eq (h : b ≤ a) :
  sub a b = .ok (a - b)
  := if_pos h

theorem shrink_eq (hb : 0 < b) (h : b ≤ a) :
  shrink a b = .ok ⟨a - b, Nat.sub_lt (Nat.lt_of_lt_of_le hb h) hb⟩
  := by
  rw [shrink, dif_pos h, dif_pos hb]

theorem within_eq (h : a ≤ b) :
  within a b = .ok a
  := if_pos h

theorem get_eq {x : α} (h : l[a]? = some x) :
  get a l = .ok x
  := by
  rw [get, h]

theorem drop_eq (h : a ≤ l.length) :
  drop a l = .ok (l.drop a)
  := if_pos h

theorem take_eq (h : a ≤ l.length) :
  take a l = .ok (l.take a)
  := if_pos h

/-- As many members as there are, up to a number, can be taken. -/
theorem take_min_eq :
  take (min l.length a) l = .ok (l.take a)
  := by
  rw [take_eq (Nat.min_le_left _ _), Nat.min_comm, ← List.take_eq_take_min]

/-- Members are passed in strict arithmetic as in any other if their ends can be computed. -/
theorem passed_eq {stop : α → Strict Nat} {stop' : α → Nat} (h : ∀ x ∈ l, stop x = .ok (stop' x)) :
  passed stop pos l = .ok (PieceStream.passed stop' pos l)
  := by
  induction l with
  | nil => rfl
  | cons x xs ih =>
      have ih := ih fun y hy => h y (List.mem_cons_of_mem x hy)
      simp only [passed, h x List.mem_cons_self, ih, ok_bind]
      by_cases hx : stop' x ≤ pos
      · rw [if_pos hx, passed_cons_of_le hx]
        rfl
      · rw [if_neg hx, passed_cons_of_lt (Nat.lt_of_not_le hx)]
        rfl

/-- What can be computed of every member can be computed of the list. -/
theorem mapM_eq {f : α → Strict β} {f' : α → β} (h : ∀ x ∈ l, f x = .ok (f' x)) :
  l.mapM f = .ok (l.map f')
  := by
  induction l with
  | nil => rfl
  | cons x xs ih =>
      have ih := ih fun y hy => h y (List.mem_cons_of_mem x hy)
      simp only [List.mapM_cons, h x List.mem_cons_self, ih, ok_bind]
      rfl

end Strict

/-! ### Framings and layouts -/

namespace Framing

/-- Where the identifier starts. -/
def strictIdentifierOffset (f : Framing) : Strict Nat :=
  Strict.add f.pieceOffset f.lengthPrefix.length

/-- Where the payload starts. -/
def strictPayloadOffset (f : Framing) : Strict Nat := do
  Strict.add (← f.strictIdentifierOffset) f.identifier.length

/-- The framing from `pos` to the end of the prefix or identifier that holds `pos`. -/
def strictBytesAt? (f : Framing) (pos : Nat) : Strict (Option Bytes) := do
  let payloadOffset ← f.strictPayloadOffset
  if pos < f.pieceOffset ∨ payloadOffset ≤ pos then return none
  else
    let identifierOffset ← f.strictIdentifierOffset
    if pos < identifierOffset then
      return some (← Strict.drop (← Strict.sub pos f.pieceOffset) f.lengthPrefix)
    else return some (← Strict.drop (← Strict.sub pos identifierOffset) f.identifier)

variable {f : Framing}

theorem strictIdentifierOffset_eq (h : f.payloadOffset < wordLimit) :
  f.strictIdentifierOffset = .ok f.identifierOffset
  := Strict.add_eq (Nat.lt_of_le_of_lt (Nat.le_add_right _ _) h)

theorem strictPayloadOffset_eq (h : f.payloadOffset < wordLimit) :
  f.strictPayloadOffset = .ok f.payloadOffset
  := by
  rw [strictPayloadOffset, strictIdentifierOffset_eq h]
  apply Strict.add_eq h

theorem strictBytesAt?_eq (h : f.payloadOffset < wordLimit) (pos : Nat) :
  f.strictBytesAt? pos = .ok (f.bytesAt? pos)
  := by
  simp only [strictBytesAt?, strictPayloadOffset_eq h, strictIdentifierOffset_eq h, Strict.ok_bind,
    bytesAt?]
  split
  · rfl
  · next hpos =>
    simp only [payloadOffset] at hpos
    split
    · next hlt =>
      simp only [identifierOffset] at hlt
      rw [Strict.sub_eq (by omega), Strict.ok_bind, Strict.drop_eq (by omega)]
      rfl
    · next hle =>
      rw [Strict.sub_eq (by omega), Strict.ok_bind, Strict.drop_eq (by omega)]
      rfl

end Framing

namespace Layout

/-- Where the block ends. -/
def strictEndOffset (l : Layout) : Strict Nat := do
  Strict.add (← l.toFraming.strictPayloadOffset) l.payloadLength

/-- The number of bytes of prefix, identifier and payload together. -/
def strictLength (l : Layout) : Strict Nat := do
  Strict.sub (← l.strictEndOffset) l.pieceOffset

/-- What can be asked of a layout can be computed strictly. -/
structure Exact (l : Layout) : Prop where
  identifierOffset_eq : l.toFraming.strictIdentifierOffset = .ok l.identifierOffset
  payloadOffset_eq : l.toFraming.strictPayloadOffset = .ok l.payloadOffset
  endOffset_eq : l.strictEndOffset = .ok l.endOffset
  length_eq : l.strictLength = .ok l.length
  bytesAt?_eq : ∀ pos, l.toFraming.strictBytesAt? pos = .ok (l.toFraming.bytesAt? pos)

/-- What can be asked of a layout can be computed exactly if it ends at a word. -/
theorem exact_iff {l : Layout} :
  l.Exact ↔ l.endOffset < wordLimit
  := by
  constructor
  · intro h
    have hend := h.endOffset_eq
    rw [strictEndOffset, h.payloadOffset_eq] at hend
    apply Strict.lt_of_add_eq hend
  · intro h
    have hpayload : l.payloadOffset < wordLimit := Nat.lt_of_le_of_lt (Nat.le_add_right _ _) h
    have hstart : l.pieceOffset ≤ l.endOffset :=
      Nat.le_trans l.toFraming.pieceOffset_le (Nat.le_add_right _ _)
    have hend : l.strictEndOffset = .ok l.endOffset := by
      rw [strictEndOffset, Framing.strictPayloadOffset_eq hpayload]
      apply Strict.add_eq h
    constructor
    case identifierOffset_eq => apply Framing.strictIdentifierOffset_eq hpayload
    case payloadOffset_eq => apply Framing.strictPayloadOffset_eq hpayload
    case endOffset_eq => apply hend
    case length_eq =>
        rw [strictLength, hend]
        apply Strict.sub_eq hstart
    case bytesAt?_eq => apply Framing.strictBytesAt?_eq hpayload

end Layout

/-! ### Blocks -/

namespace InlineBlock

/-- The bytes from `pos` to the end of the field that holds `pos`. -/
def strictBytesAt? (b : InlineBlock) (pos : Nat) : Strict (Option Bytes) := do
  match ← b.toFraming.strictBytesAt? pos with
  | some framing => return some framing
  | none =>
    let payloadOffset ← b.toFraming.strictPayloadOffset
    let endOffset ← b.layout.strictEndOffset
    if payloadOffset ≤ pos ∧ pos < endOffset then
      return some (← Strict.drop (← Strict.sub pos payloadOffset) b.payload)
    else return none

/-- What can be asked of an inline block can be computed strictly. -/
structure Exact (b : InlineBlock) : Prop where
  layout_exact : b.layout.Exact
  bytesAt?_eq : ∀ pos, b.strictBytesAt? pos = .ok (b.bytesAt? pos)

/-- What can be asked of an inline block can be computed exactly if it ends at a word. -/
theorem exact_iff {b : InlineBlock} :
  b.Exact ↔ b.endOffset < wordLimit
  := by
  constructor
  · intro h
    apply Layout.exact_iff.mp h.layout_exact
  · intro h
    have hlayout : b.layout.Exact := Layout.exact_iff.mpr h
    have hpayload : b.toFraming.strictPayloadOffset = .ok b.payloadOffset :=
      hlayout.payloadOffset_eq
    have hend : b.layout.strictEndOffset = .ok b.endOffset := hlayout.endOffset_eq
    have hlen : b.endOffset = b.payloadOffset + b.payload.length := rfl
    refine ⟨hlayout, fun pos => ?_⟩
    have hframing : b.toFraming.strictBytesAt? pos = .ok (b.toFraming.bytesAt? pos) :=
      hlayout.bytesAt?_eq pos
    rw [strictBytesAt?, hframing, bytesAt?]
    cases b.toFraming.bytesAt? pos with
    | some framing => rfl
    | none =>
        simp only [hpayload, hend, Strict.ok_bind]
        split
        · next hpos =>
          rw [Strict.sub_eq hpos.1, Strict.ok_bind, Strict.drop_eq (by omega)]
          rfl
        · rfl

end InlineBlock

namespace RunEntry

/-- Where the block ends. -/
def strictEndOffset (e : RunEntry) : Strict Nat := e.layout.strictEndOffset

/-- The offset in the item after the last byte of the payload. -/
def strictItemEnd (e : RunEntry) : Strict Nat := Strict.add e.itemOffset e.itemLength

/-- What can be asked of an entry can be computed strictly. -/
structure Exact (e : RunEntry) : Prop where
  layout_exact : e.layout.Exact
  itemEnd_eq : e.strictItemEnd = .ok e.itemEnd

/-- What can be asked of an entry can be computed exactly if it and its range end at words. -/
theorem exact_iff {e : RunEntry} :
  e.Exact ↔ e.endOffset < wordLimit ∧ e.itemEnd < wordLimit
  := by
  constructor
  · intro h
    exact ⟨Layout.exact_iff.mp h.layout_exact, Strict.lt_of_add_eq h.itemEnd_eq⟩
  · rintro ⟨hend, hitem⟩
    exact ⟨Layout.exact_iff.mpr hend, Strict.add_eq hitem⟩

end RunEntry

namespace ItemRun

/-- Where the run starts. -/
def strictPieceOffset (r : ItemRun) : Strict Nat := do return (← Strict.get 0 r.entries).pieceOffset

/-- Where the run ends. -/
def strictEndOffset (r : ItemRun) : Strict Nat := do
  let last ← Strict.get (← Strict.sub r.entries.length 1) r.entries
  last.strictEndOffset

/-- The highest item offset that entry `index` and the entries after it need. -/
def strictFurthestNeed (r : ItemRun) (index : Nat) : Strict Nat := do
  let ends ← (← Strict.drop index r.entries).mapM RunEntry.strictItemEnd
  return ends.foldl max 0

/-- What can be asked of a run can be computed strictly. -/
structure Exact (r : ItemRun) : Prop where
  pieceOffset_eq : r.strictPieceOffset = .ok r.pieceOffset
  endOffset_eq : r.strictEndOffset = .ok r.endOffset
  entries_exact : ∀ e ∈ r.entries, e.Exact
  furthestNeed_eq : ∀ index ≤ r.entries.length,
    r.strictFurthestNeed index = .ok (r.furthestNeed index)

/-- The last entry of a run is where the run ends. -/
theorem getElem?_last (r : ItemRun) :
  ∃ e, r.entries[r.entries.length - 1]? = some e ∧ r.endOffset = e.endOffset
  := by
  refine ⟨(r.others.getLast?).getD r.first, ?_, rfl⟩
  rw [← List.getLast?_eq_getElem?, entries, List.getLast?_cons]

/-- A run whose entries breach nothing breaches nothing. -/
theorem exact_of_entries {r : ItemRun} (h : ∀ e ∈ r.entries, e.Exact) :
  r.Exact
  := by
  constructor
  case pieceOffset_eq => rfl
  case endOffset_eq =>
      obtain ⟨e, he, hend⟩ := r.getElem?_last
      have hpos : 1 ≤ r.entries.length := Nat.succ_pos _
      rw [strictEndOffset, Strict.sub_eq hpos, Strict.ok_bind, Strict.get_eq he, hend]
      apply (h e (List.mem_of_getElem? he)).layout_exact.endOffset_eq
  case entries_exact => apply h
  case furthestNeed_eq =>
      intro index hindex
      have hends : (r.entries.drop index).mapM RunEntry.strictItemEnd
          = .ok ((r.entries.drop index).map RunEntry.itemEnd) :=
        Strict.mapM_eq fun e he => (h e (List.mem_of_mem_drop he)).itemEnd_eq
      rw [strictFurthestNeed, Strict.drop_eq hindex, Strict.ok_bind, hends, Strict.ok_bind,
        List.foldl_map]
      rfl

end ItemRun

namespace Block

/-- Where the block starts. -/
def strictPieceOffset : Block → Strict Nat
  | .inline b => .ok b.pieceOffset
  | .run r => r.strictPieceOffset

/-- Where the block ends. -/
def strictEndOffset : Block → Strict Nat
  | .inline b => b.layout.strictEndOffset
  | .run r => r.strictEndOffset

/-- What can be asked of a block can be computed strictly. -/
structure Exact (block : Block) : Prop where
  pieceOffset_eq : block.strictPieceOffset = .ok block.pieceOffset
  endOffset_eq : block.strictEndOffset = .ok block.endOffset
  inline_exact : ∀ {b}, block = .inline b → b.Exact
  run_exact : ∀ {r}, block = .run r → r.Exact

end Block

/-! ### Pieces -/

/-- A piece is laid end to end, and it and the ranges of its items end at words. -/
structure Piece.Fits (piece : Piece) : Prop where
  laid : piece.Laid
  size_lt : piece.size < wordLimit
  itemEnd_lt : ∀ {r}, .run r ∈ piece.blocks → ∀ e ∈ r.entries, e.itemEnd < wordLimit

namespace Piece.Fits

variable {piece : Piece}

/-- A block of a piece that fits breaches nothing. -/
theorem block_exact (h : piece.Fits) {block : Block} (hblock : block ∈ piece.blocks) :
  block.Exact
  := by
  have hend : block.endOffset < wordLimit :=
    Nat.lt_of_le_of_lt (h.laid.blocks_tiled.bounds hblock).2.2 h.size_lt
  cases block with
  | inline b =>
      have hexact : b.Exact := InlineBlock.exact_iff.mpr hend
      refine ⟨rfl, hexact.layout_exact.endOffset_eq, ?_, nofun⟩
      rintro _ ⟨⟩
      apply hexact
  | run r =>
      have hexact : r.Exact := by
        apply ItemRun.exact_of_entries
        intro e he
        apply RunEntry.exact_iff.mpr ⟨?_, ?_⟩
        · apply Nat.lt_of_le_of_lt ((h.laid.entries_tiled hblock).bounds he).2.2 hend
        · apply h.itemEnd_lt hblock e he
      refine ⟨hexact.pieceOffset_eq, hexact.endOffset_eq, nofun, ?_⟩
      rintro _ ⟨⟩
      apply hexact

theorem inline_exact (h : piece.Fits) {b : InlineBlock} (hb : .inline b ∈ piece.blocks) :
  b.Exact
  := (h.block_exact hb).inline_exact rfl

theorem run_exact (h : piece.Fits) {r : ItemRun} (hr : .run r ∈ piece.blocks) :
  r.Exact
  := (h.block_exact hr).run_exact rfl

end Piece.Fits

/-! ### Building -/

/-- The range of an entry ends at a word if that of its candidate does. -/
theorem Candidate.itemEnd_part_lt {c : Candidate} {e : RunEntry} (h : c.RangeFits)
    (he : c.part = .entry e) :
  e.itemEnd < wordLimit
  := by
  obtain ⟨offset, length, lengthPrefix, identifier, data⟩ := c
  cases data with
  | inline payload => cases he
  | item source item itemOffset itemLength =>
      cases he
      apply h

namespace Plan

/-- There have to be candidates; the first has to start at the end of the header and the last
has to end at the declared size. -/
def strictCheckEnds (plan : Plan) : Strict (Except PlanError Unit) :=
  match plan.candidates with
  | [] => .ok (.error .emptyPlan)
  | first :: _ =>
    if first.pieceOffset.toNat = plan.header.length then do
      let index ← Strict.sub plan.candidates.length 1
      let last ← Strict.get index plan.candidates
      return do
        let stop ← last.declaredEnd index
        if stop = plan.pieceSize.toNat then .ok ()
        else .error (.footerMisaligned plan.pieceSize.toNat stop)
    else .ok (.error (.headerMisaligned plan.header.length first.pieceOffset.toNat))

/-- The piece that a plan describes. -/
def strictBuild (plan : Plan) : Strict (Except PlanError Piece) := do
  let ends ← plan.strictCheckEnds
  return do
    ends
    Candidate.checkAll 0 plan.candidates
    let blocks ← Candidate.joinRuns 0 none plan.candidates
    return ⟨plan.header, plan.pieceSize.toNat, blocks⟩

variable {plan : Plan} {piece : Piece}

/-- To check the ends of a plan breaches nothing. -/
theorem strictCheckEnds_eq (plan : Plan) :
  plan.strictCheckEnds = .ok plan.checkEnds
  := by
  rw [strictCheckEnds, checkEnds]
  cases plan.candidates with
  | nil => rfl
  | cons first rest =>
      dsimp only
      split
      · have hlast : (first :: rest).getLast? = some (rest.getLastD first) := by
          rw [List.getLast?_cons, List.getLastD_eq_getLast?]
        have hpos : 1 ≤ (first :: rest).length := Nat.succ_pos _
        rw [List.getLast?_eq_getElem?] at hlast
        rw [Strict.sub_eq hpos, Strict.ok_bind, Strict.get_eq hlast]
        rfl
      · rfl

/-- To build a piece breaches nothing. -/
theorem strictBuild_eq (plan : Plan) :
  plan.strictBuild = .ok plan.build
  := by
  rw [strictBuild, strictCheckEnds_eq]
  rfl

/-- A piece that is built fits. -/
theorem fits_of_build (h : plan.build = .ok piece) :
  piece.Fits
  := by
  obtain ⟨hwell, -, hsize, -⟩ := build_eq_ok_iff.mp h
  obtain ⟨groups, hgroups, hflat⟩ := exists_carried h
  have hparts := Block.flatMap_parts hgroups
  rw [hflat] at hparts
  refine ⟨laid_of_build h, ?_, ?_⟩
  · rw [hsize]
    apply plan.pieceSize.toNat_lt
  · intro r hr e he
    have hpart : Part.entry e ∈ piece.blocks.flatMap Block.parts :=
      List.mem_flatMap.mpr ⟨.run r, hr, List.mem_map_of_mem he⟩
    rw [hparts] at hpart
    obtain ⟨c, hc, hce⟩ := List.mem_map.mp hpart
    obtain ⟨i, hi⟩ := List.mem_iff_getElem?.mp hc
    apply Candidate.itemEnd_part_lt (hwell.passes i c hi).rangeFits hce

end Plan

end PieceStream
