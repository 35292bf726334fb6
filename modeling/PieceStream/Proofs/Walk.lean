import Mathlib.Data.List.TakeWhile
import PieceStream.Piece.Content
import PieceStream.Piece.Cursor
import PieceStream.Proofs.Compaction

/-!
# Walking through the content of a piece

A settled cursor is determined by its offset: it stands at the first block that does not end at
or before the offset, and in a run at the first such entry.  Searching for an offset and going
forward both lead to that cursor.  It stands on the bytes with which the content of the piece
goes on from the offset.
-/

namespace PieceStream

/-! ### Lengths -/

/-- The content of an inline block fills the block. -/
theorem InlineBlock.length_content {b : InlineBlock} :
  b.content.length = b.endOffset - b.pieceOffset
  := by
  simp only [content, List.length_append, endOffset, layout, Layout.endOffset,
    Framing.payloadOffset, Framing.identifierOffset]
  omega

/-- The content of an entry fills the entry if the item holds the payload. -/
theorem RunEntry.length_content {e : RunEntry} {data : Bytes}
    (h : 0 < e.itemLength → e.itemEnd ≤ data.length) :
  (e.content data).length = e.endOffset - e.pieceOffset
  := by
  simp only [content, List.length_append, List.length_take, List.length_drop, endOffset, layout,
    Layout.endOffset, Framing.payloadOffset, Framing.identifierOffset, itemEnd] at h ⊢
  omega

namespace Piece

variable {piece : Piece} {store : Store}

/-- The content of a block fills the block. -/
theorem length_content_block (hlaid : piece.Laid) (hheld : piece.HeldIn store) :
  ∀ block ∈ piece.blocks, (block.content store).length = block.endOffset - block.pieceOffset
  := by
  intro block hblock
  cases block with
  | inline b => apply InlineBlock.length_content
  | run r =>
      apply (hlaid.entries_tiled hblock).length_flatMap
      intro e he
      apply RunEntry.length_content (hheld hblock e he)

/-- The content of a piece is as long as the piece. -/
theorem length_content (hlaid : piece.Laid) (hheld : piece.HeldIn store) :
  (piece.content store).length = piece.size
  := by
  have hblocks := hlaid.blocks_tiled.length_flatMap (length_content_block hlaid hheld)
  have hle := hlaid.blocks_tiled.le
  rw [content, List.length_append, hblocks]
  omega

end Piece

/-! ### Settled cursors -/

namespace Cursor

/-- The index of the entry that holds `pos` in the first block not passed. -/
def entryAt (pos : Nat) (blocks : List Block) : Nat :=
  match blocks[passed Block.endOffset pos blocks]? with
  | some (.run r) => passed RunEntry.endOffset pos r.entries
  | _ => 0

/-- The settled cursor at an offset of the piece. -/
def settled (piece : Piece) (pos : Nat) : Cursor :=
  ⟨pos, passed Block.endOffset pos piece.blocks, entryAt pos piece.blocks⟩

/-- All entries of the first block before `entry` end at or before the offset. -/
def Reached (pos : Nat) (blocks : List Block) (entry : Nat) : Prop :=
  match blocks with
  | .run r :: _ => entry ≤ r.entries.length ∧ ∀ e ∈ r.entries.take entry, e.endOffset ≤ pos
  | _ => entry = 0

variable {pos : Nat} {blocks : List Block}

theorem reached_zero :
  Reached pos blocks 0
  := by
  unfold Reached
  split
  · simp
  · rfl

/-- An entry of a run is not passed exactly if the run is not. -/
theorem passed_lt_length_iff {r : ItemRun} (h : r.EntriesTiled) :
  passed RunEntry.endOffset pos r.entries < r.entries.length ↔ pos < r.endOffset
  := by
  constructor
  · intro hlt
    by_contra hpos
    rw [h.passed_eq_length (Nat.le_of_not_lt hpos)] at hlt
    apply Nat.lt_irrefl _ hlt
  · intro hpos
    by_cases hstart : r.pieceOffset ≤ pos
    · obtain ⟨e, he, -⟩ := h.exists_getElem?_passed hstart hpos
      apply (List.getElem?_eq_some_iff.mp he).1
    · rw [h.passed_eq_zero (Nat.lt_of_not_le hstart)]
      apply Nat.succ_pos

/-- Within a run settling passes the entries that end at or before the offset. -/
theorem settleWithin_run {r : ItemRun} {block entry : Nat} :
  settleWithin pos (.run r :: blocks) block entry
    = if entry + passed RunEntry.endOffset pos (r.entries.drop entry) < r.entries.length then
        (block, entry + passed RunEntry.endOffset pos (r.entries.drop entry), false)
      else
        let (block, entry, _) := settleWithin pos blocks (block + 1) 0
        (block, entry, true)
  := rfl

/-- Settling passes the blocks, and in a run the entries, that end at or before the offset. -/
theorem settleWithin_eq {block entry : Nat} (hruns : ∀ {r}, .run r ∈ blocks → r.EntriesTiled)
    (hentry : Reached pos blocks entry) :
  settleWithin pos blocks block entry
    = (block + passed Block.endOffset pos blocks, entryAt pos blocks,
        (blocks.take (passed Block.endOffset pos blocks)).any Block.isRun)
  := by
  induction blocks generalizing block entry with
  | nil =>
      obtain rfl : entry = 0 := hentry
      rfl
  | cons first rest ih =>
      have ih := @ih (block + 1) 0 (fun hr => hruns (List.mem_cons_of_mem _ hr)) reached_zero
      cases first with
      | inline b =>
          obtain rfl : entry = 0 := hentry
          by_cases hpos : pos < b.endOffset
          · have hlt : pos < (Block.inline b).endOffset := hpos
            simp [settleWithin, hpos, entryAt, passed_cons_of_lt hlt]
          · have hle : (Block.inline b).endOffset ≤ pos := Nat.le_of_not_lt hpos
            simp only [settleWithin, hpos, if_false, ih, entryAt, passed_cons_of_le hle]
            simp [Block.isRun, Block.asRun?]
            omega
      | run r =>
          obtain ⟨hle, hbefore⟩ := hentry
          have hpassed := passed_drop hle hbefore
          have hlt : passed RunEntry.endOffset pos r.entries < r.entries.length
              ↔ pos < r.endOffset :=
            passed_lt_length_iff (hruns List.mem_cons_self)
          rw [settleWithin_run, hpassed]
          by_cases hpos : pos < r.endOffset
          · have hlt' : pos < (Block.run r).endOffset := hpos
            simp [hlt.mpr hpos, entryAt, passed_cons_of_lt hlt']
          · have hle : (Block.run r).endOffset ≤ pos := Nat.le_of_not_lt hpos
            simp only [mt hlt.mp hpos, if_false, ih, entryAt, passed_cons_of_le hle]
            simp [Block.isRun, Block.asRun?]
            omega

variable {piece : Piece}

/-- Within a run the settled cursor stands at the first entry that is not passed. -/
theorem entry_settled {r : ItemRun}
    (hr : piece.blocks[(settled piece pos).block]? = some (.run r)) :
  (settled piece pos).entry = passed RunEntry.endOffset pos r.entries
  := by
  simp only [settled] at hr
  simp only [settled, entryAt, hr]

/-- Settling from a place reached leads to the settled cursor. -/
theorem settle_eq {block entry : Nat} (hlaid : piece.Laid) (hpos : piece.header.length ≤ pos)
    (hblock : block ≤ piece.blocks.length)
    (hblocks : ∀ b ∈ piece.blocks.take block, b.endOffset ≤ pos)
    (hentry : Reached pos (piece.blocks.drop block) entry) :
  settle piece ⟨pos, block, entry⟩
    = (settled piece pos, ((piece.blocks.drop block).take
        (passed Block.endOffset pos (piece.blocks.drop block))).any Block.isRun)
  := by
  have hruns {r : ItemRun} (hr : .run r ∈ piece.blocks.drop block) : r.EntriesTiled :=
    hlaid.entries_tiled (List.mem_of_mem_drop hr)
  have hpassed := passed_drop hblock hblocks
  have hindex : entryAt pos (piece.blocks.drop block) = entryAt pos piece.blocks := by
    rw [entryAt, entryAt, List.getElem?_drop, hpassed]
  simp only [settle, Nat.not_lt_of_le hpos, if_false, settleWithin_eq hruns hentry, hpassed, hindex,
    settled]

/-- Within the header the settled cursor stands at the first block. -/
theorem settled_of_lt (hlaid : piece.Laid) (hpos : pos < piece.header.length) :
  settled piece pos = ⟨pos, 0, 0⟩
  := by
  have hzero := hlaid.blocks_tiled.passed_eq_zero hpos
  have hentry : entryAt pos piece.blocks = 0 := by
    rw [entryAt]
    split
    · next r hr =>
      have hmem := List.mem_of_getElem? hr
      have hstart := (hlaid.blocks_tiled.bounds hmem).1
      apply (hlaid.entries_tiled hmem).passed_eq_zero (Nat.lt_of_lt_of_le hpos hstart)
    · rfl
  rw [settled, hzero, hentry]

/-- At the end the settled cursor stands behind the last block. -/
theorem settled_size (hlaid : piece.Laid) :
  settled piece piece.size = ⟨piece.size, piece.blocks.length, 0⟩
  := by
  have hall := hlaid.blocks_tiled.passed_eq_length (Nat.le_refl _)
  rw [settled, entryAt, hall, List.getElem?_eq_none (Nat.le_refl _)]

/-- Searching for an offset of the piece finds the settled cursor. -/
theorem locate_eq (hlaid : piece.Laid) (hpos : pos ≤ piece.size) :
  locate piece pos = settled piece pos
  := by
  rw [locate]
  split
  · next hlt => rw [settled_of_lt hlaid hlt]
  · next hheader =>
    split
    · next hend =>
      obtain rfl : pos = piece.size := Nat.le_antisymm hpos hend
      rw [settled_size hlaid]
    · dsimp only
      rw [settle_eq hlaid (Nat.le_of_not_lt hheader)]
      · apply Nat.le_trans (Nat.sub_le _ _)
        apply (List.takeWhile_prefix _).length_le
      · intro b hb
        apply hlaid.blocks_tiled.stop_le_of_mem_take hb
      · cases hdrop : piece.blocks.drop (piece.blockHolding pos) with
        | nil =>
            rw [← List.head?_drop, hdrop]
            rfl
        | cons b rest =>
            rw [← List.head?_drop, hdrop]
            cases b with
            | inline b => rfl
            | run r =>
                have hr : .run r ∈ piece.blocks := by
                  apply List.mem_of_mem_drop
                  rw [hdrop]
                  apply List.mem_cons_self
                constructor
                · apply Nat.le_trans (Nat.sub_le _ _)
                  apply (List.takeWhile_prefix _).length_le
                · intro e he
                  apply (hlaid.entries_tiled hr).stop_le_of_mem_take he

/-- Going forward within the header stays before the blocks. -/
theorem advance_of_lt (hlaid : piece.Laid) {n : Nat} (h : pos + n < piece.header.length) :
  (settled piece pos).advance piece n = (settled piece (pos + n), false)
  := by
  rw [settled_of_lt hlaid h, settled_of_lt hlaid (Nat.lt_of_le_of_lt (Nat.le_add_right _ _) h)]
  simp [advance, settle, h]

/-- Going forward leads from one settled cursor to another past the blocks between them. -/
theorem advance_of_le (hlaid : piece.Laid) {n : Nat} (h : piece.header.length ≤ pos + n) :
  (settled piece pos).advance piece n
    = (settled piece (pos + n),
        ((piece.blocks.drop (settled piece pos).block).take
          (passed Block.endOffset (pos + n)
            (piece.blocks.drop (settled piece pos).block))).any Block.isRun)
  := by
  apply settle_eq hlaid h
  · apply passed_le_length
  · intro b hb
    apply Nat.le_trans (stop_le_of_mem_take_passed hb) (Nat.le_add_right _ _)
  · cases hdrop : piece.blocks.drop (passed Block.endOffset pos piece.blocks) with
    | nil =>
        simp only [settled, entryAt, ← List.head?_drop, hdrop]
        rfl
    | cons b rest =>
        simp only [settled, entryAt, ← List.head?_drop, hdrop]
        cases b with
        | inline b => rfl
        | run r =>
            constructor
            · apply passed_le_length
            · intro e he
              apply Nat.le_trans (stop_le_of_mem_take_passed he) (Nat.le_add_right _ _)

/-- Going forward leads from one settled cursor to another. -/
theorem advance_settled (hlaid : piece.Laid) (pos n : Nat) :
  ((settled piece pos).advance piece n).1 = settled piece (pos + n)
  := by
  by_cases h : pos + n < piece.header.length
  · rw [advance_of_lt hlaid h]
  · rw [advance_of_le hlaid (Nat.le_of_not_lt h)]

/-- The block reached is found by counting the blocks passed from where the cursor stands. -/
theorem block_add_passed (piece : Piece) (pos n : Nat) :
  (settled piece pos).block
      + passed Block.endOffset (pos + n) (piece.blocks.drop (settled piece pos).block)
    = (settled piece (pos + n)).block
  := by
  apply passed_drop passed_le_length
  intro b hb
  apply Nat.le_trans (stop_le_of_mem_take_passed hb) (Nat.le_add_right _ _)

/-- Where a run is left behind the cursor stands in another block. -/
theorem block_ne_of_advance (hlaid : piece.Laid) {n : Nat}
    (h : ((settled piece pos).advance piece n).2 = true) :
  (settled piece (pos + n)).block ≠ (settled piece pos).block
  := by
  by_cases hheader : pos + n < piece.header.length
  · rw [advance_of_lt hlaid hheader] at h
    cases h
  · rw [advance_of_le hlaid (Nat.le_of_not_lt hheader)] at h
    intro heq
    have hpassed := heq ▸ block_add_passed piece pos n
    rw [Nat.add_eq_left.mp hpassed] at h
    cases h

/-- A run in which the cursor stands is left behind unless the cursor stays there. -/
theorem block_eq_of_advance (hlaid : piece.Laid) {n : Nat} {r : ItemRun}
    (hr : piece.blocks[(settled piece pos).block]? = some (.run r))
    (h : ((settled piece pos).advance piece n).2 = false) :
  (settled piece (pos + n)).block = (settled piece pos).block
  := by
  by_cases hheader : pos + n < piece.header.length
  · rw [settled_of_lt hlaid hheader,
      settled_of_lt hlaid (Nat.lt_of_le_of_lt (Nat.le_add_right _ _) hheader)]
  · rw [advance_of_le hlaid (Nat.le_of_not_lt hheader)] at h
    have hpassed := block_add_passed piece pos n
    rw [← List.head?_drop] at hr
    obtain ⟨rest, hrest⟩ := List.head?_eq_some_iff.mp hr
    rw [hrest] at h hpassed
    by_cases hend : (Block.run r).endOffset ≤ pos + n
    · rw [passed_cons_of_le hend] at h
      simp [Block.isRun, Block.asRun?] at h
    · rw [passed_cons_of_lt (Nat.lt_of_not_le hend)] at hpassed
      apply hpassed.symm

end Cursor

/-! ### What the cursor stands on -/

namespace Framing

variable {f : Framing} {pos : Nat} {payload : Bytes}

/-- The framing from `pos` to the end of the field is what the block goes on with. -/
theorem bytesAt?_prefix {bs : Bytes} (h : f.bytesAt? pos = some bs) :
  bs <+: (f.lengthPrefix ++ f.identifier ++ payload).drop (pos - f.pieceOffset)
  := by
  rw [bytesAt?] at h
  split at h
  · cases h
  · split at h
    · next hlt =>
      cases h
      rw [List.append_assoc, List.drop_append_of_le_length]
      · apply List.prefix_append
      · simp only [identifierOffset] at hlt
        omega
    · next hle =>
      cases h
      have hskip : pos - f.pieceOffset = f.lengthPrefix.length + (pos - f.identifierOffset) := by
        simp only [identifierOffset] at *
        omega
      rw [List.append_assoc, hskip, List.drop_length_add_append, List.drop_append_of_le_length]
      · apply List.prefix_append
      · simp only [payloadOffset] at *
        omega

/-- Behind the framing the block goes on with the payload. -/
theorem drop_of_bytesAt? (hpos : f.pieceOffset ≤ pos) (h : f.bytesAt? pos = none) :
  f.payloadOffset ≤ pos
    ∧ (f.lengthPrefix ++ f.identifier ++ payload).drop (pos - f.pieceOffset)
        = payload.drop (pos - f.payloadOffset)
  := by
  have hle : f.payloadOffset ≤ pos := by
    rw [bytesAt?] at h
    split at h
    · omega
    · split at h <;> cases h
  have hskip : pos - f.pieceOffset
      = (f.lengthPrefix ++ f.identifier).length + (pos - f.payloadOffset) := by
    simp only [payloadOffset, identifierOffset, List.length_append] at *
    omega
  use hle
  rw [hskip, List.drop_length_add_append]

end Framing

/-- What an inline block goes on with is in memory. -/
theorem InlineBlock.exists_bytesAt? {b : InlineBlock} {pos : Nat} (hstart : b.pieceOffset ≤ pos)
    (hend : pos < b.endOffset) :
  ∃ bs, b.bytesAt? pos = some bs ∧ bs <+: b.content.drop (pos - b.pieceOffset)
  := by
  rw [bytesAt?]
  split
  · next framing hframing => exact ⟨framing, rfl, Framing.bytesAt?_prefix hframing⟩
  · next hframing =>
    obtain ⟨hle, hdrop⟩ := Framing.drop_of_bytesAt? hstart hframing
    rw [if_pos ⟨hle, hend⟩]
    have hcontent : b.content.drop (pos - b.pieceOffset)
        = b.payload.drop (pos - b.payloadOffset) := by
      rw [content, hdrop]
    exact ⟨_, rfl, hcontent ▸ List.prefix_rfl⟩

/-- The furthest need is a bound of all needs, and the least one. -/
theorem ItemRun.furthestNeed_le_iff {r : ItemRun} {index limit : Nat} :
  r.furthestNeed index ≤ limit ↔ ∀ e ∈ r.entries.drop index, e.itemEnd ≤ limit
  := by
  have hfold (high : Nat) (es : List RunEntry) :
      es.foldl (fun high e => max high e.itemEnd) high ≤ limit
        ↔ high ≤ limit ∧ ∀ e ∈ es, e.itemEnd ≤ limit := by
    induction es generalizing high with
    | nil => simp
    | cons e es ih =>
        simp only [List.foldl_cons, ih, Nat.max_le, List.forall_mem_cons, and_assoc]
  rw [furthestNeed, hfold]
  simp

/-- The later an entry, the less it and the entries after it need. -/
theorem ItemRun.furthestNeed_anti {r : ItemRun} {index index' : Nat} (h : index ≤ index') :
  r.furthestNeed index' ≤ r.furthestNeed index
  := by
  apply furthestNeed_le_iff.mpr
  intro e he
  apply furthestNeed_le_iff.mp (Nat.le_refl _)
  apply (List.drop_sublist_drop_left _ h).subset he

/-- The further on a cursor stands within a run, the less the rest of the run needs. -/
theorem ItemRun.furthestNeed_settled_anti {piece : Piece} {pos pos' : Nat} {r : ItemRun}
    (hle : pos ≤ pos') (hr : piece.blocks[(Cursor.settled piece pos).block]? = some (.run r))
    (hblock : (Cursor.settled piece pos').block = (Cursor.settled piece pos).block) :
  r.furthestNeed (Cursor.settled piece pos').entry ≤ r.furthestNeed (Cursor.settled piece pos).entry
  := by
  have hr' : piece.blocks[(Cursor.settled piece pos').block]? = some (.run r) := by
    rw [hblock, hr]
  apply furthestNeed_anti
  rw [Cursor.entry_settled hr, Cursor.entry_settled hr']
  apply passed_mono hle

/-- The rest of a payload with which the content of a piece goes on from `pos`. -/
structure PayloadRest.Follows (span : PayloadRest) (piece : Piece) (store : Store) (pos : Nat) :
    Prop where
  block_eq : span.block = (Cursor.settled piece pos).block
  entry_eq : span.entry = (Cursor.settled piece pos).entry
  run_eq : piece.blocks[span.block]? = some (.run span.run)
  remaining_pos : 0 < span.remaining
  need_le : span.itemOffset + span.remaining ≤ span.run.furthestNeed span.entry
  held_le : span.itemOffset + span.remaining ≤ (span.run.data store).length
  content_prefix : ((span.run.data store).drop span.itemOffset).take span.remaining
    <+: (piece.content store).drop pos

/-- A segment with which the content of a piece goes on from `pos`. -/
inductive Segment.Follows (piece : Piece) (store : Store) (pos : Nat) : Segment → Prop
  | bytes {bs : Bytes} (h : bs <+: (piece.content store).drop pos) :
      Segment.Follows piece store pos (.bytes bs)
  | payload {span : PayloadRest} (h : span.Follows piece store pos) :
      Segment.Follows piece store pos (.payload span)
  | finish (h : pos = piece.size) : Segment.Follows piece store pos .finish

namespace Cursor

variable {piece : Piece} {store : Store} {pos : Nat}

/-- Within a block the content of the piece goes on with the rest of the block. -/
theorem drop_content {block : Block} (hlaid : piece.Laid) (hheld : piece.HeldIn store)
    (hpos : piece.header.length ≤ pos)
    (hblock : piece.blocks[(settled piece pos).block]? = some block) :
  (block.content store).drop (pos - block.pieceOffset) <+: (piece.content store).drop pos
  := by
  have hdrop := hlaid.blocks_tiled.drop_flatMap (Piece.length_content_block hlaid hheld) hpos hblock
  have hskip : pos = piece.header.length + (pos - piece.header.length) := by omega
  rw [Piece.content, hskip, List.drop_length_add_append, ← hskip, hdrop]
  apply List.prefix_append

/-- Within an entry the content of the piece goes on with the rest of the entry. -/
theorem drop_content_run {r : ItemRun} {e : RunEntry} (hlaid : piece.Laid)
    (hheld : piece.HeldIn store) (hpos : piece.header.length ≤ pos)
    (hr : piece.blocks[(settled piece pos).block]? = some (.run r)) (hstart : r.pieceOffset ≤ pos)
    (he : r.entries[(settled piece pos).entry]? = some e) :
  (e.content (r.data store)).drop (pos - e.pieceOffset) <+: (piece.content store).drop pos
  := by
  have hmem := List.mem_of_getElem? hr
  rw [entry_settled hr] at he
  have hdrop := (hlaid.entries_tiled hmem).drop_flatMap
    (fun e he => RunEntry.length_content (hheld hmem e he)) hstart he
  apply List.IsPrefix.trans _ (drop_content hlaid hheld hpos hr)
  rw [Block.content, Block.pieceOffset, hdrop]
  apply List.prefix_append

/-- A payload that the cursor stands on is where the content of the piece goes on. -/
theorem follows_payload {r : ItemRun} {e : RunEntry} (hlaid : piece.Laid)
    (hheld : piece.HeldIn store) (hpos : piece.header.length ≤ pos)
    (hr : piece.blocks[(settled piece pos).block]? = some (.run r)) (hstart : r.pieceOffset ≤ pos)
    (he : r.entries[(settled piece pos).entry]? = some e) (hestart : e.pieceOffset ≤ pos)
    (heend : pos < e.endOffset) (hframing : e.toFraming.bytesAt? pos = none) :
  PayloadRest.Follows ⟨(settled piece pos).block, r, (settled piece pos).entry,
    e.itemOffset + (pos - e.payloadOffset), e.endOffset - pos⟩ piece store pos
  := by
  have hcontent := drop_content_run hlaid hheld hpos hr hstart he
  obtain ⟨hle, hdrop⟩ := Framing.drop_of_bytesAt? hestart hframing
  have hend : e.endOffset = e.payloadOffset + e.itemLength := rfl
  have hitemEnd : e.itemEnd = e.itemOffset + e.itemLength := rfl
  have hsum : e.itemOffset + (pos - e.payloadOffset) + (e.endOffset - pos) = e.itemEnd := by omega
  constructor
  case block_eq => rfl
  case entry_eq => rfl
  case run_eq => apply hr
  case remaining_pos => apply Nat.sub_pos_of_lt heend
  case need_le =>
    rw [hsum]
    apply ItemRun.furthestNeed_le_iff.mp (Nat.le_refl _)
    rw [List.mem_iff_getElem?]
    use 0
    rw [List.getElem?_drop, Nat.add_zero, he]
  case held_le =>
    rw [hsum]
    apply hheld (List.mem_of_getElem? hr) e (List.mem_of_getElem? he)
    omega
  case content_prefix =>
    rw [RunEntry.content, hdrop, List.drop_take, List.drop_drop] at hcontent
    rw [show e.endOffset - pos = e.itemLength - (pos - e.payloadOffset) by omega]
    apply hcontent

/-- The settled cursor stands on the bytes with which the content of the piece goes on. -/
theorem segment_settled (hlaid : piece.Laid) (hheld : piece.HeldIn store)
    (hpos : pos ≤ piece.size) :
  Segment.Follows piece store pos ((settled piece pos).segment piece)
  := by
  rw [segment]
  split
  · next hlt =>
    have hlt : pos < piece.header.length := hlt
    apply Segment.Follows.bytes
    rw [Piece.content, List.drop_append_of_le_length (Nat.le_of_lt hlt)]
    apply List.prefix_append
  · next hheader =>
    have hheader : piece.header.length ≤ pos := Nat.le_of_not_lt hheader
    rcases Nat.lt_or_eq_of_le hpos with hlt | rfl
    · obtain ⟨block, hblock, hstart, hend⟩ := hlaid.blocks_tiled.exists_getElem?_passed hheader hlt
      have hblock : piece.blocks[(settled piece pos).block]? = some block := hblock
      have hcontent := drop_content hlaid hheld hheader hblock
      rw [hblock]
      cases block with
      | inline b =>
          obtain ⟨bs, hbs, hlead⟩ := InlineBlock.exists_bytesAt? hstart hend
          have hbs : b.bytesAt? (settled piece pos).pos = some bs := hbs
          simp only [hbs]
          exact .bytes (hlead.trans hcontent)
      | run r =>
          obtain ⟨e, he, hestart, heend⟩ :=
            (hlaid.entries_tiled (List.mem_of_getElem? hblock)).exists_getElem?_passed hstart hend
          rw [← entry_settled hblock] at he
          simp only [he]
          split
          · next framing hframing =>
            apply Segment.Follows.bytes
            apply List.IsPrefix.trans _ (drop_content_run hlaid hheld hheader hblock hstart he)
            apply Framing.bytesAt?_prefix hframing
          · next hframing =>
            apply Segment.Follows.payload
            apply follows_payload hlaid hheld hheader hblock hstart he hestart heend hframing
    · rw [settled_size hlaid]
      simp only [List.getElem?_eq_none (Nat.le_refl _)]
      exact .finish rfl

end Cursor

end PieceStream
