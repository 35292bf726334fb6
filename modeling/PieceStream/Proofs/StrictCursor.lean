import PieceStream.Proofs.StrictLayout

/-!
# Strict arithmetic of cursors

To search for an offset of a piece and to move a cursor forward asks for the ends of blocks and
entries, which breaches nothing in a piece that fits.  What a cursor stands on is a difference of
its offset and the offsets of the block and the entry at its indices, so it can be computed strictly
because the cursor is settled.
-/

namespace PieceStream

variable {piece : Piece} {pos : Nat}

/-! ### Searching -/

/-- The last member that starts at or before an offset of the range holds it. -/
theorem Tiled.exists_getElem?_starting {α : Type} {start stop : α → Nat} {a b : Nat} {l : List α}
    (h : Tiled start stop a b l) (ha : a ≤ pos) (hb : pos < b) :
  ∃ x, l[(l.takeWhile (start · ≤ pos)).length - 1]? = some x ∧ start x ≤ pos ∧ pos < stop x
  := by
  induction l generalizing a with
  | nil =>
      obtain rfl : a = b := h
      omega
  | cons x xs ih =>
      obtain ⟨hx, -, hxs⟩ := h
      have hstart : start x ≤ pos := by omega
      by_cases hpos : stop x ≤ pos
      · obtain ⟨y, hy, hbounds⟩ := ih hxs hpos
        refine ⟨y, ?_, hbounds⟩
        cases xs with
        | nil => cases hy
        | cons z zs =>
            obtain ⟨hz, -, -⟩ := hxs
            have hzpos : start z ≤ pos := by omega
            simpa [hstart, hzpos] using hy
      · refine ⟨x, ?_, hstart, Nat.lt_of_not_le hpos⟩
        cases xs with
        | nil => simp [hstart]
        | cons z zs =>
            obtain ⟨hz, -, -⟩ := hxs
            have hzpos : ¬ start z ≤ pos := by omega
            simp [hstart, hzpos]

namespace Piece

/-- The index of the block that holds `offset`, an offset between the header and the end. -/
def strictBlockHolding (piece : Piece) (offset : Nat) : Strict Nat := do
  let starts ← piece.blocks.mapM Block.strictPieceOffset
  return (starts.takeWhile (· ≤ offset)).length - 1

/-- The block of that index has to hold the offset. -/
def strictHolds (piece : Piece) (block offset : Nat) : Strict Unit := do
  match piece.blocks[block]? with
  | none => .error (.astray offset)
  | some b =>
    let start ← b.strictPieceOffset
    let stop ← b.strictEndOffset
    if start ≤ offset ∧ offset < stop then return () else .error (.astray offset)

/-- To search for a block breaches nothing. -/
theorem Fits.strictBlockHolding_eq (h : piece.Fits) (offset : Nat) :
  piece.strictBlockHolding offset = .ok (piece.blockHolding offset)
  := by
  have hstarts : piece.blocks.mapM Block.strictPieceOffset
      = .ok (piece.blocks.map Block.pieceOffset) :=
    Strict.mapM_eq fun b hb => (h.block_exact hb).pieceOffset_eq
  rw [strictBlockHolding, hstarts, Strict.ok_bind, List.takeWhile_map, List.length_map]
  rfl

/-- The block found holds the offset. -/
theorem Fits.strictHolds_eq (h : piece.Fits) (hheader : piece.header.length ≤ pos)
    (hpos : pos < piece.size) :
  piece.strictHolds (piece.blockHolding pos) pos = .ok ()
  := by
  obtain ⟨b, hb, hstart, hstop⟩ := h.laid.blocks_tiled.exists_getElem?_starting hheader hpos
  have hexact := h.block_exact (List.mem_of_getElem? hb)
  have hb : piece.blocks[piece.blockHolding pos]? = some b := hb
  rw [strictHolds, hb]
  simp only [hexact.pieceOffset_eq, hexact.endOffset_eq, Strict.ok_bind]
  rw [if_pos ⟨hstart, hstop⟩]
  rfl

end Piece

namespace Cursor

/-! ### Moving -/

/-- Passes the blocks that end at or before `pos`. -/
def strictSettleWithin (pos : Nat) : List Block → Nat → Nat → Strict (Nat × Nat × Bool)
  | [], block, entry => .ok (block, entry, false)
  | .inline b :: rest, block, entry => do
    if pos < (← b.layout.strictEndOffset) then return (block, entry, false)
    else strictSettleWithin pos rest (block + 1) 0
  | .run r :: rest, block, entry => do
    let passed ← Strict.passed RunEntry.strictEndOffset pos (r.entries.drop entry)
    if entry + passed < r.entries.length then return (block, entry + passed, false)
    else
      let (block, entry, _) ← strictSettleWithin pos rest (block + 1) 0
      return (block, entry, true)

/-- Moves the indices forward to the offset, and says whether a run was left behind. -/
def strictSettle (piece : Piece) (c : Cursor) : Strict (Cursor × Bool) := do
  if c.pos < piece.header.length then return (c, false)
  else
    let (block, entry, left) ←
      strictSettleWithin c.pos (piece.blocks.drop c.block) c.block c.entry
    return (⟨c.pos, block, entry⟩, left)

/-- The settled cursor at an offset. -/
def strictLocate (piece : Piece) (offset : Nat) : Strict Cursor := do
  if offset < piece.header.length then return ⟨offset, 0, 0⟩
  else if piece.size ≤ offset then return ⟨piece.size, piece.blocks.length, 0⟩
  else
    let block ← piece.strictBlockHolding offset
    let entry :=
      match piece.blocks[block]? with
      | some (.run r) => r.entryHolding offset
      | _ => 0
    piece.strictHolds block offset
    let (c, _) ← strictSettle piece ⟨offset, block, entry⟩
    return c

/-- Moves `n` bytes forward, and says whether a run was left behind. -/
def strictAdvance (piece : Piece) (c : Cursor) (n : Nat) : Strict (Cursor × Bool) := do
  strictSettle piece { c with pos := ← Strict.add c.pos n }

/-- To pass blocks that breach nothing breaches nothing. -/
theorem strictSettleWithin_eq {blocks : List Block} (h : ∀ b ∈ blocks, b.Exact)
    (block entry : Nat) :
  strictSettleWithin pos blocks block entry = .ok (settleWithin pos blocks block entry)
  := by
  induction blocks generalizing block entry with
  | nil => rfl
  | cons first rest ih =>
      have hfirst := h first List.mem_cons_self
      have ih := ih fun b hb => h b (List.mem_cons_of_mem first hb)
      cases first with
      | inline b =>
          have hend : b.layout.strictEndOffset = .ok b.endOffset := hfirst.endOffset_eq
          rw [strictSettleWithin, settleWithin, hend, Strict.ok_bind, ih]
          split <;> rfl
      | run r =>
          have hpassed : Strict.passed RunEntry.strictEndOffset pos (r.entries.drop entry)
              = .ok (passed RunEntry.endOffset pos (r.entries.drop entry)) := by
            apply Strict.passed_eq
            intro e he
            apply ((hfirst.run_exact rfl).entries_exact e
              (List.mem_of_mem_drop he)).layout_exact.endOffset_eq
          rw [strictSettleWithin, settleWithin_run, hpassed, Strict.ok_bind, ih]
          split <;> rfl

/-- To settle a cursor breaches nothing. -/
theorem strictSettle_eq (h : piece.Fits) (c : Cursor) :
  strictSettle piece c = .ok (settle piece c)
  := by
  have hblocks : ∀ b ∈ piece.blocks.drop c.block, b.Exact :=
    fun b hb => h.block_exact (List.mem_of_mem_drop hb)
  rw [strictSettle, settle, strictSettleWithin_eq hblocks]
  split <;> rfl

/-- To find a cursor breaches nothing. -/
theorem strictLocate_eq (h : piece.Fits) (offset : Nat) :
  strictLocate piece offset = .ok (locate piece offset)
  := by
  rw [strictLocate, locate]
  split
  · rfl
  · next hheader =>
    split
    · rfl
    · next hsize =>
      have hholds := h.strictHolds_eq (Nat.le_of_not_lt hheader) (Nat.lt_of_not_le hsize)
      simp only [h.strictBlockHolding_eq, Strict.ok_bind, hholds, strictSettle_eq h]
      rfl

/-- To move forward to a word breaches nothing. -/
theorem strictAdvance_eq (h : piece.Fits) {c : Cursor} {n : Nat} (hn : c.pos + n < wordLimit) :
  c.strictAdvance piece n = .ok (c.advance piece n)
  := by
  rw [strictAdvance, Strict.add_eq hn, Strict.ok_bind]
  apply strictSettle_eq h

/-! ### Standing -/

/-- The rest of the payload of entry `entry` of run `block`, from `pos` on. -/
def strictRest (block : Nat) (r : ItemRun) (entry : Nat) (e : RunEntry) (pos : Nat) :
    Strict PayloadRest := do
  let consumed ← Strict.sub pos (← e.toFraming.strictPayloadOffset)
  let itemOffset ← Strict.add e.itemOffset consumed
  let remaining ← Strict.sub (← e.strictEndOffset) pos
  return ⟨block, r, entry, itemOffset, remaining⟩

/-- What the cursor stands on. -/
def strictSegment (piece : Piece) (c : Cursor) : Strict Segment := do
  if c.pos < piece.header.length then return .bytes (← Strict.drop c.pos piece.header)
  else
    match piece.blocks[c.block]? with
    | some (.inline b) =>
      match ← b.strictBytesAt? c.pos with
      | some bytes => return .bytes bytes
      | none => return .finish
    | some (.run r) =>
      match r.entries[c.entry]? with
      | some e =>
        match ← e.toFraming.strictBytesAt? c.pos with
        | some framing => return .bytes framing
        | none => return .payload (← strictRest c.block r c.entry e c.pos)
      | none => return .finish
    | none => return .finish

/-- As many bytes in memory as there is room for are some, and lie within the piece. -/
theorem copied_of_segment {available : Bytes} {room : Nat} (hlaid : piece.Laid)
    (hpos : pos ≤ piece.size) (hseg : (settled piece pos).segment piece = .bytes available)
    (hroom : 0 < room) :
  0 < (available.take room).length ∧ (available.take room).length ≤ room
    ∧ pos + (available.take room).length ≤ piece.size
  := by
  have hne := List.length_pos_iff.mpr (ne_nil_of_segment hseg)
  have hend := (segment_add hlaid hpos hseg).1
  rw [List.length_take]
  omega

/-- The entry at which a settled cursor stands holds its offset. -/
theorem bounds_of_settled {r : ItemRun} {e : RunEntry} (hlaid : piece.Laid)
    (hheader : piece.header.length ≤ pos) (hpos : pos ≤ piece.size)
    (hr : piece.blocks[(settled piece pos).block]? = some (.run r))
    (he : r.entries[(settled piece pos).entry]? = some e) :
  e.pieceOffset ≤ pos ∧ pos < e.endOffset
  := by
  rcases Nat.lt_or_eq_of_le hpos with hlt | rfl
  · obtain ⟨block, hblock, hstart, hend⟩ := hlaid.blocks_tiled.exists_getElem?_passed hheader hlt
    obtain rfl : block = .run r := Option.some.inj (hblock.symm.trans hr)
    have htiled := hlaid.entries_tiled (List.mem_of_getElem? hr)
    obtain ⟨e', he', hbounds⟩ := htiled.exists_getElem?_passed hstart hend
    rw [entry_settled hr, he'] at he
    cases he
    apply hbounds
  · rw [settled_size hlaid, List.getElem?_eq_none (Nat.le_refl _)] at hr
    cases hr

/-- To find out how much of a payload is left breaches nothing. -/
theorem strictRest_eq {block entry : Nat} {r : ItemRun} {e : RunEntry} (hexact : e.Exact)
    (hitem : e.itemEnd < wordLimit) (hstart : e.payloadOffset ≤ pos) (hend : pos < e.endOffset) :
  strictRest block r entry e pos
    = .ok ⟨block, r, entry, e.itemOffset + (pos - e.payloadOffset), e.endOffset - pos⟩
  := by
  have hpayload : e.toFraming.strictPayloadOffset = .ok e.payloadOffset :=
    hexact.layout_exact.payloadOffset_eq
  have hendOffset : e.strictEndOffset = .ok e.endOffset := hexact.layout_exact.endOffset_eq
  have hword : e.itemOffset + (pos - e.payloadOffset) < wordLimit := by
    rw [RunEntry.endOffset_eq] at hend
    rw [RunEntry.itemEnd] at hitem
    omega
  simp only [strictRest, hpayload, hendOffset, Strict.ok_bind, Strict.sub_eq hstart,
    Strict.add_eq hword, Strict.sub_eq (Nat.le_of_lt hend)]
  rfl

/-- To look at what a settled cursor stands on breaches nothing. -/
theorem strictSegment_eq (h : piece.Fits) (hpos : pos ≤ piece.size) :
  (settled piece pos).strictSegment piece = .ok ((settled piece pos).segment piece)
  := by
  have hposition : (settled piece pos).pos = pos := rfl
  rw [strictSegment, segment, hposition]
  split
  · next hheader =>
    rw [Strict.drop_eq (Nat.le_of_lt hheader)]
    rfl
  · next hheader =>
    have hheader : piece.header.length ≤ pos := Nat.le_of_not_lt hheader
    cases hblock : piece.blocks[(settled piece pos).block]? with
    | none => rfl
    | some block =>
        have hmem := List.mem_of_getElem? hblock
        cases block with
        | inline b =>
            dsimp only
            rw [(h.inline_exact hmem).bytesAt?_eq, Strict.ok_bind]
            cases b.bytesAt? pos <;> rfl
        | run r =>
            dsimp only
            cases hentry : r.entries[(settled piece pos).entry]? with
            | none => rfl
            | some e =>
                have hentrymem := List.mem_of_getElem? hentry
                have hexact := (h.run_exact hmem).entries_exact e hentrymem
                have hframing : e.toFraming.strictBytesAt? pos = .ok (e.toFraming.bytesAt? pos) :=
                  hexact.layout_exact.bytesAt?_eq pos
                dsimp only
                rw [hframing, Strict.ok_bind]
                cases hbytes : e.toFraming.bytesAt? pos with
                | some framing => rfl
                | none =>
                    obtain ⟨hstart, hend⟩ := bounds_of_settled h.laid hheader hpos hblock hentry
                    have hpast : e.payloadOffset ≤ pos := by
                      rcases Framing.bytesAt?_eq_none_iff.mp hbytes with hbefore | hbehind
                      · exact absurd hstart (Nat.not_le_of_lt hbefore)
                      · exact hbehind
                    dsimp only
                    rw [strictRest_eq hexact (h.itemEnd_lt hmem e hentrymem) hpast hend]
                    rfl

end Cursor

end PieceStream
