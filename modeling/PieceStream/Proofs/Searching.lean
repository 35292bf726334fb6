import PieceStream.Proofs.Segments

/-!
# Searching and walking

A search for an offset and a walk to it lead to the same cursor.  It stands at the one block whose
range holds the offset, and in a run at the one such entry, however many blocks and entries without
a byte start there.  A walk leaves a run behind exactly if one of the blocks that it leaves is one.
-/

namespace PieceStream

/-- The range of the block at that index holds the offset. -/
def Piece.Holds (piece : Piece) (index offset : Nat) : Prop :=
  ∃ block, piece.blocks[index]? = some block ∧ block.pieceOffset ≤ offset ∧ offset < block.endOffset

/-- The range of the entry at that index holds the offset. -/
def ItemRun.Holds (r : ItemRun) (index offset : Nat) : Prop :=
  ∃ e, r.entries[index]? = some e ∧ e.pieceOffset ≤ offset ∧ offset < e.endOffset

/-- A run lies at or after the block `first` and before the block `last`. -/
def Piece.RunBetween (piece : Piece) (first last : Nat) : Prop :=
  ∃ index r, first ≤ index ∧ index < last ∧ piece.blocks[index]? = some (.run r)

/-- Of the members of a tiling exactly the first one not passed holds an offset of the range. -/
theorem Tiled.holds_iff {α : Type} {start stop : α → Nat} {a b pos i : Nat} {l : List α}
    (h : Tiled start stop a b l) (ha : a ≤ pos) (hb : pos < b) :
  (∃ x, l[i]? = some x ∧ start x ≤ pos ∧ pos < stop x) ↔ i = passed stop pos l
  := by
  constructor
  · rintro ⟨x, hx, hstart, hstop⟩
    apply (h.passed_eq hx hstart hstop).symm
  · rintro rfl
    apply h.exists_getElem?_passed ha hb

namespace Cursor

variable {piece : Piece} {pos n : Nat}

/-- The first `count` of the blocks behind `first` contain a run exactly if one lies there. -/
theorem any_isRun_iff {first count : Nat} :
  ((piece.blocks.drop first).take count).any Block.isRun = true
    ↔ piece.RunBetween first (first + count)
  := by
  rw [List.any_eq_true]
  constructor
  · rintro ⟨block, hmem, hrun⟩
    obtain ⟨k, hk⟩ := List.mem_iff_getElem?.mp hmem
    rw [List.getElem?_take, Option.ite_none_right_eq_some, List.getElem?_drop] at hk
    obtain ⟨hlt, hblock⟩ := hk
    cases block with
    | inline b => cases hrun
    | run r => exact ⟨first + k, r, Nat.le_add_right _ _, Nat.add_lt_add_left hlt _, hblock⟩
  · rintro ⟨index, r, hle, hlt, hr⟩
    refine ⟨.run r, List.mem_iff_getElem?.mpr ⟨index - first, ?_⟩, rfl⟩
    rw [List.getElem?_take_of_lt (by omega), List.getElem?_drop, Nat.add_sub_of_le hle, hr]

/-- A walk says that a run was left behind exactly if one lies among the blocks left. -/
theorem advance_settled_snd (hlaid : piece.Laid) (pos n : Nat) :
  ((settled piece pos).advance piece n).2 = true
    ↔ piece.RunBetween (settled piece pos).block (settled piece (pos + n)).block
  := by
  by_cases h : pos + n < piece.header.length
  · have hpos : pos < piece.header.length := Nat.lt_of_le_of_lt (Nat.le_add_right _ _) h
    rw [advance_of_lt hlaid h, settled_of_lt hlaid h, settled_of_lt hlaid hpos]
    constructor
    · intro hfalse
      cases hfalse
    · rintro ⟨index, r, -, hlt, -⟩
      cases hlt
  · rw [advance_of_le hlaid (Nat.le_of_not_lt h), any_isRun_iff, block_add_passed]

/-- Within the blocks a settled cursor stands at the block that holds its offset. -/
theorem holds_settled_iff {index : Nat} (hlaid : piece.Laid) (hheader : piece.header.length ≤ pos)
    (hpos : pos < piece.size) :
  piece.Holds index pos ↔ index = (settled piece pos).block
  := hlaid.blocks_tiled.holds_iff hheader hpos

/-- Within a run a settled cursor stands at the entry that holds its offset. -/
theorem run_holds_settled_iff {index : Nat} {r : ItemRun} (hlaid : piece.Laid)
    (hheader : piece.header.length ≤ pos) (hpos : pos < piece.size)
    (hr : piece.blocks[(settled piece pos).block]? = some (.run r)) :
  r.Holds index pos ↔ index = (settled piece pos).entry
  := by
  obtain ⟨block, hblock, hstart, hstop⟩ := (holds_settled_iff hlaid hheader hpos).mpr rfl
  cases hr.symm.trans hblock
  rw [entry_settled hr]
  apply (hlaid.entries_tiled (List.mem_of_getElem? hr)).holds_iff hstart hstop

/-- At the end and beyond it a search finds the cursor at the end. -/
theorem locate_of_size_le (hlaid : piece.Laid) (hpos : piece.size ≤ pos) :
  locate piece pos = ⟨piece.size, piece.blocks.length, 0⟩
  := by
  have hheader : ¬ pos < piece.header.length :=
    Nat.not_lt_of_le (Nat.le_trans hlaid.blocks_tiled.le hpos)
  rw [locate, if_neg hheader, if_pos hpos]

/-- In a piece that is built, to search for an offset and to walk to it leads to the same cursor,
and the walk says whether a run lies among the blocks that it leaves.  A search finds the one block
that holds the offset, and in a run the one entry that does; at the end and beyond it finds the
cursor at the end. -/
theorem walk_leads_where_search_does {plan : Plan} (hbuild : plan.build = .ok piece)
    (offset : Nat) :
  let found := locate piece offset
  (∀ n, offset + n ≤ piece.size →
      (found.advance piece n).1 = locate piece (offset + n)
        ∧ ((found.advance piece n).2 = true
          ↔ piece.RunBetween found.block (locate piece (offset + n)).block))
    ∧ (piece.header.length ≤ offset → offset < piece.size →
        found.pos = offset ∧ (∀ index, piece.Holds index offset ↔ index = found.block)
          ∧ ∀ r, piece.blocks[found.block]? = some (.run r) →
            ∀ index, r.Holds index offset ↔ index = found.entry)
    ∧ (piece.size ≤ offset → found = ⟨piece.size, piece.blocks.length, 0⟩)
  := by
  have hlaid := Plan.laid_of_build hbuild
  refine ⟨fun n hn => ?_, fun hheader hpos => ?_, locate_of_size_le hlaid⟩
  · rw [locate_eq hlaid (Nat.le_trans (Nat.le_add_right _ _) hn), locate_eq hlaid hn]
    exact ⟨advance_settled hlaid offset n, advance_settled_snd hlaid offset n⟩
  · rw [locate_eq hlaid (Nat.le_of_lt hpos)]
    exact ⟨rfl, fun index => holds_settled_iff hlaid hheader hpos,
      fun r hr index => run_holds_settled_iff hlaid hheader hpos hr⟩

/-- A walk from the header past an inline block and a run without a byte, to the second byte of the
last entry of the next run, before which an entry without a byte starts at the same offset. -/
theorem walk_leads_where_search_does_past_empty_run :
  let item : Item := ⟨⟨1⟩, "a", 9⟩
  let other : Item := ⟨⟨2⟩, "b", 9⟩
  let plan : Plan :=
    ⟨[1, 2], 6,
      [.inline 2 [] [] [], .item 2 [] [] ⟨0⟩ item 4 0, .item 2 [] [7] ⟨0⟩ other 0 1,
        .item 4 [] [] ⟨0⟩ other 5 0, .item 4 [] [8] ⟨0⟩ other 1 1]⟩
  let r : ItemRun :=
    ⟨⟨0⟩, other, ⟨⟨2, [], [7]⟩, 0, 1⟩, [⟨⟨4, [], []⟩, 5, 0⟩, ⟨⟨4, [], [8]⟩, 1, 1⟩]⟩
  ∃ piece, plan.build = .ok piece ∧ piece.blocks[2]? = some (.run r)
    ∧ (locate piece 1).advance piece 4 = (locate piece 5, true) ∧ locate piece 5 = ⟨5, 2, 2⟩
    ∧ (∀ index, piece.Holds index 5 ↔ index = 2) ∧ (∀ index, r.Holds index 5 ↔ index = 2)
    ∧ locate piece 9 = ⟨6, 3, 0⟩
  := by
  intro item other plan r
  let empty : ItemRun := ⟨⟨0⟩, item, ⟨⟨2, [], []⟩, 4, 0⟩, []⟩
  let piece : Piece := ⟨[1, 2], 6, [.inline ⟨⟨2, [], []⟩, []⟩, .run empty, .run r]⟩
  have hbuild : plan.build = .ok piece := rfl
  have hfound : locate piece 5 = ⟨5, 2, 2⟩ := rfl
  obtain ⟨hwalk, -, -⟩ := walk_leads_where_search_does hbuild 1
  obtain ⟨-, hholds, -⟩ := walk_leads_where_search_does hbuild 5
  obtain ⟨-, -, hend⟩ := walk_leads_where_search_does hbuild 9
  obtain ⟨hsame, hleft⟩ := hwalk 4 (by decide)
  obtain ⟨-, hblock, hentry⟩ := hholds (by decide) (by decide)
  have hbetween : piece.RunBetween (locate piece 1).block (locate piece (1 + 4)).block :=
    ⟨1, empty, by decide, by decide, rfl⟩
  exact ⟨piece, hbuild, rfl, Prod.ext hsame (hleft.mpr hbetween), hfound, hblock, hentry r rfl,
    hend (by decide)⟩

end Cursor

end PieceStream
