import Mathlib.Algebra.GroupWithZero.Nat
import Mathlib.Data.List.Basic
import PieceStream.Proofs.PlanFaults

/-!
# Candidates laid end to end

Lengths and offsets that candidates are given when they are made stop at the largest word.  So where
blocks are placed one behind the other, a plan may look sound although its sums have left the words.
It is accepted exactly if they have not, and its only fault is that an offset overflows.
-/

namespace PieceStream

/-- The payload is given, or both its source and its item are. -/
def BlockData.HasOrigin : BlockData → Prop
  | .inline _ => True
  | .item source it _ _ => source ≠ none ∧ it ≠ none

/-- What a candidate can be made of, wherever its block is placed. -/
inductive BlockParts where
  | inline (lengthPrefix identifier payload : Bytes)
  | item (lengthPrefix identifier : Bytes) (source : SourceId) (item : Item)
      (itemOffset itemLength : UInt64)
  /-- The prefix announces the identifier and the payload. -/
  | delimitedInline (identifier payload : Bytes)
  /-- The prefix announces the identifier and the payload. -/
  | delimitedItem (identifier : Bytes) (source : SourceId) (item : Item)
      (itemOffset itemLength : UInt64)
  | ofData (lengthPrefix identifier : Bytes) (data : BlockData) (origin : data.HasOrigin)

/-- The candidate that is made of these parts at an offset. -/
def BlockParts.place (offset : UInt64) : BlockParts → Candidate
  | .inline lengthPrefix identifier payload => .inline offset lengthPrefix identifier payload
  | .item lengthPrefix identifier source it itemOffset itemLength =>
    .item offset lengthPrefix identifier source it itemOffset itemLength
  | .delimitedInline identifier payload => .delimitedInline offset identifier payload
  | .delimitedItem identifier source it itemOffset itemLength =>
    .delimitedItem offset identifier source it itemOffset itemLength
  | .ofData lengthPrefix identifier data _ => .ofData offset lengthPrefix identifier data

namespace Candidate

/-- The candidates that are made of blocks placed one behind the other. -/
def chain (offset : UInt64) : List BlockParts → List Candidate
  | [] => []
  | block :: rest => block.place offset :: chain (block.place offset).endOffset rest

/-- The length of the candidate is computed from its parts, its payload has an origin, and the next
one starts where it says that it ends. -/
structure Chained (c : Candidate) (next : Option Candidate) : Prop where
  length_eq : c.length = saturate c.partsLength
  resolved : c.Resolved
  next_eq : ∀ n, next = some n → n.pieceOffset = c.endOffset

/-- The sums of candidates are words, as integers: the length of the parts of each, the end of each
item range, and the running total of their lengths from an offset on. -/
structure SumsFit (start : Nat) (cs : List Candidate) : Prop where
  parts : ∀ c ∈ cs, c.partsLength < wordLimit
  ranges : ∀ c ∈ cs, c.RangeFits
  totals : ∀ count ≤ cs.length, start + ((cs.take count).map partsLength).sum < wordLimit

variable {c : Candidate} {cs : List Candidate} {next : Option Candidate} {e : PlanError}
  {offset : UInt64} {start index : Nat} {blocks : List BlockParts}

/-! ### A candidate and the next one -/

/-- The end of a candidate is where it says, if that is a word. -/
theorem toNat_endOffset (h : c.stop < wordLimit) :
  c.endOffset.toNat = c.stop
  := toNat_saturate_of_lt h

/-- Where the length of the parts is a word it is the length of the candidate. -/
theorem Chained.toNat_length (h : c.Chained next) (hparts : c.partsLength < wordLimit) :
  c.length.toNat = c.partsLength
  := by
  rw [h.length_eq, toNat_saturate_of_lt hparts]

/-- A candidate in a chain is let through exactly if its own sums are words. -/
theorem Chained.passes_iff (h : c.Chained next) :
  c.Passes next
    ↔ c.partsLength < wordLimit ∧ c.RangeFits ∧ c.pieceOffset.toNat + c.partsLength < wordLimit
  := by
  constructor
  · rintro ⟨⟨hstop, -⟩, -, hrange, hlength⟩
    have hparts : c.length.toNat = c.partsLength := hlength
    rw [stop, hparts] at hstop
    exact ⟨Nat.lt_of_le_of_lt (Nat.le_add_left _ _) hstop, hrange, hstop⟩
  · rintro ⟨hparts, hrange, hend⟩
    have hlength := h.toNat_length hparts
    have hstop : c.stop < wordLimit := by
      rw [stop, hlength]
      apply hend
    refine ⟨⟨hstop, fun n hn => ?_⟩, h.resolved, hrange, hlength⟩
    rw [h.next_eq n hn, toNat_endOffset hstop]

/-- The only fault of a candidate in a chain is that an offset overflows. -/
theorem Chained.eq_offsetOverflow (h : c.Chained next) (hfault : c.Fault index next e) :
  e = .offsetOverflow index
  := by
  cases hfault with
  | endOverflow => rfl
  | notContiguous hstop hn hne => exact absurd (by rw [h.next_eq _ hn, toNat_endOffset hstop]) hne
  | unresolvable _ hresolved => exact absurd h.resolved hresolved
  | rangeOverflow => rfl
  | partsOverflow => rfl
  | lengthMismatch _ _ _ hparts hne => exact absurd (h.toNat_length hparts) hne

/-! ### Chains -/

/-- A candidate stands where it is placed, its length is computed from its parts, and its payload
has an origin. -/
theorem place_eq (block : BlockParts) (offset : UInt64) :
  (block.place offset).pieceOffset = offset
    ∧ (block.place offset).length = saturate (block.place offset).partsLength
    ∧ (block.place offset).Resolved
  := by
  cases block with
  | item => exact ⟨rfl, rfl, Option.some_ne_none _, Option.some_ne_none _⟩
  | delimitedItem => exact ⟨rfl, rfl, Option.some_ne_none _, Option.some_ne_none _⟩
  | ofData lengthPrefix identifier data origin =>
      refine ⟨rfl, rfl, ?_⟩
      cases data <;> exact origin
  | _ => exact ⟨rfl, rfl, trivial⟩

/-- A chain begins at its offset. -/
theorem head?_chain {n : Candidate} (h : (chain offset blocks).head? = some n) :
  n.pieceOffset = offset
  := by
  cases blocks with
  | nil => cases h
  | cons block rest =>
      cases h
      apply (place_eq block offset).1

/-- The first candidate of a chain leads to the others. -/
theorem chained_place (block : BlockParts) (offset : UInt64) (rest : List BlockParts) :
  (block.place offset).Chained (chain (block.place offset).endOffset rest).head?
  := by
  obtain ⟨-, hlength, hresolved⟩ := place_eq block offset
  exact ⟨hlength, hresolved, fun n hn => head?_chain hn⟩

/-- Every candidate of a chain leads to the next one. -/
theorem chained_of_getElem? {i : Nat} (h : (chain offset blocks)[i]? = some c) :
  c.Chained (chain offset blocks)[i + 1]?
  := by
  induction blocks generalizing offset i with
  | nil => cases h
  | cons block rest ih =>
      rw [chain, List.getElem?_cons_succ]
      cases i with
      | zero =>
          cases h
          rw [← List.head?_eq_getElem?]
          apply chained_place
      | succ i => apply ih h

/-! ### Running totals -/

/-- No candidates have no sums but the offset where they start. -/
theorem sumsFit_nil (hstart : start < wordLimit) :
  SumsFit start []
  := ⟨nofun, nofun, fun count _ => by simpa using hstart⟩

/-- Where the sums of candidates are words they start at one. -/
theorem SumsFit.start_lt (h : SumsFit start cs) :
  start < wordLimit
  := h.totals 0 (Nat.zero_le _)

/-- The sums of candidates are those of the first one and, behind it, of the others. -/
theorem sumsFit_cons_iff :
  SumsFit start (c :: cs)
    ↔ start < wordLimit ∧ c.partsLength < wordLimit ∧ c.RangeFits
        ∧ SumsFit (start + c.partsLength) cs
  := by
  constructor
  · intro h
    obtain ⟨hparts, hparts'⟩ := List.forall_mem_cons.mp h.parts
    obtain ⟨hrange, hranges'⟩ := List.forall_mem_cons.mp h.ranges
    refine ⟨h.start_lt, hparts, hrange, hparts', hranges', fun count hcount => ?_⟩
    have htotal := h.totals (count + 1) (Nat.succ_le_succ hcount)
    rw [List.take_succ_cons, List.map_cons, List.sum_cons, ← Nat.add_assoc] at htotal
    apply htotal
  · rintro ⟨hstart, hparts, hrange, hparts', hranges', htotals⟩
    refine ⟨List.forall_mem_cons.mpr ⟨hparts, hparts'⟩, List.forall_mem_cons.mpr ⟨hrange, hranges'⟩,
      ?_⟩
    rintro (_ | count) hcount
    · apply hstart
    · rw [List.take_succ_cons, List.map_cons, List.sum_cons, ← Nat.add_assoc]
      apply htotals count (Nat.le_of_succ_le_succ hcount)

/-- The candidates of a chain are let through exactly if their sums are words. -/
theorem checkAll_chain_eq_ok_iff :
  checkAll index (chain offset blocks) = .ok () ↔ SumsFit offset.toNat (chain offset blocks)
  := by
  induction blocks generalizing offset index with
  | nil => exact ⟨fun _ => sumsFit_nil offset.toNat_lt, fun _ => rfl⟩
  | cons block rest ih =>
      have hchained := chained_place block offset rest
      have hstart := (place_eq block offset).1
      rw [chain, checkAll, unit_bind_eq_ok_iff, check_eq_ok_iff, hchained.passes_iff, ih,
        sumsFit_cons_iff, hstart]
      -- Only where the first candidate ends at a word does the next one start behind it.
      have hbehind (hparts : (block.place offset).partsLength < wordLimit)
          (hend : offset.toNat + (block.place offset).partsLength < wordLimit) :
          (block.place offset).endOffset.toNat
            = offset.toNat + (block.place offset).partsLength := by
        have hstop : (block.place offset).stop
            = offset.toNat + (block.place offset).partsLength := by
          rw [stop, hstart, hchained.toNat_length hparts]
        rw [toNat_endOffset (hstop ▸ hend), hstop]
      constructor
      · rintro ⟨⟨hparts, hrange, hend⟩, hrest⟩
        rw [hbehind hparts hend] at hrest
        exact ⟨offset.toNat_lt, hparts, hrange, hrest⟩
      · rintro ⟨-, hparts, hrange, hrest⟩
        rw [hbehind hparts hrest.start_lt]
        exact ⟨⟨hparts, hrange, hrest.start_lt⟩, hrest⟩

end Candidate

/-! ### Plans -/

namespace Plan

/-- The plan of a header and of blocks placed one behind the other from its end on, which ends where
the last of them says that it does. -/
def chain (header : Bytes) (blocks : List BlockParts) : Plan :=
  let start := UInt64.ofNat header.length
  let candidates := Candidate.chain start blocks
  ⟨header, (candidates.getLast?.map Candidate.endOffset).getD start, candidates⟩

variable {header : Bytes} {blocks : List BlockParts} {c : Candidate} {e : PlanError}

/-- The first candidate of a chain starts at the end of the header. -/
theorem toNat_pieceOffset_of_head? (hheader : header.length < wordLimit)
    (hc : (chain header blocks).candidates.head? = some c) :
  c.pieceOffset.toNat = header.length
  := by
  rw [Candidate.head?_chain hc, UInt64.toNat_ofNat_of_lt' hheader]

/-- A chain ends where its last candidate says. -/
theorem pieceSize_of_getLast? (hc : (chain header blocks).candidates.getLast? = some c) :
  (chain header blocks).pieceSize = c.endOffset
  := by
  have hlast : (Candidate.chain (UInt64.ofNat header.length) blocks).getLast? = some c := hc
  rw [chain, hlast]
  rfl

/-- The only fault of a chain is that an offset overflows. -/
theorem exists_overflow_of_fault (hheader : header.length < wordLimit) (hblocks : blocks ≠ [])
    (h : (chain header blocks).Fault e) :
  ∃ index < (chain header blocks).candidates.length, e = .offsetOverflow index
  := by
  cases h with
  | empty hempty =>
      cases blocks with
      | nil => exact absurd rfl hblocks
      | cons block rest => cases hempty
  | header hc hne => exact absurd (toNat_pieceOffset_of_head? hheader hc) hne
  | lastOverflow _ hc _ =>
      have hlast := List.getLast?_eq_getElem? ▸ hc
      exact ⟨_, (List.getElem?_eq_some_iff.mp hlast).1, rfl⟩
  | footer _ hc hstop hne =>
      rw [pieceSize_of_getLast? hc, Candidate.toNat_endOffset hstop] at hne
      exact absurd rfl hne
  | @candidate i c _ _ _ hc _ hfault =>
      have hchained := Candidate.chained_of_getElem? hc
      exact ⟨i, (List.getElem?_eq_some_iff.mp hc).1, hchained.eq_offsetOverflow hfault⟩

/-- A chain is in the grammar exactly if its sums are words. -/
theorem wellFormed_chain_iff (hheader : header.length < wordLimit) (hblocks : blocks ≠ []) :
  (chain header blocks).WellFormed
    ↔ Candidate.SumsFit header.length (chain header blocks).candidates
  := by
  have hstart : (UInt64.ofNat header.length).toNat = header.length :=
    UInt64.toNat_ofNat_of_lt' hheader
  have hall : Candidate.checkAll 0 (Candidate.chain (UInt64.ofNat header.length) blocks) = .ok ()
      ↔ Candidate.SumsFit (UInt64.ofNat header.length).toNat
          (Candidate.chain (UInt64.ofNat header.length) blocks) :=
    Candidate.checkAll_chain_eq_ok_iff
  rw [hstart] at hall
  constructor
  · intro h
    apply hall.mp (wellFormed_iff.mp h).2
  · intro hfit
    have hpasses := Candidate.checkAll_eq_ok_iff.mp (hall.mpr hfit)
    constructor
    case nonempty =>
        cases blocks with
        | nil => exact absurd rfl hblocks
        | cons block rest => exact List.cons_ne_nil _ _
    case first => exact fun c hc => toNat_pieceOffset_of_head? hheader hc
    case last =>
        intro c hc
        have hlast := List.getLast?_eq_getElem? ▸ hc
        have hstop := (hpasses _ _ hlast).meets.stop_lt
        rw [pieceSize_of_getLast? hc, Candidate.toNat_endOffset hstop]
    case passes => exact hpasses

/-- Blocks placed one behind the other make a piece exactly if all their sums are words: the lengths
of the parts of each, the ends of the item ranges, and the header with the blocks up to any of them.
Otherwise the plan has the fault that an offset of one of its candidates overflows. -/
theorem build_chain_iff_sumsFit (header : Bytes) (hheader : header.length < wordLimit)
    (blocks : List BlockParts) (hblocks : blocks ≠ []) :
  let plan := chain header blocks
  ((∃ piece, plan.build = .ok piece) ↔ Candidate.SumsFit header.length plan.candidates)
    ∧ (¬ Candidate.SumsFit header.length plan.candidates →
        ∃ index < plan.candidates.length, plan.build = .error (.offsetOverflow index))
  := by
  intro plan
  have hbuilt : (∃ piece, plan.build = .ok piece)
      ↔ Candidate.SumsFit header.length plan.candidates :=
    exists_build_iff.trans (wellFormed_chain_iff hheader hblocks)
  refine ⟨hbuilt, fun hfit => ?_⟩
  cases hbuild : plan.build with
  | ok piece => exact absurd (hbuilt.mp ⟨piece, hbuild⟩) hfit
  | error e =>
      obtain ⟨index, hindex, rfl⟩ :=
        exists_overflow_of_fault hheader hblocks (build_eq_error_iff.mp hbuild)
      exact ⟨index, hindex, rfl⟩

/-- An empty block behind one that ends at the largest word, and behind one whose length is more
than that.  Both plans say that they end at the largest word, and the candidates of both that they
meet. -/
theorem build_chain_iff_sumsFit_at_limit :
  let it : Item := ⟨⟨1⟩, "a", 8⟩
  let fitting : List BlockParts :=
    [.item [7] [] ⟨0⟩ it 0 (UInt64.ofNat (wordLimit - 3)), .inline [] [] []]
  let beyond : List BlockParts :=
    [.delimitedItem [7] ⟨0⟩ it 0 (UInt64.ofNat (wordLimit - 3)), .inline [] [] []]
  (chain [10] fitting).pieceSize.toNat = wordLimit - 1
    ∧ Candidate.SumsFit 1 (chain [10] fitting).candidates
    ∧ (∃ piece, (chain [10] fitting).build = .ok piece)
    ∧ (chain [10] beyond).pieceSize.toNat = wordLimit - 1
    ∧ ¬ Candidate.SumsFit 1 (chain [10] beyond).candidates
    ∧ ∃ index < 2, (chain [10] beyond).build = .error (.offsetOverflow index)
  := by
  intro it fitting beyond
  have hheader : ([10] : Bytes).length < wordLimit := by decide
  have hbuild : (chain [10] fitting).build = .ok ⟨[10], wordLimit - 1,
      [.run ⟨⟨0⟩, it, ⟨⟨1, [7], []⟩, 0, wordLimit - 3⟩, []⟩,
        .inline ⟨⟨wordLimit - 1, [], []⟩, []⟩]⟩ := by
    cbv
  have hparts : ¬ (BlockParts.place 1 (.delimitedItem [7] ⟨0⟩ it 0
      (UInt64.ofNat (wordLimit - 3)))).partsLength < wordLimit := by
    cbv
  have hbeyond : ¬ Candidate.SumsFit 1 (chain [10] beyond).candidates :=
    fun h => hparts (h.parts _ List.mem_cons_self)
  obtain ⟨hfits, -⟩ := build_chain_iff_sumsFit [10] hheader fitting (List.cons_ne_nil _ _)
  obtain ⟨-, hfails⟩ := build_chain_iff_sumsFit [10] hheader beyond (List.cons_ne_nil _ _)
  exact ⟨by cbv, hfits.mp ⟨_, hbuild⟩, ⟨_, hbuild⟩, by cbv, hbeyond, hfails hbeyond⟩

end Plan

end PieceStream
