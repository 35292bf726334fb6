import Mathlib.Data.List.Chain
import Mathlib.Data.List.Forall2
import Mathlib.Data.List.SplitBy
import PieceStream.Proofs.PlanFaults
import PieceStream.Proofs.Tiling

/-!
# The blocks of a piece and the candidates of its plan

The blocks of a piece carry the candidates of its plan, in order: an inline block carries one
candidate, a run the neighbours over one item.  The groups of candidates so carried are those
into which the list of candidates falls wherever two neighbours are not over the same item.
Since the candidates lie end to end, the blocks tile the piece behind its header, and the
entries of every run tile the run.
-/

namespace PieceStream

/-! ### Parts -/

/-- What a block carries of one candidate: all of an inline block, or an entry of a run. -/
inductive Part where
  | inline (block : InlineBlock)
  | entry (entry : RunEntry)
  deriving DecidableEq, Repr

namespace Part

/-- Where the part starts. -/
def pieceOffset : Part → Nat
  | .inline b => b.pieceOffset
  | .entry e => e.pieceOffset

/-- Where the part ends. -/
def endOffset : Part → Nat
  | .inline b => b.endOffset
  | .entry e => e.endOffset

end Part

namespace Block

/-- The parts of a block, in order. -/
def parts : Block → List Part
  | .inline b => [.inline b]
  | .run r => r.entries.map .entry

/-- The identity of the item of a run. -/
def itemId? : Block → Option ItemId
  | .inline _ => none
  | .run r => some r.item.id

/-- The blocks are not two runs over one item. -/
def Apart (a b : Block) : Prop := ∀ id, a.itemId? = some id → b.itemId? ≠ some id

/-- The index of the block that carries part `index` of the blocks. -/
def carrier : List Block → Nat → Nat
  | [], _ => 0
  | b :: bs, index =>
    if index < b.parts.length then 0 else carrier bs (index - b.parts.length) + 1

end Block

namespace Candidate

/-- The part that a candidate turns into. -/
def part (c : Candidate) : Part :=
  match c.data with
  | .inline payload => .inline ⟨c.framing, payload⟩
  | .item _ _ offset length => .entry ⟨c.framing, offset.toNat, length.toNat⟩

/-- The identity of the item of a candidate. -/
def itemId? (c : Candidate) : Option ItemId :=
  match c.data with
  | .inline _ => none
  | .item _ item _ _ => item.map Item.id

/-- The source and the item of a candidate. -/
def origin? (c : Candidate) : Option (SourceId × Item) :=
  match c.data with
  | .item (some source) (some item) _ _ => some (source, item)
  | _ => none

/-- Whether two candidates are over the same item. -/
def sameItem (c d : Candidate) : Bool := c.itemId?.isSome && c.itemId? == d.itemId?

end Candidate

/-- The entries of a run tile the run. -/
def ItemRun.EntriesTiled (r : ItemRun) : Prop :=
  Tiled (fun e : RunEntry => e.pieceOffset) RunEntry.endOffset r.pieceOffset r.endOffset r.entries

/-- The blocks of a piece lie end to end from the end of the header to the size, and the entries
of every run from its start to its end. -/
structure Piece.Laid (piece : Piece) : Prop where
  blocks_tiled : Tiled Block.pieceOffset Block.endOffset piece.header.length piece.size piece.blocks
  entries_tiled : ∀ {r}, .run r ∈ piece.blocks → r.EntriesTiled

/-- A block carries a group of candidates: it has their parts, they are all over its item, and
a run has the source and the item of the first of them. -/
structure Block.Carries (block : Block) (group : List Candidate) : Prop where
  parts_eq : block.parts = group.map Candidate.part
  itemId_eq : ∀ c ∈ group, c.itemId? = block.itemId?
  origin_eq : ∀ {r}, block = .run r →
    ∃ c, group.head? = some c ∧ c.origin? = some (r.source, r.item)

/-- What the blocks of a piece have to do with the candidates of its plan. -/
structure Compacted (plan : Plan) (piece : Piece) : Prop where
  header_eq : piece.header = plan.header
  size_eq : piece.size = plan.pieceSize.toNat
  /-- The parts of the blocks are those of the candidates. -/
  parts_eq : piece.blocks.flatMap Block.parts = plan.candidates.map Candidate.part
  /-- Every run has an entry. -/
  entries_ne_nil : ∀ {r}, .run r ∈ piece.blocks → r.entries ≠ []
  /-- The blocks carry the groups of neighbours over the same item. -/
  carries : List.Forall₂ Block.Carries piece.blocks (plan.candidates.splitBy Candidate.sameItem)
  /-- Neighbouring runs are over different items. -/
  maximal : ∀ {i : Nat} {r r' : ItemRun}, piece.blocks[i]? = some (.run r) →
    piece.blocks[i + 1]? = some (.run r') → r.item.id ≠ r'.item.id
  /-- Neighbouring candidates are carried by one block exactly if they are over the same item. -/
  carrier_eq_iff : ∀ {i : Nat} {c d : Candidate}, plan.candidates[i]? = some c →
    plan.candidates[i + 1]? = some d →
    (Block.carrier piece.blocks i = Block.carrier piece.blocks (i + 1) ↔ c.sameItem d = true)
  /-- The blocks tile the piece behind its header, and the entries of a run tile the run. -/
  laid : piece.Laid
  /-- Every part ends where its candidate declares to end. -/
  endOffset_eq :
    (piece.blocks.flatMap Block.parts).map Part.endOffset = plan.candidates.map Candidate.stop

/-! ### Groups of candidates -/

namespace Block.Carries

variable {b : Block} {g : List Candidate}

/-- A group that is carried has a member. -/
theorem ne_nil (h : b.Carries g) :
  g ≠ []
  := by
  rintro rfl
  have hparts := h.parts_eq
  cases b with
  | inline _ => cases hparts
  | run r => cases hparts

/-- Within a group all neighbours are over the same item. -/
theorem isChain (h : b.Carries g) :
  g.IsChain fun c d => c.sameItem d
  := by
  cases b with
  | inline b =>
      obtain ⟨c, rfl⟩ : ∃ c, g = [c] := by
        have hlen := congrArg List.length h.parts_eq
        rw [List.length_map] at hlen
        apply List.length_eq_one_iff.mp hlen.symm
      apply List.isChain_singleton
  | run r =>
      rw [List.isChain_iff_getElem]
      intro i hi
      have hc := h.itemId_eq _ (List.getElem_mem (Nat.lt_of_succ_lt hi))
      have hd := h.itemId_eq _ (List.getElem_mem hi)
      simp [Candidate.sameItem, hc, hd, Block.itemId?]

/-- A candidate with a given payload is carried by an inline block. -/
theorem inline {c : Candidate} {payload : Bytes} (h : c.data = .inline payload) :
  (Block.inline ⟨c.framing, payload⟩).Carries [c]
  := by
  constructor
  · simp [parts, Candidate.part, h]
  · simp [Candidate.itemId?, h, itemId?]
  · intro r hr
    cases hr

variable {c : Candidate} {source : SourceId} {item : Item} {offset length : UInt64}

/-- A candidate over an item is carried by a run that it opens. -/
theorem opening (h : c.data = .item (some source) (some item) offset length) :
  (Block.run ⟨source, item, ⟨c.framing, offset.toNat, length.toNat⟩, []⟩).Carries [c]
  := by
  constructor
  · simp [parts, ItemRun.entries, Candidate.part, h]
  · simp [Candidate.itemId?, h, itemId?]
  · intro r hr
    cases hr
    use c, rfl
    simp [Candidate.origin?, h]

/-- A candidate over the item of a run is carried by the run with one more entry. -/
theorem push {r : ItemRun} (hg : (Block.run r).Carries g)
    (h : c.data = .item (some source) (some item) offset length) (hid : r.item.id = item.id) :
  (Block.run (r.push ⟨c.framing, offset.toNat, length.toNat⟩)).Carries (g ++ [c])
  := by
  constructor
  · have hparts := hg.parts_eq
    simp only [parts, ItemRun.entries] at hparts
    simp [parts, ItemRun.entries, ItemRun.push, ← hparts, Candidate.part, h]
  · intro d hd
    rcases List.mem_append.mp hd with hd | hd
    · apply hg.itemId_eq d hd
    · obtain rfl := List.mem_singleton.mp hd
      simp [Candidate.itemId?, h, itemId?, ItemRun.push, hid]
  · intro r' hr'
    cases hr'
    obtain ⟨d, hd, ho⟩ := hg.origin_eq rfl
    use d
    constructor
    · rw [List.head?_append, hd]
      rfl
    · apply ho

end Block.Carries

namespace Candidate

variable {index : Nat} {growing : Option ItemRun} {cs : List Candidate} {blocks : List Block}

/-- How candidates are joined to blocks after a run that was left open. -/
inductive Joined : Option ItemRun → List Candidate → List Block → Prop
  | done {growing : Option ItemRun} : Joined growing [] (growing.map Block.run).toList
  | inline {growing : Option ItemRun} {c : Candidate} {cs : List Candidate} {payload : Bytes}
      {blocks : List Block} (hdata : c.data = .inline payload) (h : Joined none cs blocks) :
      Joined growing (c :: cs)
        ((growing.map Block.run).toList ++ .inline ⟨c.framing, payload⟩ :: blocks)
  /-- A run is opened where there was none. -/
  | opened {c : Candidate} {cs : List Candidate} {source : SourceId} {item : Item}
      {offset length : UInt64} {blocks : List Block}
      (hdata : c.data = .item (some source) (some item) offset length)
      (h : Joined (some ⟨source, item, ⟨c.framing, offset.toNat, length.toNat⟩, []⟩) cs blocks) :
      Joined none (c :: cs) blocks
  /-- A run grows by a candidate over its item. -/
  | grown {r : ItemRun} {c : Candidate} {cs : List Candidate} {source : SourceId} {item : Item}
      {offset length : UInt64} {blocks : List Block}
      (hdata : c.data = .item (some source) (some item) offset length) (hid : r.item.id = item.id)
      (h : Joined (some (r.push ⟨c.framing, offset.toNat, length.toNat⟩)) cs blocks) :
      Joined (some r) (c :: cs) blocks
  /-- A run is closed by a candidate over another item, and a run over that one is opened. -/
  | closed {r : ItemRun} {c : Candidate} {cs : List Candidate} {source : SourceId} {item : Item}
      {offset length : UInt64} {blocks : List Block}
      (hdata : c.data = .item (some source) (some item) offset length) (hid : r.item.id ≠ item.id)
      (h : Joined (some ⟨source, item, ⟨c.framing, offset.toNat, length.toNat⟩, []⟩) cs blocks) :
      Joined (some r) (c :: cs) (.run r :: blocks)

/-- Candidates are joined in no other way. -/
theorem joined_of_joinRuns (h : joinRuns index growing cs = .ok blocks) :
  Joined growing cs blocks
  := by
  induction cs generalizing index growing blocks with
  | nil =>
      cases h
      apply Joined.done
  | cons c cs ih =>
      rw [joinRuns] at h
      split at h
      · next payload hdata =>
        obtain ⟨rest, hrest, h⟩ := bind_eq_ok_iff.mp h
        cases h
        apply Joined.inline hdata (ih hrest)
      · next source item offset length hdata =>
        cases growing with
        | none => apply Joined.opened hdata (ih h)
        | some r =>
            dsimp only at h
            split at h
            · next hid => apply Joined.grown hdata hid (ih h)
            · next hid =>
              obtain ⟨rest, hrest, h⟩ := bind_eq_ok_iff.mp h
              cases h
              apply Joined.closed hdata hid (ih hrest)
      · cases h

/-- The blocks into which candidates are joined carry them, after those that the run left open
carries. -/
theorem Joined.exists_carries {before : List (List Candidate)} (h : Joined growing cs blocks)
    (hbefore : List.Forall₂ Block.Carries (growing.map Block.run).toList before) :
  ∃ groups, List.Forall₂ Block.Carries blocks groups ∧ groups.flatten = before.flatten ++ cs
  := by
  induction h generalizing before with
  | done =>
      use before, hbefore
      simp
  | @inline _ c _ _ _ hdata _ ih =>
      obtain ⟨groups, hgroups, hflat⟩ := ih .nil
      use before ++ [c] :: groups
      constructor
      · apply List.rel_append hbefore (.cons (.inline hdata) hgroups)
      · simpa using hflat
  | opened hdata _ ih =>
      cases hbefore
      obtain ⟨groups, hgroups, hflat⟩ := ih (.cons (.opening hdata) .nil)
      use groups, hgroups
      simpa using hflat
  | grown hdata hid _ ih =>
      obtain ⟨g, _, hg, hnil, rfl⟩ := List.forall₂_cons_left_iff.mp hbefore
      cases hnil
      obtain ⟨groups, hgroups, hflat⟩ := ih (.cons (hg.push hdata hid) .nil)
      use groups, hgroups
      simpa using hflat
  | closed hdata hid _ ih =>
      obtain ⟨g, _, hg, hnil, rfl⟩ := List.forall₂_cons_left_iff.mp hbefore
      cases hnil
      obtain ⟨groups, hgroups, hflat⟩ := ih (.cons (.opening hdata) .nil)
      use g :: groups, .cons hg hgroups
      simpa using hflat

/-- An inline block is apart from whatever comes after it. -/
theorem isChain_inline {b : InlineBlock} (h : blocks.IsChain Block.Apart) :
  (Block.inline b :: blocks).IsChain Block.Apart
  := by
  apply h.cons
  intro _ _ _ hid
  cases hid

/-- The first block into which candidates are joined is over the item of the run left open, and
neighbouring blocks are not over the same item. -/
theorem Joined.isChain (h : Joined growing cs blocks) :
  (∀ r, growing = some r → blocks.head?.bind Block.itemId? = some r.item.id)
    ∧ blocks.IsChain Block.Apart
  := by
  induction h with
  | @done growing =>
      cases growing with
      | none => simp
      | some r => simp [Block.itemId?]
  | @inline growing _ _ _ _ _ _ ih =>
      cases growing with
      | none =>
          constructor
          · simp
          · apply isChain_inline ih.2
      | some r =>
          constructor
          · simp [Block.itemId?]
          · apply (isChain_inline ih.2).cons
            rintro _ ⟨⟩ id _
            simp [Block.itemId?]
  | opened _ _ ih =>
      constructor
      · simp
      · apply ih.2
  | grown _ _ _ ih =>
      constructor
      · rintro _ ⟨⟩
        apply ih.1 _ rfl
      · apply ih.2
  | closed _ hid _ ih =>
      constructor
      · simp [Block.itemId?]
      · apply ih.2.cons
        intro y hy id hid'
        have hy' := ih.1 _ rfl
        rw [Option.mem_def.mp hy] at hy'
        simp only [Block.itemId?, Option.some.injEq] at hid'
        intro heq
        apply hid
        rw [hid']
        apply Option.some.inj (heq.symm.trans hy')

/-- Candidates without faults that begin at `a` and end at `b` tile that range. -/
theorem tiled_of_passes {a b : Nat} (hne : cs ≠ [])
    (ha : ∀ c, cs.head? = some c → c.pieceOffset.toNat = a)
    (hb : ∀ c, cs.getLast? = some c → c.stop = b)
    (hpass : ∀ (i : Nat) (c : Candidate), cs[i]? = some c → c.Passes cs[i + 1]?) :
  Tiled (fun c : Candidate => c.pieceOffset.toNat) Candidate.stop a b cs
  := by
  induction cs generalizing a with
  | nil => cases hne rfl
  | cons c cs ih =>
      use ha c rfl, Nat.le_add_right _ _
      cases cs with
      | nil => apply hb c rfl
      | cons d ds =>
          apply ih (List.cons_ne_nil d ds)
          · rintro _ ⟨⟩
            apply ((hpass 0 c rfl).meets.stop_eq d rfl).symm
          · intro e he
            apply hb e (by rw [List.getLast?_cons_cons, he])
          · intro i e he
            apply hpass (i + 1) e he

/-- The part that a candidate without faults turns into starts and ends where the candidate
declares. -/
theorem bounds_part {c : Candidate} {next : Option Candidate} (h : c.Passes next) :
  c.part.pieceOffset = c.pieceOffset.toNat ∧ c.part.endOffset = c.stop
  := by
  have hlen := h.length_eq
  rw [part]
  split
  · next hdata =>
    simp only [hdata, BlockData.payloadLength] at hlen
    use rfl
    simp only [Part.endOffset, InlineBlock.endOffset, InlineBlock.layout, Layout.endOffset,
      Framing.payloadOffset, Framing.identifierOffset, framing, stop]
    omega
  · next hdata =>
    simp only [hdata, BlockData.payloadLength] at hlen
    use rfl
    simp only [Part.endOffset, RunEntry.endOffset, RunEntry.layout, Layout.endOffset,
      Framing.payloadOffset, Framing.identifierOffset, framing, stop]
    omega

end Candidate

/-! ### Tilings of parts, blocks and entries -/

/-- Members that turn into others with the same bounds tile the same range. -/
theorem tiled_map {α β : Type} {start stop : β → Nat} {f : α → β} {a b : Nat} {l : List α} :
  Tiled start stop a b (l.map f) ↔ Tiled (start ∘ f) (stop ∘ f) a b l
  := by
  induction l generalizing a with
  | nil => apply Iff.rfl
  | cons x xs ih => simp [Tiled, ih]

/-- A tiling depends on the bounds of its members only. -/
theorem tiled_congr {α : Type} {start stop start' stop' : α → Nat} {a b : Nat} {l : List α}
    (h : ∀ x ∈ l, start x = start' x ∧ stop x = stop' x) :
  Tiled start stop a b l ↔ Tiled start' stop' a b l
  := by
  induction l generalizing a with
  | nil => apply Iff.rfl
  | cons x xs ih =>
      obtain ⟨hstart, hstop⟩ := h x List.mem_cons_self
      simp only [Tiled, hstart, hstop, ih fun y hy => h y (List.mem_cons_of_mem x hy)]

/-- The end of a tiling is the end of its last member. -/
theorem Tiled.stop_getLast {α : Type} {start stop : α → Nat} {a b : Nat} {x : α} {xs : List α}
    (h : Tiled start stop a b (x :: xs)) :
  stop (xs.getLast?.getD x) = b
  := by
  induction xs generalizing a x with
  | nil => apply h.2.2
  | cons y ys ih =>
      rw [List.getLast?_cons, Option.getD_some]
      apply ih h.2.2

/-- If the parts of blocks tile a range, then so do the blocks, and the entries of every run
tile the run. -/
theorem tiled_of_parts {blocks : List Block} {a b : Nat}
    (h : Tiled Part.pieceOffset Part.endOffset a b (blocks.flatMap Block.parts)) :
  Tiled Block.pieceOffset Block.endOffset a b blocks
    ∧ ∀ {r}, .run r ∈ blocks → r.EntriesTiled
  := by
  induction blocks generalizing a with
  | nil =>
      use h
      intro r hr
      cases hr
  | cons block blocks ih =>
      rw [List.flatMap_cons, tiled_append] at h
      obtain ⟨m, hblock, hblocks⟩ := h
      obtain ⟨htiled, hentries⟩ := ih hblocks
      cases block with
      | inline b =>
          obtain ⟨hstart, hle, rfl⟩ := hblock
          constructor
          · exact ⟨hstart, hle, htiled⟩
          · intro r hr
            cases hr with
            | tail _ hr => apply hentries hr
      | run r =>
          have hr : Tiled (fun e : RunEntry => e.pieceOffset) RunEntry.endOffset a m r.entries :=
            tiled_map.mp hblock
          have hstart : r.pieceOffset = a := hr.1
          have hstop : r.endOffset = m := hr.stop_getLast
          constructor
          · use hstart
            constructor
            · apply hstart.trans_le (hr.le.trans_eq hstop.symm)
            · rw [← hstop] at htiled
              apply htiled
          · intro r' hr'
            cases hr' with
            | head =>
                rw [ItemRun.EntriesTiled, hstart, hstop]
                apply hr
            | tail _ hr' => apply hentries hr'

/-! ### What is built -/

namespace Block

variable {blocks : List Block} {groups : List (List Candidate)}

/-- Every group that blocks carry is carried by one of them. -/
theorem exists_carries {g : List Candidate} (h : List.Forall₂ Carries blocks groups)
    (hg : g ∈ groups) :
  ∃ b ∈ blocks, b.Carries g
  := by
  induction h with
  | nil => cases hg
  | @cons b g' blocks groups hb _ ih =>
      cases hg with
      | head => exact ⟨b, List.mem_cons_self, hb⟩
      | tail _ hg =>
          obtain ⟨b', hb', hcarries⟩ := ih hg
          exact ⟨b', List.mem_cons_of_mem b hb', hcarries⟩

/-- The parts of blocks are those of the candidates that they carry. -/
theorem flatMap_parts (h : List.Forall₂ Carries blocks groups) :
  blocks.flatMap parts = groups.flatten.map Candidate.part
  := by
  induction h with
  | nil => rfl
  | cons hb _ ih => rw [List.flatMap_cons, List.flatten_cons, List.map_append, hb.parts_eq, ih]

/-- If neighbouring blocks are not over one item, then neither are candidates where two of the
groups meet that the blocks carry. -/
theorem isChain_groups (h : List.Forall₂ Carries blocks groups) (hchain : blocks.IsChain Apart) :
  groups.IsChain fun g g' => ∃ hg hg', (g.getLast hg).sameItem (g'.head hg') = false
  := by
  induction h with
  | nil => apply List.isChain_nil
  | @cons b g blocks groups hb hblocks ih =>
      cases hblocks with
      | nil => apply List.isChain_singleton
      | @cons b' g' blocks groups hb' hblocks =>
          obtain ⟨hapart, hchain⟩ := List.isChain_cons_cons.mp hchain
          apply List.isChain_cons_cons.mpr
          constructor
          · use hb.ne_nil, hb'.ne_nil
            have hlast := hb.itemId_eq _ (List.getLast_mem hb.ne_nil)
            have hhead := hb'.itemId_eq _ (List.head_mem hb'.ne_nil)
            rw [Candidate.sameItem, hlast, hhead]
            cases hid : b.itemId? with
            | none => rfl
            | some id => simpa using (hapart id hid).symm
          · apply ih hchain

/-- The groups that blocks carry are those into which the candidates fall wherever two
neighbours are not over the same item. -/
theorem splitBy_eq_groups (h : List.Forall₂ Carries blocks groups)
    (hchain : blocks.IsChain Apart) :
  groups.flatten.splitBy Candidate.sameItem = groups
  := by
  apply List.splitBy_flatten
  · intro hnil
    obtain ⟨b, -, hb⟩ := exists_carries h hnil
    apply hb.ne_nil rfl
  · intro g hg
    obtain ⟨b, -, hb⟩ := exists_carries h hg
    apply hb.isChain
  · apply isChain_groups h hchain

/-- Neighbouring candidates of groups that blocks carry are carried by one block exactly if they
are over the same item. -/
theorem carrier_eq_iff {i : Nat} {c d : Candidate} (h : List.Forall₂ Carries blocks groups)
    (hchain : groups.IsChain fun g g' =>
      ∃ hg hg', (g.getLast hg).sameItem (g'.head hg') = false)
    (hc : groups.flatten[i]? = some c) (hd : groups.flatten[i + 1]? = some d) :
  carrier blocks i = carrier blocks (i + 1) ↔ c.sameItem d = true
  := by
  induction h generalizing i with
  | nil => cases hc
  | @cons b g blocks groups hb hblocks ih =>
      have hlen : b.parts.length = g.length := by
        rw [hb.parts_eq, List.length_map]
      simp only [List.flatten_cons] at hc hd
      by_cases hi : i + 1 < g.length
      · -- Both are carried by this block.
        rw [List.getElem?_append_left (by omega)] at hc hd
        obtain ⟨_, rfl⟩ := List.getElem?_eq_some_iff.mp hc
        obtain ⟨_, rfl⟩ := List.getElem?_eq_some_iff.mp hd
        have hsame := List.isChain_iff_getElem.mp hb.isChain i hi
        simp [carrier, hlen, hi, Nat.lt_of_succ_lt hi, hsame]
      · by_cases hi' : i < g.length
        · -- The first is the last of this block, the second the first of the next.
          obtain rfl : i = g.length - 1 := by omega
          rw [List.getElem?_append_left hi'] at hc
          rw [List.getElem?_append_right (by omega)] at hd
          have hzero : g.length - 1 + 1 - g.length = 0 := by omega
          rw [hzero] at hd
          cases hblocks with
          | nil => cases hd
          | @cons b' g' blocks groups hb' hblocks =>
              obtain ⟨⟨hg, hg', hdiff⟩, -⟩ := List.isChain_cons_cons.mp hchain
              have hlast : c = g.getLast hg := by
                rw [List.getLast_eq_getElem]
                apply (List.getElem?_eq_some_iff.mp hc).2.symm
              have hhead : d = g'.head hg' := by
                rw [List.flatten_cons,
                  List.getElem?_append_left (List.length_pos_iff.mpr hg')] at hd
                rw [List.head_eq_getElem]
                apply (List.getElem?_eq_some_iff.mp hd).2.symm
              rw [hlast, hhead, hdiff]
              simp [carrier, hlen, hi', show ¬ g.length - 1 + 1 < g.length from hi]
        · rw [List.getElem?_append_right (by omega)] at hc hd
          rw [show i + 1 - g.length = i - g.length + 1 by omega] at hd
          have ih := ih hchain.tail hc hd
          rw [show i - g.length + 1 = i + 1 - g.length by omega] at ih
          simpa [carrier, hlen, hi, hi'] using ih

end Block

namespace Plan

variable {plan : Plan} {piece : Piece}

/-- A piece that is built has the header and the size of its plan, and the blocks into which the
candidates are joined. -/
theorem build_eq_ok_iff :
  plan.build = .ok piece
    ↔ plan.WellFormed ∧ piece.header = plan.header ∧ piece.size = plan.pieceSize.toNat
      ∧ Candidate.joinRuns 0 none plan.candidates = .ok piece.blocks
  := by
  rw [wellFormed_iff, build, unit_bind_eq_ok_iff, unit_bind_eq_ok_iff, bind_eq_ok_iff, and_assoc]
  apply and_congr_right
  intro _
  apply and_congr_right
  intro _
  constructor
  · rintro ⟨blocks, hblocks, ⟨⟩⟩
    exact ⟨rfl, rfl, hblocks⟩
  · rintro ⟨hheader, hsize, hblocks⟩
    use piece.blocks, hblocks
    rw [← hheader, ← hsize]
    rfl

/-- The parts of the candidates of a plan in the grammar tile the piece behind its header. -/
theorem WellFormed.tiled_parts (h : plan.WellFormed) :
  Tiled Part.pieceOffset Part.endOffset plan.header.length plan.pieceSize.toNat
    (plan.candidates.map Candidate.part)
  := by
  rw [tiled_map]
  apply (tiled_congr _).mpr
  · apply Candidate.tiled_of_passes h.nonempty h.first h.last h.passes
  · intro c hc
    obtain ⟨i, hi⟩ := List.mem_iff_getElem?.mp hc
    apply Candidate.bounds_part (h.passes i c hi)

/-- The blocks of a piece that is built carry the candidates. -/
theorem exists_carried (h : plan.build = .ok piece) :
  ∃ groups, List.Forall₂ Block.Carries piece.blocks groups ∧ groups.flatten = plan.candidates
  := by
  obtain ⟨-, -, -, hjoin⟩ := build_eq_ok_iff.mp h
  obtain ⟨groups, hgroups, hflat⟩ := (Candidate.joined_of_joinRuns hjoin).exists_carries .nil
  use groups, hgroups, hflat

/-- A piece that is built is laid end to end. -/
theorem laid_of_build (h : plan.build = .ok piece) :
  piece.Laid
  := by
  obtain ⟨hwell, hheader, hsize, -⟩ := build_eq_ok_iff.mp h
  obtain ⟨groups, hgroups, hflat⟩ := exists_carried h
  have htiled := hwell.tiled_parts
  rw [← hflat, ← Block.flatMap_parts hgroups, ← hheader, ← hsize] at htiled
  obtain ⟨hblocks, hentries⟩ := tiled_of_parts htiled
  use hblocks, hentries

/-- Building a piece joins neighbouring candidates over the same item, and no others, and
changes nothing else. -/
theorem build_compacts (h : plan.build = .ok piece) :
  Compacted plan piece
  := by
  obtain ⟨hwell, hheader, hsize, hjoin⟩ := build_eq_ok_iff.mp h
  obtain ⟨groups, hgroups, hflat⟩ := exists_carried h
  obtain ⟨-, hchain⟩ := (Candidate.joined_of_joinRuns hjoin).isChain
  have hparts := Block.flatMap_parts hgroups
  have hsplit := Block.splitBy_eq_groups hgroups hchain
  rw [hflat] at hparts hsplit
  constructor
  case header_eq => apply hheader
  case size_eq => apply hsize
  case parts_eq => apply hparts
  case entries_ne_nil => exact fun _ => List.cons_ne_nil _ _
  case carries =>
    rw [hsplit]
    apply hgroups
  case maximal =>
    intro i r r' hr hr'
    obtain ⟨_, hr⟩ := List.getElem?_eq_some_iff.mp hr
    obtain ⟨hi, hr'⟩ := List.getElem?_eq_some_iff.mp hr'
    have hapart := List.isChain_iff_getElem.mp hchain i hi
    rw [hr, hr'] at hapart
    intro heq
    apply hapart _ rfl (congrArg some heq.symm)
  case carrier_eq_iff =>
    intro i c d hc hd
    rw [← hflat] at hc hd
    apply Block.carrier_eq_iff hgroups (Block.isChain_groups hgroups hchain) hc hd
  case laid => apply laid_of_build h
  case endOffset_eq =>
    rw [hparts, List.map_map]
    apply List.map_congr_left
    intro c hc
    obtain ⟨i, hi⟩ := List.mem_iff_getElem?.mp hc
    apply (Candidate.bounds_part (hwell.passes i c hi)).2

/-- Two blocks over one item, the second without a byte, an inline block, and two blocks over
two items become a run of two entries, an inline block, and two runs. -/
theorem build_compacts_two_runs :
  let item : Item := ⟨⟨1⟩, "a", 9⟩
  let other : Item := ⟨⟨2⟩, "b", 9⟩
  let plan : Plan :=
    ⟨[1, 2], 10,
      [.item 2 [7] [8] ⟨0⟩ item 0 1, .item 5 [] [] ⟨0⟩ item 6 0, .inline 5 [] [] [5, 6],
        .item 7 [] [9] ⟨0⟩ item 1 1, .item 9 [] [] ⟨0⟩ other 1 1]⟩
  ∃ piece, plan.build = .ok piece ∧ piece.blocks.length = 4 ∧ Compacted plan piece
  := by
  intro item other plan
  refine ⟨_, rfl, rfl, build_compacts rfl⟩

end Plan

end PieceStream
