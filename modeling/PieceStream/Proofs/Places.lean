import PieceStream.Piece.Content
import PieceStream.Proofs.Compaction

/-!
# Where payloads are taken from

A plan says for every candidate over an item from which source and under which path the payload
is to be taken, its place.  A run has one place, that of its first candidate, while candidates are
joined by the identity of their items alone.  So every candidate keeps its place exactly if
neighbours over the same item have the same place, and then the content of the piece is what the
plan says.  Otherwise the bytes of another item may stand in the piece.
-/

namespace PieceStream

/-! ### What a plan says -/

/-- The payload that a plan says, taken from the source and the item named. -/
def BlockData.content (store : Store) : BlockData → Bytes
  | .inline payload => payload
  | .item (some source) (some it) offset length =>
    ((store source it.path).drop offset.toNat).take length.toNat
  | .item _ _ _ _ => []

namespace Candidate

/-- The bytes that a plan says for a block. -/
def content (store : Store) (c : Candidate) : Bytes :=
  c.lengthPrefix ++ c.identifier ++ c.data.content store

/-- The source and the path from which the payload is to be taken. -/
def place? (c : Candidate) : Option (SourceId × String) :=
  c.origin?.map fun (source, item) => (source, item.path)

end Candidate

namespace Plan

/-- The bytes that a plan says. -/
def content (plan : Plan) (store : Store) : Bytes :=
  plan.header ++ plan.candidates.flatMap (Candidate.content store)

/-- Neighbours over the same item have the same place. -/
def Coherent (plan : Plan) : Prop :=
  plan.candidates.IsChain fun c d => c.sameItem d = true → c.place? = d.place?

end Plan

/-- The source and the path from which the payloads of a run are taken. -/
def ItemRun.place (r : ItemRun) : SourceId × String := (r.source, r.item.path)

/-- Every candidate over an item is carried by a run that has the place of the candidate. -/
def Piece.KeepsPlaces (piece : Piece) (plan : Plan) : Prop :=
  ∀ {i : Nat} {c : Candidate} {place : SourceId × String}, plan.candidates[i]? = some c →
    c.place? = some place →
    ∃ r, piece.blocks[Block.carrier piece.blocks i]? = some (.run r) ∧ r.place = place

/-! ### Groups -/

namespace Block

variable {b : Block} {g : List Candidate} {blocks : List Block} {groups : List (List Candidate)}

/-- The block that carries a part carries a group with the candidate of that part. -/
theorem exists_carrier {i : Nat} {c : Candidate} (h : List.Forall₂ Carries blocks groups)
    (hc : groups.flatten[i]? = some c) :
  ∃ b g, blocks[carrier blocks i]? = some b ∧ g ∈ groups ∧ b.Carries g ∧ c ∈ g
  := by
  induction h generalizing i with
  | nil => cases hc
  | @cons b g blocks groups hb _ ih =>
      have hlen : b.parts.length = g.length := by
        rw [hb.parts_eq, List.length_map]
      rw [List.flatten_cons] at hc
      by_cases hi : i < g.length
      · rw [List.getElem?_append_left hi] at hc
        refine ⟨b, g, ?_, List.mem_cons_self, hb, List.mem_of_getElem? hc⟩
        simp [carrier, hlen, hi]
      · rw [List.getElem?_append_right (Nat.le_of_not_lt hi)] at hc
        obtain ⟨b', g', hb', hg', hcarries, hmem⟩ := ih hc
        refine ⟨b', g', ?_, List.mem_cons_of_mem g hg', hcarries, hmem⟩
        simpa [carrier, hlen, hi] using hb'

/-- In a group that a run carries every candidate has the place of the run if neighbours over the
same item have the same place. -/
theorem Carries.place?_eq {r : ItemRun} {c : Candidate} (h : (Block.run r).Carries g)
    (hchain : g.IsChain fun c d => c.sameItem d = true → c.place? = d.place?) (hc : c ∈ g) :
  c.place? = some r.place
  := by
  obtain ⟨first, hfirst, horigin⟩ := h.origin_eq rfl
  have hplace : first.place? = some r.place := by
    rw [Candidate.place?, horigin]
    rfl
  obtain ⟨rest, rfl⟩ := List.head?_eq_some_iff.mp hfirst
  have hsame : ((first :: rest).map Candidate.place?).IsChain (· = ·) := by
    rw [List.isChain_map, List.isChain_iff_getElem]
    exact fun i hi => hchain.getElem i hi (h.isChain.getElem i hi)
  rw [← hplace]
  rcases List.mem_cons.mp hc with rfl | hc
  · rfl
  · rw [List.map_cons] at hsame
    apply (hsame.rel_cons (List.mem_map_of_mem hc)).symm

end Block

/-! ### Contents -/

namespace Candidate

/-- The part of a candidate holds what the plan says, given the item at the place of the
candidate. -/
theorem content_part {c : Candidate} {r : ItemRun} {e : RunEntry} {store : Store}
    (hpart : c.part = .entry e) (hplace : c.place? = some r.place) :
  e.content (r.data store) = c.content store
  := by
  obtain ⟨offset, length, lengthPrefix, identifier, data⟩ := c
  cases data with
  | inline payload => cases hpart
  | item source item itemOffset itemLength =>
      cases hpart
      match source, item with
      | some source, some item =>
          obtain ⟨hsource, hpath⟩ : source = r.source ∧ item.path = r.item.path := by
            simpa [place?, origin?, ItemRun.place] using hplace
          simp [RunEntry.content, content, BlockData.content, ItemRun.data, framing, hsource, hpath]
      | none, _ => cases hplace
      | some _, none => cases hplace

/-- The parts of candidates hold what the plan says, given the item at the place of them all. -/
theorem flatMap_content {r : ItemRun} {store : Store} {es : List RunEntry} {g : List Candidate}
    (hparts : es.map Part.entry = g.map part) (hplace : ∀ c ∈ g, c.place? = some r.place) :
  es.flatMap (fun e => e.content (r.data store)) = g.flatMap (content store)
  := by
  induction es generalizing g with
  | nil =>
      rw [List.map_eq_nil_iff.mp hparts.symm]
      rfl
  | cons e es ih =>
      obtain ⟨c, rest, rfl, hc, hrest⟩ := List.map_eq_cons_iff.mp hparts.symm
      have hhead : e.content (r.data store) = c.content store :=
        content_part hc (hplace c List.mem_cons_self)
      have htail := ih hrest.symm fun d hd => hplace d (List.mem_cons_of_mem c hd)
      rw [List.flatMap_cons, List.flatMap_cons, hhead, htail]

end Candidate

/-- A block holds what the plan says of the candidates that it carries if they all have the place
of the block. -/
theorem Block.Carries.content_eq {b : Block} {g : List Candidate} (store : Store)
    (h : b.Carries g)
    (hplace : ∀ {r}, b = .run r → ∀ c ∈ g, c.place? = some r.place) :
  b.content store = g.flatMap (Candidate.content store)
  := by
  have hparts := h.parts_eq
  cases b with
  | inline b =>
      obtain ⟨c, rfl, hc⟩ : ∃ c, g = [c] ∧ c.part = .inline b := by
        obtain ⟨c, rest, rfl, hc, hrest⟩ := List.map_eq_cons_iff.mp hparts.symm
        rw [List.map_eq_nil_iff.mp hrest]
        exact ⟨c, rfl, hc⟩
      obtain ⟨offset, length, lengthPrefix, identifier, data⟩ := c
      cases data with
      | inline payload =>
          cases hc
          simp [content, InlineBlock.content, Candidate.content, BlockData.content,
            Candidate.framing]
      | item source item itemOffset itemLength => cases hc
  | run r =>
      apply Candidate.flatMap_content hparts (hplace rfl)

/-- Blocks hold what the plan says of the candidates that they carry if neighbours over the same
item have the same place. -/
theorem Block.flatMap_content {blocks : List Block} {groups : List (List Candidate)}
    (store : Store) (h : List.Forall₂ Carries blocks groups)
    (hchain : ∀ g ∈ groups, g.IsChain fun c d => c.sameItem d = true → c.place? = d.place?) :
  blocks.flatMap (content store) = groups.flatten.flatMap (Candidate.content store)
  := by
  induction h with
  | nil => rfl
  | @cons b g blocks groups hb _ ih =>
      have hhead : b.content store = g.flatMap (Candidate.content store) := by
        apply hb.content_eq
        rintro r rfl c hc
        apply hb.place?_eq (hchain g List.mem_cons_self) hc
      have htail := ih fun g' hg' => hchain g' (List.mem_cons_of_mem g hg')
      rw [List.flatMap_cons, List.flatten_cons, List.flatMap_append, hhead, htail]

/-! ### What is built -/

/-- A sound candidate over an item has a place. -/
theorem Candidate.exists_place? {c : Candidate} {next : Option Candidate} (h : c.Passes next)
    (hitem : c.itemId?.isSome = true) :
  ∃ place, c.place? = some place
  := by
  have hresolved := h.resolved
  obtain ⟨offset, length, lengthPrefix, identifier, data⟩ := c
  cases data with
  | inline payload => cases hitem
  | item source item itemOffset itemLength =>
      match source, item with
      | some source, some item => exact ⟨_, rfl⟩
      | none, _ => exact absurd rfl hresolved.1
      | some _, none => exact absurd rfl hresolved.2

/-- A candidate with a place is over an item. -/
theorem Candidate.itemId?_ne_none {c : Candidate} {place : SourceId × String}
    (h : c.place? = some place) :
  c.itemId? ≠ none
  := by
  obtain ⟨offset, length, lengthPrefix, identifier, data⟩ := c
  match data with
  | .inline payload => cases h
  | .item (some source) (some it) _ _ => simp [itemId?]
  | .item none _ _ _ => cases h
  | .item (some _) none _ _ => cases h

namespace Plan

variable {plan : Plan} {piece : Piece}

/-- In a group of candidates that is carried neighbours have the same place if they do so in the
plan. -/
theorem Coherent.isChain_of_mem {groups : List (List Candidate)} {g : List Candidate}
    (h : plan.Coherent) (hflat : groups.flatten = plan.candidates) (hg : g ∈ groups) :
  g.IsChain fun c d => c.sameItem d = true → c.place? = d.place?
  := by
  rw [Coherent, ← hflat] at h
  apply h.infix (List.infix_of_mem_flatten hg)

/-- Candidates keep their places if neighbours over the same item have the same place. -/
theorem Coherent.keepsPlaces (h : plan.Coherent) (hbuild : plan.build = .ok piece) :
  piece.KeepsPlaces plan
  := by
  intro i c place hc hplace
  obtain ⟨groups, hgroups, hflat⟩ := exists_carried hbuild
  rw [← hflat] at hc
  obtain ⟨b, g, hb, hg, hcarries, hmem⟩ := Block.exists_carrier hgroups hc
  cases b with
  | inline b =>
      have hid := hcarries.itemId_eq c hmem
      exact absurd hid (Candidate.itemId?_ne_none hplace)
  | run r =>
      have heq := hcarries.place?_eq (h.isChain_of_mem hflat hg) hmem
      refine ⟨r, hb, ?_⟩
      rw [heq] at hplace
      apply Option.some.inj hplace

/-- If candidates keep their places, then neighbours over the same item have the same place. -/
theorem coherent_of_keepsPlaces (hbuild : plan.build = .ok piece)
    (h : piece.KeepsPlaces plan) :
  plan.Coherent
  := by
  obtain ⟨hwell, -, -, hjoin⟩ := build_eq_ok_iff.mp hbuild
  obtain ⟨groups, hgroups, hflat⟩ := exists_carried hbuild
  obtain ⟨-, hchain⟩ := (Candidate.joined_of_joinRuns hjoin).isChain
  apply List.isChain_iff_getElem.mpr
  intro i hi hsame
  have hc := List.getElem?_eq_getElem (Nat.lt_of_succ_lt hi)
  have hd := List.getElem?_eq_getElem hi
  have hcarrier : Block.carrier piece.blocks i = Block.carrier piece.blocks (i + 1) := by
    apply (Block.carrier_eq_iff hgroups (Block.isChain_groups hgroups hchain) _ _).mpr hsame
    · rw [hflat, hc]
    · rw [hflat, hd]
  have hitem : plan.candidates[i].itemId?.isSome = true
      ∧ plan.candidates[i + 1].itemId?.isSome = true := by
    simp only [Candidate.sameItem, Bool.and_eq_true, beq_iff_eq] at hsame
    rw [← hsame.2]
    exact ⟨hsame.1, hsame.1⟩
  obtain ⟨place, hplace⟩ := Candidate.exists_place? (hwell.passes i _ hc) hitem.1
  obtain ⟨place', hplace'⟩ := Candidate.exists_place? (hwell.passes (i + 1) _ hd) hitem.2
  obtain ⟨r, hr, rfl⟩ := h hc hplace
  obtain ⟨r', hr', rfl⟩ := h hd hplace'
  rw [hcarrier, hr'] at hr
  cases hr
  rw [hplace, hplace']

/-- The content of a piece is what the plan says if neighbours over the same item have the same
place. -/
theorem Coherent.content_eq (h : plan.Coherent) (hbuild : plan.build = .ok piece)
    (store : Store) :
  piece.content store = plan.content store
  := by
  obtain ⟨-, hheader, -, -⟩ := build_eq_ok_iff.mp hbuild
  obtain ⟨groups, hgroups, hflat⟩ := exists_carried hbuild
  have hblocks := Block.flatMap_content store hgroups fun g hg => h.isChain_of_mem hflat hg
  rw [Piece.content, content, hheader, hblocks, hflat]

/-- Building keeps the place of every candidate exactly if neighbours over the same item have the
same place, and then the content of the piece is what the plan says, whatever the items hold. -/
theorem build_keeps_places_iff (hbuild : plan.build = .ok piece) :
  (piece.KeepsPlaces plan ↔ plan.Coherent)
    ∧ (plan.Coherent → ∀ store, piece.content store = plan.content store)
  := by
  constructor
  · exact ⟨coherent_of_keepsPlaces hbuild, fun h => h.keepsPlaces hbuild⟩
  · exact fun h store => h.content_eq hbuild store

/-- Two blocks over one item, an inline block and a block over an item of the same path in another
source keep their places, and the content of the piece is what the plan says. -/
theorem build_keeps_places_two_sources :
  let item : Item := ⟨⟨1⟩, "a", 9⟩
  let other : Item := ⟨⟨2⟩, "a", 9⟩
  let plan : Plan :=
    ⟨[1, 2], 9,
      [.item 2 [7] [8] ⟨0⟩ item 0 1, .item 5 [] [] ⟨0⟩ item 6 1, .inline 6 [] [] [5, 6],
        .item 8 [] [] ⟨1⟩ other 1 1]⟩
  ∃ piece, plan.build = .ok piece ∧ piece.KeepsPlaces plan
    ∧ ∀ store, piece.content store = plan.content store
  := by
  intro item other plan
  have hcoherent : plan.Coherent := by
    simp [Coherent, plan, item, other, Candidate.item, Candidate.inline, Candidate.ofData,
      Candidate.sameItem, Candidate.itemId?, Candidate.place?, Candidate.origin?]
  obtain ⟨piece, hbuild⟩ : ∃ piece, plan.build = .ok piece := ⟨_, rfl⟩
  obtain ⟨hkeeps, hcontent⟩ := build_keeps_places_iff hbuild
  exact ⟨piece, hbuild, hkeeps.mpr hcoherent, hcontent hcoherent⟩

/-- Two neighbours over one item in two sources become one run, and the second block is filled from
the source of the first. -/
theorem build_mixes_two_sources :
  let item : Item := ⟨⟨1⟩, "a", 1⟩
  let plan : Plan := ⟨[], 2, [.item 0 [] [] ⟨0⟩ item 0 1, .item 1 [] [] ⟨1⟩ item 0 1]⟩
  let store : Store := fun source _ => if source = ⟨0⟩ then [10] else [20]
  ∃ piece, plan.build = .ok piece ∧ ¬ piece.KeepsPlaces plan
    ∧ piece.content store = [10, 10] ∧ plan.content store = [10, 20]
  := by
  intro item plan store
  refine ⟨_, rfl, ?_, rfl, rfl⟩
  intro h
  obtain ⟨r, hr, hplace⟩ := h (i := 1) rfl rfl
  cases hr
  cases hplace

end Plan

end PieceStream
