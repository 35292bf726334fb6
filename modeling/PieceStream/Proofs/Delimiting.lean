import PieceStream.Proofs.Places
import PieceStream.Proofs.Varints

/-!
# Blocks that announce themselves

Where every block begins with a varint of the number of bytes that follow it, the content of a piece
can be taken apart without the plan: from the end of the header on, reading a varint and moving
behind what it announces leads from block to block, and comes to the end of the piece after the last
one.
-/

namespace PieceStream

/-! ### Taking bytes apart -/

/-- What is found at an offset: the number of bytes of a varint, the number that it announces, and
the bytes announced. -/
structure Announced where
  offset : Nat
  used : Nat
  count : Nat
  bytes : Bytes
  deriving DecidableEq, Repr

/-- What a varint at an offset announces, if there is one and as many bytes follow it. -/
def Announced.at? (data : Bytes) (offset : Nat) : Option Announced := do
  let (count, used) ← Varint.decode (data.drop offset)
  let bytes := (data.drop (offset + used)).take count.toNat
  if bytes.length = count.toNat then some ⟨offset, used, count.toNat, bytes⟩ else none

/-- Where the bytes announced end. -/
def Announced.stop (found : Announced) : Nat := found.offset + found.used + found.count

/-- What is found at an offset, behind it, and so on, so many times; and the offset reached. -/
def Announced.inTurn (data : Bytes) : Nat → Nat → Option (List Announced × Nat)
  | 0, offset => some ([], offset)
  | times + 1, offset => do
    let found ← at? data offset
    let (others, stop) ← inTurn data times found.stop
    return (found :: others, stop)

/-- A varint announces the bytes behind it, whatever comes before and after. -/
theorem Announced.at?_append {before bytes after : Bytes} {word : UInt64}
    (hword : word.toNat = bytes.length) :
  at? (before ++ (Varint.encode word ++ bytes ++ after)) before.length
    = some ⟨before.length, (Varint.encode word).length, bytes.length, bytes⟩
  := by
  rw [at?, List.drop_left, List.append_assoc, Varint.decode_encode_append]
  have hbehind : (before ++ (Varint.encode word ++ (bytes ++ after))).drop
      (before.length + (Varint.encode word).length) = bytes ++ after := by
    rw [← List.drop_drop, List.drop_left, List.drop_left]
  simp only [Option.bind_eq_bind, Option.bind_some, hbehind, hword, List.take_left, if_true]

/-! ### Candidates -/

namespace Candidate

/-- The candidate was made so that its prefix announces what follows it. -/
inductive Delimited : Candidate → Prop where
  | inline (pieceOffset : UInt64) (identifier payload : Bytes) :
      Delimited (.delimitedInline pieceOffset identifier payload)
  | item (pieceOffset : UInt64) (identifier : Bytes) (source : SourceId) (item : Item)
      (itemOffset itemLength : UInt64) :
      Delimited (.delimitedItem pieceOffset identifier source item itemOffset itemLength)

/-- The bytes of the block of a candidate, given its payload. -/
def filled (c : Candidate) (payload : Bytes) : Bytes :=
  c.lengthPrefix ++ c.identifier ++ payload

/-- What a varint announces where the block of a candidate stands. -/
def announced (c : Candidate) (payload : Bytes) : Announced :=
  ⟨c.pieceOffset.toNat, c.lengthPrefix.length, c.identifier.length + c.data.payloadLength,
    c.identifier ++ payload⟩

variable {c : Candidate} {next : Option Candidate} {payload : Bytes}

/-- The prefix of a sound candidate that announces what follows it is the varint of a word, of so
many bytes as the identifier and the payload have. -/
theorem Delimited.exists_word (h : c.Delimited) (hpasses : c.Passes next) :
  ∃ word : UInt64, c.lengthPrefix = Varint.encode word
    ∧ word.toNat = c.identifier.length + c.data.payloadLength
  := by
  have hlength := hpasses.length_eq
  have hword := c.length.toNat_lt
  have hfits : c.identifier.length + c.data.payloadLength < wordLimit := by
    simp only [wordLimit, UInt64.size]
    omega
  refine ⟨_, ?_, toNat_saturate_of_lt hfits⟩
  cases h <;> rfl

/-- The block of a sound candidate is as long as declared. -/
theorem length_filled (hpasses : c.Passes next)
    (hpayload : payload.length = c.data.payloadLength) :
  c.pieceOffset.toNat + (c.filled payload).length = c.stop
  := by
  have hlength := hpasses.length_eq
  simp only [filled, List.length_append, stop]
  omega

/-- The blocks of candidates that lie end to end and announce themselves are found one after the
other, given their payloads. -/
theorem inTurn_filled {cs : List Candidate} {payloads : List Bytes} {before : Bytes} {size : Nat}
    (hpayloads : List.Forall₂ (fun c payload => payload.length = c.data.payloadLength) cs payloads)
    (hdelimited : ∀ c ∈ cs, c.Delimited) (hpasses : ∀ c ∈ cs, ∃ next, c.Passes next)
    (htiled : Tiled (fun c : Candidate => c.pieceOffset.toNat) stop before.length size cs) :
  Announced.inTurn (before ++ (List.zipWith filled cs payloads).flatten) cs.length before.length
    = some (List.zipWith announced cs payloads, size)
  := by
  induction hpayloads generalizing before with
  | nil =>
      obtain rfl : before.length = size := htiled
      rfl
  | @cons c payload cs payloads hpayload hrest ih =>
      obtain ⟨hstart, -, htiled⟩ := htiled
      dsimp only at hstart
      obtain ⟨next, hsound⟩ := hpasses c List.mem_cons_self
      obtain ⟨word, hprefix, hword⟩ := (hdelimited c List.mem_cons_self).exists_word hsound
      have hcount : (c.identifier ++ payload).length
          = c.identifier.length + c.data.payloadLength := by
        rw [List.length_append, hpayload]
      have hfilled : c.filled payload
          = Varint.encode word ++ (c.identifier ++ payload) := by
        rw [filled, hprefix, List.append_assoc]
      have hstop : (before ++ c.filled payload).length = c.stop := by
        rw [List.length_append, ← length_filled hsound hpayload, hstart]
      have hfound : Announced.at? (before ++ (c.filled payload
          ++ (List.zipWith filled cs payloads).flatten)) before.length
          = some (c.announced payload) := by
        rw [hfilled, Announced.at?_append (hword.trans hcount.symm), announced, hstart, hprefix,
          hcount]
      have hnext : (c.announced payload).stop = (before ++ c.filled payload).length := by
        simp only [Announced.stop, announced, List.length_append, filled, hpayload, hstart]
        omega
      rw [← hstop] at htiled
      have hothers := ih (fun c hc => hdelimited c (List.mem_cons_of_mem _ hc))
        (fun c hc => hpasses c (List.mem_cons_of_mem _ hc)) htiled
      rw [List.append_assoc] at hothers
      rw [List.zipWith_cons_cons, List.flatten_cons, List.length_cons, Announced.inTurn, hfound]
      simp only [Option.bind_eq_bind, Option.bind_some, hnext, hothers]
      rfl

end Candidate

/-! ### Payloads -/

/-- The payload of a candidate: the one that it gives, or its range of an item. -/
def Candidate.payloadIn (c : Candidate) (data : Bytes) : Bytes :=
  match c.data with
  | .inline payload => payload
  | .item _ _ offset length => (data.drop offset.toNat).take length.toNat

/-- The bytes of a part, whose item is `data` if it is an entry. -/
def Part.content (data : Bytes) : Part → Bytes
  | .inline b => b.content
  | .entry e => e.content data

/-- The part of a candidate is filled with the payload of the candidate. -/
theorem Candidate.content_part_eq {c : Candidate} {data : Bytes} :
  c.part.content data = c.filled (c.payloadIn data)
  := by
  obtain ⟨offset, length, lengthPrefix, identifier, _ | _⟩ := c <;> rfl

namespace Block

/-- The bytes of the item of a block, if it is a run. -/
def itemData (store : Store) : Block → Bytes
  | .inline _ => []
  | .run r => r.data store

variable {b : Block} {g : List Candidate} {blocks : List Block} {groups : List (List Candidate)}
  {store : Store}

/-- A block holds its parts. -/
theorem content_eq_parts :
  b.content store = b.parts.flatMap (Part.content (b.itemData store))
  := by
  cases b with
  | inline b => exact (List.append_nil b.content).symm
  | run r =>
      rw [content, parts, List.flatMap_map]
      rfl

/-- A block is filled with the payloads of the candidates that it carries. -/
theorem Carries.content_eq_filled (h : b.Carries g) :
  b.content store
    = (List.zipWith Candidate.filled g (g.map (Candidate.payloadIn · (b.itemData store)))).flatten
  := by
  rw [content_eq_parts, h.parts_eq, List.flatMap_map, List.zipWith_map_right, List.zipWith_self,
    List.flatMap_def]
  simp only [Candidate.content_part_eq]

/-- Blocks are filled with the payloads of the candidates that they carry, each taken from the item
of the block that carries it. -/
theorem exists_payloads (h : List.Forall₂ Carries blocks groups) (store : Store) :
  ∃ payloads : List Bytes, payloads.length = groups.flatten.length
    ∧ blocks.flatMap (content store)
        = (List.zipWith Candidate.filled groups.flatten payloads).flatten
    ∧ ∀ (i : Nat) (c : Candidate), groups.flatten[i]? = some c →
        ∃ b, blocks[carrier blocks i]? = some b
          ∧ payloads[i]? = some (c.payloadIn (b.itemData store))
  := by
  induction h with
  | nil => exact ⟨[], rfl, rfl, nofun⟩
  | @cons b g blocks groups hb _ ih =>
      obtain ⟨payloads, hlength, hcontent, hpayloads⟩ := ih
      have hparts : b.parts.length = g.length := by
        rw [hb.parts_eq, List.length_map]
      refine ⟨g.map (Candidate.payloadIn · (b.itemData store)) ++ payloads, ?_, ?_, ?_⟩
      · rw [List.length_append, List.length_map, hlength, List.flatten_cons, List.length_append]
      · rw [List.flatMap_cons, List.flatten_cons, hb.content_eq_filled, hcontent,
          List.zipWith_append (by rw [List.length_map]), List.flatten_append]
      · intro i c hc
        rw [List.flatten_cons] at hc
        by_cases hi : i < g.length
        · rw [List.getElem?_append_left hi] at hc
          refine ⟨b, ?_, ?_⟩
          · simp [carrier, hparts, hi]
          · rw [List.getElem?_append_left (by rwa [List.length_map]), List.getElem?_map, hc]
            rfl
        · rw [List.getElem?_append_right (Nat.le_of_not_lt hi)] at hc
          obtain ⟨b', hb', hpayload⟩ := hpayloads _ c hc
          refine ⟨b', ?_, ?_⟩
          · simpa [carrier, hparts, hi] using hb'
          · rw [List.getElem?_append_right (by rw [List.length_map]; omega), List.length_map,
              hpayload]

/-- The payload of a candidate that a block carries is of the length that the candidate gives, if
the item holds what the block needs. -/
theorem Carries.length_payloadIn {piece : Piece} {c : Candidate} (h : b.Carries g) (hc : c ∈ g)
    (hb : b ∈ piece.blocks) (hheld : piece.HeldIn store) :
  (c.payloadIn (b.itemData store)).length = c.data.payloadLength
  := by
  obtain ⟨offset, length, lengthPrefix, identifier,
    payload | ⟨source, item, itemOffset, itemLength⟩⟩ := c
  · rfl
  · have hpart := h.parts_eq ▸ List.mem_map_of_mem hc
    cases b with
    | inline b => cases List.mem_singleton.mp hpart
    | run r =>
        obtain ⟨e, he, heq⟩ := List.mem_map.mp hpart
        cases heq
        have hend := hheld hb _ he
        simp only [RunEntry.itemEnd] at hend
        simp only [Candidate.payloadIn, itemData, BlockData.payloadLength, List.length_take,
          List.length_drop]
        omega

end Block

namespace Plan

variable {plan : Plan} {piece : Piece} {store : Store}

/-- If every prefix of a piece announces what follows it, then reading a varint and moving behind
what it announces, again and again from the end of the header on, finds the blocks of the candidates
one after the other, each with its identifier and its payload, and comes to the end of the piece
after the last of them. -/
theorem build_delimits (hdelimited : ∀ c ∈ plan.candidates, c.Delimited)
    (hbuild : plan.build = .ok piece) (hheld : piece.HeldIn store) :
  ∃ found : List Announced,
    Announced.inTurn (piece.content store) plan.candidates.length piece.header.length
        = some (found, piece.size)
    ∧ found.length = plan.candidates.length
    ∧ ∀ (i : Nat) (c : Candidate), plan.candidates[i]? = some c →
        ∃ block, piece.blocks[Block.carrier piece.blocks i]? = some block
          ∧ (c.payloadIn (block.itemData store)).length = c.data.payloadLength
          ∧ found[i]? = some
              { offset := c.pieceOffset.toNat
                used := c.lengthPrefix.length
                count := c.identifier.length + c.data.payloadLength
                bytes := c.identifier ++ c.payloadIn (block.itemData store) }
  := by
  obtain ⟨hwell, hheader, hsize, -⟩ := build_eq_ok_iff.mp hbuild
  obtain ⟨groups, hgroups, hflat⟩ := exists_carried hbuild
  obtain ⟨payloads, hlength, hcontent, hpayloads⟩ := Block.exists_payloads hgroups store
  rw [hflat] at hlength hcontent hpayloads
  have hlengths : ∀ (i : Nat) (c : Candidate), plan.candidates[i]? = some c →
      ∃ block, piece.blocks[Block.carrier piece.blocks i]? = some block
        ∧ (c.payloadIn (block.itemData store)).length = c.data.payloadLength
        ∧ payloads[i]? = some (c.payloadIn (block.itemData store)) := by
    intro i c hc
    obtain ⟨block, hblock, hpayload⟩ := hpayloads i c hc
    rw [← hflat] at hc
    obtain ⟨block', g, hblock', -, hcarries, hmem⟩ := Block.exists_carrier hgroups hc
    obtain rfl : block = block' := by
      rw [hblock] at hblock'
      apply Option.some.inj hblock'
    have hmem' := List.mem_of_getElem? hblock
    exact ⟨block, hblock, hcarries.length_payloadIn hmem hmem' hheld, hpayload⟩
  have hfilled : List.Forall₂ (fun (c : Candidate) (payload : Bytes) =>
      payload.length = c.data.payloadLength) plan.candidates payloads := by
    apply List.forall₂_iff_get.mpr
    refine ⟨hlength.symm, fun i hi hi' => ?_⟩
    obtain ⟨block, -, hlen, hpayload⟩ := hlengths i _ (List.getElem?_eq_getElem hi)
    rw [List.getElem?_eq_getElem hi'] at hpayload
    rw [List.get_eq_getElem, List.get_eq_getElem, Option.some.inj hpayload, hlen]
  have hpasses : ∀ c ∈ plan.candidates, ∃ next, c.Passes next := by
    intro c hc
    obtain ⟨i, hi⟩ := List.mem_iff_getElem?.mp hc
    exact ⟨_, hwell.passes i c hi⟩
  have htiled := Candidate.tiled_of_passes hwell.nonempty hwell.first hwell.last hwell.passes
  rw [← hheader, ← hsize] at htiled
  refine ⟨List.zipWith Candidate.announced plan.candidates payloads, ?_, ?_, ?_⟩
  · rw [Piece.content, hcontent]
    apply Candidate.inTurn_filled hfilled hdelimited hpasses htiled
  · rw [List.length_zipWith, hlength, Nat.min_self]
  · intro i c hc
    obtain ⟨block, hblock, hlen, hpayload⟩ := hlengths i c hc
    refine ⟨block, hblock, hlen, ?_⟩
    rw [List.getElem?_zipWith, hc, hpayload]
    rfl

/-- A block of its identifier alone and two ranges of an item, the first of which is announced by
two bytes and the second of which lies before it in the item. -/
theorem build_delimits_three_blocks :
  let item : Item := ⟨⟨1⟩, "a", 140⟩
  let plan : Plan :=
    ⟨[7], 142, [.delimitedInline 1 [8] [], .delimitedItem 3 [9] ⟨0⟩ item 10 130,
      .delimitedItem 136 [8, 9] ⟨0⟩ item 2 3]⟩
  let run : ItemRun :=
    ⟨⟨0⟩, item, ⟨⟨3, [131, 1], [9]⟩, 10, 130⟩, [⟨⟨136, [5], [8, 9]⟩, 2, 3⟩]⟩
  let piece : Piece := ⟨[7], 142, [.inline ⟨⟨1, [1], [8]⟩, []⟩, .run run]⟩
  let store : Store := fun _ _ => ramp 140 1 0
  (∀ c ∈ plan.candidates, c.Delimited) ∧ plan.build = .ok piece ∧ piece.HeldIn store
    ∧ ∃ found, Announced.inTurn (piece.content store) 3 1 = some (found, 142)
      ∧ found.map (fun a => (a.offset, a.used, a.count)) = [(1, 1, 1), (3, 2, 131), (136, 1, 5)]
      ∧ found.getLast?.map Announced.bytes = some [8, 9, 2, 3, 4]
  := by
  intro item plan run piece store
  have hdelimited : ∀ c ∈ plan.candidates, c.Delimited := by
    intro c hc
    simp only [plan, List.mem_cons, List.not_mem_nil, or_false] at hc
    rcases hc with rfl | rfl | rfl
    · exact .inline 1 [8] []
    · exact .item 3 [9] ⟨0⟩ item 10 130
    · exact .item 136 [8, 9] ⟨0⟩ item 2 3
  have hbuild : plan.build = .ok piece := by decide +kernel
  have hheld : piece.HeldIn store := by
    intro r hr e he _
    have hr : r = run := by simpa [piece] using hr
    subst hr
    simp only [run, ItemRun.entries, List.mem_cons, List.not_mem_nil, or_false] at he
    rcases he with rfl | rfl <;> simp [RunEntry.itemEnd, ItemRun.data, store, ramp]
  obtain ⟨found, hfound, hlength, hall⟩ := build_delimits hdelimited hbuild hheld
  refine ⟨hdelimited, hbuild, hheld, found, hfound, ?_⟩
  obtain ⟨a, b, c, rfl⟩ := List.length_eq_three.mp hlength
  obtain ⟨_, ⟨⟩, -, ha⟩ := hall 0 _ rfl
  obtain ⟨_, ⟨⟩, -, hb⟩ := hall 1 _ rfl
  obtain ⟨_, ⟨⟩, -, hc⟩ := hall 2 _ rfl
  cases ha
  cases hb
  cases hc
  exact ⟨by decide +kernel, by decide +kernel⟩

end Plan

end PieceStream
