import PieceStream.Proofs.Segments

/-!
# Fields

A piece consists of fields, end to end: the header and, block by block, prefix, identifier and
payload.  Any of them may be empty.  A settled cursor within the piece stands on the rest of the one
field that holds its offset.  Taking what a cursor stands on and going forward by all of it, again
and again, leads through the rests of all fields that are not empty to the end.
-/

namespace PieceStream

/-- A field of a piece. -/
inductive Piece.Field where
  /-- Bytes in memory from an offset on. -/
  | memory (start : Nat) (bytes : Bytes)
  /-- The payload of an entry, whose index within the run and that of the run are given. -/
  | payload (block : Nat) (run : ItemRun) (entry : Nat) (e : RunEntry)

/-- The number of bytes of what a cursor stands on. -/
def Segment.length : Segment → Nat
  | .bytes bs => bs.length
  | .payload span => span.remaining
  | .finish => 0

/-- The bytes of what a cursor stands on. -/
def Segment.content (store : Store) : Segment → Bytes
  | .bytes bs => bs
  | .payload span => ((span.run.data store).drop span.itemOffset).take span.remaining
  | .finish => []

namespace Piece.Field

/-- Where a field starts. -/
def start : Field → Nat
  | .memory start _ => start
  | .payload _ _ _ e => e.payloadOffset

/-- Where a field ends. -/
def stop : Field → Nat
  | .memory start bytes => start + bytes.length
  | .payload _ _ _ e => e.endOffset

/-- What is left of a field from an offset on. -/
def rest (pos : Nat) : Field → Segment
  | .memory start bytes => .bytes (bytes.drop (pos - start))
  | .payload block run entry e =>
    .payload ⟨block, run, entry, e.itemOffset + (pos - e.payloadOffset), e.endOffset - pos⟩

/-- An offset lies within a field. -/
def Holds (f : Field) (pos : Nat) : Prop := f.start ≤ pos ∧ pos < f.stop

end Piece.Field

/-- The fields of a framing: prefix and identifier. -/
def Framing.fields (f : Framing) : List Piece.Field :=
  [.memory f.pieceOffset f.lengthPrefix, .memory f.identifierOffset f.identifier]

/-- The fields of an inline block. -/
def InlineBlock.fields (b : InlineBlock) : List Piece.Field :=
  b.toFraming.fields ++ [.memory b.payloadOffset b.payload]

/-- The fields of an entry of a run. -/
def RunEntry.fields (e : RunEntry) (block : Nat) (run : ItemRun) (entry : Nat) :
    List Piece.Field :=
  e.toFraming.fields ++ [.payload block run entry e]

/-- The fields of a block, whose index is given. -/
def Block.fields (block : Block) (index : Nat) : List Piece.Field :=
  match block with
  | .inline b => b.fields
  | .run r => r.entries.zipIdx.flatMap fun e => e.1.fields index r e.2

/-- The fields of a piece in order. -/
def Piece.fields (piece : Piece) : List Field :=
  .memory 0 piece.header :: piece.blocks.zipIdx.flatMap fun block => block.1.fields block.2

/-- What is left of fields from an offset on, without the empty ones, each with its offset. -/
def Piece.restsFrom (pos : Nat) (fields : List Field) : List (Nat × Segment) :=
  (fields.filter fun f => max pos f.start < f.stop).map fun f =>
    (max pos f.start, f.rest (max pos f.start))

/-- Takes what the cursor stands on and goes forward by all of it, so many times or until the end.
Returns what has been taken, each with its offset, and the cursor reached. -/
def Cursor.walk (piece : Piece) : Nat → Cursor → List (Nat × Segment) × Cursor
  | 0, c => ([], c)
  | steps + 1, c =>
    match c.segment piece with
    | .finish => ([], c)
    | s =>
      let (later, last) := walk piece steps (c.advance piece s.length).1
      ((c.pos, s) :: later, last)

variable {piece : Piece} {pos : Nat} {bs : Bytes} {f : Piece.Field}

/-! ### Tilings of tilings -/

section

variable {α β : Type} {start stop : α → Nat} {start' stop' : β → Nat} {a b : Nat} {l : List α}

/-- Members that are tiled themselves make up a finer tiling. -/
theorem Tiled.flatMap {parts : α → List β} (h : Tiled start stop a b l)
    (hparts : ∀ x ∈ l, Tiled start' stop' (start x) (stop x) (parts x)) :
  Tiled start' stop' a b (l.flatMap parts)
  := by
  induction l generalizing a with
  | nil => apply h
  | cons x xs ih =>
      obtain ⟨rfl, -, hxs⟩ := h
      rw [List.flatMap_cons, tiled_append]
      exact ⟨_, hparts x List.mem_cons_self,
        ih hxs fun y hy => hparts y (List.mem_cons_of_mem x hy)⟩

/-- A tiling stays one when its members are numbered. -/
theorem Tiled.zipIdx (h : Tiled start stop a b l) (n : Nat) :
  Tiled (fun x : α × Nat => start x.1) (fun x => stop x.1) a b (l.zipIdx n)
  := by
  induction l generalizing a n with
  | nil => apply h
  | cons x xs ih =>
      obtain ⟨hx, hle, hxs⟩ := h
      exact ⟨hx, hle, ih hxs (n + 1)⟩

end

/-! ### The fields of a piece -/

theorem Framing.fields_tiled (f : Framing) :
  Tiled Piece.Field.start Piece.Field.stop f.pieceOffset f.payloadOffset f.fields
  := ⟨rfl, Nat.le_add_right _ _, rfl, Nat.le_add_right _ _, rfl⟩

theorem InlineBlock.fields_tiled (b : InlineBlock) :
  Tiled Piece.Field.start Piece.Field.stop b.pieceOffset b.endOffset b.fields
  := tiled_append.mpr ⟨_, b.toFraming.fields_tiled, rfl, Nat.le_add_right _ _, rfl⟩

theorem RunEntry.fields_tiled (e : RunEntry) (block : Nat) (run : ItemRun) (entry : Nat) :
  Tiled Piece.Field.start Piece.Field.stop e.pieceOffset e.endOffset (e.fields block run entry)
  := tiled_append.mpr ⟨_, e.toFraming.fields_tiled, rfl, Nat.le_add_right _ _, rfl⟩

theorem Block.fields_tiled {block : Block} (hlaid : piece.Laid) (hblock : block ∈ piece.blocks)
    (index : Nat) :
  Tiled Piece.Field.start Piece.Field.stop block.pieceOffset block.endOffset (block.fields index)
  := by
  cases block with
  | inline b => apply b.fields_tiled
  | run r =>
      apply ((hlaid.entries_tiled hblock).zipIdx 0).flatMap
      exact fun e _ => e.1.fields_tiled index r e.2

/-- The fields of a piece lie end to end from its start to its end. -/
theorem Piece.fields_tiled (hlaid : piece.Laid) :
  Tiled Field.start Field.stop 0 piece.size piece.fields
  := by
  refine ⟨rfl, Nat.zero_le _, ?_⟩
  have hstop : (Field.memory 0 piece.header).stop = piece.header.length := Nat.zero_add _
  rw [hstop]
  apply (hlaid.blocks_tiled.zipIdx 0).flatMap
  intro block hblock
  apply block.1.fields_tiled hlaid (List.mem_of_getElem? (List.mem_zipIdx_iff_getElem?.mp hblock))

/-! ### The field that holds an offset -/

/-- What a framing has in memory at an offset is the rest of its field there. -/
theorem Framing.bytesAt?_eq_some_iff {f : Framing} :
  f.bytesAt? pos = some bs ↔ ∃ g ∈ f.fields, g.Holds pos ∧ g.rest pos = .bytes bs
  := by
  have hidentifier : f.identifierOffset = f.pieceOffset + f.lengthPrefix.length := rfl
  have hpayload : f.payloadOffset = f.identifierOffset + f.identifier.length := rfl
  constructor
  · intro h
    rw [bytesAt?] at h
    split at h
    · cases h
    · next hwithin =>
      split at h
      · next hlt =>
        cases h
        exact ⟨.memory f.pieceOffset f.lengthPrefix, List.mem_cons_self,
          ⟨by simp only [Piece.Field.start]; omega, by simp only [Piece.Field.stop]; omega⟩, rfl⟩
      · next hge =>
        cases h
        exact ⟨.memory f.identifierOffset f.identifier, List.mem_cons_of_mem _ List.mem_cons_self,
          ⟨by simp only [Piece.Field.start]; omega, by simp only [Piece.Field.stop]; omega⟩, rfl⟩
  · rintro ⟨g, hg, ⟨hstart, hstop⟩, hrest⟩
    simp only [fields, List.mem_cons, List.not_mem_nil, or_false] at hg
    rcases hg with rfl | rfl <;> cases hrest <;>
      simp only [Piece.Field.start, Piece.Field.stop] at hstart hstop
    · rw [bytesAt?, if_neg (by omega), if_pos (by omega)]
    · rw [bytesAt?, if_neg (by omega), if_neg (by omega)]

/-- A framing has bytes in memory exactly at the offsets from its start to the payload. -/
theorem Framing.exists_bytesAt?_iff {f : Framing} :
  (∃ bs, f.bytesAt? pos = some bs) ↔ f.pieceOffset ≤ pos ∧ pos < f.payloadOffset
  := by
  rw [← Option.ne_none_iff_exists', ne_eq, bytesAt?_eq_none_iff]
  omega

/-- Where a field of a framing lies, the framing has its rest in memory. -/
theorem Framing.exists_rest_eq {framing : Framing} (hf : f ∈ framing.fields) (h : f.Holds pos) :
  ∃ bs, f.rest pos = .bytes bs ∧ framing.bytesAt? pos = some bs
  := by
  obtain ⟨bs, hrest⟩ : ∃ bs, f.rest pos = .bytes bs := by
    simp only [fields, List.mem_cons, List.not_mem_nil, or_false] at hf
    rcases hf with rfl | rfl <;> exact ⟨_, rfl⟩
  exact ⟨bs, hrest, bytesAt?_eq_some_iff.mpr ⟨f, hf, h, hrest⟩⟩

/-- Where a field of an inline block lies, the block has its rest in memory. -/
theorem InlineBlock.exists_rest_eq {b : InlineBlock} (hf : f ∈ b.fields) (h : f.Holds pos) :
  ∃ bs, f.rest pos = .bytes bs ∧ b.bytesAt? pos = some bs
  := by
  rcases List.mem_append.mp hf with hframing | hpayload
  · obtain ⟨bs, hrest, hbytes⟩ := Framing.exists_rest_eq hframing h
    exact ⟨bs, hrest, by rw [bytesAt?, hbytes]⟩
  · obtain rfl := List.mem_singleton.mp hpayload
    have hnone : b.toFraming.bytesAt? pos = none := Framing.bytesAt?_eq_none_iff.mpr (.inr h.1)
    refine ⟨_, rfl, ?_⟩
    rw [bytesAt?, hnone]
    exact if_pos h

namespace Piece

/-- From an offset within a field the piece goes on with the rest of the field. -/
theorem standsAt_rest (hf : f ∈ piece.fields) (h : f.Holds pos) :
  (f.rest pos).StandsAt piece pos
  := by
  rcases List.mem_cons.mp hf with rfl | hf
  · have hlt : pos < piece.header.length := Nat.zero_add piece.header.length ▸ h.2
    exact .header hlt
  · obtain ⟨⟨block, index⟩, hmem, hf⟩ := List.mem_flatMap.mp hf
    have hblock : piece.blocks[index]? = some block := List.mem_zipIdx_iff_getElem?.mp hmem
    cases block with
    | inline b =>
        obtain ⟨hstart, -, hstop⟩ := b.fields_tiled.bounds hf
        obtain ⟨bs, hrest, hbytes⟩ := InlineBlock.exists_rest_eq hf h
        rw [hrest]
        exact .inline hblock (Nat.le_trans hstart h.1) (Nat.lt_of_lt_of_le h.2 hstop) hbytes
    | run r =>
        obtain ⟨⟨e, entry⟩, hmem, hf⟩ := List.mem_flatMap.mp hf
        have hentry : r.entries[entry]? = some e := List.mem_zipIdx_iff_getElem?.mp hmem
        rcases List.mem_append.mp hf with hframing | hpayload
        · obtain ⟨bs, hrest, hbytes⟩ := Framing.exists_rest_eq hframing h
          rw [hrest]
          exact .framing hblock hentry hbytes
        · obtain rfl := List.mem_singleton.mp hpayload
          exact .payload ⟨hblock, e, hentry, h.1, h.2, rfl, rfl⟩

/-- A settled cursor stands on the rest of the field that holds its offset. -/
theorem segment_eq_rest (hlaid : piece.Laid) (hf : f ∈ piece.fields) (h : f.Holds pos) :
  (Cursor.settled piece pos).segment piece = f.rest pos
  := by
  have hpos : pos ≤ piece.size :=
    Nat.le_trans (Nat.le_of_lt h.2) ((fields_tiled hlaid).bounds hf).2.2
  apply (Cursor.segment_eq_iff hlaid hpos).mpr (standsAt_rest hf h)

/-- What a segment that the piece goes on with says is what the piece holds there. -/
theorem take_content_of_follows {store : Store} {s : Segment} (h : s.Follows piece store pos) :
  ((piece.content store).drop pos).take s.length = s.content store
  := by
  cases h with
  | bytes h => rw [Segment.length, Segment.content, ← List.prefix_iff_eq_take.mp h]
  | @payload span h =>
      have hlength : (((span.run.data store).drop span.itemOffset).take span.remaining).length
          = span.remaining := by
        have := h.held_le
        rw [List.length_take, List.length_drop]
        omega
      rw [Segment.length, Segment.content]
      conv => lhs; rw [← hlength]
      rw [← List.prefix_iff_eq_take.mp h.content_prefix]
  | finish h => rw [Segment.length, Segment.content, List.take_zero]

/-- Exactly one field holds an offset within the piece. -/
theorem existsUnique_field (hlaid : piece.Laid) (hpos : pos < piece.size) :
  ∃! f, f ∈ piece.fields ∧ f.Holds pos
  := by
  have htiled := fields_tiled hlaid
  obtain ⟨f, hf, hholds⟩ := htiled.exists_getElem?_passed (Nat.zero_le _) hpos
  refine ⟨f, ⟨List.mem_of_getElem? hf, hholds⟩, ?_⟩
  rintro g ⟨hg, hholds'⟩
  obtain ⟨i, hi⟩ := List.mem_iff_getElem?.mp hg
  rw [htiled.passed_eq hi hholds'.1 hholds'.2, hi] at hf
  exact Option.some.inj hf

/-- What is left of a field goes on to its end. -/
theorem Field.length_rest (h : f.Holds pos) :
  (f.rest pos).length = f.stop - pos
  := by
  cases f with
  | memory start bytes =>
      have hstart : start ≤ pos := h.1
      simp only [rest, Segment.length, List.length_drop, stop]
      omega
  | payload block run entry e => rfl

end Piece

/-! ### From field to field -/

namespace Piece

variable {fields : List Field} {a : Nat}

/-- Fields that have been passed leave nothing. -/
theorem restsFrom_cons_of_le (h : f.stop ≤ pos) :
  restsFrom pos (f :: fields) = restsFrom pos fields
  := by
  rw [restsFrom, List.filter_cons_of_neg, restsFrom]
  simp only [decide_eq_true_eq]
  omega

/-- The field that holds an offset leaves its rest. -/
theorem restsFrom_cons_of_holds (h : f.Holds pos) :
  restsFrom pos (f :: fields) = (pos, f.rest pos) :: restsFrom pos fields
  := by
  have hmax : max pos f.start = pos := Nat.max_eq_left h.1
  rw [restsFrom, List.filter_cons_of_pos, List.map_cons, hmax, restsFrom]
  simpa [hmax] using h.2

/-- Fields that lie behind an offset are left from where they start. -/
theorem restsFrom_eq (h : Tiled Field.start Field.stop a piece.size fields) (hpos : pos ≤ a) :
  restsFrom pos fields = restsFrom a fields
  := by
  have hmax : ∀ f ∈ fields, max pos f.start = max a f.start := by
    intro f hf
    have := (h.bounds hf).1
    omega
  rw [restsFrom, restsFrom, List.filter_congr fun f hf => by rw [hmax f hf]]
  exact List.map_congr_left fun f hf => by rw [hmax f (List.mem_of_mem_filter hf)]

/-- What is left from an offset on lies end to end, without anything empty. -/
theorem restsFrom_tiled (h : Tiled Field.start Field.stop a piece.size fields) (ha : a ≤ pos)
    (hpos : pos ≤ piece.size) :
  Tiled (fun x : Nat × Segment => x.1) (fun x => x.1 + x.2.length) pos piece.size
      (restsFrom pos fields)
    ∧ ∀ x ∈ restsFrom pos fields, 0 < x.2.length
  := by
  induction fields generalizing a pos with
  | nil =>
      obtain rfl : a = piece.size := h
      exact ⟨Nat.le_antisymm hpos ha, nofun⟩
  | cons f fields ih =>
      obtain ⟨rfl, -, hfields⟩ := h
      rcases Nat.lt_or_ge pos f.stop with hlt | hle
      · have hholds : f.Holds pos := ⟨ha, hlt⟩
        have hend : pos + (f.rest pos).length = f.stop := by
          rw [Field.length_rest hholds]
          omega
        obtain ⟨hrests, hlength⟩ := ih hfields (Nat.le_refl _) hfields.le
        rw [← hend] at hrests hlength
        rw [restsFrom_cons_of_holds hholds, restsFrom_eq hfields (Nat.le_of_lt hlt), ← hend]
        refine ⟨⟨rfl, Nat.le_add_right _ _, hrests⟩, List.forall_mem_cons.mpr ⟨?_, hlength⟩⟩
        dsimp only
        omega
      · rw [restsFrom_cons_of_le hle]
        apply ih hfields hle hpos

/-- A step takes what the cursor stands on. -/
theorem walk_succ {c : Cursor} {s : Segment} (hsegment : c.segment piece = s) (hne : s ≠ .finish)
    (steps : Nat) :
  c.walk piece (steps + 1)
    = ((c.pos, s) :: ((c.advance piece s.length).1.walk piece steps).1,
        ((c.advance piece s.length).1.walk piece steps).2)
  := by
  rw [Cursor.walk, hsegment]
  cases s with
  | bytes bs => rfl
  | payload span => rfl
  | finish => exact absurd rfl hne

/-- A walk from an offset through the rests of the fields behind it leads to the end. -/
theorem walk_eq (hlaid : piece.Laid) (hfields : ∀ f ∈ fields, f ∈ piece.fields)
    (h : Tiled Field.start Field.stop a piece.size fields) (ha : a ≤ pos) (hpos : pos ≤ piece.size)
    (steps : Nat) (hsteps : piece.size - pos ≤ steps) :
  (Cursor.settled piece pos).walk piece steps
    = (restsFrom pos fields, Cursor.settled piece piece.size)
  := by
  induction fields generalizing a pos steps with
  | nil =>
      obtain rfl : a = piece.size := h
      obtain rfl : pos = piece.size := Nat.le_antisymm hpos ha
      have hfinish := (Cursor.segment_eq_finish_iff hlaid hpos).mpr rfl
      cases steps with
      | zero => rfl
      | succ steps =>
          rw [Cursor.walk, hfinish]
          rfl
  | cons f fields ih =>
      obtain ⟨rfl, -, htiled⟩ := h
      have hrest := fun g hg => hfields g (List.mem_cons_of_mem f hg)
      rcases Nat.lt_or_ge pos f.stop with hlt | hle
      · have hholds : f.Holds pos := ⟨ha, hlt⟩
        have hsegment := segment_eq_rest hlaid (hfields f List.mem_cons_self) hholds
        have hlength := Field.length_rest hholds
        have hend : pos + (f.rest pos).length = f.stop := by omega
        have hne : f.rest pos ≠ .finish := by
          cases f <;> exact nofun
        have hstop := htiled.le
        obtain ⟨steps, rfl⟩ := Nat.exists_eq_add_one_of_ne_zero (by omega : steps ≠ 0)
        have hwalk := ih hrest htiled (Nat.le_refl _) hstop steps (by omega)
        rw [← hend, ← Cursor.advance_settled hlaid] at hwalk
        rw [restsFrom_cons_of_holds hholds, restsFrom_eq htiled (Nat.le_of_lt hlt), ← hend,
          walk_succ hsegment hne, hwalk]
        rfl
      · rw [restsFrom_cons_of_le hle]
        apply ih hrest htiled hle hpos steps hsteps

end Piece

/-- In a piece that is built, a cursor at an offset stands on the end exactly at the end.  Elsewhere
one field holds the offset, and the cursor stands on its rest: at least one byte, up to the end of
the field, as the content of the piece has them.  Prefix and identifier of a block are in memory
exactly where they lie.  Taking what the cursor stands on and going forward by all of it leads
through what is left of the fields, end to end and nothing of it empty, to the end. -/
theorem Cursor.stands_on_rest_of_field {plan : Plan} (hbuild : plan.build = .ok piece)
    (offset : Nat) (hoffset : offset ≤ piece.size) :
  ((locate piece offset).segment piece = .finish ↔ offset = piece.size)
    ∧ (offset < piece.size → ∃! f, f ∈ piece.fields ∧ f.Holds offset)
    ∧ (∀ f ∈ piece.fields, f.Holds offset →
        (locate piece offset).segment piece = f.rest offset
          ∧ 0 < (f.rest offset).length ∧ (f.rest offset).length ≤ f.stop - f.start
          ∧ offset + (f.rest offset).length = f.stop
          ∧ ∀ store : Store, piece.HeldIn store →
            ((piece.content store).drop offset).take (f.rest offset).length
              = (f.rest offset).content store)
    ∧ (∀ framing : Framing,
        ((∃ bs, framing.bytesAt? offset = some bs)
            ↔ framing.pieceOffset ≤ offset ∧ offset < framing.payloadOffset)
          ∧ ∀ bs, framing.bytesAt? offset = some bs
            ↔ ∃ f ∈ framing.fields, f.Holds offset ∧ f.rest offset = .bytes bs)
    ∧ (∀ steps, piece.size - offset ≤ steps →
        (locate piece offset).walk piece steps
          = (Piece.restsFrom offset piece.fields, locate piece piece.size))
    ∧ Tiled (fun x : Nat × Segment => x.1) (fun x => x.1 + x.2.length) offset piece.size
        (Piece.restsFrom offset piece.fields)
    ∧ ∀ x ∈ Piece.restsFrom offset piece.fields, 0 < x.2.length
  := by
  have hlaid := Plan.laid_of_build hbuild
  have htiled := Piece.fields_tiled hlaid
  rw [locate_eq hlaid hoffset, locate_eq hlaid (Nat.le_refl _)]
  refine ⟨segment_eq_finish_iff hlaid hoffset, Piece.existsUnique_field hlaid, ?_,
    fun framing => ⟨framing.exists_bytesAt?_iff, fun _ => Framing.bytesAt?_eq_some_iff⟩,
    Piece.walk_eq hlaid (fun _ hf => hf) htiled (Nat.zero_le _) hoffset,
    Piece.restsFrom_tiled htiled (Nat.zero_le _) hoffset⟩
  intro f hf hholds
  have hsegment := Piece.segment_eq_rest hlaid hf hholds
  have hlength := Piece.Field.length_rest hholds
  obtain ⟨hstart, hstop⟩ := hholds
  refine ⟨hsegment, by omega, by omega, by omega, fun store hheld => ?_⟩
  rw [← hsegment]
  apply Piece.take_content_of_follows (segment_settled hlaid hheld hoffset)

/-- A piece with a block that has no prefix, and a run whose entries have no identifier and no
payload in turn.  The second byte of a payload is the one before the last field. -/
theorem Cursor.stands_on_rest_of_field_within_payload :
  let item : Item := ⟨⟨1⟩, "a", 9⟩
  let plan : Plan :=
    ⟨[1, 2], 9,
      [.inline 2 [] [6] [7, 8], .item 5 [3] [] ⟨0⟩ item 4 2, .item 8 [] [5] ⟨0⟩ item 9 0]⟩
  ∃ piece r, plan.build = .ok piece ∧ 7 ≤ piece.size
    ∧ (locate piece 7).segment piece = .payload ⟨1, r, 0, 5, 1⟩
    ∧ (locate piece 7).walk piece 2
      = ([(7, .payload ⟨1, r, 0, 5, 1⟩), (8, .bytes [5])], locate piece 9)
  := by
  intro item plan
  let r : ItemRun := ⟨⟨0⟩, item, ⟨⟨5, [3], []⟩, 4, 2⟩, [⟨⟨8, [], [5]⟩, 9, 0⟩]⟩
  let piece : Piece := ⟨[1, 2], 9, [.inline ⟨⟨2, [], [6]⟩, [7, 8]⟩, .run r]⟩
  have hbuild : plan.build = .ok piece := rfl
  have hfield : .payload 1 r 0 ⟨⟨5, [3], []⟩, 4, 2⟩ ∈ piece.fields :=
    List.mem_of_getElem? (i := 6) rfl
  obtain ⟨-, -, hstands, -, hwalk, -⟩ := stands_on_rest_of_field hbuild 7 (by decide)
  obtain ⟨hsegment, -⟩ := hstands _ hfield ⟨by decide, by decide⟩
  exact ⟨piece, r, hbuild, by decide, hsegment, hwalk 2 (by decide)⟩

end PieceStream
