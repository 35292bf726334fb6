import Mathlib.Data.List.Chain
import PieceStream.Proofs.Segments
import PieceStream.Reading.Options
import PieceStream.Reading.Supply

/-!
# The stretches of an item that a run needs

Of its item a run needs stretches, one for every entry with a payload, in the order of the entries.
A stream that goes forward only serves stretches as long as none of them starts before the end of
the one before it; where one does, a stream has to be opened anew.  This determines which ranges are
opened when a piece is read from some offset to its end, by whatever reads.
-/

namespace PieceStream

/-- The bytes of an item that one entry of a run needs. -/
structure Stretch where
  entry : Nat
  start : Nat
  stop : Nat
  deriving DecidableEq, Repr

namespace Stretch

/-- The stretches for which a stream is opened, given where the stream held stands: those that
start before the end of the one before them, and the first if it starts before that place or no
stream is held. -/
def opened (reach : Option Nat) : List Stretch → List Stretch
  | [] => []
  | s :: rest =>
    if reach.any (· ≤ s.start) then opened (some s.stop) rest
    else s :: opened (some s.stop) rest

end Stretch

/-- The bytes of the item that an entry needs for the offsets of the piece from `pos` on. -/
def RunEntry.stretch (e : RunEntry) (pos index : Nat) : Stretch :=
  ⟨index, e.itemOffset + (pos - e.payloadOffset), e.itemEnd⟩

/-- The stretches, but for empty ones, that entries need for the offsets from `pos` on; the first
entry has number `index`. -/
def RunEntry.stretches (pos : Nat) : Nat → List RunEntry → List Stretch
  | _, [] => []
  | index, e :: es =>
    if (e.stretch pos index).start < (e.stretch pos index).stop then
      e.stretch pos index :: stretches pos (index + 1) es
    else stretches pos (index + 1) es

/-- How far a stream reaches that is opened for an entry of a run. -/
def ReadAhead.limit (readAhead : ReadAhead) (r : ItemRun) (entry : Nat) : Nat :=
  match readAhead with
  | .runEnd => r.furthestNeed entry
  | .itemEnd => max r.item.size.toNat (r.furthestNeed entry)

namespace ItemRun

/-- The stretches, but for empty ones, that a run needs for the offsets of the piece from `pos`
on. -/
def stretches (r : ItemRun) (pos : Nat) : List Stretch := RunEntry.stretches pos 0 r.entries

/-- The ranges that are opened in order to read a run from `pos` on, given where the stream held
stands. -/
def openings (r : ItemRun) (readAhead : ReadAhead) (pos : Nat) (reach : Option Nat) : List Event :=
  (Stretch.opened reach (r.stretches pos)).map fun s =>
    .opened r.source s.start (readAhead.limit r s.entry - s.start) r.item.path

end ItemRun

/-- The ranges that are opened in order to read a block from `pos` on, given where the stream held
stands. -/
def Block.openings (readAhead : ReadAhead) (pos : Nat) (reach : Option Nat) : Block → List Event
  | .inline _ => []
  | .run r => r.openings readAhead pos reach

/-- The ranges that are opened in order to read a piece from `pos` to its end. -/
def Piece.openings (piece : Piece) (readAhead : ReadAhead) (pos : Nat) : List Event :=
  piece.blocks.flatMap (Block.openings readAhead pos none)

variable {piece : Piece} {pos pos' : Nat} {span : PayloadRest} {reach : Option Nat}
  {readAhead : ReadAhead}

/-- The length asked for reaches to the limit. -/
theorem ReadAhead.lengthToAsk_eq (readAhead : ReadAhead) {r : ItemRun} {entry itemOffset : Nat} :
  readAhead.lengthToAsk r entry itemOffset = readAhead.limit r entry - itemOffset
  := by
  cases readAhead <;> rfl

/-- Going forward only, no further stream is opened. -/
theorem Stretch.opened_eq_nil {s : Stretch} {rest : List Stretch}
    (h : (s :: rest).IsChain fun s t => s.stop ≤ t.start) :
  opened (some s.stop) rest = []
  := by
  induction rest generalizing s with
  | nil => rfl
  | cons t rest ih =>
      obtain ⟨hle, hrest⟩ := List.isChain_cons_cons.mp h
      rw [opened, if_pos (by simpa using hle), ih hrest]

/-- A run of which something is needed and whose stretches never go backward costs one stream. -/
theorem ItemRun.length_openings {r : ItemRun} (hne : r.stretches pos ≠ [])
    (h : (r.stretches pos).IsChain fun s t => s.stop ≤ t.start) :
  (r.openings readAhead pos none).length = 1
  := by
  rw [openings, List.length_map]
  cases hstretches : r.stretches pos with
  | nil => contradiction
  | cons s rest =>
      rw [hstretches] at h
      rw [Stretch.opened, Option.any_none, if_neg Bool.false_ne_true, Stretch.opened_eq_nil h]
      rfl

/-! ### Stretches of entries -/

namespace RunEntry

variable {e : RunEntry} {es : List RunEntry} {index : Nat}

/-- An entry that ends at or before the offset needs nothing. -/
theorem stop_le_of_endOffset_le (h : e.endOffset ≤ pos) :
  (e.stretch pos index).stop ≤ (e.stretch pos index).start
  := by
  rw [endOffset_eq] at h
  simp only [stretch, itemEnd]
  omega

/-- Entries that end at or before the offset need nothing. -/
theorem stretches_drop {n : Nat} (h : ∀ e ∈ es.take n, e.endOffset ≤ pos) (hn : n ≤ es.length) :
  stretches pos index es = stretches pos (index + n) (es.drop n)
  := by
  induction n generalizing index es with
  | zero => rfl
  | succ n ih =>
      cases es with
      | nil => cases hn
      | cons e es =>
          have hempty : (e.stretch pos index).stop ≤ (e.stretch pos index).start :=
            stop_le_of_endOffset_le (h e List.mem_cons_self)
          have htail : ∀ e ∈ es.take n, e.endOffset ≤ pos :=
            fun d hd => h d (List.mem_cons_of_mem e hd)
          rw [stretches, if_neg (Nat.not_lt_of_le hempty), ih htail (Nat.le_of_succ_le_succ hn),
            List.drop_succ_cons, Nat.add_assoc, Nat.add_comm 1 n]

/-- Nothing changes while no payload byte is passed. -/
theorem stretches_congr (hle : pos ≤ pos')
    (h : ∀ e ∈ es, ∀ q, pos ≤ q → q < pos' → q < e.payloadOffset ∨ e.endOffset ≤ q) :
  stretches pos index es = stretches pos' index es
  := by
  induction es generalizing index with
  | nil => rfl
  | cons e es ih =>
      have htail := @ih (index + 1) fun d hd => h d (List.mem_cons_of_mem e hd)
      have hhead := h e List.mem_cons_self (max pos e.payloadOffset) (Nat.le_max_left _ _)
      by_cases hbefore : pos' ≤ e.payloadOffset
      · have heq : e.stretch pos index = e.stretch pos' index := by
          rw [stretch, stretch, Nat.sub_eq_zero_of_le hbefore,
            Nat.sub_eq_zero_of_le (Nat.le_trans hle hbefore)]
        rw [stretches, stretches, htail, heq]
      · rcases Nat.eq_or_lt_of_le hle with rfl | hlt
        · rfl
        · -- The payload has been passed, since a byte of it would lie between the offsets.
          rw [endOffset_eq] at hhead
          rw [stretches, stretches, htail, if_neg (by simp only [stretch, itemEnd]; omega),
            if_neg (by simp only [stretch, itemEnd]; omega)]

end RunEntry

/-! ### Stretches of a run -/

namespace PayloadRest.At

/-- Where a payload goes on, the first stretch is the rest of it, and the others stay the same to
its end. -/
theorem stretches_eq (hlaid : piece.Laid) (h : span.At piece pos) :
  ∃ rest, ∀ n ≤ span.remaining, span.run.stretches (pos + n)
    = if n < span.remaining then
        ⟨span.entry, span.itemOffset + n, span.itemOffset + span.remaining⟩ :: rest
      else rest
  := by
  obtain ⟨e, he, hstart, hend, hoffset, hremaining⟩ := h.exists_entry
  have htiled := hlaid.entries_tiled (List.mem_of_getElem? h.run_eq)
  have hpassed := htiled.passed_eq he (Nat.le_trans e.toFraming.pieceOffset_le hstart) hend
  obtain ⟨hlt, hget⟩ := List.getElem?_eq_some_iff.mp he
  refine ⟨RunEntry.stretches pos (span.entry + 1) (span.run.entries.drop (span.entry + 1)), ?_⟩
  intro n hn
  have hbefore : ∀ d ∈ span.run.entries.take span.entry, d.endOffset ≤ pos + n := by
    intro d hd
    rw [← hpassed] at hd
    apply Nat.le_trans (stop_le_of_mem_take_passed hd) (Nat.le_add_right _ _)
  have hbehind : RunEntry.stretches (pos + n) (span.entry + 1)
      (span.run.entries.drop (span.entry + 1))
        = RunEntry.stretches pos (span.entry + 1) (span.run.entries.drop (span.entry + 1)) := by
    symm
    apply RunEntry.stretches_congr (Nat.le_add_right _ _)
    intro d hd q _ hq
    have hle := htiled.stop_le_start he hd
    have hframing := d.toFraming.pieceOffset_le
    omega
  have hstretch : e.stretch (pos + n) span.entry
      = ⟨span.entry, span.itemOffset + n, span.itemOffset + span.remaining⟩ := by
    simp only [RunEntry.stretch, RunEntry.itemEnd, RunEntry.endOffset_eq] at hremaining hend ⊢
    congr 1 <;> omega
  rw [ItemRun.stretches, RunEntry.stretches_drop hbefore (Nat.le_of_lt hlt), Nat.zero_add,
    List.drop_eq_getElem_cons hlt, hget, RunEntry.stretches, hstretch, hbehind]
  simp only [Nat.add_lt_add_iff_left]

/-- A stream that stands where a payload goes on serves the run however far the payload has been
read. -/
theorem openings_skip {n : Nat} (hlaid : piece.Laid) (h : span.At piece pos)
    (hn : n ≤ span.remaining) :
  span.run.openings readAhead (pos + n) (some (span.itemOffset + n))
    = span.run.openings readAhead pos (some span.itemOffset)
  := by
  obtain ⟨rest, hrest⟩ := h.stretches_eq hlaid
  have hhere := hrest 0 (Nat.zero_le _)
  rw [if_pos h.remaining_pos] at hhere
  rw [ItemRun.openings, ItemRun.openings, hrest n hn, ← Nat.add_zero pos, hhere]
  rcases Nat.lt_or_eq_of_le hn with hlt | rfl
  · simp [Stretch.opened, hlt]
  · simp [Stretch.opened]

/-- A stream that has not gone beyond the place where a payload goes on serves the run as one that
stands there. -/
theorem openings_of_reached (hlaid : piece.Laid) (h : span.At piece pos)
    (hreach : reach.any (· ≤ span.itemOffset) = true) :
  span.run.openings readAhead pos reach
    = span.run.openings readAhead pos (some span.itemOffset)
  := by
  obtain ⟨rest, hrest⟩ := h.stretches_eq hlaid
  have hhere := hrest 0 (Nat.zero_le _)
  rw [if_pos h.remaining_pos] at hhere
  rw [ItemRun.openings, ItemRun.openings, ← Nat.add_zero pos, hhere]
  simp [Stretch.opened, hreach]

/-- Without a stream, or with one that has gone beyond the place where a payload goes on, a stream
is opened there. -/
theorem openings_of_not_reached (hlaid : piece.Laid) (h : span.At piece pos)
    (hreach : reach.any (· ≤ span.itemOffset) = false) :
  span.run.openings readAhead pos reach
    = .opened span.run.source span.itemOffset
          (readAhead.limit span.run span.entry - span.itemOffset) span.path
        :: span.run.openings readAhead pos (some span.itemOffset)
  := by
  obtain ⟨rest, hrest⟩ := h.stretches_eq hlaid
  have hhere := hrest 0 (Nat.zero_le _)
  rw [if_pos h.remaining_pos] at hhere
  rw [ItemRun.openings, ItemRun.openings, ← Nat.add_zero pos, hhere]
  simp [Stretch.opened, hreach, PayloadRest.path]

end PayloadRest.At

/-- A run needs the same while no payload byte is passed. -/
theorem ItemRun.stretches_congr {r : ItemRun} (hr : .run r ∈ piece.blocks) (hle : pos ≤ pos')
    (hclear : ∀ q, pos ≤ q → q < pos' → ∀ span, ¬ PayloadRest.At span piece q) :
  r.stretches pos = r.stretches pos'
  := by
  apply RunEntry.stretches_congr hle
  intro e he q hq hq'
  by_contra hat
  obtain ⟨i, hi⟩ := List.mem_iff_getElem?.mp hr
  obtain ⟨k, hk⟩ := List.mem_iff_getElem?.mp he
  apply hclear q hq hq'
    ⟨i, r, k, e.itemOffset + (q - e.payloadOffset), e.endOffset - q⟩
  exact ⟨hi, e, hk, by omega, by omega, rfl, rfl⟩

/-- A run behind the offsets passed needs the same. -/
theorem ItemRun.stretches_of_le {r : ItemRun} (htiled : r.EntriesTiled) (hle : pos ≤ pos')
    (hstart : pos' ≤ r.pieceOffset) :
  r.stretches pos = r.stretches pos'
  := by
  apply RunEntry.stretches_congr hle
  intro e he q _ hq
  have hbounds := (htiled.bounds he).1
  have hframing := e.toFraming.pieceOffset_le
  omega

/-! ### What is still to be opened -/

/-- The ranges still to be opened when a reader stands at `pos` and the stream that it holds, if it
holds one, stands at `reach`. -/
def Piece.openingsAhead (piece : Piece) (readAhead : ReadAhead) (pos : Nat) (reach : Option Nat) :
    List Event :=
  match piece.blocks.drop (Cursor.settled piece pos).block with
  | [] => []
  | b :: rest => b.openings readAhead pos reach ++ rest.flatMap (Block.openings readAhead pos none)

/-- A block that has been passed needs nothing. -/
theorem Block.openings_eq_nil {b : Block} (hlaid : piece.Laid) (hb : b ∈ piece.blocks)
    (h : b.endOffset ≤ pos) :
  b.openings readAhead pos reach = []
  := by
  cases b with
  | inline b => rfl
  | run r =>
      have htiled := hlaid.entries_tiled hb
      have hpassed : ∀ e ∈ r.entries.take r.entries.length, e.endOffset ≤ pos := by
        intro e he
        rw [List.take_length] at he
        apply Nat.le_trans (htiled.bounds he).2.2 h
      rw [openings, ItemRun.openings, ItemRun.stretches,
        RunEntry.stretches_drop hpassed (Nat.le_refl _), List.drop_length]
      rfl

namespace Piece

/-- Blocks that have been passed need nothing. -/
theorem openings_eq_drop {n : Nat} (hlaid : piece.Laid)
    (hn : n ≤ (Cursor.settled piece pos).block) :
  piece.openings readAhead pos = (piece.blocks.drop n).flatMap (Block.openings readAhead pos none)
  := by
  have hbefore : (piece.blocks.take n).flatMap (Block.openings readAhead pos none) = [] := by
    apply List.flatMap_eq_nil_iff.mpr
    intro b hb
    apply Block.openings_eq_nil hlaid (List.mem_of_mem_take hb)
    apply stop_le_of_mem_take_passed
    apply (List.take_sublist_take_left hn).subset hb
  rw [openings]
  conv => lhs; rw [← List.take_append_drop n piece.blocks]
  rw [List.flatMap_append, hbefore, List.nil_append]

/-- Without a stream all that is needed from the offset on is still to be opened. -/
theorem openingsAhead_none (hlaid : piece.Laid) :
  piece.openingsAhead readAhead pos none = piece.openings readAhead pos
  := by
  rw [openings_eq_drop hlaid (Nat.le_refl _), openingsAhead]
  cases piece.blocks.drop (Cursor.settled piece pos).block with
  | nil => rfl
  | cons b rest => rw [List.flatMap_cons]

/-- At the end nothing is to be opened. -/
theorem openingsAhead_size (hlaid : piece.Laid) :
  piece.openingsAhead readAhead piece.size reach = []
  := by
  rw [openingsAhead, Cursor.settled_size hlaid, List.drop_length]

/-- What is still to be opened stays the same when a reader goes forward, if all that the blocks not
passed need stays the same and a stream is given up behind its block. -/
theorem openingsAhead_forward {reach' reach'' : Option Nat} (hlaid : piece.Laid) (hle : pos ≤ pos')
    (hhere : ∀ b, piece.blocks[(Cursor.settled piece pos).block]? = some b →
      b.openings readAhead pos reach = b.openings readAhead pos' reach')
    (hbehind : ∀ b ∈ piece.blocks.drop ((Cursor.settled piece pos).block + 1),
      b.openings readAhead pos none = b.openings readAhead pos' none)
    (hstay : (Cursor.settled piece pos').block = (Cursor.settled piece pos).block →
      reach'' = reach')
    (hleave : (Cursor.settled piece pos').block ≠ (Cursor.settled piece pos).block →
      reach'' = none) :
  piece.openingsAhead readAhead pos reach = piece.openingsAhead readAhead pos' reach''
  := by
  have hmono : (Cursor.settled piece pos).block ≤ (Cursor.settled piece pos').block :=
    passed_mono hle
  have hrest : (piece.blocks.drop ((Cursor.settled piece pos).block + 1)).flatMap
        (Block.openings readAhead pos none)
      = (piece.blocks.drop ((Cursor.settled piece pos).block + 1)).flatMap
        (Block.openings readAhead pos' none) :=
    List.flatMap_congr hbehind
  by_cases hsame : (Cursor.settled piece pos').block = (Cursor.settled piece pos).block
  · obtain rfl := hstay hsame
    rw [openingsAhead, openingsAhead, hsame]
    cases hdrop : piece.blocks.drop (Cursor.settled piece pos).block with
    | nil => rfl
    | cons b rest =>
        have hb : piece.blocks[(Cursor.settled piece pos).block]? = some b := by
          rw [← List.head?_drop, hdrop]
          rfl
        rw [← List.drop_drop, hdrop, List.drop_succ_cons, List.drop_zero] at hrest
        simp only
        rw [hhere b hb, hrest]
  · -- The block has been left behind, and all before the one reached with it.
    obtain rfl := hleave hsame
    have hlt : (Cursor.settled piece pos).block + 1 ≤ (Cursor.settled piece pos').block := by omega
    rw [openingsAhead_none hlaid, openings_eq_drop hlaid hlt, openingsAhead, ← hrest]
    cases hdrop : piece.blocks.drop (Cursor.settled piece pos).block with
    | nil => rw [← List.drop_drop, hdrop]; rfl
    | cons b rest =>
        have hb : piece.blocks[(Cursor.settled piece pos).block]? = some b := by
          rw [← List.head?_drop, hdrop]
          rfl
        have hpassed : b ∈ piece.blocks.take (Cursor.settled piece pos').block := by
          rw [List.mem_iff_getElem?]
          use (Cursor.settled piece pos).block
          rw [List.getElem?_take_of_lt hlt, hb]
        have hend := stop_le_of_mem_take_passed hpassed
        rw [← List.drop_drop, hdrop, List.drop_succ_cons, List.drop_zero]
        simp only
        rw [hhere b hb, Block.openings_eq_nil hlaid (List.mem_of_getElem? hb) hend,
          List.nil_append]

/-- While no payload byte is passed, what is still to be opened stays the same. -/
theorem openingsAhead_of_clear {reach' : Option Nat} (hlaid : piece.Laid) (hle : pos ≤ pos')
    (hclear : ∀ q, pos ≤ q → q < pos' → ∀ span, ¬ PayloadRest.At span piece q)
    (hstay : (Cursor.settled piece pos').block = (Cursor.settled piece pos).block →
      reach' = reach)
    (hleave : (Cursor.settled piece pos').block ≠ (Cursor.settled piece pos).block →
      reach' = none) :
  piece.openingsAhead readAhead pos reach = piece.openingsAhead readAhead pos' reach'
  := by
  have hall (reach : Option Nat) (b : Block) (hb : b ∈ piece.blocks) :
      b.openings readAhead pos reach = b.openings readAhead pos' reach := by
    cases b with
    | inline b => rfl
    | run r =>
        rw [Block.openings, Block.openings, ItemRun.openings, ItemRun.openings,
          ItemRun.stretches_congr hb hle hclear]
  apply openingsAhead_forward hlaid hle _ _ hstay hleave
  · exact fun b hb => hall reach b (List.mem_of_getElem? hb)
  · exact fun b hb => hall none b (List.mem_of_mem_drop hb)

end Piece

namespace PayloadRest.At

/-- Where a payload goes on, the run is the first to need ranges, and the blocks behind it follow.
-/
theorem openingsAhead_eq (hlaid : piece.Laid) (h : span.At piece pos) :
  piece.openingsAhead readAhead pos reach
    = span.run.openings readAhead pos reach
      ++ (piece.blocks.drop (span.block + 1)).flatMap (Block.openings readAhead pos none)
  := by
  obtain ⟨hlt, hget⟩ := List.getElem?_eq_some_iff.mp h.run_eq
  rw [Piece.openingsAhead, h.settled_eq hlaid, List.drop_eq_getElem_cons hlt, hget]
  rfl

/-- A stream that stands where the payload goes on has what is needed of the run to its end. -/
theorem openingsAhead_skip {reach' : Option Nat} {n : Nat} (hlaid : piece.Laid)
    (h : span.At piece pos) (hn : n ≤ span.remaining)
    (hstay : (Cursor.settled piece (pos + n)).block = (Cursor.settled piece pos).block →
      reach' = some (span.itemOffset + n))
    (hleave : (Cursor.settled piece (pos + n)).block ≠ (Cursor.settled piece pos).block →
      reach' = none) :
  piece.openingsAhead readAhead pos (some span.itemOffset)
    = piece.openingsAhead readAhead (pos + n) reach'
  := by
  have hblock : (Cursor.settled piece pos).block = span.block := by
    rw [h.settled_eq hlaid]
  apply Piece.openingsAhead_forward hlaid (Nat.le_add_right _ _) _ _ hstay hleave
  · intro b hb
    rw [hblock, h.run_eq] at hb
    cases hb
    apply (h.openings_skip hlaid hn).symm
  · intro b hb
    rw [hblock] at hb
    cases b with
    | inline b => rfl
    | run r =>
        obtain ⟨e, he, -, hsum⟩ := h.offset_add_remaining
        have hrun : .run span.run ∈ piece.blocks := List.mem_of_getElem? h.run_eq
        have hend := ((hlaid.entries_tiled hrun).bounds (List.mem_of_mem_drop he)).2.2
        have hnext : span.run.endOffset ≤ r.pieceOffset :=
          hlaid.blocks_tiled.stop_le_start h.run_eq hb
        rw [Block.openings, Block.openings, ItemRun.openings, ItemRun.openings,
          ItemRun.stretches_of_le (hlaid.entries_tiled (List.mem_of_mem_drop hb))
            (Nat.le_add_right pos n) (by omega)]

end PayloadRest.At

end PieceStream
