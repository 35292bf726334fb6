import Mathlib.Algebra.Order.BigOperators.Group.List
import Mathlib.Algebra.Order.Group.Nat
import Mathlib.Data.List.Infix
import Mathlib.Data.Nat.Find
import PieceStream.Proofs.Holdings

/-!
# Shortages

Sources in memory may lack bytes that a piece needs.  Reading goes well up to the first byte that is
not available: what is handed out before it are bytes of the content.  A read fails exactly if it
comes to that byte without having come to another payload byte before, and the failure tells what is
lacking.
-/

namespace PieceStream

/-- The store has all that the sources have. -/
def Registry.ExtendedBy (sources : Registry MemorySource) (store : Store) : Prop :=
  ∀ {r : ItemRun} {data : Bytes}, sources.item? r = some data → data <+: r.data store

/-- The content of the piece goes on with these bytes at `pos`, whatever stands for what the sources
lack. -/
def Registry.Shows (sources : Registry MemorySource) (piece : Piece) (pos : Nat) (bytes : Bytes) :
    Prop :=
  ∀ store, sources.ExtendedBy store → piece.HeldIn store → bytes <+: (piece.content store).drop pos

/-- Every payload byte between two offsets is available. -/
def Registry.HasBetween (sources : Registry MemorySource) (piece : Piece) (pos stop : Nat) : Prop :=
  ∀ q, pos ≤ q → q < stop → ∀ span : PayloadRest, span.At piece q → span.Available sources

/-- The payload byte at `pos` is the first of `span` and not available. -/
structure PayloadRest.Short (span : PayloadRest) (sources : Registry MemorySource) (piece : Piece)
    (pos : Nat) : Prop where
  at_pos : span.At piece pos
  not_available : ¬ span.Available sources

/-- The reader stands at `pos` and has not failed, and the stream that it holds goes on with its
item. -/
structure Registry.ReadyAt (sources : Registry MemorySource) (piece : Piece) (pos : Nat)
    (reader : Reader ScriptedStream) : Prop where
  cursor_eq : reader.cursor = Cursor.settled piece pos
  le_size : pos ≤ piece.size
  poisoned_eq : reader.poisoned = false
  backs : ∀ item, reader.held = some item → sources.Backs piece pos item

/-- Whether the reader has a stream open that serves the run of the payload. -/
def Reader.streams {S : Type} (reader : Reader S) (span : PayloadRest) : Bool :=
  reader.held.any fun item => item.block == span.block

namespace Registry

variable {sources : Registry MemorySource} {piece : Piece} {options : ReadOptions} {manner : Manner}
  {feed feed' : Feed (Registry ScriptedSource) SourceId} {span : PayloadRest} {pos stop : Nat}
  {reader : Reader ScriptedStream} {item : HeldStream ScriptedStream} {bytes : Bytes}

/-! ### Content -/

/-- Nothing is shown anywhere. -/
theorem shows_nil :
  sources.Shows piece pos []
  := fun _ _ _ => List.nil_prefix

/-- What is shown one after the other is shown together. -/
theorem Shows.append {more : Bytes} (h : sources.Shows piece pos bytes)
    (hmore : sources.Shows piece (pos + bytes.length) more) :
  sources.Shows piece pos (bytes ++ more)
  := by
  intro store hextended hheld
  obtain ⟨rest, hrest⟩ := h store hextended hheld
  have hdrop : (piece.content store).drop (pos + bytes.length) = rest := by
    rw [← List.drop_drop, ← hrest, List.drop_left]
  have hlead := hmore store hextended hheld
  rw [hdrop] at hlead
  rw [← hrest]
  apply (List.prefix_append_right_inj bytes).mpr hlead

/-- Bytes in memory are shown. -/
theorem shows_of_segment (hlaid : piece.Laid) (hpos : pos ≤ piece.size)
    (h : (Cursor.settled piece pos).segment piece = .bytes bytes) (n : Nat) :
  sources.Shows piece pos (bytes.take n)
  := by
  intro store _ hheld
  have hfollows := Cursor.segment_settled hlaid hheld hpos
  rw [h] at hfollows
  cases hfollows with
  | bytes hlead => apply (List.take_prefix n bytes).trans hlead

/-- Bytes of a payload that the item has are shown. -/
theorem shows_of_at {data : Bytes} {n : Nat} (hlaid : piece.Laid) (hspan : span.At piece pos)
    (hitem : sources.item? span.run = some data) (hn : n ≤ span.remaining) :
  sources.Shows piece pos ((data.drop span.itemOffset).take n)
  := by
  intro store hextended hheld
  have hpos : pos ≤ piece.size := Nat.le_trans (Nat.le_add_right _ _) (hspan.le_size hlaid)
  have hfollows := Cursor.segment_settled hlaid hheld hpos
  rw [(Cursor.segment_eq_payload_iff hlaid hpos).mpr hspan] at hfollows
  cases hfollows with
  | payload hfollows =>
      apply List.IsPrefix.trans _ hfollows.content_prefix
      apply List.prefix_take_iff.mpr
      refine ⟨(List.take_prefix _ _).trans ((hextended hitem).drop span.itemOffset), ?_⟩
      apply Nat.le_trans (List.length_take_le _ _) hn

/-! ### Readers -/

/-- The stream goes on with its item while the cursor moves forward within the run. -/
theorem Backs.forward {pos' : Nat} (h : sources.Backs piece pos item) (hle : pos ≤ pos')
    (hblock : (Cursor.settled piece pos').block = (Cursor.settled piece pos).block) :
  sources.Backs piece pos' item
  := by
  obtain ⟨hitem, r, data, limit, hr, hdata, hpos, hlimit, hstream⟩ := h
  refine ⟨hitem.trans hblock.symm, r, data, limit, hr, hdata, hpos, Nat.le_trans ?_ hlimit, hstream⟩
  rw [hitem] at hr
  apply ItemRun.furthestNeed_settled_anti hle hr hblock

/-- A reader at an offset of the piece is ready there. -/
theorem readyAt_startAt (hlaid : piece.Laid) (hpos : pos ≤ piece.size) :
  sources.ReadyAt piece pos (Reader.startAt (setting piece options manner) pos)
  := by
  refine ⟨Cursor.locate_eq hlaid hpos, hpos, rfl, fun item hitem => ?_⟩
  cases hitem

/-- Going forward a reader stays ready, and whether it streams a payload further on does not
change. -/
theorem readyAt_advance (options : ReadOptions) (manner : Manner) (n : Nat)
    (feed : Feed (Registry ScriptedSource) SourceId) (hlaid : piece.Laid)
    (h : sources.ReadyAt piece pos reader) (hn : pos + n ≤ piece.size) :
  sources.ReadyAt piece (pos + n) (reader.advance (setting piece options manner) n feed).1
    ∧ ∀ span : PayloadRest, (Cursor.settled piece (pos + n)).block ≤ span.block →
        (reader.advance (setting piece options manner) n feed).1.streams span = reader.streams span
  := by
  have hrun (hheld : reader.held ≠ none) :
      ∃ r, piece.blocks[(Cursor.settled piece pos).block]? = some (.run r) := by
    obtain ⟨item, hitem⟩ := Option.ne_none_iff_exists'.mp hheld
    obtain ⟨hblock, r, -, -, hr, -⟩ := h.backs item hitem
    rw [hblock] at hr
    exact ⟨r, hr⟩
  have hmono : (Cursor.settled piece pos).block ≤ (Cursor.settled piece (pos + n)).block :=
    passed_mono (Nat.le_add_right _ _)
  obtain ⟨hcursor, hpoisoned, hstay, hleave⟩ :=
    Reader.held_of_advance (setting piece options manner) n feed hlaid h.cursor_eq hrun
  by_cases hsame : (Cursor.settled piece (pos + n)).block = (Cursor.settled piece pos).block
  · have hheld := hstay hsame
    refine ⟨⟨hcursor, hn, hpoisoned.trans h.poisoned_eq, fun item hitem => ?_⟩, fun span _ => ?_⟩
    · rw [hheld] at hitem
      apply (h.backs item hitem).forward (Nat.le_add_right _ _) hsame
    · rw [Reader.streams, hheld, Reader.streams]
  · have hheld := hleave hsame
    refine ⟨⟨hcursor, hn, hpoisoned.trans h.poisoned_eq, fun item hitem => ?_⟩,
      fun span hspan => ?_⟩
    · rw [hheld] at hitem
      cases hitem
    · rw [Reader.streams, hheld, Reader.streams]
      cases hitem : reader.held with
      | none => rfl
      | some item =>
          have hblock := (h.backs item hitem).1
          have hne : item.block ≠ span.block := by omega
          simp [hne]

/-- What is handed out of an available payload ends before the first byte that is not available. -/
theorem add_length_le {data : Bytes} {n : Nat} (hlaid : piece.Laid) (hspan : span.At piece pos)
    (hitem : sources.item? span.run = some data) (hn : n ≤ span.remaining) (hpos : pos ≤ stop)
    (hstop : stop = piece.size ∨ ∃ span : PayloadRest, span.Short sources piece stop) :
  pos + ((data.drop span.itemOffset).take n).length ≤ stop
  := by
  have hlength : ((data.drop span.itemOffset).take n).length
      = min n (data.length - span.itemOffset) := by
    rw [List.length_take, List.length_drop]
  rcases hstop with rfl | ⟨span', hshort⟩
  · have := hspan.le_size hlaid
    omega
  · by_contra hbeyond
    have hskip := hspan.skip (n := stop - pos) (by omega)
    rw [Nat.add_sub_of_le hpos] at hskip
    obtain rfl := Cursor.eq_of_at hlaid hskip hshort.at_pos
    apply hshort.not_available
    refine ⟨data, hitem, ?_⟩
    simp only [PayloadRest.skip]
    omega

/-- Where the first byte of a payload is available some of it is handed out. -/
theorem exists_takeIn_of_available {room : Nat} (options : ReadOptions) (manner : Manner)
    (hlaid : piece.Laid) (h : sources.ReadyAt piece pos reader) (hfeed : sources.Feeds piece feed)
    (hspan : span.At piece pos) (havailable : span.Available sources) (hroom : 0 < room)
    (hpos : pos ≤ stop) (hsize : stop ≤ piece.size)
    (hstop : stop = piece.size ∨ ∃ span : PayloadRest, span.Short sources piece stop) :
  ∃ bytes reader' feed', reader.takeIn (setting piece options manner)
        ((setting piece options manner).takePayload reader.held span room feed)
      = (.ok bytes, reader', feed')
    ∧ bytes ≠ [] ∧ pos + bytes.length ≤ stop
    ∧ sources.Shows piece pos bytes ∧ sources.ReadyAt piece (pos + bytes.length) reader'
  := by
  obtain ⟨data, hitem, hoffset⟩ := havailable
  obtain ⟨item, feedA, htake, hbacks⟩ := exists_takePayload_of_available options manner hlaid hspan
    hfeed hroom hitem hoffset h.backs
  have hle : min span.remaining room ≤ span.remaining := Nat.min_le_left _ _
  have hend := add_length_le hlaid hspan hitem hle hpos hstop
  have hshows := shows_of_at hlaid hspan hitem hle
  have hpositive : 0 < ((data.drop span.itemOffset).take (min span.remaining room)).length := by
    have := hspan.remaining_pos
    rw [List.length_take, List.length_drop]
    omega
  have hready : sources.ReadyAt piece pos { reader with held := some item } := by
    refine ⟨h.cursor_eq, h.le_size, h.poisoned_eq, ?_⟩
    rintro _ ⟨⟩
    apply hbacks
  rw [htake]
  generalize (data.drop span.itemOffset).take (min span.remaining room) = bytes at *
  obtain ⟨hready', -⟩ :=
    readyAt_advance options manner bytes.length feedA hlaid hready (Nat.le_trans hend hsize)
  exact ⟨bytes, _, _, rfl, List.length_pos_iff.mp hpositive, hend, hshows, hready'⟩

/-- Filling a buffer goes well unless it comes to a byte that is not available before it comes to
any other payload byte. -/
theorem exists_gather {room : Nat} (hlaid : piece.Laid) (h : sources.ReadyAt piece pos reader)
    (hfeed : sources.Feeds piece feed) (hpos : pos ≤ stop) (hle_size : stop ≤ piece.size)
    (hhas : sources.HasBetween piece pos stop)
    (hstop : stop = piece.size ∨ ∃ span : PayloadRest, span.Short sources piece stop)
    (hroom : stop = piece.size ∨ ¬ (piece.ClearBetween pos stop ∧ stop - pos < room)) :
  ∃ bytes reader' feed', reader.gather (setting piece options manner) room feed
      = (.ok bytes, reader', feed')
    ∧ pos + bytes.length ≤ stop ∧ (bytes = [] → room = 0 ∨ pos = piece.size)
    ∧ sources.Shows piece pos bytes ∧ sources.ReadyAt piece (pos + bytes.length) reader'
  := by
  induction room using Nat.strongRecOn generalizing pos reader feed with
  | ind room ih =>
      rcases Nat.eq_zero_or_pos room with rfl | hpositive
      · exact ⟨[], reader, feed, Reader.gather_zero, hpos, fun _ => .inl rfl, shows_nil, h⟩
      · cases hseg : reader.cursor.segment piece with
        | finish =>
            have hsegment := hseg
            rw [h.cursor_eq] at hsegment
            have hend := (Cursor.segment_eq_finish_iff hlaid h.le_size).mp hsegment
            refine ⟨[], reader, feed, Reader.gather_of_finish hseg, hpos, fun _ => .inr hend,
              shows_nil, h⟩
        | bytes available =>
            have hsegment := hseg
            rw [h.cursor_eq] at hsegment
            have hne := List.length_pos_iff.mpr (Cursor.ne_nil_of_segment hseg)
            have hcopied : (available.take room).length = min room available.length :=
              List.length_take
            have hclear : piece.ClearBetween pos (pos + (available.take room).length) :=
              Cursor.clearBetween_of_segment hlaid h.le_size hsegment (by omega)
            have hsize := (Cursor.segment_add hlaid h.le_size hsegment).1
            have hle : pos + (available.take room).length ≤ stop := by
              by_contra hbeyond
              rcases hroom with hend | hroom
              · omega
              · apply hroom
                refine ⟨fun q hle hlt => hclear q hle (by omega), by omega⟩
            obtain ⟨hready, -⟩ := readyAt_advance options manner (available.take room).length feed
              hlaid h (by omega)
            have hroom' : stop = piece.size
                ∨ ¬ (piece.ClearBetween (pos + (available.take room).length) stop
                  ∧ stop - (pos + (available.take room).length)
                    < room - (available.take room).length) := by
              refine hroom.imp_right fun hroom hrest => ?_
              apply hroom
              refine ⟨fun q hq hlt => ?_, by omega⟩
              rcases Nat.lt_or_ge q (pos + (available.take room).length) with hbefore | hbehind
              · apply hclear q hq hbefore
              · apply hrest.1 q hbehind hlt
            obtain ⟨more, reader', feed', hgather, hmore, hnil, hshows, hready'⟩ :=
              ih (room - (available.take room).length) (by omega) hready
                (hfeed.leads Reader.leads_advance) hle
                (fun q hq => hhas q (Nat.le_trans (Nat.le_add_right _ _) hq)) hroom'
            refine ⟨available.take room ++ more, reader', feed', ?_, ?_, ?_, ?_, ?_⟩
            · rw [Reader.gather_of_bytes hpositive hseg]
              dsimp only
              rw [hgather]
              rfl
            · rw [List.length_append]
              omega
            · intro hempty
              rw [(List.append_eq_nil_iff.mp hempty).1] at hcopied
              rw [List.length_nil] at hcopied
              omega
            · apply (shows_of_segment hlaid h.le_size hsegment room).append hshows
            · rw [List.length_append, ← Nat.add_assoc]
              apply hready'
        | payload span =>
            have hsegment := hseg
            rw [h.cursor_eq] at hsegment
            have hspan := (Cursor.segment_eq_payload_iff hlaid h.le_size).mp hsegment
            have hlt : pos < stop := by
              have hsize := hspan.le_size hlaid
              have hremaining := hspan.remaining_pos
              rcases hroom with hend | hroom
              · omega
              · by_contra hge
                exact hroom ⟨fun q _ _ => by omega, by omega⟩
            obtain ⟨bytes, reader', feed', htake, hne, hend, hshows, hready⟩ :=
              exists_takeIn_of_available options manner hlaid h hfeed hspan
                (hhas pos (Nat.le_refl _) hlt span hspan) hpositive hpos hle_size hstop
            refine ⟨bytes, reader', feed', ?_, hend, fun hnil => absurd hnil hne, hshows, hready⟩
            rw [Reader.gather_of_payload hpositive hseg, htake]

/-- Filling a buffer fails if it comes to a byte that is not available before it comes to any other
payload byte. -/
theorem exists_gather_of_shortage {room : Nat} (options : ReadOptions) (manner : Manner)
    (hlaid : piece.Laid) (h : sources.ReadyAt piece pos reader) (hfeed : sources.Feeds piece feed)
    (hpos : pos ≤ stop) (hshort : span.Short sources piece stop)
    (hclear : piece.ClearBetween pos stop) (hroom : stop - pos < room) :
  ∃ reader' feed', reader.gather (setting piece options manner) room feed
    = (.error (span.shortage sources (reader.streams span)), reader', feed')
  := by
  induction room using Nat.strongRecOn generalizing pos reader feed with
  | ind room ih =>
      have hpositive : 0 < room := Nat.lt_of_le_of_lt (Nat.zero_le _) hroom
      have hsize := hshort.at_pos.le_size hlaid
      have hremaining := hshort.at_pos.remaining_pos
      cases hseg : reader.cursor.segment piece with
      | finish =>
          rw [h.cursor_eq] at hseg
          have hend := (Cursor.segment_eq_finish_iff hlaid h.le_size).mp hseg
          omega
      | bytes available =>
          have hsegment := hseg
          rw [h.cursor_eq] at hsegment
          have hne := List.length_pos_iff.mpr (Cursor.ne_nil_of_segment hseg)
          have hle : pos + available.length ≤ stop := by
            by_contra hbeyond
            apply Cursor.clearBetween_of_segment hlaid h.le_size hsegment (Nat.le_refl _) stop hpos
              (by omega) span hshort.at_pos
          have hcopied : (available.take room).length = available.length := by
            rw [List.length_take]
            omega
          obtain ⟨hready, hstreams⟩ := readyAt_advance options manner available.length feed hlaid h
            (by omega)
          have hblock : (Cursor.settled piece (pos + available.length)).block ≤ span.block := by
            have hmono : (Cursor.settled piece (pos + available.length)).block
                ≤ (Cursor.settled piece stop).block := passed_mono hle
            rwa [hshort.at_pos.settled_eq hlaid] at hmono
          obtain ⟨reader', feed', hgather⟩ := ih (room - available.length) (by omega) hready
            (hfeed.leads Reader.leads_advance) hle
            (fun q hq => hclear q (Nat.le_trans (Nat.le_add_right _ _) hq)) (by omega)
          rw [hstreams span hblock] at hgather
          refine ⟨reader', feed', ?_⟩
          rw [Reader.gather_of_bytes hpositive hseg]
          dsimp only
          rw [hcopied, hgather]
          rfl
      | payload span' =>
          have hsegment := hseg
          rw [h.cursor_eq] at hsegment
          have hspan := (Cursor.segment_eq_payload_iff hlaid h.le_size).mp hsegment
          rcases Nat.lt_or_eq_of_le hpos with hlt | rfl
          · exact absurd hspan (hclear pos (Nat.le_refl _) hlt span')
          · obtain rfl := Cursor.eq_of_at hlaid hspan hshort.at_pos
            obtain ⟨held', feed', htake⟩ := exists_takePayload_of_shortage options manner room hlaid
              hspan hfeed hshort.not_available h.backs
            have hstreams : reader.streams span' = reader.held.isSome := by
              rw [Reader.streams]
              cases hheld : reader.held with
              | none => rfl
              | some item =>
                  have hblock := (h.backs item hheld).1
                  rw [hspan.settled_eq hlaid] at hblock
                  simp [hblock]
            rw [Reader.gather_of_payload hpositive hseg, htake, hstreams]
            exact ⟨_, _, rfl⟩

/-- A read goes well unless it comes to a byte that is not available before it comes to any other
payload byte. -/
theorem exists_read {size : Nat} (options : ReadOptions) (manner : Manner) (hlaid : piece.Laid)
    (h : sources.ReadyAt piece pos reader) (hfeed : sources.Feeds piece feed) (hpos : pos ≤ stop)
    (hle : stop ≤ piece.size) (hhas : sources.HasBetween piece pos stop)
    (hstop : stop = piece.size ∨ ∃ span : PayloadRest, span.Short sources piece stop)
    (hsize : stop = piece.size ∨ ¬ (piece.ClearBetween pos stop ∧ stop - pos < size)) :
  ∃ bytes reader' feed', reader.read (setting piece options manner) size feed
      = (.ok bytes, reader', feed')
    ∧ pos + bytes.length ≤ stop ∧ (bytes = [] → size = 0 ∨ pos = piece.size)
    ∧ sources.Shows piece pos bytes ∧ sources.ReadyAt piece (pos + bytes.length) reader'
  := by
  obtain ⟨bytes, reader', feed', hgather, hready⟩ :=
    exists_gather hlaid h hfeed hpos hle hhas hstop hsize
  refine ⟨bytes, reader', feed', ?_, hready⟩
  rw [Reader.read, h.poisoned_eq, hgather]
  rfl

/-- A read fails if it comes to a byte that is not available before it comes to any other payload
byte. -/
theorem exists_read_of_shortage {size : Nat} (options : ReadOptions) (manner : Manner)
    (hlaid : piece.Laid) (h : sources.ReadyAt piece pos reader) (hfeed : sources.Feeds piece feed)
    (hpos : pos ≤ stop) (hshort : span.Short sources piece stop)
    (hclear : piece.ClearBetween pos stop) (hsize : stop - pos < size) :
  ∃ reader' feed', reader.read (setting piece options manner) size feed
    = (.error (span.shortage sources (reader.streams span)), reader', feed')
  := by
  obtain ⟨reader', feed', hgather⟩ :=
    exists_gather_of_shortage options manner hlaid h hfeed hpos hshort hclear hsize
  rw [Reader.read, h.poisoned_eq, hgather]
  exact ⟨_, _, rfl⟩

end Registry

/-! ### Families -/

/-- What a read handed out, or why it failed. -/
def Reply.outcome? : Reply → Option (Except ReadError Bytes)
  | .bytes outcome => some outcome
  | _ => none

/-- The outcomes of the reads of one member. -/
def Reply.outcomesOf (index : Nat) (commands : List (Nat × Command)) (replies : List Reply) :
    List (Except ReadError Bytes) :=
  (commands.zip replies).filterMap fun (command, reply) =>
    if command.1 = index then reply.outcome? else none

/-- The byte at `stop` is the first payload byte at or after `pos` that is not available. -/
structure Registry.FirstShortage (sources : Registry MemorySource) (piece : Piece) (pos stop : Nat)
    (span : PayloadRest) : Prop where
  le : pos ≤ stop
  short : span.Short sources piece stop
  before : sources.HasBetween piece pos stop

namespace Registry

variable {sources : Registry MemorySource} {piece : Piece} {options : ReadOptions} {manner : Manner}
  {span : PayloadRest} {pos stop index : Nat} {reader : Reader ScriptedStream}
  {family : Family (Registry ScriptedSource) SourceId ScriptedStream}
  {commands : List (Nat × Command)} {portions : List Bytes}

/-- The outcome of a read of the member comes first. -/
theorem outcomesOf_cons_self {command : Command} {outcome : Except ReadError Bytes}
    {replies : List Reply} :
  Reply.outcomesOf index ((index, command) :: commands) (.bytes outcome :: replies)
    = outcome :: Reply.outcomesOf index commands replies
  := by
  simp [Reply.outcomesOf, Reply.outcome?]

/-- What others are told does not count. -/
theorem outcomesOf_cons_of_ne {i : Nat} {command : Command} {reply : Reply} {replies : List Reply}
    (hne : i ≠ index) :
  Reply.outcomesOf index ((i, command) :: commands) (reply :: replies)
    = Reply.outcomesOf index commands replies
  := by
  simp [Reply.outcomesOf, hne]

/-- While the reads of a member go well, what they hand out are bytes of the content up to the first
byte that is not available. -/
theorem exists_member (hlaid : piece.Laid) (h : sources.ReadyAt piece pos reader)
    (hfeed : sources.Feeds piece family.feed) (hmember : family.member? index = some reader)
    (hreads : ∀ c ∈ commands, c.1 = index → ∃ size, 0 < size ∧ c.2 = .read size)
    (hportions : Reply.outcomesOf index commands
        (family.runAll (setting piece options manner) commands).1 = portions.map .ok)
    (hpos : pos ≤ stop) (hle : stop ≤ piece.size) (hhas : sources.HasBetween piece pos stop)
    (hstop : stop = piece.size ∨ ∃ span : PayloadRest, span.Short sources piece stop) :
  ∃ reader', (family.runAll (setting piece options manner) commands).2.member? index = some reader'
    ∧ pos + portions.flatten.length ≤ stop ∧ sources.Shows piece pos portions.flatten
    ∧ sources.ReadyAt piece (pos + portions.flatten.length) reader'
  := by
  induction commands generalizing family reader pos portions with
  | nil =>
      obtain rfl : portions = [] := List.map_eq_nil_iff.mp hportions.symm
      exact ⟨reader, hmember, hpos, shows_nil, h⟩
  | cons c commands ih =>
      obtain ⟨i, command⟩ := c
      have hreads' := fun c hc => hreads c (List.mem_cons_of_mem _ hc)
      have hfeed' : sources.Feeds piece
          (family.run (setting piece options manner) i command).2.feed :=
        hfeed.leads (Family.leads_run i command family)
      rw [Family.runAll_cons] at hportions ⊢
      by_cases hi : i = index
      · subst hi
        obtain ⟨size, hsize, rfl⟩ : ∃ size, 0 < size ∧ command = .read size :=
          hreads _ List.mem_cons_self rfl
        by_cases hgood : stop = piece.size ∨ ¬ (piece.ClearBetween pos stop ∧ stop - pos < size)
        · obtain ⟨bytes, reader', feed', hread, hend, -, hshows, hready⟩ :=
            exists_read options manner hlaid h hfeed hpos hle hhas hstop hgood
          have hrun : family.run (setting piece options manner) i (.read size)
              = (.bytes (.ok bytes), family.update i reader' feed') := by
            simp only [Family.run, Family.runBy, hmember, hread]
          rw [hrun] at hportions hfeed' ⊢
          rw [outcomesOf_cons_self] at hportions
          obtain ⟨_, portions', hsplit, hbytes, hrest⟩ := List.map_eq_cons_iff.mp hportions.symm
          cases hbytes
          subst hsplit
          obtain ⟨reader'', hmember'', hend', hshows', hready'⟩ := ih hready hfeed'
            (Family.member?_update hmember) hreads' hrest.symm hend
            (fun q hq => hhas q (Nat.le_trans (Nat.le_add_right _ _) hq))
          rw [List.flatten_cons, List.length_append, ← Nat.add_assoc]
          exact ⟨reader'', hmember'', hend', hshows.append hshows', hready'⟩
        · -- A read that fails leaves no portion.
          rw [not_or, not_not] at hgood
          obtain ⟨hne, hclear, hroom⟩ := hgood
          obtain ⟨span, hshort⟩ := hstop.resolve_left hne
          obtain ⟨reader', feed', hread⟩ :=
            exists_read_of_shortage options manner hlaid h hfeed hpos hshort hclear hroom
          have hrun : family.run (setting piece options manner) i (.read size)
              = (.bytes (.error (span.shortage sources (reader.streams span))),
                family.update i reader' feed') := by
            simp only [Family.run, Family.runBy, hmember, hread]
          rw [hrun, outcomesOf_cons_self] at hportions
          obtain ⟨_, _, -, herror, -⟩ := List.map_eq_cons_iff.mp hportions.symm
          cases herror
      · rw [outcomesOf_cons_of_ne hi] at hportions
        apply ih h hfeed' (Family.member?_run_of_ne hi hmember) hreads' hportions hpos hhas

/-- A byte of the piece that is not available comes before the end. -/
theorem FirstShortage.lt_size (hlaid : piece.Laid)
    (h : sources.FirstShortage piece pos stop span) :
  stop < piece.size
  := by
  have hsize := h.short.at_pos.le_size hlaid
  have hremaining := h.short.at_pos.remaining_pos
  omega

/-- There is an offset up to which all payload bytes are available, and which is the end or has a
payload byte that is not. -/
theorem exists_stop (sources : Registry MemorySource) (hlaid : piece.Laid)
    (hpos : pos ≤ piece.size) :
  ∃ stop, pos ≤ stop ∧ stop ≤ piece.size ∧ sources.HasBetween piece pos stop
    ∧ (stop = piece.size ∨ ∃ span : PayloadRest, span.Short sources piece stop)
  := by
  classical
  by_cases hshort : ∃ q, pos ≤ q ∧ ∃ span : PayloadRest, span.Short sources piece q
  · obtain ⟨hle, span, hspan⟩ := Nat.find_spec hshort
    have hfirst : sources.FirstShortage piece pos (Nat.find hshort) span := by
      refine ⟨hle, hspan, fun q hq hlt span hat => ?_⟩
      by_contra hlacks
      exact Nat.find_min hshort hlt ⟨hq, span, hat, hlacks⟩
    exact ⟨_, hle, Nat.le_of_lt (hfirst.lt_size hlaid), hfirst.before, .inr ⟨span, hspan⟩⟩
  · refine ⟨piece.size, hpos, Nat.le_refl _, fun q hq _ span hat => ?_, .inl rfl⟩
    by_contra hlacks
    exact hshort ⟨q, hq, span, hat, hlacks⟩

/-- The first shortage is where the bytes that are available stop. -/
theorem FirstShortage.stop_eq {stop' : Nat} (hlaid : piece.Laid)
    (h : sources.FirstShortage piece pos stop' span) (hle : pos ≤ stop)
    (hhas : sources.HasBetween piece pos stop)
    (hstop : stop = piece.size ∨ ∃ span : PayloadRest, span.Short sources piece stop) :
  stop' = stop
  := by
  have hlt := h.lt_size hlaid
  rcases Nat.lt_trichotomy stop' stop with hbefore | heq | hbehind
  · exact absurd (hhas stop' h.le hbefore span h.short.at_pos) h.short.not_available
  · apply heq
  · obtain ⟨span', hshort⟩ := hstop.resolve_left (by omega)
    exact absurd (h.before stop hle hbehind span' hshort.at_pos) hshort.not_available

/-- What comes of one read, given how far the payload bytes from an offset on are available. -/
theorem exists_outcome {offset size : Nat} {feed : Feed (Registry ScriptedSource) SourceId}
    (options : ReadOptions) (manner : Manner) (hlaid : piece.Laid)
    (h : sources.ReadyAt piece pos reader) (hfeed : sources.Feeds piece feed) (hsize : 0 < size)
    (hoffset : offset ≤ pos) (hpos : pos ≤ stop) (hle : stop ≤ piece.size)
    (hhas : sources.HasBetween piece offset stop)
    (hstop : stop = piece.size ∨ ∃ span : PayloadRest, span.Short sources piece stop) :
  ∃ outcome reader' feed',
    reader.read (setting piece options manner) size feed = (outcome, reader', feed')
    ∧ (∀ stop span, sources.FirstShortage piece offset stop span →
        pos ≤ stop
        ∧ ((∃ e, outcome = .error e) ↔ piece.ClearBetween pos stop ∧ stop - pos < size)
        ∧ (∀ e, outcome = .error e → e = span.shortage sources (reader.streams span))
        ∧ ∀ bytes, outcome = .ok bytes → bytes ≠ [] ∧ pos + bytes.length ≤ stop
            ∧ sources.Shows piece pos bytes)
    ∧ (sources.HasBetween piece offset piece.size →
        ∃ bytes, outcome = .ok bytes ∧ pos + bytes.length ≤ piece.size
          ∧ (bytes = [] ↔ pos = piece.size) ∧ sources.Shows piece pos bytes)
  := by
  have hhere : offset ≤ stop := Nat.le_trans hoffset hpos
  have hhas' : sources.HasBetween piece pos stop := fun q hq => hhas q (Nat.le_trans hoffset hq)
  by_cases hgood : stop = piece.size ∨ ¬ (piece.ClearBetween pos stop ∧ stop - pos < size)
  · obtain ⟨bytes, reader', feed', hread, hbytes, hnil, hshows, -⟩ :=
      exists_read options manner hlaid h hfeed hpos hle hhas' hstop hgood
    refine ⟨.ok bytes, reader', feed', hread, fun stop' span hfirst => ?_, fun hall => ?_⟩
    · have hlt := hfirst.lt_size hlaid
      obtain rfl := hfirst.stop_eq hlaid hhere hhas hstop
      have hgood' := hgood.resolve_left (Nat.ne_of_lt hlt)
      refine ⟨hpos, ⟨?_, fun hbad => absurd hbad hgood'⟩, ?_, ?_⟩
      · rintro ⟨e, ⟨⟩⟩
      · rintro e ⟨⟩
      · rintro _ ⟨⟩
        refine ⟨fun hempty => ?_, hbytes, hshows⟩
        have := hnil hempty
        omega
    · obtain rfl : stop = piece.size := by
        by_contra hne
        obtain ⟨span, hshort⟩ := hstop.resolve_left hne
        have hlt := FirstShortage.lt_size hlaid ⟨hhere, hshort, hhas⟩
        exact hshort.not_available (hall stop hhere hlt span hshort.at_pos)
      refine ⟨bytes, rfl, hbytes, ⟨fun hempty => ?_, fun heq => ?_⟩, hshows⟩
      · have := hnil hempty
        omega
      · apply List.eq_nil_of_length_eq_zero
        omega
  · rw [not_or, not_not] at hgood
    obtain ⟨hne, hclear, hroom⟩ := hgood
    obtain ⟨span, hshort⟩ := hstop.resolve_left hne
    have hlt := FirstShortage.lt_size hlaid ⟨hhere, hshort, hhas⟩
    obtain ⟨reader', feed', hread⟩ :=
      exists_read_of_shortage options manner hlaid h hfeed hpos hshort hclear hroom
    refine ⟨.error (span.shortage sources (reader.streams span)), reader', feed', hread,
      fun stop' span' hfirst => ?_, fun hall => ?_⟩
    · obtain rfl := hfirst.stop_eq hlaid hhere hhas hstop
      obtain rfl := Cursor.eq_of_at hlaid hshort.at_pos hfirst.short.at_pos
      refine ⟨hpos, ⟨fun _ => ⟨hclear, hroom⟩, fun _ => ⟨_, rfl⟩⟩, ?_, ?_⟩
      · rintro _ ⟨⟩
        rfl
      · rintro bytes ⟨⟩
    · exact absurd (hall stop hhere hlt span hshort.at_pos) hshort.not_available

/-- A store that has all that the sources have and all that the piece needs can be had. -/
theorem exists_extendedBy (sources : Registry MemorySource) (piece : Piece) :
  ∃ store, sources.ExtendedBy store ∧ piece.HeldIn store
  := by
  have hneeds (r : ItemRun) (hr : .run r ∈ piece.blocks) (e : RunEntry) (he : e ∈ r.entries) :
      e.itemEnd ≤ ((piece.blocks.filterMap Block.asRun?).map fun r => r.furthestNeed 0).sum := by
    have hrun : r ∈ piece.blocks.filterMap Block.asRun? :=
      List.mem_filterMap.mpr ⟨.run r, hr, rfl⟩
    have hneed : e.itemEnd ≤ r.furthestNeed 0 :=
      ItemRun.furthestNeed_le_iff.mp (Nat.le_refl _) e (by simpa using he)
    apply Nat.le_trans hneed
    apply List.single_le_sum (fun _ _ => Nat.zero_le _)
    apply List.mem_map_of_mem hrun
  refine ⟨fun source path =>
    (((sources.get? source).bind fun source => source.get? path).getD [])
      ++ List.replicate ((piece.blocks.filterMap Block.asRun?).map fun r =>
        r.furthestNeed 0).sum 0, ?_, ?_⟩
  · intro r data hitem
    rw [ItemRun.data]
    have hitem : ((sources.get? r.source).bind fun source => source.get? r.item.path)
      = some data := hitem
    rw [hitem]
    apply List.prefix_append
  · intro r hr e he _
    apply Nat.le_trans (hneeds r hr e he)
    rw [ItemRun.data, List.length_append, List.length_replicate]
    apply Nat.le_add_left

/-- Where sources show as many bytes twice they show the same, whatever the sources lack. -/
theorem Shows.eq_of_length_eq {bytes bytes' : Bytes} (h : sources.Shows piece pos bytes)
    (h' : sources.Shows piece pos bytes') (hlength : bytes.length = bytes'.length) :
  bytes = bytes'
  := by
  obtain ⟨store, hextended, hheld⟩ := exists_extendedBy sources piece
  have hprefix : bytes <+: bytes' := List.prefix_of_prefix_length_le (h store hextended hheld)
    (h' store hextended hheld) (Nat.le_of_eq hlength)
  apply hprefix.eq_of_length hlength

end Registry

namespace Family

variable {sources : Registry MemorySource} {piece : Piece} {options : ReadOptions} {manner : Manner}
  {family : Family (Registry ScriptedSource) SourceId ScriptedStream} {portions : List Bytes}
  {before after : List (Nat × Command)} {index offset size : Nat}

open Registry

/-- Over sources in memory the reads of a reader that has been made at an offset go well up to the
first payload byte that is not available: the read that comes to that byte before it comes to any
other payload byte fails with the failure to get it, and all reads before hand out bytes of the
content.  If there is no such byte reads go well to the end. -/
theorem read_reports_first_shortage {plan : Plan} (hbuild : plan.build = .ok piece)
    (hfamily : ((start (setting piece options manner) sources.unscripted).runAll
        (setting piece options manner) before).2 = family)
    (hreader : family.member? index = some (Reader.startAt (setting piece options manner) offset))
    (hoffset : offset ≤ piece.size)
    (hreads : ∀ c ∈ after, c.1 = index → ∃ size, 0 < size ∧ c.2 = .read size)
    (hportions : Reply.outcomesOf index after
        (family.runAll (setting piece options manner) after).1 = portions.map .ok)
    (hsize : 0 < size) :
  ∃ reader outcome,
    (family.runAll (setting piece options manner) after).2.member? index = some reader
    ∧ ((family.runAll (setting piece options manner) after).2.run (setting piece options manner)
        index (.read size)).1 = .bytes outcome
    ∧ reader.position = offset + portions.flatten.length
    ∧ sources.Shows piece offset portions.flatten
    ∧ (∀ stop span, sources.FirstShortage piece offset stop span →
        reader.position ≤ stop
        ∧ ((∃ e, outcome = .error e)
            ↔ piece.ClearBetween reader.position stop ∧ stop - reader.position < size)
        ∧ (∀ e, outcome = .error e → e = span.shortage sources (reader.streams span))
        ∧ ∀ bytes, outcome = .ok bytes → bytes ≠ [] ∧ reader.position + bytes.length ≤ stop
            ∧ sources.Shows piece reader.position bytes)
    ∧ (sources.HasBetween piece offset piece.size →
        ∃ bytes, outcome = .ok bytes ∧ reader.position + bytes.length ≤ piece.size
          ∧ (bytes = [] ↔ reader.position = piece.size)
          ∧ sources.Shows piece reader.position bytes)
  := by
  have hlaid := Plan.laid_of_build hbuild
  have hstart : sources.Feeds piece
      (start (setting piece options manner) sources.unscripted).feed := feeds_start
  have hfeed : sources.Feeds piece family.feed := by
    rw [← hfamily]
    apply hstart.leads (leads_runAll before _)
  obtain ⟨stop, hle, hend, hhas, hstop⟩ := exists_stop sources hlaid hoffset
  obtain ⟨reader, hmember, hpos, hshows, hready⟩ := exists_member hlaid
    (readyAt_startAt hlaid hoffset) hfeed hreader hreads hportions hle hend hhas hstop
  have hposition : reader.position = offset + portions.flatten.length :=
    congrArg Cursor.pos hready.cursor_eq
  have hfeed' : sources.Feeds piece
      (family.runAll (setting piece options manner) after).2.feed :=
    hfeed.leads (leads_runAll after family)
  obtain ⟨outcome, reader', feed', hread, hfate⟩ := exists_outcome options manner hlaid hready
    hfeed' hsize (Nat.le_add_right _ _) hpos hend hhas hstop
  rw [← hposition] at hfate
  refine ⟨reader, outcome, hmember, ?_, hposition, hshows, hfate⟩
  simp only [run, runBy, hmember, hread]

/-- An item ends within a gap that a reader passes over, after two reads that have gone well. -/
theorem read_reports_first_shortage_in_gap :
  let item : Item := ⟨⟨1⟩, "a", 7⟩
  let sources : Registry MemorySource := ⟨[(⟨0⟩, ⟨[("a", [10, 11, 12])]⟩)]⟩
  let plan : Plan :=
    ⟨[1, 2], 10,
      [.item 2 [7] [8] ⟨0⟩ item 0 2, .item 6 [] [] ⟨0⟩ item 5 2, .inline 8 [] [] [5, 6]]⟩
  let run : ItemRun := ⟨⟨0⟩, item, ⟨⟨2, [7], [8]⟩, 0, 2⟩, [⟨⟨6, [], []⟩, 5, 2⟩]⟩
  let piece : Piece := ⟨[1, 2], 10, [.run run, .inline ⟨⟨8, [], []⟩, [5, 6]⟩]⟩
  let setting := Registry.setting piece .standard .blocking
  let family := start setting sources.unscripted
  let after : List (Nat × Command) := [(0, .read 5), (0, .read 9)]
  plan.build = .ok piece ∧ sources.FirstShortage piece 0 6 ⟨0, run, 1, 5, 2⟩
    ∧ ((family.runAll setting after).2.run setting 0 (.read 9)).1
        = .bytes (.error (.unexpectedEnd "a" 3))
  := by
  intro item sources plan run piece setting family after
  have hbuild : plan.build = .ok piece := rfl
  have hfirst : sources.FirstShortage piece 0 6 ⟨0, run, 1, 5, 2⟩ := by
    refine ⟨Nat.zero_le _, ⟨⟨rfl, _, rfl, by decide⟩, ?_⟩, fun q _ hq span hspan => ?_⟩
    · rintro ⟨data, hdata, hlt⟩
      cases hdata
      revert hlt
      decide
    · obtain ⟨block, r, entry, itemOffset, remaining⟩ := span
      obtain ⟨hr, e, he, hstart, -, hoffset, -⟩ := hspan
      match block with
      | 0 =>
          obtain rfl : run = r := Block.run.inj (Option.some.inj hr)
          match entry with
          | 0 =>
              cases he
              refine ⟨[10, 11, 12], rfl, ?_⟩
              simp [run, Framing.payloadOffset, Framing.identifierOffset] at hstart hoffset ⊢
              omega
          | 1 =>
              cases he
              simp [Framing.payloadOffset, Framing.identifierOffset] at hstart
              omega
          | _ + 2 => cases he
      | 1 => cases hr
      | _ + 2 => cases hr
  have hfamily : ((start setting sources.unscripted).runAll setting []).2 = family := rfl
  have hreads : ∀ c ∈ after, c.1 = 0 → ∃ size, 0 < size ∧ c.2 = .read size := by
    simp [after]
  have hportions : Reply.outcomesOf 0 after (family.runAll setting after).1
      = [[1, 2, 7, 8, 10], [11]].map .ok := by decide +kernel
  have hsize : 0 < 9 := by decide
  obtain ⟨reader, outcome, hmember, hreply, hposition, -, hfate, -⟩ := read_reports_first_shortage
    hbuild hfamily rfl (Nat.zero_le _) hreads hportions hsize
  have hstreams : ((family.runAll setting after).2.member? 0).map
      (·.streams ⟨0, run, 1, 5, 2⟩) = some true := by decide +kernel
  rw [hmember] at hstreams
  have hstreams : reader.streams ⟨0, run, 1, 5, 2⟩ = true := Option.some.inj hstreams
  obtain ⟨-, hfails, hshortage, -⟩ := hfate 6 _ hfirst
  have hfails : ∃ e, outcome = .error e := by
    apply hfails.mpr
    rw [hposition]
    exact ⟨fun q hle hlt => absurd hlt (Nat.not_lt_of_le hle), by decide⟩
  obtain ⟨e, rfl⟩ := hfails
  refine ⟨hbuild, hfirst, ?_⟩
  rw [hreply, hshortage e rfl, hstreams]
  rfl

end Family

end PieceStream
