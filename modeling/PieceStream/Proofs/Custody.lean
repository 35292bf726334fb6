import PieceStream.Proofs.Compaction
import PieceStream.Proofs.Tallies

/-!
# The stream held

Whatever readers are told and whatever their sources answer, a stream that a reader holds is one of
the run in which the reader stands, and it stands behind the last payload byte before the reader.
Payload bytes that are handed out move both alike, bytes in memory move neither past a payload
byte, and at the end of the run the stream is given up.
-/

namespace PieceStream

variable {W H S : Type}

/-- The last payload byte of an item before `pos` is at `last` and the first of `span`. -/
structure Piece.LastPayload (piece : Piece) (pos last : Nat) (span : PayloadRest) : Prop where
  lt : last < pos
  at_last : span.At piece last
  clear : piece.ClearBetween (last + 1) pos

/-- The item offset behind the last payload byte of the run before `pos`, an offset that the entry
of that index holds: a byte of that entry, or else the last one of the nearest entry before it that
has any. -/
def ItemRun.delivered (r : ItemRun) (entry pos : Nat) : Option Nat :=
  match r.entries[entry]? with
  | none => none
  | some e =>
    if e.payloadOffset < pos then some (e.itemOffset + (pos - e.payloadOffset))
    else ((r.entries.take entry).filter (0 < ·.itemLength)).getLast?.map RunEntry.itemEnd

/-- The stream is one of the run of the last payload byte before `pos` and stands behind it. -/
def HeldStream.Follows (piece : Piece) (pos : Nat) (item : HeldStream S) : Prop :=
  ∃ last span, piece.LastPayload pos last span ∧ item.block = span.block
    ∧ item.source = span.run.source ∧ item.itemPos = span.itemOffset + 1

/-- The reader stands at `pos`, and a stream that it holds follows what it has handed out. -/
structure Reader.Attended (piece : Piece) (pos : Nat) (reader : Reader S) : Prop
    extends reader.StandsAt piece pos where
  sound : reader.held ≠ none → reader.poisoned = false
  follows : ∀ item, reader.held = some item → item.Follows piece pos

variable {setting : Setting W H S} {piece : Piece} {pos last : Nat} {span : PayloadRest}
  {reader reader' : Reader S} {feed feed' : Feed W H} {item item' : HeldStream S}

/-! ### The last payload byte -/

/-- The last of the members before an index of which something holds. -/
theorem getLast?_filter_take {α : Type} {p : α → Bool} {l : List α} {i j : Nat} {x : α}
    (hij : i < j) (hx : l[i]? = some x) (hp : p x = true)
    (hgap : ∀ y ∈ (l.take j).drop (i + 1), p y = false) :
  ((l.take j).filter p).getLast? = some x
  := by
  have hget : (l.take j)[i]? = some x := by rw [List.getElem?_take_of_lt hij, hx]
  obtain ⟨hi, hval⟩ := List.getElem?_eq_some_iff.mp hget
  have hrest : ((l.take j).drop (i + 1)).filter p = [] := by
    apply List.filter_eq_nil_iff.mpr
    intro y hy
    rw [hgap y hy]
    exact Bool.false_ne_true
  rw [← List.take_append_drop i (l.take j), List.drop_eq_getElem_cons hi, hval, List.filter_append,
    List.filter_cons_of_pos hp, hrest]
  apply List.getLast?_concat

/-- Where there is no payload byte, no entry of a run has one. -/
theorem Piece.ClearBetween.not_mem_entry {stop index q : Nat} {r : ItemRun} {e : RunEntry}
    (h : piece.ClearBetween pos stop) (hr : piece.blocks[index]? = some (.run r))
    (he : e ∈ r.entries) (hle : pos ≤ q) (hlt : q < stop) :
  ¬ (e.payloadOffset ≤ q ∧ q < e.endOffset)
  := by
  rintro ⟨hstart, hend⟩
  obtain ⟨k, hk⟩ := List.mem_iff_getElem?.mp he
  exact h q hle hlt ⟨index, r, k, e.itemOffset + (q - e.payloadOffset), e.endOffset - q⟩
    ⟨hr, e, hk, hstart, hend, rfl, rfl⟩

/-- The byte behind the last payload byte is at the offset reached or behind the payload. -/
theorem Piece.LastPayload.next_eq {e : RunEntry} (h : piece.LastPayload pos last span)
    (he : span.run.entries[span.entry]? = some e) (hstart : e.payloadOffset ≤ last)
    (hstop : last < e.endOffset) :
  last + 1 = min pos e.endOffset
  := by
  have hlt := h.lt
  by_contra hne
  have hclear := h.clear.not_mem_entry h.at_last.run_eq (List.mem_of_getElem? he)
    (Nat.le_refl (last + 1)) (by omega)
  omega

/-- An entry behind the last payload byte has no payload, or none of it before the offset
reached. -/
theorem Piece.LastPayload.empty_or_le (hlaid : piece.Laid) (h : piece.LastPayload pos last span)
    {f : RunEntry} (hf : f ∈ span.run.entries.drop (span.entry + 1)) :
  f.itemLength = 0 ∨ pos ≤ f.payloadOffset
  := by
  obtain ⟨e, he, -, hstop, -, -⟩ := h.at_last.exists_entry
  have hr := h.at_last.run_eq
  have htiled := hlaid.entries_tiled (List.mem_of_getElem? hr)
  have hafter := htiled.stop_le_start he hf
  have hframing := f.toFraming.pieceOffset_le
  by_contra hpayload
  have hclear := h.clear.not_mem_entry (q := f.payloadOffset) hr (List.mem_of_mem_drop hf)
    (by omega) (by omega)
  rw [RunEntry.endOffset_eq] at hclear
  omega

/-- Of a run whose entry at an offset has handed out nothing, the last byte delivered is that of the
nearest entry before it with a payload. -/
theorem ItemRun.delivered_of_earlier {r : ItemRun} {i j : Nat} {before e : RunEntry} (hij : i < j)
    (hbefore : r.entries[i]? = some before) (he : r.entries[j]? = some e)
    (hlength : 0 < before.itemLength) (hpos : pos ≤ e.payloadOffset)
    (hgap : ∀ f ∈ (r.entries.take j).drop (i + 1), f.itemLength = 0) :
  r.delivered j pos = some before.itemEnd
  := by
  have hempty : ∀ f ∈ (r.entries.take j).drop (i + 1), decide (0 < f.itemLength) = false := by
    intro f hf
    rw [hgap f hf]
    rfl
  rw [delivered, he]
  dsimp only
  rw [if_neg (Nat.not_lt_of_le hpos),
    getLast?_filter_take hij hbefore (decide_eq_true hlength) hempty, Option.map_some]

/-- Where a run holds an offset and the last payload byte before, that byte is the last one that has
been delivered of the run. -/
theorem Piece.LastPayload.delivered_eq (hlaid : piece.Laid) (h : piece.LastPayload pos last span)
    (hend : pos < span.run.endOffset) :
  span.run.delivered (passed RunEntry.endOffset pos span.run.entries) pos
    = some (span.itemOffset + 1)
  := by
  obtain ⟨before, hbefore, hstart, hstop, hoffset, -⟩ := h.at_last.exists_entry
  have htiled := hlaid.entries_tiled (List.mem_of_getElem? h.at_last.run_eq)
  have hbounds := htiled.bounds (List.mem_of_getElem? hbefore)
  have hframing := before.toFraming.pieceOffset_le
  have hlt := h.lt
  have hnext := h.next_eq hbefore hstart hstop
  obtain ⟨e, he, -, heend⟩ := htiled.exists_getElem?_passed (by omega) hend
  have hmono : span.entry ≤ passed RunEntry.endOffset pos span.run.entries := by
    rw [← htiled.passed_eq hbefore (Nat.le_trans hframing hstart) hstop]
    apply passed_mono (Nat.le_of_lt hlt)
  generalize hindex : passed RunEntry.endOffset pos span.run.entries = index at he hmono
  -- The last payload byte is one of the entry that holds the offset, or one of an earlier entry.
  rcases Nat.eq_or_lt_of_le hmono with rfl | hpassed
  · rw [hbefore] at he
    cases he
    rw [ItemRun.delivered, hbefore]
    dsimp only
    rw [if_pos (by omega), hoffset]
    congr 1
    omega
  · have hedrop : e ∈ span.run.entries.drop (span.entry + 1) := by
      apply List.mem_of_getElem? (i := index - (span.entry + 1))
      rw [List.getElem?_drop, Nat.add_sub_of_le hpassed, he]
    have hbeforeEnd : before.endOffset ≤ pos := by
      apply stop_le_of_mem_take_passed (l := span.run.entries)
      rw [hindex]
      apply List.mem_of_getElem? (i := span.entry)
      rw [List.getElem?_take_of_lt hpassed, hbefore]
    have hgap : ∀ f ∈ (span.run.entries.take index).drop (span.entry + 1), f.itemLength = 0 := by
      intro f hf
      have hfend := stop_le_of_mem_take_passed (hindex ▸ List.mem_of_mem_drop hf)
      rw [List.drop_take] at hf
      have hfpayload := h.empty_or_le hlaid (List.mem_of_mem_take hf)
      rw [RunEntry.endOffset_eq] at hfend
      omega
    have hepayload := h.empty_or_le hlaid hedrop
    rw [RunEntry.endOffset_eq] at heend hstop hnext hbeforeEnd
    rw [ItemRun.delivered_of_earlier hpassed hbefore he (by omega) (by omega) hgap,
      RunEntry.itemEnd, hoffset]
    congr 1
    omega

/-- A reader in a run with a payload byte before it stands in the range of that run. -/
theorem Piece.LastPayload.run_holds (hlaid : piece.Laid) (h : piece.LastPayload pos last span)
    (hpos : pos ≤ piece.size) (hblock : (Cursor.settled piece pos).block = span.block) :
  span.run.pieceOffset ≤ pos ∧ pos < span.run.endOffset
  := by
  have hr := h.at_last.run_eq
  have hlt := h.lt
  have hheader := h.at_last.header_le hlaid
  have hindex := (List.getElem?_eq_some_iff.mp hr).1
  have hsize : pos < piece.size := by
    by_contra hge
    obtain rfl : pos = piece.size := by omega
    rw [Cursor.settled_size hlaid] at hblock
    rw [← hblock] at hindex
    apply Nat.lt_irrefl _ hindex
  have hbehind : piece.header.length ≤ pos := by omega
  obtain ⟨block, hget, hstart, hend⟩ := hlaid.blocks_tiled.exists_getElem?_passed hbehind hsize
  have hsettled : piece.blocks[(Cursor.settled piece pos).block]? = some block := hget
  rw [hblock, hr] at hsettled
  cases hsettled
  exact ⟨hstart, hend⟩

/-! ### Streams -/

/-- A stream that follows keeps doing so while no payload byte is passed. -/
theorem HeldStream.Follows.forward {pos' : Nat} (h : item.Follows piece pos) (hle : pos ≤ pos')
    (hclear : piece.ClearBetween pos pos') :
  item.Follows piece pos'
  := by
  obtain ⟨last, span, hlast, hitem⟩ := h
  refine ⟨last, span, ⟨Nat.lt_of_lt_of_le hlast.lt hle, hlast.at_last, ?_⟩, hitem⟩
  intro q hq hlt
  rcases Nat.lt_or_ge q pos with hbefore | hbehind
  · apply hlast.clear q hq hbefore
  · apply hclear q hbehind hlt

/-- A stream that has handed out bytes of a payload follows them. -/
theorem PayloadRest.At.follows {n : Nat} (hspan : span.At piece pos) (hpos : 0 < n)
    (hn : n ≤ span.remaining) (hblock : item.block = span.block)
    (hsource : item.source = span.run.source) (hplace : item.itemPos = span.itemOffset + n) :
  item.Follows piece (pos + n)
  := by
  obtain ⟨n, rfl⟩ := Nat.exists_eq_succ_of_ne_zero (Nat.ne_of_gt hpos)
  refine ⟨pos + n, span.skip n, ⟨by omega, hspan.skip (by omega), ?_⟩, hblock, hsource, hplace⟩
  intro q hle hlt
  omega

/-- A question to a stream leaves its source. -/
theorem Supply.source_of_ask {supply : Supply W H S} {purpose : Purpose} {size : Nat}
    {outcome : Except IoError Bytes}
    (h : supply.ask purpose size item feed = (outcome, item', feed')) :
  item'.source = item.source
  := by
  cases h
  rfl

/-- Asking until there is no interruption leaves the source of a stream. -/
theorem Supply.source_of_askUninterrupted {supply : Supply W H S} {size : Nat}
    {outcome : Except IoError Bytes}
    (h : supply.askUninterrupted size item feed = (outcome, item', feed')) :
  item'.source = item.source
  := by
  induction item, feed using askUninterrupted.induct supply size with
  | case1 item feed bytes itemA feedA hask =>
      rw [askUninterrupted_of_ok hask] at h
      cases h
      apply source_of_ask hask
  | case2 item feed e itemA feedA hask he ih =>
      rw [askUninterrupted_of_interruption hask he] at h
      apply (ih h).trans (source_of_ask hask)
  | case3 item feed e itemA feedA hask he =>
      rw [askUninterrupted_of_error hask (Bool.eq_false_iff.mpr he)] at h
      cases h
      apply source_of_ask hask

/-- Passing over a gap leaves the source of a stream. -/
theorem Supply.source_passOver (supply : Supply W H S) (gap : Nat) (item : HeldStream S)
    (feed : Feed W H) :
  (supply.passOver gap item feed).2.1.source = item.source
  := by
  induction gap, item, feed using passOver.induct supply with
  | case1 item feed => rw [passOver_zero]
  | case2 gap item feed hne itemA feedA hask =>
      rw [passOver_of_nil (Nat.pos_of_ne_zero hne) hask]
      apply source_of_ask hask
  | case3 gap item feed hne b bs itemA feedA hask ih =>
      rw [passOver_of_ok (Nat.pos_of_ne_zero hne) (List.cons_ne_nil b bs) hask]
      have hsource := source_of_ask hask
      apply ih.trans hsource
  | case4 gap item feed hne e itemA feedA hask he ih =>
      rw [passOver_of_interruption (Nat.pos_of_ne_zero hne) hask he]
      apply ih.trans (source_of_ask hask)
  | case5 gap item feed hne e itemA feedA hask he =>
      rw [passOver_of_error (Nat.pos_of_ne_zero hne) hask (Bool.eq_false_iff.mpr he)]
      apply source_of_ask hask

namespace Setting

/-- A stream opened for the bytes of `span` is one of the source of their run. -/
theorem source_of_openFor (h : setting.openFor span feed = (.ok item, feed')) :
  item.source = span.run.source
  := by
  rw [openFor] at h
  split at h
  · cases h
  · simp only [openFrom, conclude] at h
    split at h
    · cases h
      rfl
    · cases h

/-- A stream acquired for the bytes of `span` is one of the source of their run. -/
theorem source_of_acquire {held : Option (HeldStream S)}
    (hheld : ∀ item, held = some item → item.source = span.run.source)
    (h : setting.acquire held span feed = (.ok item, feed')) :
  item.source = span.run.source
  := by
  rw [acquire] at h
  cases happroach : Approach.toward held span with
  | ready stream =>
      rw [happroach] at h
      cases h
      apply hheld item
      rw [← Approach.held_toward held span, happroach]
      rfl
  | skip stream gap =>
      simp only [happroach] at h
      have hstream : stream.source = span.run.source := by
        apply hheld stream
        rw [← Approach.held_toward held span, happroach]
        rfl
      rw [← hstream, ← setting.supply.source_passOver gap stream
        (feed.note (.skipping span.path stream.itemPos gap))]
      rw [concludeSkip.eq_def] at h
      split at h <;> rename_i hover <;> cases h
      rw [hover]
  | reopen stale =>
      rw [happroach] at h
      cases stale <;> apply source_of_openFor h

/-- A stream that has handed out bytes of `span` is one of their run and stands behind them. -/
theorem exists_held_of_takePayload {held held' : Option (HeldStream S)} {room : Nat} {bytes : Bytes}
    (hblock : ∀ item, held = some item → item.block = span.block)
    (hsource : ∀ item, held = some item → item.source = span.run.source)
    (h : setting.takePayload held span room feed = (.ok bytes, held', feed')) :
  ∃ item, held' = some item ∧ item.block = span.block ∧ item.source = span.run.source
    ∧ item.itemPos = span.itemOffset + bytes.length ∧ 0 < bytes.length
    ∧ bytes.length ≤ min span.remaining room
  := by
  obtain ⟨item, rfl, hitem, hplace, -⟩ := openings_takePayload hblock h
  refine ⟨item, rfl, hitem, ?_, hplace, ?_, length_le_of_askFor h⟩
  · rw [takePayload] at h
    rcases hacquire : setting.acquire held span feed with ⟨e | acquired, feedA⟩
    · rw [hacquire] at h
      cases h
    · rw [hacquire, askFor] at h
      split at h
      · cases h
      · cases h
      · next hask =>
        cases h
        apply (Supply.source_of_askUninterrupted hask).trans
        apply source_of_acquire hsource hacquire
  · rw [takePayload, askFor.eq_def] at h
    split at h
    · cases h
    · split at h
      · cases h
      · cases h
      · cases h
        apply Nat.succ_pos

end Setting

/-! ### Readers -/

namespace Reader

variable {read : Nat → Reader S → Feed W H → Except ReadError Bytes × Reader S × Feed W H}

/-- Without a stream there is none to attend to. -/
theorem attended_of_held_eq_none (h : reader.StandsAt piece pos) (hheld : reader.held = none) :
  reader.Attended piece pos
  := ⟨h, fun hne => absurd hheld hne, fun _ hitem => nomatch hheld.symm.trans hitem⟩

/-- Bytes in memory are passed without the stream falling behind. -/
theorem Attended.passes {copied : Bytes} (h : reader.Attended piece pos)
    (hpasses : reader.Passes piece pos feed copied reader' feed') :
  reader'.Attended piece (pos + copied.length)
  := by
  rcases hpasses.held with ⟨hheld, -⟩ | ⟨item, -, hheld, -⟩
  · refine ⟨hpasses.standsAt, ?_, ?_⟩
    · rw [hheld, hpasses.poisoned_eq]
      apply h.sound
    · intro item hitem
      rw [hheld] at hitem
      apply (h.follows item hitem).forward (Nat.le_add_right _ _) hpasses.clear
  · apply attended_of_held_eq_none hpasses.standsAt hheld

/-- A stream held where a payload byte comes next is one of its run. -/
theorem Attended.source_eq (hlaid : piece.Laid) (h : reader.Attended piece pos)
    (hspan : span.At piece pos) (hitem : reader.held = some item) :
  item.block = span.block ∧ item.source = span.run.source
  := by
  have hblock : item.block = span.block := by
    rw [h.block_eq item hitem, hspan.settled_eq hlaid]
  obtain ⟨last, before, hlast, hbefore, hsource, -⟩ := h.follows item hitem
  have hrun := hlast.at_last.run_eq
  rw [← hbefore, hblock, hspan.run_eq] at hrun
  simp only [Option.some.injEq, Block.run.injEq] at hrun
  rw [hsource, hrun]
  exact ⟨hblock, rfl⟩

/-- Payload bytes that are handed out move the reader and its stream alike. -/
theorem Attended.takePayload {room : Nat} {bytes : Bytes} {held : Option (HeldStream S)}
    (hlaid : setting.piece.Laid) (h : reader.Attended setting.piece pos)
    (hsound : reader.poisoned = false) (hspan : span.At setting.piece pos)
    (htake : setting.takePayload reader.held span room feed = (.ok bytes, held, feed')) :
  (({ reader with held := held } : Reader S).advance setting bytes.length feed').1.Attended
    setting.piece (pos + bytes.length)
  := by
  obtain ⟨item, rfl, hblock, hsource, hplace, hpositive, hlength⟩ :=
    Setting.exists_held_of_takePayload (fun item hitem => (h.source_eq hlaid hspan hitem).1)
      (fun item hitem => (h.source_eq hlaid hspan hitem).2) htake
  have hremaining : bytes.length ≤ span.remaining := Nat.le_trans hlength (Nat.min_le_left _ _)
  have hsettled := hspan.settled_eq hlaid
  have hsize := hspan.le_size hlaid
  have hstands : ({ reader with held := some item } : Reader S).StandsAt setting.piece pos := by
    refine ⟨h.cursor_eq, h.le_size, ?_, fun _ => ?_⟩
    · rintro _ ⟨⟩
      rw [hsettled, hblock]
    · rw [hsettled]
      exact ⟨_, hspan.run_eq⟩
  obtain ⟨hstands', hpoisoned, hheld⟩ :=
    standsAt_advance hlaid hstands (n := bytes.length) (by omega) feed'
  rcases hheld with ⟨hheld, -⟩ | ⟨-, -, hheld, -⟩
  · refine ⟨hstands', fun _ => hpoisoned.trans hsound, fun item' hitem' => ?_⟩
    rw [hheld] at hitem'
    cases hitem'
    apply hspan.follows hpositive hremaining hblock hsource hplace
  · apply attended_of_held_eq_none hstands' hheld

/-- After any course of a read a stream held follows what has been handed out. -/
theorem Course.exists_attended {size : Nat} {taken : Except ReadError Bytes × Reader S × Feed W H}
    (hcourse : Course setting pos size reader feed taken) (hlaid : setting.piece.Laid)
    (h : reader.Attended setting.piece pos) (hsound : reader.poisoned = false) :
  ∃ pos', taken.2.1.Attended setting.piece pos'
  := by
  cases hcourse with
  | memory hpasses => exact ⟨_, h.passes hpasses⟩
  | payload hpasses hspan hlt htake =>
      exact ⟨_, (h.passes hpasses).takePayload hlaid (hpasses.poisoned_eq.trans hsound) hspan
        htake⟩
  | failure hpasses =>
      have hstands := hpasses.standsAt
      exact ⟨_, attended_of_held_eq_none
        (standsAt_of_held_eq_none hstands.cursor_eq hstands.le_size rfl) rfl⟩

/-- However readers read, a stream that one of them holds follows what has been handed out, whatever
they are told. -/
theorem Reads.kept_attended (hreads : Reads setting read) (hlaid : setting.piece.Laid) :
  Kept setting read fun reader => ∃ pos, reader.Attended setting.piece pos
  := by
  constructor
  case startAt =>
      intro offset hreach
      exact ⟨offset, attended_of_held_eq_none (standsAt_startAt hlaid hreach) rfl⟩
  case read =>
      rintro size reader feed ⟨pos, h⟩
      cases hpoisoned : reader.poisoned with
      | true =>
          rw [hreads.poisons.spent hpoisoned]
          exact ⟨pos, h⟩
      | false =>
          have hcourse := hreads.course hlaid h.toStandsAt hpoisoned size feed
          apply hcourse.exists_attended hlaid h hpoisoned
  case release =>
      rintro reader ⟨pos, h⟩
      exact ⟨pos, attended_of_held_eq_none
        (standsAt_of_held_eq_none h.cursor_eq h.le_size rfl) rfl⟩
  case move =>
      rintro reader offset hreach -
      exact ⟨offset, attended_of_held_eq_none
        (standsAt_of_held_eq_none (Cursor.locate_eq hlaid hreach) hreach rfl) rfl⟩

/-- A stream held is one of the run in which the reader stands, and stands behind the last payload
byte of that run that has been delivered. -/
theorem Attended.matches_cursor (hlaid : piece.Laid) (h : reader.Attended piece pos)
    (hitem : reader.held = some item) :
  reader.poisoned = false ∧ item.block = reader.cursor.block
    ∧ ∃ r, piece.blocks[item.block]? = some (.run r) ∧ r.pieceOffset ≤ reader.position
        ∧ reader.position < r.endOffset
        ∧ r.delivered reader.cursor.entry reader.position = some item.itemPos
  := by
  obtain ⟨last, span, hlast, hblock, -, hplace⟩ := h.follows item hitem
  have hsettled : (Cursor.settled piece pos).block = span.block := by
    rw [← h.block_eq item hitem, hblock]
  have hrun := hlast.at_last.run_eq
  have hsettledRun : piece.blocks[(Cursor.settled piece pos).block]? = some (.run span.run) := by
    rw [hsettled, hrun]
  have hentry := Cursor.entry_settled hsettledRun
  obtain ⟨hstart, hend⟩ := hlast.run_holds hlaid h.le_size hsettled
  have hsound : reader.held ≠ none := by
    rw [hitem]
    apply Option.some_ne_none
  rw [h.position_eq, h.cursor_eq, hentry, hplace]
  refine ⟨h.sound hsound, hblock.trans hsettled.symm, span.run, ?_, hstart, hend,
    hlast.delivered_eq hlaid hend⟩
  rw [hblock, hrun]

/-- A reader that has moved holds no stream. -/
theorem held_moveTo_of_ok {offset : Nat}
    (h : (reader.moveTo setting offset feed).1 = .ok ()) :
  (reader.moveTo setting offset feed).2.1.held = none
  := by
  rw [moveTo] at h ⊢
  split at h <;> rename_i hreach
  · cases h
  · simp only [release_fst]

/-- A reader that has sought holds no stream. -/
theorem held_seek_of_ok {target : SeekTarget} {position : Nat}
    (h : (reader.seek setting target feed).1 = .ok position) :
  (reader.seek setting target feed).2.1.held = none
  := by
  simp only [seek] at h ⊢
  split at h <;> rename_i hposition
  · cases h
  · rw [if_neg hposition]
    split at h <;> rename_i hmoved
    · cases h
    · have hnone := held_moveTo_of_ok (congrArg (·.1) hmoved)
      rw [hmoved] at hnone
      apply hnone

end Reader

/-! ### Families -/

/-- Whether the reply is that of a member that has moved, has been closed or has failed. -/
def Reply.endsStream : Reply → Bool
  | .bytes (.error _) => true
  | .drained _ (some _) => true
  | .moved (.ok _) => true
  | .sought (.ok _) => true
  | .done => true
  | _ => false

theorem Reply.endsStream_bytes (outcome : Except ReadError Bytes) :
  (bytes outcome).endsStream = (bytes outcome).isFailedRead
  := by
  cases outcome <;> rfl

theorem Reply.endsStream_drained (portions : List Bytes) (failure : Option ReadError) :
  (drained portions failure).endsStream = (drained portions failure).isFailedRead
  := by
  cases failure <;> rfl

namespace Family

variable {read : Nat → Reader S → Feed W H → Except ReadError Bytes × Reader S × Feed W H}
  {family : Family W H S} {index : Nat}

/-- Members stand at their positions and their streams follow what they have handed out, whatever
they have been told. -/
theorem every_attended (hlaid : setting.piece.Laid) (hreads : Reader.Reads setting read) (world : W)
    (done : List (Nat × Command)) :
  ((start setting world).runAllBy setting read done).2.Every
    fun reader => reader.Attended setting.piece reader.position
  := by
  intro reader hmem
  have hkept := hreads.kept_attended hlaid
  obtain ⟨pos, h⟩ := every_runAllBy hkept (every_start hkept world) done reader hmem
  rw [h.position_eq]
  apply h

/-- A member that has moved, has been closed or has failed holds no stream. -/
theorem held_eq_none_of_endsStream (hpoisons : Reader.Poisons read)
    (hmember : family.member? index = some reader)
    (hheld : reader.poisoned = true → reader.held = none) {command : Command}
    (hends : (family.runBy setting read index command).1.endsStream = true)
    (hmember' : (family.runBy setting read index command).2.member? index = some reader') :
  reader'.held = none
  := by
  have hupdate {next : Reader S} {feed : Feed W H} (hnone : next.held = none)
      (hnext : (family.update index next feed).member? index = some reader') :
      reader'.held = none := by
    rw [member?_update hmember] at hnext
    cases hnext
    apply hnone
  cases command with
  | read size =>
      simp only [runBy, hmember] at hends hmember'
      apply hupdate _ hmember'
      apply (hpoisons.read_iff hheld).2
      apply (hpoisons.read_iff hheld).1.mpr
      right
      rw [← Reply.endsStream_bytes]
      apply hends
  | drain size =>
      simp only [runBy, hmember] at hends hmember'
      apply hupdate _ hmember'
      apply (hpoisons.drain_iff hheld).2
      apply (hpoisons.drain_iff hheld).1.mpr
      right
      rw [← Reply.endsStream_drained]
      apply hends
  | moveTo offset =>
      simp only [runBy, hmember] at hends hmember'
      apply hupdate _ hmember'
      apply Reader.held_moveTo_of_ok
      rcases hmoved : (reader.moveTo setting offset family.feed).1 with e | _
      · rw [hmoved] at hends
        cases hends
      · rfl
  | seek target =>
      simp only [runBy, hmember] at hends hmember'
      apply hupdate _ hmember'
      rcases hsought : (reader.seek setting target family.feed).1 with e | position
      · rw [hsought] at hends
        cases hends
      · apply Reader.held_seek_of_ok hsought
  | copy offset =>
      simp only [runBy, hmember] at hends
      split at hends <;> cases hends
  | close =>
      simp only [runBy, hmember] at hmember'
      apply hupdate _ hmember'
      rw [Reader.release_fst]
  | drop =>
      simp only [runBy, hmember, remove] at hmember'
      rw [member?_eq_some_iff, List.getElem?_set_self (lt_length_of_member? hmember)] at hmember'
      cases hmember'

/-- Whether they read at once or by tasks, a stream that a member holds is one of the run in which
it stands, and stands behind the last payload byte of that run that has been delivered; and a member
that has moved, has been closed or has failed holds none. -/
theorem held_stream_matches_cursor {plan : Plan} (hbuild : plan.build = .ok setting.piece)
    (hreads : Reader.Reads setting read) (world : W) {done : List (Nat × Command)}
    (hmember : ((start setting world).runAllBy setting read done).2.member? index = some reader) :
  let reached := ((start setting world).runAllBy setting read done).2
  (∀ item, reader.held = some item →
      reader.poisoned = false ∧ item.block = reader.cursor.block
        ∧ ∃ r, setting.piece.blocks[item.block]? = some (.run r)
            ∧ r.pieceOffset ≤ reader.position ∧ reader.position < r.endOffset
            ∧ r.delivered reader.cursor.entry reader.position = some item.itemPos)
    ∧ ∀ command reader', (reached.runBy setting read index command).1.endsStream = true →
        (reached.runBy setting read index command).2.member? index = some reader' →
        reader'.held = none
  := by
  intro reached
  have hlaid := Plan.laid_of_build hbuild
  have hkept := hreads.kept_attended hlaid
  obtain ⟨pos, h⟩ := (every_runAllBy hkept (every_start hkept world) done).member hmember
  refine ⟨fun item hitem => h.matches_cursor hlaid hitem, fun command reader' hends hmember' => ?_⟩
  have hheld : reader.poisoned = true → reader.held = none := by
    intro hpoisoned
    by_contra hne
    rw [h.sound hne] at hpoisoned
    cases hpoisoned
  apply held_eq_none_of_endsStream hreads.poisons hmember hheld hends hmember'

/-- A reader of tasks behind two payload bytes and a block without payload, in the prefix of the
next block of the run. -/
theorem held_stream_matches_cursor_behind_empty_block :
  let item : Item := ⟨⟨1⟩, "a", 7⟩
  let plan : Plan :=
    ⟨[1], 7, [.item 1 [] [] ⟨0⟩ item 0 2, .item 3 [7] [] ⟨0⟩ item 3 0, .item 4 [8] [] ⟨0⟩ item 5 2]⟩
  let run : ItemRun :=
    ⟨⟨0⟩, item, ⟨⟨1, [], []⟩, 0, 2⟩, [⟨⟨3, [7], []⟩, 3, 0⟩, ⟨⟨4, [8], []⟩, 5, 2⟩]⟩
  let registry : Registry ScriptedSource :=
    ⟨[(⟨0⟩, ⟨.memory ⟨[("a", [10, 11, 12, 13, 14, 15, 16])]⟩, [], []⟩)]⟩
  let setting : SuspendingSetting (Registry ScriptedSource) SourceId ScriptedStream :=
    ⟨Registry.polledSupply, ⟨[1], 7, [.run run]⟩, .standard, true⟩
  let waiting := setting.waiting .suspending
  let read := Reader.readByTask setting
  let done : List (Nat × Command) := [(0, .read 3), (0, .read 1)]
  let reached := ((start waiting registry).runAllBy waiting read done).2
  plan.build = .ok waiting.piece ∧ Reader.Reads waiting read
    ∧ reached.member? 0
      = some ⟨⟨4, 0, 2⟩, some ⟨0, ⟨0⟩, 2, ⟨.buffer [12, 13, 14, 15, 16], []⟩⟩, false⟩
    ∧ run.pieceOffset ≤ 4 ∧ 4 < run.endOffset ∧ run.delivered 2 4 = some 2
    ∧ ∀ reader', (reached.runBy waiting read 0 (.seek (.fromHere 1))).2.member? 0 = some reader' →
        reader'.held = none
  := by
  intro item plan run registry setting waiting read done reached
  have hbuild : plan.build = .ok waiting.piece := rfl
  have hreads : Reader.Reads waiting read := .byTasks setting
  have hmember : reached.member? 0
      = some ⟨⟨4, 0, 2⟩, some ⟨0, ⟨0⟩, 2, ⟨.buffer [12, 13, 14, 15, 16], []⟩⟩, false⟩ := by
    simp only [reached, done, read, waiting, setting, registry, run, item]
    cbv
  have hends : (reached.runBy waiting read 0 (.seek (.fromHere 1))).1.endsStream = true := by
    simp only [reached, done, read, waiting, setting, registry, run, item]
    cbv
  obtain ⟨hmatches, hgiven⟩ := held_stream_matches_cursor hbuild hreads registry hmember
  obtain ⟨-, -, r, hr, hstart, hend, hdelivered⟩ := hmatches _ rfl
  cases hr
  exact ⟨hbuild, hreads, hmember, hstart, hend, hdelivered, fun reader' => hgiven _ reader' hends⟩

end Family

end PieceStream
