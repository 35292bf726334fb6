import Mathlib.Data.Nat.Find
import PieceStream.Proofs.Custody

/-!
# Greedy reads

A read hands out all bytes in memory that the buffer has room for before the first payload byte of
an item, and calls no source if it does not come to that byte.  If it does and goes well, the last
thing it asks for is payload bytes, as many as there is room for up to the end of the entry, and
these are the only ones that it is given.
-/

namespace PieceStream

variable {W H S : Type}

/-- At `stop` is the first payload byte of an item at or after `pos`, or the end if there is
none. -/
structure Piece.FirstPayload (piece : Piece) (pos stop : Nat) : Prop where
  le : pos ≤ stop
  clear : piece.ClearBetween pos stop
  end_or_at : stop = piece.size ∨ ∃ span : PayloadRest, span.At piece stop

/-- Whether the event is a call to a source or a stream. -/
def Event.isQuestion : Event → Bool
  | .resolved _ => true
  | .opened _ _ _ _ => true
  | .asked _ _ _ _ => true
  | .closed _ => false
  | .noted _ => false

/-- Whether the event is a question for payload bytes that was not interrupted. -/
def Event.isAnswer : Event → Bool
  | .asked _ .payload _ (.ok _) => true
  | .asked _ .payload _ (.error e) => !e.isInterruption
  | _ => false

/-- The calls so far to sources and streams, the latest first. -/
def Feed.questions (feed : Feed W H) : List Event := feed.latest.filter Event.isQuestion

/-- Since the one feed no stream has answered a question for payload bytes. -/
def Feed.Unanswered (feed feed' : Feed W H) : Prop :=
  ∃ asked, feed'.questions = asked ++ feed.questions ∧ ∀ event ∈ asked, event.isAnswer = false

/-- A payload byte of an item comes first at one offset only. -/
theorem Piece.FirstPayload.eq {piece : Piece} {pos stop stop' : Nat} {span : PayloadRest}
    (hlaid : piece.Laid) (h : piece.FirstPayload pos stop') (hle : pos ≤ stop)
    (hclear : piece.ClearBetween pos stop) (hspan : span.At piece stop) :
  stop' = stop
  := by
  have hsize := hspan.le_size hlaid
  have hremaining := hspan.remaining_pos
  rcases Nat.lt_trichotomy stop stop' with hlt | heq | hlt
  · exact absurd hspan (h.clear stop hle hlt span)
  · apply heq.symm
  · rcases h.end_or_at with rfl | ⟨span', hspan'⟩
    · omega
    · exact absurd hspan' (hclear stop' h.le hlt span')

namespace Piece.FirstPayload

variable {piece : Piece} {pos stop : Nat}

/-- The first payload byte lies within the piece. -/
theorem le_size (hlaid : piece.Laid) (h : piece.FirstPayload pos stop) :
  stop ≤ piece.size
  := by
  rcases h.end_or_at with rfl | ⟨span, hspan⟩
  · apply Nat.le_refl
  · apply Nat.le_trans (Nat.le_add_right _ _) (hspan.le_size hlaid)

/-- Within the piece there is no payload byte before the first one. -/
theorem le_of_clear {copied : Nat} (h : piece.FirstPayload pos stop)
    (hclear : piece.ClearBetween pos (pos + copied)) (hsize : pos + copied ≤ piece.size) :
  pos + copied ≤ stop
  := by
  by_contra hlt
  have hle := h.le
  rcases h.end_or_at with rfl | ⟨span, hspan⟩
  · apply hlt hsize
  · apply hclear stop hle (Nat.lt_of_not_le hlt) span hspan

end Piece.FirstPayload

/-- There is a first payload byte at or after every offset of a piece, or none up to the end. -/
theorem Piece.exists_firstPayload {piece : Piece} {pos : Nat} (hpos : pos ≤ piece.size) :
  ∃ stop, piece.FirstPayload pos stop
  := by
  classical
  by_cases hpayload : ∃ q, pos ≤ q ∧ ∃ span : PayloadRest, span.At piece q
  · obtain ⟨hle, hspan⟩ := Nat.find_spec hpayload
    refine ⟨_, hle, fun q hq hlt span hat => ?_, .inr hspan⟩
    exact Nat.find_min hpayload hlt ⟨hq, span, hat⟩
  · exact ⟨piece.size, hpos, fun q hq _ span hat => hpayload ⟨q, hq, span, hat⟩, .inl rfl⟩

/-! ### What leaves questions unanswered -/

namespace Feed

variable {feed feed' feed'' : Feed W H} {event : Event} {item : HeldStream S}

theorem questions_record :
  (feed.record event).questions = (if event.isQuestion then [event] else []) ++ feed.questions
  := by
  rw [questions, questions, record, List.filter_cons]
  split <;> rfl

theorem questions_notes {notes : List Note} :
  (notes.foldl Feed.note feed).questions = feed.questions
  := by
  induction notes generalizing feed with
  | nil => rfl
  | cons note notes ih =>
      rw [List.foldl_cons, ih, Feed.note, questions_record]
      rfl

theorem questions_release :
  (feed.release item).questions = feed.questions
  := by
  rw [release, drop, note, questions_record, questions_record]
  rfl

theorem Unanswered.refl :
  feed.Unanswered feed
  := ⟨[], rfl, fun _ hmem => absurd hmem List.not_mem_nil⟩

theorem Unanswered.trans (h : feed.Unanswered feed') (h' : feed'.Unanswered feed'') :
  feed.Unanswered feed''
  := by
  obtain ⟨asked, heq, hasked⟩ := h
  obtain ⟨asked', heq', hasked'⟩ := h'
  refine ⟨asked' ++ asked, ?_, ?_⟩
  · rw [heq', heq, List.append_assoc]
  · intro event hmem
    rcases List.mem_append.mp hmem with hmem | hmem
    · apply hasked' event hmem
    · apply hasked event hmem

/-- Where nothing was asked, nothing was answered. -/
theorem unanswered_of_questions_eq (h : feed'.questions = feed.questions) :
  feed.Unanswered feed'
  := ⟨[], h, fun _ hmem => absurd hmem List.not_mem_nil⟩

/-- An event that is no answer answers nothing. -/
theorem unanswered_record (h : event.isAnswer = false) :
  feed.Unanswered (feed.record event)
  := by
  refine ⟨_, questions_record, fun event' hmem => ?_⟩
  split at hmem
  · cases List.mem_singleton.mp hmem
    apply h
  · cases hmem

end Feed

variable {setting : Setting W H S} {feed feed' : Feed W H} {item item' : HeldStream S}
  {span : PayloadRest} {bytes : Bytes}

namespace Supply

variable {supply : Supply W H S}

/-- What is passed over is not asked for in order to be handed out. -/
theorem unanswered_of_askSkip {size : Nat} {outcome : Except IoError Bytes}
    (h : supply.ask .skip size item feed = (outcome, item', feed')) :
  feed.Unanswered feed'
  := by
  cases h
  apply Feed.unanswered_record rfl

theorem unanswered_passOver (gap : Nat) (item : HeldStream S) (feed : Feed W H) :
  feed.Unanswered (supply.passOver gap item feed).2.2
  := by
  induction gap, item, feed using passOver.induct supply with
  | case1 item feed =>
      rw [passOver_zero]
      apply Feed.Unanswered.refl
  | case2 gap item feed hne item' feed' hask =>
      rw [passOver_of_nil (Nat.pos_of_ne_zero hne) hask]
      apply unanswered_of_askSkip hask
  | case3 gap item feed hne b bs item' feed' hask ih =>
      rw [passOver_of_ok (Nat.pos_of_ne_zero hne) (List.cons_ne_nil b bs) hask]
      apply (unanswered_of_askSkip hask).trans ih
  | case4 gap item feed hne e item' feed' hask he ih =>
      rw [passOver_of_interruption (Nat.pos_of_ne_zero hne) hask he]
      apply (unanswered_of_askSkip hask).trans ih
  | case5 gap item feed hne e item' feed' hask he =>
      rw [passOver_of_error (Nat.pos_of_ne_zero hne) hask (Bool.eq_false_iff.mpr he)]
      apply unanswered_of_askSkip hask

/-- A question repeated until it is not interrupted is answered once, at last. -/
theorem exists_answer_of_askUninterrupted {size : Nat}
    (h : supply.askUninterrupted size item feed = (.ok bytes, item', feed')) :
  ∃ earlier, feed'.questions
      = .asked item.source .payload size (.ok bytes.length) :: (earlier ++ feed.questions)
    ∧ ∀ event ∈ earlier, event.isAnswer = false
  := by
  induction item, feed using askUninterrupted.induct supply size with
  | case1 item feed bytes itemA feedA hask =>
      rw [askUninterrupted_of_ok hask] at h
      cases h
      have hread : (supply.read item.stream size feed.world).1 = .ok bytes :=
        congrArg (·.1) hask
      have hfeed : feed' = _ := (congrArg (·.2.2) hask).symm
      refine ⟨[], ?_, fun _ hmem => absurd hmem List.not_mem_nil⟩
      rw [hfeed, ask, hread, Feed.questions_record]
      rfl
  | case2 item feed e itemA feedA hask he ih =>
      rw [askUninterrupted_of_interruption hask he] at h
      obtain ⟨earlier, hquestions, hearlier⟩ := ih h
      have hread : (supply.read item.stream size feed.world).1 = .error e :=
        congrArg (·.1) hask
      have hfeed : feedA = _ := (congrArg (·.2.2) hask).symm
      have hitem : itemA.source = item.source := source_of_ask hask
      refine ⟨earlier ++ [.asked item.source .payload size (.error e)], ?_, ?_⟩
      · rw [hquestions, hitem, hfeed, ask, hread, Feed.questions_record]
        simp only [Event.isQuestion, if_true, Except.map, List.append_assoc]
        rfl
      · intro event hmem
        rcases List.mem_append.mp hmem with hmem | hmem
        · apply hearlier event hmem
        · cases List.mem_singleton.mp hmem
          simp only [Event.isAnswer, he, Bool.not_true]
  | case3 item feed e itemA feedA hask he =>
      rw [askUninterrupted_of_error hask (Bool.eq_false_iff.mpr he)] at h
      cases h

end Supply

namespace Setting

theorem unanswered_sourceFor (span : PayloadRest) (feed : Feed W H) :
  feed.Unanswered (setting.sourceFor span feed).2
  := by
  rw [sourceFor]
  split
  · apply Feed.Unanswered.refl
  · dsimp only
    have hlooked (world : W) : feed.Unanswered
        (({ feed with world := world } : Feed W H).record (.resolved span.run.source)) :=
      Feed.unanswered_record rfl
    split <;> apply hlooked

theorem unanswered_openFor (span : PayloadRest) (feed : Feed W H) :
  feed.Unanswered (setting.openFor span feed).2
  := by
  have hfound := setting.unanswered_sourceFor span feed
  rw [openFor]
  generalize setting.sourceFor span feed = found at hfound ⊢
  rcases found with ⟨e | handle, feed'⟩
  · apply hfound
  · apply hfound.trans
    have hannounced : feed'.Unanswered (setting.announce span feed') :=
      (Feed.unanswered_record rfl).trans (Feed.unanswered_record rfl)
    apply hannounced.trans
    apply Feed.unanswered_of_questions_eq
    simp only [openFrom, conclude_snd]
    rw [Feed.questions_notes]
    rfl

/-- To bring a stream to the bytes of a run asks for none of them. -/
theorem unanswered_acquire (held : Option (HeldStream S)) (span : PayloadRest) (feed : Feed W H) :
  feed.Unanswered (setting.acquire held span feed).2
  := by
  rw [acquire]
  split
  · apply Feed.Unanswered.refl
  · next item gap _ =>
    have hnoted : feed.Unanswered (feed.note (.skipping span.path item.itemPos gap)) :=
      Feed.unanswered_record rfl
    apply hnoted.trans
    apply (setting.supply.unanswered_passOver gap item _).trans
    rw [concludeSkip.eq_def]
    split <;> rename_i hover <;> rw [hover]
    · apply Feed.Unanswered.refl
    · apply Feed.unanswered_record rfl
    · apply Feed.unanswered_record rfl
  · apply (Feed.unanswered_of_questions_eq Feed.questions_release).trans
    apply unanswered_openFor
  · apply unanswered_openFor

/-- Payload bytes that are handed out are the answer to the last question, and to that only. -/
theorem exists_answer_of_takePayload {held held' : Option (HeldStream S)} {room : Nat}
    (hsource : ∀ item, held = some item → item.source = span.run.source)
    (h : setting.takePayload held span room feed = (.ok bytes, held', feed')) :
  ∃ earlier, feed'.questions
      = .asked span.run.source .payload (min span.remaining room) (.ok bytes.length)
          :: (earlier ++ feed.questions)
    ∧ ∀ event ∈ earlier, event.isAnswer = false
  := by
  rw [takePayload] at h
  rcases hacquire : setting.acquire held span feed with ⟨e | item, feedA⟩
  · rw [hacquire] at h
    cases h
  · have hacquired := setting.unanswered_acquire held span feed
    rw [hacquire] at hacquired h
    obtain ⟨asked, hasked, hunanswered⟩ := hacquired
    rw [askFor] at h
    split at h
    · cases h
    · cases h
    · next hask =>
      cases h
      obtain ⟨earlier, hquestions, hearlier⟩ := Supply.exists_answer_of_askUninterrupted hask
      rw [source_of_acquire hsource hacquire, hasked, ← List.append_assoc] at hquestions
      refine ⟨earlier ++ asked, hquestions, fun event hmem => ?_⟩
      rcases List.mem_append.mp hmem with hmem | hmem
      · apply hearlier event hmem
      · apply hunanswered event hmem

end Setting

/-! ### Reads -/

namespace Reader

variable {reader reader' : Reader S} {pos size : Nat} {piece : Piece}

/-- To go forward asks for nothing. -/
theorem questions_advance {n : Nat} :
  (reader.advance setting n feed).2.questions = feed.questions
  := by
  simp only [advance]
  split
  · rw [release]
    split
    · rfl
    · apply Feed.questions_release
  · rfl

/-- To pass bytes in memory asks for nothing. -/
theorem Passes.questions_eq {copied : Bytes}
    (h : reader.Passes piece pos feed copied reader' feed') :
  feed'.questions = feed.questions
  := by
  rcases h.held with ⟨-, rfl⟩ | ⟨item, -, -, rfl, -⟩
  · rfl
  · apply Feed.questions_release

/-- What a read comes to if the first payload byte is at `stop`: all bytes in memory without a call,
or bytes behind them that one question yields. -/
structure Greedy (piece : Piece) (pos stop size : Nat) (feed : Feed W H)
    (outcome : Except ReadError Bytes) (feed' : Feed W H) : Prop where
  memory : size ≤ stop - pos ∨ stop = piece.size →
    feed'.questions = feed.questions
      ∧ ∃ bytes, outcome = .ok bytes ∧ bytes.length = min size (piece.size - pos)
  payload : stop - pos < size → stop ≠ piece.size → ∀ bytes, outcome = .ok bytes →
    ∃ span : PayloadRest, span.At piece stop ∧ ∃ count earlier, 1 ≤ count
      ∧ bytes.length = stop - pos + count
      ∧ feed'.questions
        = .asked span.run.source .payload (min (size - (stop - pos)) span.remaining) (.ok count)
            :: (earlier ++ feed.questions)
      ∧ ∀ event ∈ earlier, event.isAnswer = false

/-- Any course of a read is greedy. -/
theorem Course.greedy {stop : Nat} {taken : Except ReadError Bytes × Reader S × Feed W H}
    (hcourse : Course setting pos size reader feed taken) (hlaid : setting.piece.Laid)
    (h : reader.Attended setting.piece pos) (hstop : setting.piece.FirstPayload pos stop) :
  Greedy setting.piece pos stop size feed taken.1 taken.2.2
  := by
  have hle := hstop.le
  have hend := hstop.le_size hlaid
  cases hcourse with
  | @memory copied reader' feed' hpasses hlength hfull =>
      have hreach := hstop.le_of_clear hpasses.clear hpasses.standsAt.le_size
      constructor
      case memory =>
          intro _
          exact ⟨hpasses.questions_eq, copied, rfl, by omega⟩
      case payload =>
          intro hlt hne
          omega
  | @payload copied bytes readerA feedA feedB held span hpasses hspan hlt htake =>
      obtain rfl := hstop.eq hlaid (Nat.le_add_right _ _) hpasses.clear hspan
      have hattended := h.passes hpasses
      have hsource : ∀ item, readerA.held = some item → item.source = span.run.source :=
        fun item hitem => (hattended.source_eq hlaid hspan hitem).2
      have hblock : ∀ item, readerA.held = some item → item.block = span.block :=
        fun item hitem => (hattended.source_eq hlaid hspan hitem).1
      obtain ⟨-, -, -, -, -, hpositive, -⟩ :=
        Setting.exists_held_of_takePayload hblock hsource htake
      obtain ⟨earlier, hquestions, hearlier⟩ := Setting.exists_answer_of_takePayload hsource htake
      have hsize := hspan.le_size hlaid
      have hremaining := hspan.remaining_pos
      constructor
      case memory =>
          intro hcases
          omega
      case payload =>
          rintro - - _ ⟨⟩
          refine ⟨span, hspan, bytes.length, earlier, hpositive, ?_, ?_, hearlier⟩
          · rw [List.length_append, Nat.add_sub_cancel_left]
          · rw [questions_advance, hquestions, hpasses.questions_eq, Nat.add_sub_cancel_left,
              Nat.min_comm]
  | @failure copied e readerA feedA feed' span hpasses hspan hlt =>
      obtain rfl := hstop.eq hlaid (Nat.le_add_right _ _) hpasses.clear hspan
      have hsize := hspan.le_size hlaid
      have hremaining := hspan.remaining_pos
      constructor
      case memory =>
          intro hcases
          omega
      case payload =>
          rintro - - _ ⟨⟩

end Reader

/-! ### Families -/

namespace Family

variable {read : Nat → Reader S → Feed W H → Except ReadError Bytes × Reader S × Feed W H}
  {index : Nat} {reader : Reader S}

/-- Whether they read at once or by tasks, and whatever was told to them before, reads of members
that have not failed are greedy. -/
theorem read_is_greedy {plan : Plan} (hbuild : plan.build = .ok setting.piece)
    (hreads : Reader.Reads setting read) (world : W) {done : List (Nat × Command)}
    (hmember : ((start setting world).runAllBy setting read done).2.member? index = some reader)
    (hsound : reader.poisoned = false) (size : Nat) :
  let reached := ((start setting world).runAllBy setting read done).2
  ∃ stop outcome after, setting.piece.FirstPayload reader.position stop
    ∧ reached.runBy setting read index (.read size) = (.bytes outcome, after)
    ∧ Reader.Greedy setting.piece reader.position stop size reached.feed outcome after.feed
  := by
  intro reached
  have hlaid := Plan.laid_of_build hbuild
  have hkept := hreads.kept_attended hlaid
  obtain ⟨pos, h⟩ := (every_runAllBy hkept (every_start hkept world) done).member hmember
  obtain ⟨stop, hstop⟩ := Piece.exists_firstPayload h.le_size
  have hcourse := hreads.course hlaid h.toStandsAt hsound size reached.feed
  have hgreedy := hcourse.greedy hlaid h hstop
  rw [h.position_eq]
  refine ⟨stop, (read size reader reached.feed).1,
    reached.update index (read size reader reached.feed).2.1 (read size reader reached.feed).2.2,
    hstop, ?_, hgreedy⟩
  rw [runBy, hmember]

/-- A reader of tasks that comes from within the header to a payload, of which it is given one byte
after an interruption. -/
theorem read_is_greedy_after_interruption :
  let item : Item := ⟨⟨1⟩, "a", 3⟩
  let plan : Plan := ⟨[1, 2], 6, [.item 2 [7] [] ⟨0⟩ item 0 3]⟩
  let run : ItemRun := ⟨⟨0⟩, item, ⟨⟨2, [7], []⟩, 0, 3⟩, []⟩
  let interruption : IoError := ⟨.interrupted, "interrupted"⟩
  let registry : Registry ScriptedSource :=
    ⟨[(⟨0⟩, ⟨.memory ⟨[("a", [10, 11, 12])]⟩, [],
      [.proceed [.pending, .fail interruption, .atMost 1]]⟩)]⟩
  let setting : SuspendingSetting (Registry ScriptedSource) SourceId ScriptedStream :=
    ⟨Registry.polledSupply, ⟨[1, 2], 6, [.run run]⟩, .standard, true⟩
  let waiting := setting.waiting .suspending
  let read := Reader.readByTask setting
  let reached := ((start waiting registry).runAllBy waiting read [(0, .moveTo 1)]).2
  let after := (reached.runBy waiting read 0 (.read 4)).2
  plan.build = .ok waiting.piece ∧ Reader.Reads waiting read
    ∧ reached.member? 0 = some ⟨⟨1, 0, 0⟩, none, false⟩
    ∧ after.feed.questions
      = [.asked ⟨0⟩ .payload 2 (.ok 1), .asked ⟨0⟩ .payload 2 (.error interruption),
          .opened ⟨0⟩ 0 3 "a", .resolved ⟨0⟩]
    ∧ ∃ stop, waiting.piece.FirstPayload 1 stop
        ∧ Reader.Greedy waiting.piece 1 stop 4 reached.feed (.ok [2, 7, 10]) after.feed
  := by
  intro item plan run interruption registry setting waiting read reached after
  have hbuild : plan.build = .ok waiting.piece := rfl
  have hreads : Reader.Reads waiting read := .byTasks setting
  have hmember : reached.member? 0 = some ⟨⟨1, 0, 0⟩, none, false⟩ := by
    simp only [reached, read, waiting, setting, registry, interruption, run, item]
    cbv
  have hreply : (reached.runBy waiting read 0 (.read 4)).1 = .bytes (.ok [2, 7, 10]) := by
    simp only [reached, read, waiting, setting, registry, interruption, run, item]
    cbv
  have hquestions : after.feed.questions
      = [.asked ⟨0⟩ .payload 2 (.ok 1), .asked ⟨0⟩ .payload 2 (.error interruption),
          .opened ⟨0⟩ 0 3 "a", .resolved ⟨0⟩] := by
    simp only [after, reached, read, waiting, setting, registry, interruption, run, item]
    cbv
  obtain ⟨stop, outcome, family, hstop, hrun, hgreedy⟩ :=
    read_is_greedy hbuild hreads registry hmember rfl 4
  have hafter : after = family := congrArg (·.2) hrun
  have houtcome : outcome = .ok [2, 7, 10] := by
    rw [hrun] at hreply
    cases hreply
    rfl
  rw [houtcome, ← hafter] at hgreedy
  exact ⟨hbuild, hreads, hmember, hquestions, stop, hstop, hgreedy⟩

end Family

end PieceStream
