import Mathlib.Logic.Relation
import PieceStream.Reading.Family

/-!
# Steps of a feed

Whatever readers are told to do, their feed goes on in steps of four kinds: a note is taken, a
stream is given up, a stream is asked for bytes, or a range of the item of a run is asked for.  What
every step preserves is therefore preserved by every command.
-/

namespace PieceStream

variable {W H S : Type}

/-- What may happen to the feed of readers at once. -/
inductive Setting.Step (setting : Setting W H S) : Feed W H → Feed W H → Prop
  | note (feed : Feed W H) (note : Note) : Step setting feed (feed.note note)
  | drop (feed : Feed W H) (item : HeldStream S) : Step setting feed (feed.drop item)
  | ask (purpose : Purpose) (size : Nat) (item : HeldStream S) (feed : Feed W H) :
      Step setting feed (setting.supply.ask purpose size item feed).2.2
  | openFor (span : PayloadRest) (feed : Feed W H)
      (hrun : setting.piece.blocks[span.block]? = some (.run span.run)) :
      Step setting feed (setting.openFor span feed).2

/-- The one feed is reached from the other in steps. -/
def Setting.Leads (setting : Setting W H S) : Feed W H → Feed W H → Prop :=
  Relation.ReflTransGen setting.Step

variable {setting : Setting W H S} {feed feed' feed'' : Feed W H} {item item' : HeldStream S}
  {held : Option (HeldStream S)} {span : PayloadRest}

namespace Setting

theorem Step.leads (h : setting.Step feed feed') :
  setting.Leads feed feed'
  := .single h

theorem Leads.refl :
  setting.Leads feed feed
  := Relation.ReflTransGen.refl

theorem Leads.trans (h : setting.Leads feed feed') (h' : setting.Leads feed' feed'') :
  setting.Leads feed feed''
  := Relation.ReflTransGen.trans h h'

/-- What every step preserves holds of every feed that is reached. -/
theorem Leads.preserves {P : Feed W H → Prop} (h : setting.Leads feed feed')
    (hstep : ∀ {f f' : Feed W H}, setting.Step f f' → P f → P f') (hfeed : P feed) :
  P feed'
  := by
  induction h with
  | refl => apply hfeed
  | tail _ h ih => apply hstep h ih

theorem leads_release :
  setting.Leads feed (feed.release item)
  := (Step.note feed _).leads.trans (Step.drop _ item).leads

theorem leads_of_ask {purpose : Purpose} {size : Nat} {outcome : Except IoError Bytes}
    (h : setting.supply.ask purpose size item feed = (outcome, item', feed')) :
  setting.Leads feed feed'
  := by
  have hfeed' : feed' = (setting.supply.ask purpose size item feed).2.2 := by rw [h]
  rw [hfeed']
  apply (Step.ask purpose size item feed).leads

theorem leads_askUninterrupted (size : Nat) (item : HeldStream S) (feed : Feed W H) :
  setting.Leads feed (setting.supply.askUninterrupted size item feed).2.2
  := by
  induction item, feed using Supply.askUninterrupted.induct setting.supply size with
  | case1 item feed bytes item' feed' hask =>
      rw [Supply.askUninterrupted_of_ok hask]
      apply leads_of_ask hask
  | case2 item feed e item' feed' hask he ih =>
      rw [Supply.askUninterrupted_of_interruption hask he]
      apply (leads_of_ask hask).trans ih
  | case3 item feed e item' feed' hask he =>
      rw [Supply.askUninterrupted_of_error hask (Bool.eq_false_iff.mpr he)]
      apply leads_of_ask hask

theorem leads_passOver (gap : Nat) (item : HeldStream S) (feed : Feed W H) :
  setting.Leads feed (setting.supply.passOver gap item feed).2.2
  := by
  induction gap, item, feed using Supply.passOver.induct setting.supply with
  | case1 item feed =>
      rw [Supply.passOver_zero]
      apply Leads.refl
  | case2 gap item feed hne item' feed' hask =>
      rw [Supply.passOver_of_nil (Nat.pos_of_ne_zero hne) hask]
      apply leads_of_ask hask
  | case3 gap item feed hne b bs item' feed' hask ih =>
      rw [Supply.passOver_of_ok (Nat.pos_of_ne_zero hne) (List.cons_ne_nil b bs) hask]
      apply (leads_of_ask hask).trans ih
  | case4 gap item feed hne e item' feed' hask he ih =>
      rw [Supply.passOver_of_interruption (Nat.pos_of_ne_zero hne) hask he]
      apply (leads_of_ask hask).trans ih
  | case5 gap item feed hne e item' feed' hask he =>
      rw [Supply.passOver_of_error (Nat.pos_of_ne_zero hne) hask (Bool.eq_false_iff.mpr he)]
      apply leads_of_ask hask

/-- To bring a stream to the bytes of a run takes steps. -/
theorem leads_acquire (hrun : setting.piece.blocks[span.block]? = some (.run span.run)) :
  setting.Leads feed (setting.acquire held span feed).2
  := by
  rw [acquire]
  split
  · apply Leads.refl
  · next item gap _ =>
    apply (Step.note feed (.skipping span.path item.itemPos gap)).leads.trans
    apply (leads_passOver gap item _).trans
    rw [concludeSkip.eq_def]
    split <;> rename_i hover <;> rw [hover]
    · apply Leads.refl
    · apply (Step.drop _ _).leads
    · apply (Step.drop _ _).leads
  · apply leads_release.trans (Step.openFor span _ hrun).leads
  · apply (Step.openFor span feed hrun).leads

theorem leads_askFor (span : PayloadRest) (room : Nat)
    (acquired : Except ReadError (HeldStream S) × Feed W H) :
  setting.Leads acquired.2 (setting.askFor span room acquired).2.2
  := by
  rw [askFor.eq_def]
  split
  · apply Leads.refl
  · next item feed =>
    have hask : setting.Leads feed (setting.supply.askUninterrupted (min span.remaining room) item
        feed).2.2 := leads_askUninterrupted _ item feed
    split <;> rename_i heq <;> rw [heq] at hask <;> apply hask

theorem leads_takePayload {room : Nat}
    (hrun : setting.piece.blocks[span.block]? = some (.run span.run)) :
  setting.Leads feed (setting.takePayload held span room feed).2.2
  := (leads_acquire hrun).trans (leads_askFor span room _)

end Setting

/-! ### Readers -/

/-- A payload that a cursor stands on is one of a run of the piece. -/
theorem Cursor.run_of_segment {piece : Piece} {c : Cursor}
    (h : c.segment piece = .payload span) :
  piece.blocks[span.block]? = some (.run span.run)
  := by
  unfold segment at h
  split at h
  · cases h
  · split at h
    · split at h <;> cases h
    · next hr =>
      split at h
      · split at h
        · cases h
        · cases h
          apply hr
      · cases h
    · cases h

namespace Reader

open Setting

variable {reader : Reader S}

theorem leads_release :
  setting.Leads feed (reader.release feed).2
  := by
  rw [release]
  split
  · apply Leads.refl
  · apply Setting.leads_release

theorem leads_advance {n : Nat} :
  setting.Leads feed (reader.advance setting n feed).2
  := by
  simp only [advance]
  split
  · apply leads_release
  · apply Leads.refl

theorem leads_takeIn (reader : Reader S)
    (taken : Except ReadError Bytes × Option (HeldStream S) × Feed W H) :
  setting.Leads taken.2.2 (reader.takeIn setting taken).2.2
  := by
  rw [takeIn.eq_def]
  split
  · apply Leads.refl
  · apply leads_advance

theorem leads_gather (room : Nat) (reader : Reader S) (feed : Feed W H) :
  setting.Leads feed (reader.gather setting room feed).2.2
  := by
  induction room using Nat.strongRecOn generalizing reader feed with
  | ind room ih =>
      rcases Nat.eq_zero_or_pos room with rfl | hroom
      · rw [gather_zero]
        apply Leads.refl
      · cases hseg : reader.cursor.segment setting.piece with
        | finish =>
            rw [gather_of_finish hseg]
            apply Leads.refl
        | bytes available =>
            have hpos : 0 < (available.take room).length := by
              have := List.length_pos_iff.mpr (Cursor.ne_nil_of_segment hseg)
              rw [List.length_take]
              omega
            rw [gather_of_bytes hroom hseg]
            apply leads_advance.trans (ih _ (Nat.sub_lt hroom hpos) _ _)
        | payload span =>
            rw [gather_of_payload hroom hseg]
            apply (leads_takePayload (Cursor.run_of_segment hseg)).trans (leads_takeIn reader _)

/-- To read takes steps. -/
theorem leads_read (size : Nat) (reader : Reader S) (feed : Feed W H) :
  setting.Leads feed (reader.read setting size feed).2.2
  := by
  rw [read]
  split
  · apply Leads.refl
  · apply (leads_gather size reader feed).trans
    rw [poisonOnError.eq_def]
    split <;> rename_i hgather <;> rw [hgather]
    · apply Leads.refl
    · apply (Step.note _ _).leads.trans leads_release

/-- What every read preserves holds after any number of reads. -/
theorem drainWithin_preserves {P : Reader S → Feed W H → Prop}
    {read : Reader S → Feed W H → Except ReadError Bytes × Reader S × Feed W H}
    (hread : ∀ {reader feed}, P reader feed → P (read reader feed).2.1 (read reader feed).2.2)
    (calls : Nat) {reader : Reader S} (h : P reader feed) :
  P (drainWithin read calls reader feed).2.2.1 (drainWithin read calls reader feed).2.2.2
  := by
  induction calls generalizing reader feed with
  | zero => apply h
  | succ calls ih =>
      have hnext := hread h
      rw [drainWithin]
      split <;> rename_i heq <;> rw [heq] at hnext
      · apply hnext
      · apply hnext
      · apply ih hnext

theorem leads_drainWithin (size calls : Nat) (reader : Reader S) (feed : Feed W H) :
  setting.Leads feed
    (drainWithin (fun reader feed => reader.read setting size feed) calls reader feed).2.2.2
  := by
  let reached : Reader S → Feed W H → Prop := fun _ feed' => setting.Leads feed feed'
  have hstart : reached reader feed := Leads.refl
  apply drainWithin_preserves _ calls hstart
  intro reader' feed' h
  apply h.trans (leads_read size reader' feed')

/-- To read to the end takes steps. -/
theorem leads_drain (size : Nat) (reader : Reader S) (feed : Feed W H) :
  setting.Leads feed
    (reader.drain setting (fun reader feed => reader.read setting size feed) feed).2.2.2
  := leads_drainWithin size _ reader feed

/-- To move takes steps. -/
theorem leads_moveTo (offset : Nat) (reader : Reader S) (feed : Feed W H) :
  setting.Leads feed (reader.moveTo setting offset feed).2.2
  := by
  rw [moveTo]
  split
  · apply Leads.refl
  · apply leads_release.trans (Step.note _ _).leads

/-- To seek is to move, or to stay where there is no such offset. -/
theorem seek_cases (setting : Setting W H S) (target : SeekTarget) (reader : Reader S)
    (feed : Feed W H) :
  (reader.seek setting target feed).2 = (reader, feed)
    ∨ (reader.seek setting target feed).2
      = (reader.moveTo setting (targetPosition setting target reader).toNat feed).2
  := by
  simp only [seek]
  split
  · exact .inl rfl
  · right
    split <;> rename_i heq <;> rw [heq]

/-- To seek takes steps. -/
theorem leads_seek (target : SeekTarget) (reader : Reader S) (feed : Feed W H) :
  setting.Leads feed (reader.seek setting target feed).2.2
  := by
  rcases seek_cases setting target reader feed with heq | heq
  · rw [heq]
    apply Leads.refl
  · rw [heq]
    apply leads_moveTo

end Reader

/-! ### What readers keep -/

/-- Readers keep what holds of new ones and is taken away neither by a read, nor by giving the
stream up, nor by a move. -/
structure Reader.Kept (setting : Setting W H S)
    (read : Nat → Reader S → Feed W H → Except ReadError Bytes × Reader S × Feed W H)
    (P : Reader S → Prop) : Prop where
  startAt {offset : Nat} : offset ≤ setting.piece.size → P (Reader.startAt setting offset)
  read {size : Nat} {reader : Reader S} {feed : Feed W H} : P reader →
    P (read size reader feed).2.1
  release {reader : Reader S} : P reader → P { reader with held := none }
  move {reader : Reader S} {offset : Nat} : offset ≤ setting.piece.size → P reader →
    P { reader with cursor := Cursor.locate setting.piece offset, held := none }

/-- Something holds of every member. -/
def Family.Every (P : Reader S → Prop) (family : Family W H S) : Prop :=
  ∀ reader, some reader ∈ family.members → P reader

section

variable {P : Reader S → Prop} {reader : Reader S} {family : Family W H S}
  {read : Nat → Reader S → Feed W H → Except ReadError Bytes × Reader S × Feed W H}

namespace Reader.Kept

/-- What readers keep is kept when they read to the end. -/
theorem drain (h : Kept setting read P) (hreader : P reader) (size : Nat) (feed : Feed W H) :
  P (reader.drain setting (read size) feed).2.2.1
  := by
  let kept : Reader S → Feed W H → Prop := fun reader _ => P reader
  have hstart : kept reader feed := hreader
  apply drainWithin_preserves _ _ hstart
  intro reader' feed' h'
  apply h.read h'

/-- What readers keep is kept when they move, be the offset in reach or not. -/
theorem moveTo (h : Kept setting read P) (hreader : P reader) (offset : Nat) (feed : Feed W H) :
  P (reader.moveTo setting offset feed).2.1
  := by
  rw [Reader.moveTo, checkReach]
  by_cases hreach : setting.piece.size < offset
  · rw [if_pos hreach]
    apply hreader
  · rw [if_neg hreach]
    simp only [release_fst]
    apply h.move (Nat.le_of_not_lt hreach) hreader

/-- What readers keep is kept when they seek. -/
theorem seek (h : Kept setting read P) (hreader : P reader) (target : SeekTarget)
    (feed : Feed W H) :
  P (reader.seek setting target feed).2.1
  := by
  rcases seek_cases setting target reader feed with heq | heq
  · rw [heq]
    apply hreader
  · rw [heq]
    apply h.moveTo hreader

end Reader.Kept

namespace Family

/-- What holds of every member holds of each. -/
theorem Every.member {index : Nat} (h : family.Every P)
    (hmember : family.member? index = some reader) :
  P reader
  := h reader (List.mem_of_getElem? (member?_eq_some_iff.mp hmember))

/-- What holds of every member does so when one of them is replaced by a reader of which it
holds. -/
theorem Every.update (h : family.Every P) (index : Nat) (hreader : P reader) (feed : Feed W H) :
  (family.update index reader feed).Every P
  := by
  intro reader' hmem
  rcases List.mem_or_eq_of_mem_set hmem with hmem | heq
  · apply h reader' hmem
  · cases heq
    apply hreader

/-- What readers keep holds of every member, whatever one of them is told. -/
theorem every_runBy (hkept : Reader.Kept setting read P) (h : family.Every P) (index : Nat)
    (command : Command) :
  (family.runBy setting read index command).2.Every P
  := by
  rw [runBy]
  split
  · apply h
  · next reader hmember =>
    have hreader := h.member hmember
    cases command with
    | read size => apply h.update index (hkept.read hreader)
    | drain size => apply h.update index (hkept.drain hreader size family.feed)
    | moveTo offset => apply h.update index (hkept.moveTo hreader offset family.feed)
    | seek target => apply h.update index (hkept.seek hreader target family.feed)
    | copy offset =>
        simp only [Reader.copyAt, Reader.checkReach]
        by_cases hreach : setting.piece.size < offset
        · simp only [if_pos hreach]
          apply h
        · simp only [if_neg hreach]
          intro reader' hmem
          rcases List.mem_append.mp hmem with hmem | heq
          · apply h reader' hmem
          · cases List.mem_singleton.mp heq
            apply hkept.startAt (Nat.le_of_not_lt hreach)
    | close =>
        apply h.update index
        rw [Reader.release_fst]
        apply hkept.release hreader
    | drop =>
        simp only [remove, hmember]
        intro reader' hmem
        rcases List.mem_or_eq_of_mem_set hmem with hmem | heq
        · apply h reader' hmem
        · cases heq

/-- What readers keep holds of every member, whatever they are told one after the other. -/
theorem every_runAllBy (hkept : Reader.Kept setting read P) (h : family.Every P)
    (commands : List (Nat × Command)) :
  (family.runAllBy setting read commands).2.Every P
  := by
  induction commands generalizing family with
  | nil => apply h
  | cons c commands ih =>
      obtain ⟨index, command⟩ := c
      rw [runAllBy_cons]
      apply ih (every_runBy hkept h index command)

/-- What readers keep holds of the reader of a new family. -/
theorem every_start (hkept : Reader.Kept setting read P) (world : W) :
  (start setting world).Every P
  := by
  intro reader hmem
  cases List.mem_singleton.mp hmem
  apply hkept.startAt (Nat.zero_le _)

end Family

end

/-! ### Families -/

namespace Family

open Setting

/-- To obey takes steps. -/
theorem leads_run (index : Nat) (command : Command) (family : Family W H S) :
  setting.Leads family.feed (family.run setting index command).2.feed
  := by
  rw [run, runBy]
  split
  · apply Leads.refl
  · next reader hreader =>
    cases command with
    | read size => apply Reader.leads_read
    | drain size => apply Reader.leads_drain
    | moveTo offset => apply Reader.leads_moveTo
    | seek target => apply Reader.leads_seek
    | copy offset =>
        dsimp only
        split <;> apply Leads.refl
    | close => apply Reader.leads_release
    | drop =>
        simp only [remove, hreader]
        split
        · apply (Step.drop _ _).leads
        · apply Leads.refl

/-- To obey again and again takes steps. -/
theorem leads_runAll (commands : List (Nat × Command)) (family : Family W H S) :
  setting.Leads family.feed (family.runAll setting commands).2.feed
  := by
  induction commands generalizing family with
  | nil => apply Leads.refl
  | cons c commands ih =>
      obtain ⟨index, command⟩ := c
      rw [runAll_cons]
      apply (leads_run index command family).trans (ih _)

end Family

end PieceStream
