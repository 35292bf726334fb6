import PieceStream.Proofs.Custody

/-!
# Reading to the end

Whatever the sources of a piece answer, reading on comes to an end.  As long as there are bytes left
every read that goes well hands out some of them and takes the reader further by as many, so after
as many reads as there are bytes left one more fails or hands out nothing.
-/

namespace PieceStream

variable {W H S : Type}

namespace Reader

/-- Reads of these sizes, one after the other, hand out portions of bytes and take the reader
further by as many, until one of them fails or hands out nothing at the end of the piece. -/
inductive Exhausts (piece : Piece)
    (read : Nat → Reader S → Feed W H → Except ReadError Bytes × Reader S × Feed W H) :
    List Nat → Reader S → Feed W H → List Bytes → Except ReadError Bytes → Reader S → Feed W H →
      Prop
  | failure {size : Nat} {reader reader' : Reader S} {feed feed' : Feed W H} {e : ReadError}
      (hread : read size reader feed = (.error e, reader', feed'))
      (hle : reader.position ≤ piece.size) :
      Exhausts piece read [size] reader feed [] (.error e) reader' feed'
  | finish {size : Nat} {reader reader' : Reader S} {feed feed' : Feed W H}
      (hread : read size reader feed = (.ok [], reader', feed'))
      (hstart : reader.position = piece.size) (hend : reader'.position = piece.size) :
      Exhausts piece read [size] reader feed [] (.ok []) reader' feed'
  | portion {size : Nat} {sizes : List Nat} {reader reader' reader'' : Reader S}
      {feed feed' feed'' : Feed W H} {bytes : Bytes} {portions : List Bytes}
      {last : Except ReadError Bytes}
      (hread : read size reader feed = (.ok bytes, reader', feed')) (hne : bytes ≠ [])
      (hposition : reader'.position = reader.position + bytes.length)
      (hrest : Exhausts piece read sizes reader' feed' portions last reader'' feed'') :
      Exhausts piece read (size :: sizes) reader feed (bytes :: portions) last reader'' feed''

variable {setting : Setting W H S} {piece : Piece} {pos size start calls : Nat} {sizes : List Nat}
  {reader reader' : Reader S} {feed feed' : Feed W H} {bytes output : Bytes}
  {portions : List Bytes} {e : ReadError} {last : Except ReadError Bytes}
  {read : Nat → Reader S → Feed W H → Except ReadError Bytes × Reader S × Feed W H}

/-! ### What exhausts a piece -/

/-- There is one read for each portion, and the last one. -/
theorem Exhausts.length_eq (h : Exhausts piece read sizes reader feed portions last reader' feed') :
  sizes.length = portions.length + 1
  := by
  induction h with
  | failure => rfl
  | finish => rfl
  | portion _ _ _ _ ih => rw [List.length_cons, List.length_cons, ih]

/-- No portion is empty. -/
theorem Exhausts.ne_nil (h : Exhausts piece read sizes reader feed portions last reader' feed') :
  ∀ portion ∈ portions, portion ≠ []
  := by
  induction h with
  | failure => exact nofun
  | finish => exact nofun
  | portion _ hne _ _ ih => exact List.forall_mem_cons.mpr ⟨hne, ih⟩

/-- There are at least as many bytes as portions. -/
theorem Exhausts.length_le (h : Exhausts piece read sizes reader feed portions last reader' feed') :
  portions.length ≤ portions.flatten.length
  := by
  induction h with
  | failure => apply Nat.zero_le
  | finish => apply Nat.zero_le
  | portion _ hne _ _ ih =>
      have hpos := List.length_pos_iff.mpr hne
      rw [List.flatten_cons, List.length_append, List.length_cons]
      omega

/-- The portions are within the piece. -/
theorem Exhausts.total_le (h : Exhausts piece read sizes reader feed portions last reader' feed') :
  reader.position + portions.flatten.length ≤ piece.size
  := by
  induction h with
  | failure _ hle => apply hle
  | finish _ hstart => apply Nat.le_of_eq hstart
  | portion _ _ hposition _ ih =>
      rw [List.flatten_cons, List.length_append, ← Nat.add_assoc, ← hposition]
      apply ih

/-- The last read fails, or hands out nothing behind portions that make up the rest of the piece. -/
theorem Exhausts.last_cases
    (h : Exhausts piece read sizes reader feed portions last reader' feed') :
  (∃ e, last = .error e) ∨ last = .ok [] ∧ reader'.position = piece.size
    ∧ reader.position + portions.flatten.length = piece.size
  := by
  induction h with
  | failure => exact .inl ⟨_, rfl⟩
  | finish _ hstart hend => exact .inr ⟨rfl, hend, hstart⟩
  | portion _ _ hposition _ ih =>
      rw [List.flatten_cons, List.length_append, ← Nat.add_assoc, ← hposition]
      apply ih

/-! ### Every read gets further -/

/-- A course that goes well takes the reader further by what is handed out, and nothing is handed
out at the end of the piece alone. -/
theorem Course.attended_of_ok {taken : Except ReadError Bytes × Reader S × Feed W H}
    (hcourse : Course setting pos size reader feed taken) (hlaid : setting.piece.Laid)
    (h : reader.Attended setting.piece pos) (hsound : reader.poisoned = false) (hsize : 0 < size)
    (hok : taken.1 = .ok bytes) :
  taken.2.1.Attended setting.piece (pos + bytes.length)
    ∧ (bytes = [] → pos = setting.piece.size)
  := by
  cases hcourse with
  | memory hpasses _ hend =>
      cases hok
      refine ⟨h.passes hpasses, ?_⟩
      rintro rfl
      rw [List.length_nil] at hend
      omega
  | @payload copied taken readerA _ _ _ span hpasses hspan hlt htake =>
      cases hok
      have hattended := h.passes hpasses
      have htaken := hattended.takePayload hlaid (hpasses.poisoned_eq.trans hsound) hspan htake
      obtain ⟨-, -, -, -, -, hpositive, -⟩ := Setting.exists_held_of_takePayload
        (fun item hitem => (hattended.source_eq hlaid hspan hitem).1)
        (fun item hitem => (hattended.source_eq hlaid hspan hitem).2) htake
      rw [List.length_append, ← Nat.add_assoc]
      refine ⟨htaken, fun hnil => ?_⟩
      rw [List.append_eq_nil_iff.mp hnil |>.2] at hpositive
      cases hpositive
  | failure => cases hok

/-- A read that goes well takes the reader further by what it hands out, and hands out nothing at
the end of the piece alone. -/
theorem Reads.attended_of_ok (hreads : Reads setting read) (hlaid : setting.piece.Laid)
    (h : reader.Attended setting.piece pos) (hsize : 0 < size)
    (hread : read size reader feed = (.ok bytes, reader', feed')) :
  reader'.Attended setting.piece (pos + bytes.length) ∧ (bytes = [] → pos = setting.piece.size)
  := by
  have hsound : reader.poisoned = false := by
    cases hpoisoned : reader.poisoned with
    | true =>
        rw [hreads.poisons.spent hpoisoned] at hread
        cases hread
    | false => rfl
  have hcourse := hreads.course hlaid h.toStandsAt hsound size feed
  rw [hread] at hcourse
  apply hcourse.attended_of_ok hlaid h hsound hsize rfl

/-- Reads of any sizes exhaust a piece, if there are more of them than bytes left. -/
theorem Reads.exists_exhausts (hreads : Reads setting read) (hlaid : setting.piece.Laid)
    (hsizes : ∀ size ∈ sizes, 0 < size) (h : reader.Attended setting.piece pos)
    (hlong : setting.piece.size - pos < sizes.length) (feed : Feed W H) :
  ∃ used portions last reader' feed', used <+: sizes
    ∧ Exhausts setting.piece read used reader feed portions last reader' feed'
  := by
  induction sizes generalizing pos reader feed with
  | nil => cases hlong
  | cons size sizes ih =>
      obtain ⟨hsize, hsizes⟩ := List.forall_mem_cons.mp hsizes
      rcases hread : read size reader feed with ⟨e | bytes, reader', feed'⟩
      · have hle : reader.position ≤ setting.piece.size := h.position_eq ▸ h.le_size
        exact ⟨[size], [], .error e, reader', feed', List.prefix_append [size] sizes,
          .failure hread hle⟩
      · obtain ⟨h', hend⟩ := hreads.attended_of_ok hlaid h hsize hread
        by_cases hbytes : bytes = []
        · subst hbytes
          have hstart : reader.position = setting.piece.size := h.position_eq.trans (hend rfl)
          exact ⟨[size], [], .ok [], reader', feed', List.prefix_append [size] sizes,
            .finish hread hstart (h'.position_eq.trans (hend rfl))⟩
        · have hpos := List.length_pos_iff.mpr hbytes
          have hle := h'.le_size
          rw [List.length_cons] at hlong
          obtain ⟨used, portions, last, reader'', feed'', hused, hrest⟩ :=
            ih hsizes h' (by omega) feed'
          refine ⟨size :: used, bytes :: portions, last, reader'', feed'',
            List.cons_prefix_cons.mpr ⟨rfl, hused⟩, .portion hread hbytes ?_ hrest⟩
          rw [h'.position_eq, h.position_eq]

/-- Reads of one size exhaust a piece, at most one more of them than there are bytes left. -/
theorem Reads.exists_exhausts_replicate (hreads : Reads setting read) (hlaid : setting.piece.Laid)
    (hsize : 0 < size) (h : reader.Attended setting.piece pos) (feed : Feed W H) :
  ∃ used portions last reader' feed',
    used <+: List.replicate (setting.piece.size - pos + 1) size ∧ (∀ other ∈ used, other = size)
      ∧ Exhausts setting.piece read used reader feed portions last reader' feed'
  := by
  have hsizes : ∀ other ∈ List.replicate (setting.piece.size - pos + 1) size, 0 < other := by
    intro other hother
    rw [List.eq_of_mem_replicate hother]
    apply hsize
  have hlong : setting.piece.size - pos
      < (List.replicate (setting.piece.size - pos + 1) size).length := by
    rw [List.length_replicate]
    apply Nat.lt_succ_self
  obtain ⟨used, portions, last, reader', feed', hused, hexhausts⟩ :=
    hreads.exists_exhausts hlaid hsizes h hlong feed
  exact ⟨used, portions, last, reader', feed', hused,
    fun other hother => List.eq_of_mem_replicate (hused.subset hother), hexhausts⟩

/-! ### Reading to the end -/

/-- Reading on comes to an end by reads of the same size that exhaust the piece. -/
theorem Exhausts.appendRest_eq
    (h : Exhausts piece read sizes reader feed portions last reader' feed')
    (hsizes : ∀ other ∈ sizes, other = size) (hcalls : sizes.length ≤ calls) :
  appendRest (read size) start calls output reader feed
    = some (last.map fun _ => (output ++ portions.flatten).length - start,
        output ++ portions.flatten, reader', feed')
  := by
  induction h generalizing output calls with
  | failure hread =>
      obtain rfl := hsizes _ List.mem_cons_self
      obtain ⟨calls, rfl⟩ := Nat.exists_eq_add_of_le' hcalls
      rw [List.length_singleton, appendRest_of_error hread, List.flatten_nil, List.append_nil]
      rfl
  | finish hread =>
      obtain rfl := hsizes _ List.mem_cons_self
      obtain ⟨calls, rfl⟩ := Nat.exists_eq_add_of_le' hcalls
      rw [List.length_singleton, appendRest_of_nil hread, List.flatten_nil, List.append_nil]
      rfl
  | portion hread hne _ _ ih =>
      obtain ⟨rfl, hsizes⟩ := List.forall_mem_cons.mp hsizes
      obtain ⟨calls, rfl⟩ := Nat.exists_eq_add_of_le' hcalls
      rw [List.length_cons, ← Nat.add_assoc, appendRest_of_ok hne hread,
        ih hsizes (Nat.le_add_left _ calls), List.flatten_cons, ← List.append_assoc]

/-- Draining hands out the portions by reads of the same size that exhaust the piece. -/
theorem Exhausts.exists_drainWithin
    (h : Exhausts piece read sizes reader feed portions last reader' feed')
    (hsizes : ∀ other ∈ sizes, other = size) (hcalls : sizes.length ≤ calls) :
  ∃ failure, drainWithin (read size) calls reader feed
      = (portions ++ last.toOption.toList, failure, reader', feed')
    ∧ ∀ e, failure = some e ↔ last = .error e
  := by
  induction h generalizing calls with
  | failure hread =>
      obtain rfl := hsizes _ List.mem_cons_self
      obtain ⟨calls, rfl⟩ := Nat.exists_eq_add_of_le' hcalls
      rw [List.length_singleton, drainWithin, hread]
      exact ⟨_, rfl, fun e => by rw [Option.some.injEq, Except.error.injEq]⟩
  | finish hread =>
      obtain rfl := hsizes _ List.mem_cons_self
      obtain ⟨calls, rfl⟩ := Nat.exists_eq_add_of_le' hcalls
      rw [List.length_singleton, drainWithin, hread]
      exact ⟨none, rfl, fun e => by simp⟩
  | @portion _ _ _ _ _ _ _ _ bytes portions _ hread hne _ _ ih =>
      obtain ⟨rfl, hsizes⟩ := List.forall_mem_cons.mp hsizes
      obtain ⟨calls, rfl⟩ := Nat.exists_eq_add_of_le' hcalls
      obtain ⟨b, bs, rfl⟩ := List.exists_cons_of_ne_nil hne
      obtain ⟨failure, hrest, hfailure⟩ := ih hsizes (Nat.le_add_left _ calls)
      rw [List.length_cons, ← Nat.add_assoc, drainWithin, hread]
      dsimp only
      rw [hrest]
      exact ⟨failure, rfl, hfailure⟩

end Reader

/-! ### Families -/

namespace Family

variable {setting : Setting W H S} {piece : Piece} {F : Family W H S} {index : Nat}
  {sizes : List Nat} {reader reader' : Reader S} {feed feed' : Feed W H} {portions : List Bytes}
  {last : Except ReadError Bytes}
  {read : Nat → Reader S → Feed W H → Except ReadError Bytes × Reader S × Feed W H}

/-- The commands for a member to read these sizes, one after the other. -/
def reads (index : Nat) (sizes : List Nat) : List (Nat × Command) :=
  sizes.map fun size => (index, .read size)

/-- Told to read these sizes one after the other, a member hands out these portions, none of them
empty, and stands further on by their bytes after each.  The next read is the last one: it fails, or
the member is at the end of the piece and hands out nothing. -/
structure ReadsOut (setting : Setting W H S)
    (read : Nat → Reader S → Feed W H → Except ReadError Bytes × Reader S × Feed W H) (index : Nat)
    (sizes : List Nat) (portions : List Bytes) (last : Except ReadError Bytes)
    (F after : Family W H S) : Prop where
  run_eq : F.runAllBy setting read (reads index (sizes.take (portions.length + 1)))
    = (portions.map (fun portion => .bytes (.ok portion)) ++ [.bytes last], after)
  ne_nil : ∀ portion ∈ portions, portion ≠ []
  further : ∀ count ≤ portions.length,
    ((F.runAllBy setting read (reads index (sizes.take count))).2.member? index).map Reader.position
      = (F.member? index).map (·.position + (portions.take count).flatten.length)
  last_cases : (∃ e, last = .error e)
    ∨ last = .ok [] ∧ (after.member? index).map Reader.position = some setting.piece.size

/-- Of two changes of a member the second one remains. -/
theorem update_update :
  (F.update index reader feed).update index reader' feed' = F.update index reader' feed'
  := by
  rw [update, update, update, List.set_set]

/-- A member that is told to read comes to what its reader comes to. -/
theorem runBy_read (hmember : F.member? index = some reader) (size : Nat) :
  F.runBy setting read index (.read size)
    = (.bytes (read size reader F.feed).1,
        F.update index (read size reader F.feed).2.1 (read size reader F.feed).2.2)
  := by
  rw [runBy, hmember]

end Family

namespace Reader.Exhausts

variable {setting : Setting W H S} {piece : Piece} {F : Family W H S} {index : Nat}
  {sizes : List Nat} {reader reader' : Reader S} {feed feed' : Feed W H} {portions : List Bytes}
  {last : Except ReadError Bytes}
  {read : Nat → Reader S → Feed W H → Except ReadError Bytes × Reader S × Feed W H}

/-- A member that is told to read what exhausts the piece hands out the portions. -/
theorem runAllBy_eq (h : Exhausts piece read sizes reader F.feed portions last reader' feed')
    (hmember : F.member? index = some reader) :
  F.runAllBy setting read (Family.reads index sizes)
    = (portions.map (fun portion => .bytes (.ok portion)) ++ [.bytes last],
        F.update index reader' feed')
  := by
  generalize hfeed : F.feed = feed at h
  induction h generalizing F with
  | failure hread =>
      subst hfeed
      rw [Family.reads, List.map_singleton, Family.runAllBy_cons, Family.runBy_read hmember, hread]
      rfl
  | finish hread =>
      subst hfeed
      rw [Family.reads, List.map_singleton, Family.runAllBy_cons, Family.runBy_read hmember, hread]
      rfl
  | portion hread _ _ _ ih =>
      subst hfeed
      rw [Family.reads] at ih ⊢
      rw [List.map_cons, Family.runAllBy_cons, Family.runBy_read hmember, hread]
      dsimp only
      rw [ih (Family.member?_update hmember) rfl, Family.update_update]
      rfl

/-- After each portion the member stands further on by the bytes handed out. -/
theorem further (h : Exhausts piece read sizes reader F.feed portions last reader' feed')
    (hmember : F.member? index = some reader) {count : Nat} (hcount : count ≤ portions.length) :
  ((F.runAllBy setting read (Family.reads index (sizes.take count))).2.member? index).map
      Reader.position
    = some (reader.position + (portions.take count).flatten.length)
  := by
  generalize hfeed : F.feed = feed at h
  induction h generalizing F count with
  | failure =>
      obtain rfl := Nat.le_zero.mp hcount
      apply congrArg (Option.map Reader.position) hmember
  | finish =>
      obtain rfl := Nat.le_zero.mp hcount
      apply congrArg (Option.map Reader.position) hmember
  | portion hread _ hposition _ ih =>
      subst hfeed
      cases count with
      | zero => apply congrArg (Option.map Reader.position) hmember
      | succ count =>
          rw [List.take_succ_cons, List.take_succ_cons, List.flatten_cons, List.length_append,
            ← Nat.add_assoc, ← hposition, Family.reads, List.map_cons, Family.runAllBy_cons,
            Family.runBy_read hmember, hread]
          apply ih (Family.member?_update hmember) (Nat.le_of_succ_le_succ hcount) rfl

/-- A member reads out what exhausts the piece. -/
theorem readsOut {used : List Nat}
    (h : Exhausts setting.piece read used reader F.feed portions last reader' feed')
    (hused : used <+: sizes) (hmember : F.member? index = some reader) :
  F.ReadsOut setting read index sizes portions last (F.update index reader' feed')
  := by
  have htake : used = sizes.take (portions.length + 1) :=
    h.length_eq ▸ List.prefix_iff_eq_take.mp hused
  constructor
  case run_eq => rw [← htake, h.runAllBy_eq hmember]
  case ne_nil => apply h.ne_nil
  case further =>
      intro count hcount
      have hagree : sizes.take count = used.take count := by
        rw [htake, List.take_take, Nat.min_eq_left (Nat.le_succ_of_le hcount)]
      rw [hagree, hmember]
      apply h.further hmember hcount
  case last_cases =>
      rcases h.last_cases with herror | ⟨hlast, hend, -⟩
      · exact .inl herror
      · refine .inr ⟨hlast, ?_⟩
        rw [Family.member?_update hmember, Option.map_some, hend]

/-- There are no more portions than bytes left, and no more bytes in them. -/
theorem length_le_left (h : Exhausts piece read sizes reader feed portions last reader' feed') :
  portions.length ≤ piece.size - reader.position
    ∧ portions.flatten.length ≤ piece.size - reader.position
  := by
  have hlength := h.length_le
  have htotal := h.total_le
  omega

/-- A member that is drained hands out the portions: the bound on the reads cuts nothing off. -/
theorem exists_runBy_drain {size : Nat}
    (h : Exhausts setting.piece read sizes reader F.feed portions last reader' feed')
    (hsizes : ∀ other ∈ sizes, other = size) (hmember : F.member? index = some reader) :
  ∃ failure, F.runBy setting read index (.drain size)
      = (.drained (portions ++ last.toOption.toList) failure, F.update index reader' feed')
    ∧ ∀ e, failure = some e ↔ last = .error e
  := by
  have hcalls : sizes.length ≤ setting.piece.size - reader.position + 1 := by
    rw [h.length_eq]
    apply Nat.succ_le_succ h.length_le_left.1
  obtain ⟨failure, hdrain, hfailure⟩ := h.exists_drainWithin hsizes hcalls
  refine ⟨failure, ?_, hfailure⟩
  rw [Family.runBy, hmember]
  dsimp only
  rw [Reader.drain, hdrain]

/-- To read to the end appends the portions, and all that was left unless a read failed. -/
theorem readToEnd_eq {size calls : Nat} {output : Bytes}
    (h : Exhausts piece read sizes reader feed portions last reader' feed')
    (hsizes : ∀ other ∈ sizes, other = size) (hcalls : portions.length < calls) :
  readToEnd (read size) calls output reader feed
    = some (last.map fun _ => piece.size - reader.position, output ++ portions.flatten, reader',
        feed')
  := by
  have hcalls : sizes.length ≤ calls := h.length_eq ▸ hcalls
  rw [readToEnd, h.appendRest_eq hsizes hcalls, List.length_append, Nat.add_sub_cancel_left]
  rcases h.last_cases with ⟨e, rfl⟩ | ⟨rfl, -, htotal⟩
  · rfl
  · rw [← htotal, Nat.add_sub_cancel_left]

end Reader.Exhausts

namespace Family

variable {setting : Setting W H S} {reader : Reader S} {index : Nat}
  {read : Nat → Reader S → Feed W H → Except ReadError Bytes × Reader S × Feed W H}

/-- Wherever a member has come to and whatever its sources answer, reading on comes to an end, at
once or by tasks.  Reads of any sizes that are not zero hand out portions that take the member
further, in no more reads than there are bytes left, and one more read fails or finds the end.  To
read to the end, or to drain the member, is to make these reads, and any bound above their number
cuts nothing off: the portions are appended to the output, whether a read fails or not, and if none
fails they are all that was left. -/
theorem reading_comes_to_end {plan : Plan} (hbuild : plan.build = .ok setting.piece)
    (hreads : Reader.Reads setting read) (world : W) {done : List (Nat × Command)}
    (hmember : ((start setting world).runAllBy setting read done).2.member? index = some reader) :
  let reached := ((start setting world).runAllBy setting read done).2
  let left := setting.piece.size - reader.position
  reader.position ≤ setting.piece.size
    ∧ (∀ sizes, (∀ size ∈ sizes, 0 < size) → left < sizes.length →
        ∃ portions last after, portions.length ≤ left ∧ portions.flatten.length ≤ left
          ∧ reached.ReadsOut setting read index sizes portions last after)
    ∧ ∀ size, 0 < size → ∃ portions last reader' feed',
        portions.length ≤ left ∧ portions.flatten.length ≤ left
          ∧ reached.ReadsOut setting read index (List.replicate (left + 1) size) portions last
            (reached.update index reader' feed')
          ∧ (∀ output calls, portions.length < calls →
              Reader.readToEnd (read size) calls output reader reached.feed
                = some (last.map fun _ => left, output ++ portions.flatten, reader', feed'))
          ∧ ∃ failure, reached.runBy setting read index (.drain size)
                = (.drained (portions ++ last.toOption.toList) failure,
                    reached.update index reader' feed')
              ∧ ∀ e, failure = some e ↔ last = .error e
  := by
  intro reached left
  have hlaid := Plan.laid_of_build hbuild
  have h := (every_attended hlaid hreads world done).member hmember
  refine ⟨h.le_size, fun sizes hsizes hlong => ?_, fun size hsize => ?_⟩
  · obtain ⟨used, portions, last, reader', feed', hused, hexhausts⟩ :=
      hreads.exists_exhausts hlaid hsizes h hlong reached.feed
    obtain ⟨hlength, htotal⟩ := hexhausts.length_le_left
    exact ⟨portions, last, _, hlength, htotal, hexhausts.readsOut hused hmember⟩
  · obtain ⟨used, portions, last, reader', feed', hused, hsame, hexhausts⟩ :=
      hreads.exists_exhausts_replicate hlaid hsize h reached.feed
    obtain ⟨hlength, htotal⟩ := hexhausts.length_le_left
    exact ⟨portions, last, reader', feed', hlength, htotal, hexhausts.readsOut hused hmember,
      fun output calls => hexhausts.readToEnd_eq hsame, hexhausts.exists_runBy_drain hsame hmember⟩

/-- Behind the header a reader of tasks reads three bytes that come one at a time, once after an
interruption, to the end. -/
theorem reading_comes_to_end_byte_by_byte :
  let item : Item := ⟨⟨1⟩, "a", 3⟩
  let plan : Plan := ⟨[1], 4, [.item 1 [] [] ⟨0⟩ item 0 3]⟩
  let interruption : IoError := ⟨.interrupted, "interrupted"⟩
  let source : ScriptedSource := ⟨.memory ⟨[("a", [10, 11, 12])]⟩, [],
    [.proceed [.atMost 1, .fail interruption, .pending, .atMost 1]]⟩
  let setting : SuspendingSetting (Registry ScriptedSource) SourceId ScriptedStream :=
    ⟨Registry.polledSupply, ⟨[1], 4, [.run ⟨⟨0⟩, item, ⟨⟨1, [], []⟩, 0, 3⟩, []⟩]⟩, .standard, true⟩
  let waiting := setting.waiting .suspending
  let read := Reader.readByTask setting
  let reader : Reader ScriptedStream := ⟨⟨1, 0, 0⟩, none, false⟩
  let reached := ((start waiting ⟨[(⟨0⟩, source)]⟩).runAllBy waiting read [(0, .read 1)]).2
  plan.build = .ok waiting.piece ∧ Reader.Reads waiting read ∧ reached.member? 0 = some reader
    ∧ (∃ portions last after,
        reached.ReadsOut waiting read 0 [1, 5, 2, 4] portions last after)
    ∧ ∃ reader' feed', Reader.readToEnd (read 2) 4 [9] reader reached.feed
        = some (.ok 3, [9, 10, 11, 12], reader', feed')
  := by
  intro item plan interruption source setting waiting read reader reached
  have hbuild : plan.build = .ok waiting.piece := rfl
  have hreads : Reader.Reads waiting read := .byTasks setting
  have hmember : reached.member? 0 = some reader := by
    simp only [reached, reader, read, waiting, setting, source, interruption, item]
    cbv
  have hdrained : (reached.runBy waiting read 0 (.drain 2)).1
      = .drained [[10], [11], [12], []] none := by
    simp only [reached, read, waiting, setting, source, interruption, item]
    cbv
  obtain ⟨-, hany, hsame⟩ := reading_comes_to_end hbuild hreads ⟨[(⟨0⟩, source)]⟩ hmember
  obtain ⟨portions, last, after, -, -, hout⟩ := hany [1, 5, 2, 4] (by decide) (by decide)
  obtain ⟨portions', last', reader', feed', -, -, hout', hend, failure, hdrain, hfailure⟩ :=
    hsame 2 (by decide)
  rw [hdrain] at hdrained
  obtain ⟨hportions, rfl⟩ := Reply.drained.inj hdrained
  rcases hout'.last_cases with ⟨e, he⟩ | ⟨rfl, -⟩
  · cases (hfailure e).mpr he
  · have happended : portions' ++ [[]] = [[10], [11], [12]] ++ [[]] := hportions
    obtain rfl := List.append_cancel_right happended
    exact ⟨hbuild, hreads, hmember, ⟨portions, last, after, hout⟩, reader', feed',
      hend [9] 4 (by decide)⟩

end Family

end PieceStream
