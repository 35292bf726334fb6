import PieceStream.Proofs.Courses
import PieceStream.Proofs.Shortage

/-!
# Positions

While its reads go well a reader goes forward by exactly the bytes that it hands out.  A read that
fails hands out nothing, but leaves the reader at the payload byte that comes next: the bytes in
memory before that byte are passed and not handed out.  It leaves the reader where it is exactly if
the reader stands on a payload byte or has failed before.
-/

namespace PieceStream.Family

variable {W H S : Type} {setting : Setting W H S} {family : Family W H S} {reader : Reader S}
  {index : Nat} {portions : List Bytes}
  {read : Nat → Reader S → Feed W H → Except ReadError Bytes × Reader S × Feed W H}

/-- While the reads of a member go well it goes forward by the bytes that they hand out. -/
theorem exists_member_of_reads {commands : List (Nat × Command)}
    (hread : Reader.Reads setting read) (hlaid : setting.piece.Laid)
    (h : family.Stands setting.piece) (hmember : family.member? index = some reader)
    (hreads : ∀ c ∈ commands, c.1 = index → ∃ size, c.2 = .read size)
    (hportions : Reply.outcomesOf index commands (family.runAllBy setting read commands).1
      = portions.map .ok) :
  ∃ reader', (family.runAllBy setting read commands).2.member? index = some reader'
    ∧ reader'.position = reader.position + portions.flatten.length
  := by
  induction commands generalizing family reader portions with
  | nil =>
      obtain rfl : portions = [] := List.map_eq_nil_iff.mp hportions.symm
      exact ⟨reader, hmember, rfl⟩
  | cons c commands ih =>
      obtain ⟨i, command⟩ := c
      have hreads' := fun c hc => hreads c (List.mem_cons_of_mem _ hc)
      have hstands := stands_runBy hread hlaid h i command
      rw [runAllBy_cons] at hportions ⊢
      by_cases hi : i = index
      · subst hi
        obtain ⟨size, rfl⟩ : ∃ size, command = .read size := hreads _ List.mem_cons_self rfl
        obtain ⟨outcome, reader', feed', hnow, hok, -⟩ :=
          hread.standsAt_read hlaid (h.member hmember) size family.feed
        have hrun : family.runBy setting read i (.read size)
            = (.bytes outcome, family.update i reader' feed') := by
          simp only [runBy, hmember, hnow]
        rw [hrun] at hportions hstands ⊢
        rw [Registry.outcomesOf_cons_self] at hportions
        obtain ⟨bytes, portions', rfl, rfl, hrest⟩ := List.map_eq_cons_iff.mp hportions.symm
        obtain ⟨reader'', hmember'', hposition⟩ :=
          ih hstands (member?_update hmember) hreads' hrest.symm
        refine ⟨reader'', hmember'', ?_⟩
        rw [hposition, (hok bytes rfl).2.2.position_eq, List.flatten_cons, List.length_append,
          Nat.add_assoc]
      · rw [Registry.outcomesOf_cons_of_ne hi] at hportions
        apply ih hstands (member?_runBy_of_ne hi hmember) hreads' hportions

/-- Whether they read at once or by tasks, the reads of a member that go well take it forward by the
bytes that they hand out, whatever other members are told meanwhile.  A read that fails takes it
past bytes in memory, fewer than were asked for, to the payload byte that comes next; it leaves it
in place exactly if it stands on a payload byte or has failed before. -/
theorem position_of_reads {plan : Plan} {world : W} {before after : List (Nat × Command)}
    (hbuild : plan.build = .ok setting.piece) (hread : Reader.Reads setting read)
    (hfamily : ((start setting world).runAllBy setting read before).2 = family)
    (hmember : family.member? index = some reader)
    (hreads : ∀ c ∈ after, c.1 = index → ∃ size, c.2 = .read size)
    (hportions : Reply.outcomesOf index after (family.runAllBy setting read after).1
      = portions.map .ok)
    (size : Nat) :
  let reached := (family.runAllBy setting read after).2
  ∃ reader' outcome reader'',
    reached.member? index = some reader'
    ∧ reader'.position = reader.position + portions.flatten.length
    ∧ (reached.runBy setting read index (.read size)).1 = .bytes outcome
    ∧ (reached.runBy setting read index (.read size)).2.member? index = some reader''
    ∧ (∀ bytes, outcome = .ok bytes → reader''.position = reader'.position + bytes.length)
    ∧ ∀ e, outcome = .error e →
        (reader'.poisoned = true → reader''.position = reader'.position)
        ∧ (reader'.poisoned = false → ∃ span,
            setting.piece.NextPayload reader'.position reader''.position span
              ∧ reader''.position - reader'.position < size)
        ∧ (reader''.position = reader'.position
            ↔ reader'.poisoned = true
              ∨ ∃ span : PayloadRest, span.At setting.piece reader'.position)
  := by
  intro reached
  have hlaid := Plan.laid_of_build hbuild
  have hstands : family.Stands setting.piece := by
    rw [← hfamily]
    apply stands_runAllBy hread hlaid (stands_start hlaid world)
  obtain ⟨reader', hmember', hposition⟩ :=
    exists_member_of_reads hread hlaid hstands hmember hreads hportions
  have hreader' := (stands_runAllBy hread hlaid hstands after).member hmember'
  obtain ⟨outcome, reader'', feed'', hnow, hok, herror⟩ :=
    hread.standsAt_read hlaid hreader' size reached.feed
  have hrun : reached.runBy setting read index (.read size)
      = (.bytes outcome, reached.update index reader'' feed'') := by
    simp only [runBy, reached, hmember', hnow]
  rw [hrun]
  refine ⟨reader', outcome, reader'', hmember', hposition, rfl, member?_update hmember',
    fun bytes hbytes => (hok bytes hbytes).2.2.position_eq, fun e he => ?_⟩
  rcases (herror e he).2 with ⟨hpoisoned, rfl⟩ | ⟨hpoisoned, stop, span, hnext, hlt, hstop⟩
  · simp [hpoisoned]
  · rw [hstop.position_eq, hpoisoned]
    refine ⟨by simp, fun _ => ⟨span, hnext, hlt⟩, ?_⟩
    constructor
    · rintro rfl
      exact .inr ⟨span, hnext.at_stop⟩
    · rintro (hpoisoned | ⟨span', hat⟩)
      · cases hpoisoned
      · -- A payload byte at the position leaves nothing to pass before it.
        by_contra hne
        apply hnext.clear reader'.position (Nat.le_refl _) _ span' hat
        have hle := hnext.le
        omega

/-- A reader of tasks that reads up to the end of a payload, and whose next read fails behind the
framing that comes next because the item cannot be opened anew. -/
theorem position_of_reads_reopening :
  let item : Item := ⟨⟨1⟩, "a", 7⟩
  let plan : Plan :=
    ⟨[1, 2], 7, [.item 2 [7] [8] ⟨0⟩ item 5 1, .item 5 [] [6] ⟨0⟩ item 0 1]⟩
  let run : ItemRun := ⟨⟨0⟩, item, ⟨⟨2, [7], [8]⟩, 5, 1⟩, [⟨⟨5, [], [6]⟩, 0, 1⟩]⟩
  let failure : SourceError := .io ⟨.other, "gone"⟩
  let registry : Registry ScriptedSource :=
    ⟨[(⟨0⟩, ⟨.memory ⟨[("a", [10, 11, 12, 13, 14, 15, 16])]⟩, [],
      [.proceed [.pending], .fail failure]⟩)]⟩
  let suspending : SuspendingSetting (Registry ScriptedSource) SourceId ScriptedStream :=
    ⟨Registry.polledSupply, ⟨[1, 2], 7, [.run run]⟩, .standard, true⟩
  let setting := suspending.waiting .suspending
  let read := Reader.readByTask suspending
  let after := ((start setting registry).runAllBy setting read [(0, .read 3), (0, .read 9)]).2
  plan.build = .ok setting.piece ∧ Reader.Reads setting read
    ∧ (∃ reader', after.member? 0 = some reader' ∧ reader'.position = 0 + [1, 2, 7, 8, 15].length)
    ∧ (after.runBy setting read 0 (.read 9)).1 = .bytes (.error (.sourceReadFailure "a" failure))
    ∧ ∃ reader'' span, (after.runBy setting read 0 (.read 9)).2.member? 0 = some reader''
        ∧ setting.piece.NextPayload 5 reader''.position span
  := by
  intro item plan run failure registry suspending setting read after
  have hbuild : plan.build = .ok setting.piece := rfl
  have hread : Reader.Reads setting read := .byTasks suspending
  have hmember : (start setting registry).member? 0 = some (Reader.startAt setting 0) := rfl
  have hreads : ∀ c ∈ [(0, Command.read 3), (0, .read 9)], c.1 = 0 → ∃ size, c.2 = .read size := by
    simp
  have hportions : Reply.outcomesOf 0 [(0, .read 3), (0, .read 9)]
      ((start setting registry).runAllBy setting read [(0, .read 3), (0, .read 9)]).1
      = [[1, 2, 7], [8, 15]].map .ok := by
    simp only [read, setting, suspending, registry, failure, run, item]
    cbv
  have hfamily : ((start setting registry).runAllBy setting read []).2 = start setting registry :=
    rfl
  obtain ⟨reader', outcome, reader'', hmember', hposition, hreply, hmember'', -, hfails⟩ :=
    position_of_reads hbuild hread hfamily hmember hreads hportions 9
  have hfailure : (after.runBy setting read 0 (.read 9)).1
      = .bytes (.error (.sourceReadFailure "a" failure)) := by
    simp only [after, read, setting, suspending, registry, failure, run, item]
    cbv
  have hsound : (after.member? 0).map Reader.poisoned = some false := by
    simp only [after, read, setting, suspending, registry, failure, run, item]
    cbv
  have hreply : (after.runBy setting read 0 (.read 9)).1 = .bytes outcome := hreply
  have hmember' : after.member? 0 = some reader' := hmember'
  rw [hreply] at hfailure ⊢
  rw [hmember'] at hsound
  cases hfailure
  obtain ⟨-, hnext, -⟩ := hfails _ rfl
  obtain ⟨span, hspan, -⟩ := hnext (by simpa using hsound)
  rw [hposition] at hspan
  exact ⟨hbuild, hread, ⟨reader', hmember', hposition⟩, rfl, reader'', span, hmember'', hspan⟩

/-- A read fails because a source is missing, and takes the reader past the header. -/
theorem failed_read_passes_header :
  let item : Item := ⟨⟨1⟩, "a", 1⟩
  let plan : Plan := ⟨[10], 2, [.item 1 [] [] ⟨7⟩ item 0 1]⟩
  let piece : Piece := ⟨[10], 2, [.run ⟨⟨7⟩, item, ⟨⟨1, [], []⟩, 0, 1⟩, []⟩]⟩
  let registry : Registry ScriptedSource := .empty
  let setting : Setting (Registry ScriptedSource) SourceId ScriptedStream :=
    ⟨Registry.supply, piece, .standard, .blocking⟩
  let failed := (start setting registry).run setting 0 (.read 8)
  plan.build = .ok piece
    ∧ failed.1 = .bytes (.error (.sourceUnavailable ⟨7⟩ (.unknownSource ⟨7⟩)))
    ∧ (start setting registry : Family _ SourceId ScriptedStream).positions = [some 0]
    ∧ failed.2.positions = [some 1]
  := by
  intro item plan piece registry setting failed
  refine ⟨rfl, ?_, rfl, ?_⟩
  · cbv
  · cbv

end PieceStream.Family
