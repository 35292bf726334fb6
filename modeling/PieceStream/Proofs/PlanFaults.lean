import Mathlib.Tactic.Use
import PieceStream.Piece.Build

/-!
# The plans that are accepted, and the faults of the others

A plan is accepted exactly if its candidates lie end to end from the end of the header to the
declared size and every one of them passes its own checks, where all sums are those of
integers.  Every other plan has exactly one fault that is reported, the first in the order of
the checks.  The candidates of an accepted plan can always be joined to blocks.
-/

namespace PieceStream

/-! ### Sequences of checks -/

theorem bind_eq_ok_iff {ε α β : Type} {x : Except ε α} {f : α → Except ε β} {b : β} :
  x >>= f = .ok b ↔ ∃ a, x = .ok a ∧ f a = .ok b
  := by
  cases x with
  | error e => simp [bind, Except.bind]
  | ok a => simp [bind, Except.bind]

theorem bind_eq_error_iff {ε α β : Type} {x : Except ε α} {f : α → Except ε β} {e : ε} :
  x >>= f = .error e ↔ x = .error e ∨ ∃ a, x = .ok a ∧ f a = .error e
  := by
  cases x with
  | error e => simp [bind, Except.bind]
  | ok a => simp [bind, Except.bind]

theorem unit_bind_eq_ok_iff {ε β : Type} {x : Except ε Unit} {f : Unit → Except ε β} {b : β} :
  x >>= f = .ok b ↔ x = .ok () ∧ f () = .ok b
  := by
  rw [bind_eq_ok_iff]
  exact ⟨fun ⟨(), h⟩ => h, fun h => ⟨(), h⟩⟩

theorem unit_bind_eq_error_iff {ε β : Type} {x : Except ε Unit} {f : Unit → Except ε β} {e : ε} :
  x >>= f = .error e ↔ x = .error e ∨ x = .ok () ∧ f () = .error e
  := by
  rw [bind_eq_error_iff]
  apply or_congr_right ⟨fun ⟨(), h⟩ => h, fun h => ⟨(), h⟩⟩

namespace Candidate

/-- A candidate with a range of an item has both a source and an item. -/
def Resolved (c : Candidate) : Prop :=
  match c.data with
  | .inline _ => True
  | .item source item _ _ => source ≠ none ∧ item ≠ none

/-- The range of an item ends at a word. -/
def RangeFits (c : Candidate) : Prop :=
  match c.data with
  | .inline _ => True
  | .item _ _ offset length => offset.toNat + length.toNat < wordLimit

/-- The candidate ends at a word, and where the next one starts if there is one. -/
structure Meets (c : Candidate) (next : Option Candidate) : Prop where
  stop_lt : c.stop < wordLimit
  stop_eq : ∀ n, next = some n → c.stop = n.pieceOffset.toNat

/-- The candidate, before `next`, has no fault. -/
structure Passes (c : Candidate) (next : Option Candidate) : Prop where
  meets : c.Meets next
  resolved : c.Resolved
  rangeFits : c.RangeFits
  length_eq : c.length.toNat = c.lengthPrefix.length + c.identifier.length + c.data.payloadLength

/-- The fault of candidate `index`, before `next`: the first in the order of the checks. -/
inductive Fault (index : Nat) (c : Candidate) (next : Option Candidate) : PlanError → Prop where
  | endOverflow (h : wordLimit ≤ c.stop) : Fault index c next (.offsetOverflow index)
  | notContiguous {n : Candidate} (h : c.stop < wordLimit) (hn : next = some n)
      (hne : c.stop ≠ n.pieceOffset.toNat) :
      Fault index c next (.notContiguous index c.stop n.pieceOffset.toNat)
  | unresolvable (h : c.Meets next) (hr : ¬ c.Resolved) : Fault index c next (.unresolvable index)
  | rangeOverflow (h : c.Meets next) (hr : c.Resolved) (hf : ¬ c.RangeFits) :
      Fault index c next (.offsetOverflow index)
  | partsOverflow (h : c.Meets next) (hr : c.Resolved) (hf : c.RangeFits)
      (hp : wordLimit ≤ c.lengthPrefix.length + c.identifier.length + c.data.payloadLength) :
      Fault index c next (.offsetOverflow index)
  | lengthMismatch (h : c.Meets next) (hr : c.Resolved) (hf : c.RangeFits)
      (hp : c.lengthPrefix.length + c.identifier.length + c.data.payloadLength < wordLimit)
      (hne : c.length.toNat ≠ c.lengthPrefix.length + c.identifier.length + c.data.payloadLength) :
      Fault index c next (.lengthMismatch index c.length.toNat
        (c.lengthPrefix.length + c.identifier.length + c.data.payloadLength))

variable {index : Nat} {c : Candidate} {next : Option Candidate} {e : PlanError}

/-! ### The single checks -/

theorem declaredEnd_eq_ok_iff {stop : Nat} :
  c.declaredEnd index = .ok stop ↔ c.stop < wordLimit ∧ stop = c.stop
  := by
  by_cases h : c.stop < wordLimit
  · simp [declaredEnd, h, eq_comm]
  · simp [declaredEnd, h]

theorem declaredEnd_eq_error_iff :
  c.declaredEnd index = .error e ↔ wordLimit ≤ c.stop ∧ e = .offsetOverflow index
  := by
  by_cases h : c.stop < wordLimit
  · simp [declaredEnd, h, Nat.not_le.mpr h]
  · simp [declaredEnd, h, Nat.not_lt.mp h, eq_comm]

theorem checkMeeting_eq_ok_iff {stop : Nat} :
  checkMeeting index stop next = .ok () ↔ ∀ n, next = some n → stop = n.pieceOffset.toNat
  := by
  cases next with
  | none => simp [checkMeeting]
  | some n => simp [checkMeeting]

theorem checkMeeting_eq_error_iff {stop : Nat} :
  checkMeeting index stop next = .error e
    ↔ ∃ n, next = some n ∧ stop ≠ n.pieceOffset.toNat
        ∧ e = .notContiguous index stop n.pieceOffset.toNat
  := by
  cases next with
  | none => simp [checkMeeting]
  | some n =>
      by_cases h : stop = n.pieceOffset.toNat
      · simp [checkMeeting, h]
      · simp [checkMeeting, h, eq_comm]

theorem checkOrigin_eq_ok_iff :
  c.checkOrigin index = .ok () ↔ c.Resolved ∧ c.RangeFits
  := by
  rcases c with ⟨_, _, _, _, _ | ⟨_ | source, _ | item, offset, length⟩⟩ <;>
    simp [checkOrigin, Resolved, RangeFits]

theorem checkOrigin_eq_error_iff :
  c.checkOrigin index = .error e
    ↔ ¬ c.Resolved ∧ e = .unresolvable index
      ∨ c.Resolved ∧ ¬ c.RangeFits ∧ e = .offsetOverflow index
  := by
  rcases c with ⟨_, _, _, _, _ | ⟨_ | source, _ | item, offset, length⟩⟩
  · simp [checkOrigin, Resolved, RangeFits]
  · simp [checkOrigin, Resolved, eq_comm]
  · simp [checkOrigin, Resolved, eq_comm]
  · simp [checkOrigin, Resolved, eq_comm]
  · by_cases h : offset.toNat + length.toNat < wordLimit
    · simp [checkOrigin, Resolved, RangeFits, h]
    · simp [checkOrigin, Resolved, RangeFits, h, eq_comm]

theorem checkLength_eq_ok_iff :
  c.checkLength index = .ok ()
    ↔ c.length.toNat = c.lengthPrefix.length + c.identifier.length + c.data.payloadLength
  := by
  have hlt : c.length.toNat < wordLimit := c.length.toNat_lt_size
  rw [← partsLength]
  by_cases h : wordLimit ≤ c.partsLength
  · simp only [checkLength, h, if_true, reduceCtorEq, false_iff]
    omega
  · by_cases heq : c.partsLength = c.length.toNat
    · rw [checkLength, if_neg h, if_pos heq, heq]
      simp
    · rw [checkLength, if_neg h, if_neg heq]
      simp [Ne.symm heq]

theorem checkLength_eq_error_iff :
  c.checkLength index = .error e
    ↔ wordLimit ≤ c.lengthPrefix.length + c.identifier.length + c.data.payloadLength
        ∧ e = .offsetOverflow index
      ∨ c.lengthPrefix.length + c.identifier.length + c.data.payloadLength < wordLimit
        ∧ c.length.toNat ≠ c.lengthPrefix.length + c.identifier.length + c.data.payloadLength
        ∧ e = .lengthMismatch index c.length.toNat
            (c.lengthPrefix.length + c.identifier.length + c.data.payloadLength)
  := by
  rw [← partsLength]
  by_cases h : wordLimit ≤ c.partsLength
  · simp [checkLength, h, Nat.not_lt.mpr h, eq_comm]
  · by_cases heq : c.partsLength = c.length.toNat
    · rw [checkLength, if_neg h, if_pos heq]
      simp [heq ▸ h, heq]
    · rw [checkLength, if_neg h, if_neg heq]
      simp [h, Ne.symm heq, Nat.not_le.mp h, eq_comm]

/-! ### The checks of a candidate -/

/-- A candidate is let through exactly if it has no fault. -/
theorem check_eq_ok_iff :
  c.check index next = .ok () ↔ c.Passes next
  := by
  rw [check, bind_eq_ok_iff]
  simp only [unit_bind_eq_ok_iff, declaredEnd_eq_ok_iff, checkMeeting_eq_ok_iff,
    checkOrigin_eq_ok_iff, checkLength_eq_ok_iff]
  constructor
  · rintro ⟨_, ⟨hlt, rfl⟩, hmeets, ⟨hr, hf⟩, hlen⟩
    exact ⟨⟨hlt, hmeets⟩, hr, hf, hlen⟩
  · rintro ⟨⟨hlt, hmeets⟩, hr, hf, hlen⟩
    use c.stop, ⟨hlt, rfl⟩, hmeets, ⟨hr, hf⟩

/-- The failure of the checks of a candidate is its fault. -/
theorem check_eq_error_iff :
  c.check index next = .error e ↔ c.Fault index next e
  := by
  rw [check, bind_eq_error_iff]
  simp only [unit_bind_eq_error_iff, declaredEnd_eq_ok_iff, declaredEnd_eq_error_iff,
    checkMeeting_eq_ok_iff, checkMeeting_eq_error_iff, checkOrigin_eq_ok_iff,
    checkOrigin_eq_error_iff, checkLength_eq_error_iff]
  constructor
  · rintro (⟨h, rfl⟩ | ⟨_, ⟨hlt, rfl⟩, ⟨n, hn, hne, rfl⟩ | ⟨hmeets, horigin⟩⟩)
    · apply Fault.endOverflow h
    · apply Fault.notContiguous hlt hn hne
    · rcases horigin with (⟨hr, rfl⟩ | ⟨hr, hf, rfl⟩) | ⟨⟨hr, hf⟩, ⟨hp, rfl⟩ | ⟨hp, hne, rfl⟩⟩
      · apply Fault.unresolvable ⟨hlt, hmeets⟩ hr
      · apply Fault.rangeOverflow ⟨hlt, hmeets⟩ hr hf
      · apply Fault.partsOverflow ⟨hlt, hmeets⟩ hr hf hp
      · apply Fault.lengthMismatch ⟨hlt, hmeets⟩ hr hf hp hne
  · intro h
    cases h with
    | endOverflow h => exact .inl ⟨h, rfl⟩
    | notContiguous h hn hne => exact .inr ⟨_, ⟨h, rfl⟩, .inl ⟨_, hn, hne, rfl⟩⟩
    | unresolvable h hr =>
        exact .inr ⟨_, ⟨h.stop_lt, rfl⟩, .inr ⟨h.stop_eq, .inl (.inl ⟨hr, rfl⟩)⟩⟩
    | rangeOverflow h hr hf =>
        exact .inr ⟨_, ⟨h.stop_lt, rfl⟩, .inr ⟨h.stop_eq, .inl (.inr ⟨hr, hf, rfl⟩)⟩⟩
    | partsOverflow h hr hf hp =>
        exact .inr ⟨_, ⟨h.stop_lt, rfl⟩, .inr ⟨h.stop_eq, .inr ⟨⟨hr, hf⟩, .inl ⟨hp, rfl⟩⟩⟩⟩
    | lengthMismatch h hr hf hp hne =>
        exact .inr ⟨_, ⟨h.stop_lt, rfl⟩, .inr ⟨h.stop_eq, .inr ⟨⟨hr, hf⟩, .inr ⟨hp, hne, rfl⟩⟩⟩⟩

/-! ### The checks of all candidates -/

/-- All candidates are let through exactly if none of them has a fault. -/
theorem checkAll_eq_ok_iff {cs : List Candidate} :
  checkAll index cs = .ok () ↔ ∀ (i : Nat) (c : Candidate), cs[i]? = some c → c.Passes cs[i + 1]?
  := by
  induction cs generalizing index with
  | nil => simp [checkAll]
  | cons d ds ih =>
      simp only [checkAll, unit_bind_eq_ok_iff, check_eq_ok_iff, ih, List.head?_eq_getElem?]
      constructor
      · rintro ⟨hd, hds⟩ i c hc
        cases i with
        | zero =>
            obtain rfl : d = c := by simpa using hc
            simpa using hd
        | succ i => apply hds i c (by simpa using hc)
      · intro h
        constructor
        · simpa using h 0 d rfl
        · intro i c hc
          apply h (i + 1) c (by simpa using hc)

/-- The checks of all candidates fail with the fault of the first candidate that has one. -/
theorem checkAll_eq_error_iff {cs : List Candidate} :
  checkAll index cs = .error e
    ↔ ∃ (i : Nat) (c : Candidate), cs[i]? = some c
        ∧ (∀ (j : Nat) (d : Candidate), j < i → cs[j]? = some d → d.Passes cs[j + 1]?)
        ∧ c.Fault (index + i) cs[i + 1]? e
  := by
  induction cs generalizing index with
  | nil => simp [checkAll]
  | cons d ds ih =>
      simp only [checkAll, unit_bind_eq_error_iff, check_eq_error_iff, check_eq_ok_iff, ih,
        List.head?_eq_getElem?]
      constructor
      · rintro (hd | ⟨hd, i, c, hc, hbefore, hfault⟩)
        · use 0, d, rfl
          constructor
          · intro j _ hj
            cases hj
          · simpa using hd
        · use i + 1, c, hc
          constructor
          · intro j f hj hf
            cases j with
            | zero =>
                obtain rfl : d = f := by simpa using hf
                simpa using hd
            | succ j => apply hbefore j f (by omega) hf
          · rw [Nat.add_assoc, Nat.add_comm 1] at hfault
            apply hfault
      · rintro ⟨i, c, hc, hbefore, hfault⟩
        cases i with
        | zero =>
            obtain rfl : d = c := by simpa using hc
            left
            simpa using hfault
        | succ i =>
            right
            constructor
            · simpa using hbefore 0 d (by omega) rfl
            · use i, c, hc
              constructor
              · intro j f hj hf
                apply hbefore (j + 1) f (by omega) hf
              · rw [Nat.add_assoc, Nat.add_comm 1]
                apply hfault

/-- Candidates whose payloads all have an origin can be joined to blocks. -/
theorem exists_joinRuns {cs : List Candidate} {growing : Option ItemRun}
    (h : ∀ c ∈ cs, c.Resolved) :
  ∃ blocks, joinRuns index growing cs = .ok blocks
  := by
  induction cs generalizing index growing with
  | nil => exact ⟨_, rfl⟩
  | cons d ds ih =>
      have hd := h d List.mem_cons_self
      have ih (growing : Option ItemRun) :
          ∃ blocks, joinRuns (index + 1) growing ds = .ok blocks :=
        ih fun c hc => h c (List.mem_cons_of_mem d hc)
      rw [joinRuns]
      rw [Resolved] at hd
      split
      · obtain ⟨blocks, hblocks⟩ := ih none
        exact ⟨_, by rw [hblocks]; rfl⟩
      · next source item offset length _ =>
        cases growing with
        | none => apply ih _
        | some run =>
            dsimp only
            split
            · apply ih _
            · obtain ⟨blocks, hblocks⟩ := ih _
              exact ⟨_, by rw [hblocks]; rfl⟩
      · next source item offset length hsome hdata =>
        rw [hdata] at hd
        obtain ⟨source, rfl⟩ := Option.ne_none_iff_exists'.mp hd.1
        obtain ⟨item, rfl⟩ := Option.ne_none_iff_exists'.mp hd.2
        cases hsome _ _ rfl rfl

end Candidate

namespace Plan

/-- The grammar of plans: the candidates lie end to end from the end of the header to the
declared size, and none of them has a fault. -/
structure WellFormed (plan : Plan) : Prop where
  nonempty : plan.candidates ≠ []
  first : ∀ c, plan.candidates.head? = some c → c.pieceOffset.toNat = plan.header.length
  last : ∀ c, plan.candidates.getLast? = some c → c.stop = plan.pieceSize.toNat
  passes : ∀ (i : Nat) (c : Candidate), plan.candidates[i]? = some c →
    c.Passes plan.candidates[i + 1]?

/-- The first candidate starts at the end of the header. -/
def StartsWell (plan : Plan) : Prop :=
  ∃ c, plan.candidates.head? = some c ∧ c.pieceOffset.toNat = plan.header.length

/-- The last candidate ends at a word, and at the declared size. -/
def EndsWell (plan : Plan) : Prop :=
  ∃ c, plan.candidates.getLast? = some c ∧ c.stop < wordLimit ∧ c.stop = plan.pieceSize.toNat

/-- The fault of a plan: the first in the order of the checks.  Of the faults of candidates it
is that of the candidate with the least index. -/
inductive Fault (plan : Plan) : PlanError → Prop where
  | empty (h : plan.candidates = []) : Fault plan .emptyPlan
  | header {c : Candidate} (hc : plan.candidates.head? = some c)
      (hne : c.pieceOffset.toNat ≠ plan.header.length) :
      Fault plan (.headerMisaligned plan.header.length c.pieceOffset.toNat)
  | lastOverflow {c : Candidate} (hs : plan.StartsWell) (hc : plan.candidates.getLast? = some c)
      (h : wordLimit ≤ c.stop) :
      Fault plan (.offsetOverflow (plan.candidates.length - 1))
  | footer {c : Candidate} (hs : plan.StartsWell) (hc : plan.candidates.getLast? = some c)
      (h : c.stop < wordLimit) (hne : c.stop ≠ plan.pieceSize.toNat) :
      Fault plan (.footerMisaligned plan.pieceSize.toNat c.stop)
  | candidate {i : Nat} {c : Candidate} {e : PlanError} (hs : plan.StartsWell)
      (he : plan.EndsWell) (hc : plan.candidates[i]? = some c)
      (hbefore : ∀ (j : Nat) (d : Candidate), j < i → plan.candidates[j]? = some d →
        d.Passes plan.candidates[j + 1]?)
      (h : c.Fault i plan.candidates[i + 1]? e) :
      Fault plan e

variable {plan : Plan} {e : PlanError}

theorem checkEnds_eq_ok_iff :
  plan.checkEnds = .ok () ↔ plan.StartsWell ∧ plan.EndsWell
  := by
  rw [checkEnds, StartsWell, EndsWell]
  split
  · next h => simp [h]
  · next first rest h =>
    have hlast : (first :: rest).getLast? = some (rest.getLastD first) := by
      rw [List.getLast?_cons, List.getLastD_eq_getLast?]
    simp only [h, hlast, List.head?_cons, Option.some.injEq, exists_eq_left']
    by_cases hfirst : first.pieceOffset.toNat = plan.header.length
    · rw [if_pos hfirst, bind_eq_ok_iff]
      simp only [Candidate.declaredEnd_eq_ok_iff, hfirst, true_and]
      constructor
      · rintro ⟨_, ⟨hlt, rfl⟩, hstop⟩
        use hlt
        split at hstop
        · assumption
        · cases hstop
      · rintro ⟨hlt, hstop⟩
        use (rest.getLastD first).stop, ⟨hlt, rfl⟩
        rw [if_pos hstop]
    · simp [hfirst]

theorem checkEnds_eq_error_iff :
  plan.checkEnds = .error e
    ↔ plan.candidates = [] ∧ e = .emptyPlan
      ∨ (∃ c, plan.candidates.head? = some c ∧ c.pieceOffset.toNat ≠ plan.header.length
          ∧ e = .headerMisaligned plan.header.length c.pieceOffset.toNat)
      ∨ plan.StartsWell ∧ ∃ c, plan.candidates.getLast? = some c
          ∧ (wordLimit ≤ c.stop ∧ e = .offsetOverflow (plan.candidates.length - 1)
            ∨ c.stop < wordLimit ∧ c.stop ≠ plan.pieceSize.toNat
              ∧ e = .footerMisaligned plan.pieceSize.toNat c.stop)
  := by
  rw [checkEnds, StartsWell]
  split
  · next h => simp [h, eq_comm]
  · next first rest h =>
    have hlast : (first :: rest).getLast? = some (rest.getLastD first) := by
      rw [List.getLast?_cons, List.getLastD_eq_getLast?]
    simp only [h, hlast, List.head?_cons, Option.some.injEq, exists_eq_left', List.length_cons,
      Nat.add_sub_cancel, reduceCtorEq, false_and, false_or]
    by_cases hfirst : first.pieceOffset.toNat = plan.header.length
    · rw [if_pos hfirst, bind_eq_error_iff]
      simp only [Candidate.declaredEnd_eq_ok_iff, Candidate.declaredEnd_eq_error_iff, hfirst,
        ne_eq, not_true_eq_false, false_and, false_or, true_and]
      apply or_congr_right
      constructor
      · rintro ⟨_, ⟨hlt, rfl⟩, hstop⟩
        split at hstop
        · cases hstop
        · next hne =>
          cases hstop
          exact ⟨hlt, hne, rfl⟩
      · rintro ⟨hlt, hne, rfl⟩
        use (rest.getLastD first).stop, ⟨hlt, rfl⟩
        rw [if_neg hne]
    · simp [hfirst, eq_comm]

/-- Candidates that all pass can be joined to blocks. -/
theorem exists_joinRuns (h : Candidate.checkAll 0 plan.candidates = .ok ()) :
  ∃ blocks, Candidate.joinRuns 0 none plan.candidates = .ok blocks
  := by
  apply Candidate.exists_joinRuns
  intro c hc
  obtain ⟨i, hi⟩ := List.mem_iff_getElem?.mp hc
  apply (Candidate.checkAll_eq_ok_iff.mp h i c hi).resolved

/-- A plan is in the grammar exactly if all checks pass. -/
theorem wellFormed_iff :
  plan.WellFormed
    ↔ plan.checkEnds = .ok () ∧ Candidate.checkAll 0 plan.candidates = .ok ()
  := by
  rw [checkEnds_eq_ok_iff, Candidate.checkAll_eq_ok_iff]
  constructor
  · rintro ⟨hne, hfirst, hlast, hpasses⟩
    refine ⟨⟨?_, ?_⟩, hpasses⟩
    · have hhead := List.head?_eq_some_head hne
      exact ⟨_, hhead, hfirst _ hhead⟩
    · have hend := List.getLast?_eq_some_getLast hne
      refine ⟨_, hend, ?_, hlast _ hend⟩
      rw [List.getLast?_eq_getElem?] at hend
      apply (hpasses _ _ hend).meets.stop_lt
  · rintro ⟨⟨⟨c, hc, hstart⟩, d, hd, -, hstop⟩, hpasses⟩
    constructor
    · rintro hnil
      rw [hnil] at hc
      cases hc
    · intro c' hc'
      obtain rfl : c = c' := Option.some.inj (hc.symm.trans hc')
      apply hstart
    · intro d' hd'
      obtain rfl : d = d' := Option.some.inj (hd.symm.trans hd')
      apply hstop
    · apply hpasses

/-- A plan is built exactly if it is in the grammar. -/
theorem exists_build_iff :
  (∃ piece, plan.build = .ok piece) ↔ plan.WellFormed
  := by
  simp only [wellFormed_iff, build, unit_bind_eq_ok_iff]
  constructor
  · rintro ⟨_, hends, hall, _⟩
    exact ⟨hends, hall⟩
  · rintro ⟨hends, hall⟩
    obtain ⟨blocks, hblocks⟩ := exists_joinRuns hall
    exact ⟨_, hends, hall, by rw [hblocks]; rfl⟩

/-- Building a plan fails exactly with the fault of the plan. -/
theorem build_eq_error_iff :
  plan.build = .error e ↔ plan.Fault e
  := by
  have hjoin (h : Candidate.checkAll 0 plan.candidates = .ok ()) :
      (do
        let blocks ← Candidate.joinRuns 0 none plan.candidates
        return (⟨plan.header, plan.pieceSize.toNat, blocks⟩ : Piece)) ≠ .error e := by
    obtain ⟨blocks, hblocks⟩ := exists_joinRuns h
    rw [hblocks]
    intro h
    cases h
  simp only [build, unit_bind_eq_error_iff, checkEnds_eq_error_iff, checkEnds_eq_ok_iff,
    Candidate.checkAll_eq_error_iff, Nat.zero_add]
  constructor
  · rintro ((⟨h, rfl⟩ | ⟨c, hc, hne, rfl⟩ | ⟨hs, c, hc, ⟨h, rfl⟩ | ⟨h, hne, rfl⟩⟩)
      | ⟨⟨hs, he⟩, ⟨i, c, hc, hbefore, h⟩ | ⟨hall, h⟩⟩)
    · apply Fault.empty h
    · apply Fault.header hc hne
    · apply Fault.lastOverflow hs hc h
    · apply Fault.footer hs hc h hne
    · apply Fault.candidate hs he hc hbefore h
    · cases hjoin hall h
  · intro h
    cases h with
    | empty h => exact .inl (.inl ⟨h, rfl⟩)
    | header hc hne => exact .inl (.inr (.inl ⟨_, hc, hne, rfl⟩))
    | lastOverflow hs hc h => exact .inl (.inr (.inr ⟨hs, _, hc, .inl ⟨h, rfl⟩⟩))
    | footer hs hc h hne => exact .inl (.inr (.inr ⟨hs, _, hc, .inr ⟨h, hne, rfl⟩⟩))
    | candidate hs he hc hbefore h => exact .inr ⟨⟨hs, he⟩, .inl ⟨_, _, hc, hbefore, h⟩⟩

/-- Building decides the grammar of plans and reports the first fault; a plan whose candidates
all pass never fails while they are joined to blocks. -/
theorem build_decides (plan : Plan) :
  ((∃ piece, plan.build = .ok piece) ↔ plan.WellFormed)
    ∧ (∀ e, plan.build = .error e ↔ plan.Fault e)
    ∧ (Candidate.checkAll 0 plan.candidates = .ok () →
        ∃ blocks, Candidate.joinRuns 0 none plan.candidates = .ok blocks)
  := ⟨exists_build_iff, fun _ => build_eq_error_iff, exists_joinRuns⟩

end Plan

end PieceStream
