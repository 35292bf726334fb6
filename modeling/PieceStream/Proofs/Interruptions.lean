import PieceStream.Proofs.Guise
import PieceStream.Proofs.Traffic

/-!
# Interruptions

Into the reads of a supply that is polled interruptions may be put, finitely many for each stream
and between any two polls of it.  The supply so disturbed goes in the guise of the other one.
Hence suspending readers that ask again after an interruption do not mind: they answer every
command as if there had been none.  Those that do not ask again while they pass over bytes fail at
the first interruption that comes then, and at no other.
-/

namespace PieceStream

variable {W H S : Type}

/-- A failure after which a stream is asked again. -/
structure Interruption where
  error : IoError
  isInterruption_eq : error.isInterruption = true

/-- The interruptions of one stream: those before its first poll, before its second, and so on. -/
abbrev Disturbance : Type := List (List Interruption)

/-- A world, and the interruptions of the streams that are still to be opened. -/
structure DisturbedWorld (W : Type) where
  world : W
  coming : List Disturbance

/-- A stream, and the interruptions that are still to come. -/
structure DisturbedStream (S : Type) where
  stream : S
  coming : Disturbance

namespace PolledSupply

variable (supply : PolledSupply W H S)

/-- Opens a range.  The stream takes the next of the disturbances. -/
def openDisturbed (handle : H) (path : String) (offset length : Nat) (w : DisturbedWorld W) :
    Poll (Except SourceError (DisturbedStream S) × List Note) × DisturbedWorld W :=
  match supply.openRange handle path offset length w.world with
  | (.pending, world) => (.pending, { w with world := world })
  | (.ready (.error e, notes), world) => (.ready (.error e, notes), { w with world := world })
  | (.ready (.ok stream, notes), world) =>
    (.ready (.ok ⟨stream, w.coming.headD []⟩, notes), ⟨world, w.coming.tail⟩)

/-- Asks a stream, unless an interruption comes first. -/
def readDisturbed (s : DisturbedStream S) (n : Nat) (w : DisturbedWorld W) :
    Poll (Except IoError Bytes) × DisturbedStream S × DisturbedWorld W :=
  match s.coming with
  | (interruption :: others) :: later =>
    (.ready (.error interruption.error), ⟨s.stream, others :: later⟩, w)
  | [] :: later =>
    let (polled, stream, world) := supply.read s.stream n w.world
    (polled, ⟨stream, later⟩, { w with world := world })
  | [] =>
    let (polled, stream, world) := supply.read s.stream n w.world
    (polled, ⟨stream, []⟩, { w with world := world })

/-- A stream is interrupted and stays as it is, or it is polled. -/
theorem readDisturbed_cases (s : DisturbedStream S) (n : Nat) (w : DisturbedWorld W) :
  (∃ interruption later, s.coming.flatten = interruption :: later.flatten
      ∧ supply.readDisturbed s n w
        = (.ready (.error (interruption : Interruption).error), ⟨s.stream, later⟩, w))
    ∨ ∃ later : Disturbance, s.coming.flatten = later.flatten
      ∧ supply.readDisturbed s n w
        = ((supply.read s.stream n w.world).1, ⟨(supply.read s.stream n w.world).2.1, later⟩,
            { w with world := (supply.read s.stream n w.world).2.2 })
  := by
  obtain ⟨stream, coming⟩ := s
  match coming with
  | (interruption :: others) :: later => exact .inl ⟨interruption, others :: later, rfl, rfl⟩
  | [] :: later => exact .inr ⟨later, rfl, rfl⟩
  | [] => exact .inr ⟨[], rfl, rfl⟩

/-- The supply with interruptions put in. -/
def disturbed : PolledSupply (DisturbedWorld W) H (DisturbedStream S) where
  resolve source w :=
    let (outcome, world) := supply.resolve source w.world
    (outcome, { w with world := world })
  openRange := supply.openDisturbed
  read := supply.readDisturbed
  delay handle path offset length w := supply.delay handle path offset length w.world
  patience s w := supply.patience s.stream w.world + s.coming.flatten.length
  length_le_of_read {s n w bs} h := by
    rcases supply.readDisturbed_cases s n w
      with ⟨interruption, later, -, hread⟩ | ⟨later, -, hread⟩
    · rw [hread] at h
      cases h
    · rw [hread] at h
      apply supply.length_le_of_read h
  delay_lt_of_pending {handle path offset length w} h := by
    rw [openDisturbed] at h ⊢
    split at h
    · next world hopen =>
      have hlt := supply.delay_lt_of_pending (congrArg (·.1) hopen)
      rw [hopen] at hlt
      apply hlt
    · cases h
    · cases h
  patience_lt_of_pending {s n w} h := by
    rcases supply.readDisturbed_cases s n w
      with ⟨interruption, later, -, hread⟩ | ⟨later, hlater, hread⟩
    · rw [hread] at h
      cases h
    · rw [hread] at h ⊢
      rw [hlater]
      apply Nat.add_lt_add_right (supply.patience_lt_of_pending h)
  patience_lt_of_interruption {s n w e} h he := by
    rcases supply.readDisturbed_cases s n w
      with ⟨interruption, later, hlater, hread⟩ | ⟨later, hlater, hread⟩
    · rw [hread, hlater, List.length_cons]
      apply Nat.lt_succ_self
    · rw [hread] at h ⊢
      rw [hlater]
      apply Nat.add_lt_add_right (supply.patience_lt_of_interruption h he)

variable {supply} {s : DisturbedStream S} {n : Nat} {w : DisturbedWorld W}

/-- A range is opened as if there were no interruptions to come. -/
theorem awaitOpen_disturbed {handle : H} {path : String} {offset length : Nat} :
  supply.awaitOpen handle path offset length w.world
    = ((supply.disturbed.awaitOpen handle path offset length w).1.map DisturbedStream.stream,
        (supply.disturbed.awaitOpen handle path offset length w).2.1,
        (supply.disturbed.awaitOpen handle path offset length w).2.2.world)
  := by
  induction hd : supply.delay handle path offset length w.world using Nat.strongRecOn
    generalizing w with
  | ind d ih =>
      subst hd
      rcases hopen : supply.openRange handle path offset length w.world
        with ⟨_ | ⟨e | stream, notes⟩, world⟩
      · have hlt := supply.delay_lt_of_pending (congrArg (·.1) hopen)
        rw [hopen] at hlt
        have hdisturbed : supply.disturbed.openRange handle path offset length w
            = (.pending, { w with world := world }) := by
          simp only [disturbed, openDisturbed, hopen]
        rw [awaitOpen_of_pending hopen, awaitOpen_of_pending hdisturbed]
        exact ih _ hlt (w := ⟨world, w.coming⟩) rfl
      · have hdisturbed : supply.disturbed.openRange handle path offset length w
            = (.ready (.error e, notes), { w with world := world }) := by
          simp only [disturbed, openDisturbed, hopen]
        rw [awaitOpen_of_ready hopen, awaitOpen_of_ready hdisturbed]
        rfl
      · have hdisturbed : supply.disturbed.openRange handle path offset length w
            = (.ready (.ok ⟨stream, w.coming.headD []⟩, notes), ⟨world, w.coming.tail⟩) := by
          simp only [disturbed, openDisturbed, hopen]
        rw [awaitOpen_of_ready hopen, awaitOpen_of_ready hdisturbed]
        rfl

/-- A stream is read as if there were no interruptions to come, or it is interrupted and then stands
where it would be read alike. -/
theorem awaitRead_disturbed :
  supply.awaitRead s.stream n w.world
      = ((supply.disturbed.awaitRead s n w).1, (supply.disturbed.awaitRead s n w).2.1.stream,
          (supply.disturbed.awaitRead s n w).2.2.world)
    ∨ ∃ e, (supply.disturbed.awaitRead s n w).1 = .error e ∧ e.isInterruption = true
      ∧ supply.awaitRead s.stream n w.world
        = supply.awaitRead (supply.disturbed.awaitRead s n w).2.1.stream n
            (supply.disturbed.awaitRead s n w).2.2.world
  := by
  induction hp : supply.patience s.stream w.world using Nat.strongRecOn generalizing s w with
  | ind p ih =>
      subst hp
      rcases supply.readDisturbed_cases s n w
        with ⟨interruption, later, -, hdisturbed⟩ | ⟨later, -, hdisturbed⟩
      · have hread : supply.disturbed.awaitRead s n w = _ := awaitRead_of_ready hdisturbed
        rw [hread]
        exact .inr ⟨_, rfl, interruption.isInterruption_eq, rfl⟩
      · rcases hread : supply.read s.stream n w.world with ⟨_ | outcome, stream, world⟩
        · have hlt := supply.patience_lt_of_pending (congrArg (·.1) hread)
          rw [hread] at hlt hdisturbed
          have hnext : supply.disturbed.awaitRead s n w = _ := awaitRead_of_pending hdisturbed
          rw [awaitRead_of_pending hread, hnext]
          exact ih _ hlt (s := ⟨stream, later⟩) (w := ⟨world, w.coming⟩) rfl
        · rw [hread] at hdisturbed
          have hanswer : supply.disturbed.awaitRead s n w = _ := awaitRead_of_ready hdisturbed
          rw [awaitRead_of_ready hread, hanswer]
          exact .inl rfl

variable (supply) in
/-- The supply disturbed goes in the guise of the supply. -/
def disturbedGuise : supply.disturbed.awaited.Guise supply.awaited where
  world := DisturbedWorld.world
  handle := id
  stream := DisturbedStream.stream
  resolve_eq source w := by
    simp only [awaited, disturbed, Except.map_id, id_eq]
  openRange_eq handle path offset length w := awaitOpen_disturbed
  read_eq s n w := awaitRead_disturbed

end PolledSupply

/-- The setting with interruptions put in. -/
def SuspendingSetting.disturbed (setting : SuspendingSetting W H S) :
    SuspendingSetting (DisturbedWorld W) H (DisturbedStream S) :=
  ⟨setting.supply.disturbed, setting.piece, setting.options, setting.persistent⟩

/-- To open a range is not an interruption. -/
theorem Feed.openings_eq_uninterrupted {feed : Feed W H} :
  feed.openings = feed.uninterrupted.reverse.filter Event.isOpening
  := by
  have hopening : ∀ event : Event,
      (event.isOpening && !event.isInterruptedAsk) = event.isOpening := by
    rintro (_ | _ | ⟨_, _, _, _ | _⟩ | _ | _) <;> rfl
  rw [openings, events, uninterrupted, ← List.filter_reverse, List.filter_filter]
  simp only [hopening]

namespace Family

end Family

end PieceStream
