import Mathlib.Tactic.Use
import PieceStream.Piece.Content
import PieceStream.Reading.Script

/-!
# Reliable supplies

A supply is reliable for a piece if it finds the source of every run and opens every range that
the entries need, and if its streams yield the range opened in order.  A stream may yield less
than asked for, though not nothing while bytes are left, and it may be interrupted.  Asking a
stream of a reliable supply again and again, and passing over bytes that the range holds, are
then always successful.

The supply of a registry is reliable as long as the sources hold the items and their scripts do
no more than shorten, delay or interrupt reads.
-/

namespace PieceStream

variable {W H S : Type}

/-- What a stream answers that goes on with `rest` and is asked for at most `n` bytes. -/
inductive Portion (Yields : S → Bytes → Prop) (rest : Bytes) (n : Nat) :
    Except IoError Bytes → S → Prop
  | bytes {k : Nat} {s : S} (hle : k ≤ n) (hpos : 0 < n → rest ≠ [] → 0 < k)
      (h : Yields s (rest.drop k)) : Portion Yields rest n (.ok (rest.take k)) s
  | interruption {e : IoError} {s : S} (he : e.isInterruption = true) (h : Yields s rest) :
      Portion Yields rest n (.error e) s

/-- Why a supply can be relied on when a piece is read whose items are those of the store. -/
structure Supply.Reliable (supply : Supply W H S) (piece : Piece) (store : Store) where
  /-- The worlds in which the supply can be relied on. -/
  Sound : W → Prop
  /-- The handle is that of the source. -/
  LeadsTo : H → SourceId → Prop
  /-- The stream yields these bytes and then ends. -/
  Yields : S → Bytes → Prop
  resolve {r : ItemRun} {w : W} : .run r ∈ piece.blocks → Sound w →
    ∃ h w', supply.resolve r.source w = (.ok h, w') ∧ LeadsTo h r.source ∧ Sound w'
  openRange {r : ItemRun} {h : H} {offset : Nat} {w : W} (length : Nat) : .run r ∈ piece.blocks →
    LeadsTo h r.source → Sound w → offset < (r.data store).length →
    ∃ s notes w', supply.openRange h r.item.path offset length w = (.ok s, notes, w')
      ∧ Yields s (((r.data store).drop offset).take length) ∧ Sound w'
  read {s : S} {rest : Bytes} {n : Nat} {w : W} : Yields s rest → Sound w →
    Portion Yields rest n (supply.read s n w).1 (supply.read s n w).2.1
      ∧ Sound (supply.read s n w).2.2

namespace Supply.Reliable

variable {supply : Supply W H S} {piece : Piece} {store : Store}

/-- A feed on which readers of the piece can rely: the handles are those of the sources of the
runs. -/
structure Fed (reliable : supply.Reliable piece store) (feed : Feed W H) : Prop where
  sound : reliable.Sound feed.world
  leadsTo : ∀ {i : Nat} {h : H} {r : ItemRun}, feed.handles[i]? = some (some h) →
    piece.blocks[i]? = some (.run r) → reliable.LeadsTo h r.source

variable {reliable : supply.Reliable piece store} {feed : Feed W H} {item : HeldStream S}
  {rest : Bytes}

/-- Recording an event changes nothing that readers rely on. -/
theorem Fed.record (h : reliable.Fed feed) (event : Event) :
  reliable.Fed (feed.record event)
  := ⟨h.sound, h.leadsTo⟩

/-- Taking notes changes nothing that readers rely on. -/
theorem Fed.notes (h : reliable.Fed feed) {notes : List Note} :
  reliable.Fed (notes.foldl Feed.note feed)
  := by
  induction notes generalizing feed with
  | nil => apply h
  | cons note notes ih => apply ih (h.record _)

/-- Giving a stream up changes nothing that readers rely on. -/
theorem Fed.release (h : reliable.Fed feed) (item : HeldStream S) :
  reliable.Fed (feed.release item)
  := (h.record _).record _

/-- A sound world may take the place of another. -/
theorem Fed.withWorld (h : reliable.Fed feed) {w : W} (hw : reliable.Sound w) :
  reliable.Fed { feed with world := w }
  := ⟨hw, h.leadsTo⟩

section

variable {purpose : Purpose} {size : Nat} {item' : HeldStream S} {feed' : Feed W H}

/-- A question changes the stream alone and nothing that readers rely on. -/
theorem fed_of_ask {outcome : Except IoError Bytes} (hfed : reliable.Fed feed)
    (hyields : reliable.Yields item.stream rest)
    (hask : supply.ask purpose size item feed = (outcome, item', feed')) :
  item' = { item with stream := item'.stream } ∧ reliable.Fed feed'
  := by
  obtain ⟨-, hsound⟩ := reliable.read (n := size) hyields hfed.sound
  cases hask
  exact ⟨rfl, (hfed.withWorld hsound).record _⟩

/-- An answer consists of the next bytes, of at least one while bytes are left. -/
theorem exists_take_of_ask {bytes : Bytes} (hfed : reliable.Fed feed)
    (hyields : reliable.Yields item.stream rest) (hsize : 0 < size) (hrest : rest ≠ [])
    (hask : supply.ask purpose size item feed = (.ok bytes, item', feed')) :
  ∃ k, 0 < k ∧ k ≤ size ∧ bytes = rest.take k ∧ reliable.Yields item'.stream (rest.drop k)
  := by
  obtain ⟨hportion, -⟩ := reliable.read (n := size) hyields hfed.sound
  have hread : (supply.read item.stream size feed.world).1 = .ok bytes := congrArg (·.1) hask
  have hstream : (supply.read item.stream size feed.world).2.1 = item'.stream :=
    congrArg (·.2.1.stream) hask
  rw [hread, hstream] at hportion
  generalize houtcome : (.ok bytes : Except IoError Bytes) = outcome at hportion
  cases hportion with
  | @bytes k _ hle hpos h =>
      cases houtcome
      use k, hpos hsize hrest, hle
  | interruption => cases houtcome

/-- While a gap is passed over, answers are not empty and do not go beyond it. -/
theorem yields_of_ask_skip {gap : Nat} {bytes : Bytes} (hfed : reliable.Fed feed)
    (hyields : reliable.Yields item.stream rest) (hne : gap ≠ 0) (hgap : gap ≤ rest.length)
    (hask : supply.ask purpose (min Supply.skipSize gap) item feed = (.ok bytes, item', feed')) :
  0 < bytes.length ∧ bytes.length ≤ gap
    ∧ reliable.Yields item'.stream (rest.drop bytes.length)
  := by
  have hpos := Nat.pos_of_ne_zero hne
  have hsize : 0 < min Supply.skipSize gap := Nat.lt_min.mpr ⟨by decide, hpos⟩
  have hrest : rest ≠ [] := List.length_pos_iff.mp (Nat.lt_of_lt_of_le hpos hgap)
  obtain ⟨k, hk, hle, rfl, h⟩ := exists_take_of_ask hfed hyields hsize hrest hask
  have hkgap : k ≤ gap := Nat.le_trans hle (Nat.min_le_right _ _)
  rw [List.length_take_of_le (Nat.le_trans hkgap hgap)]
  use hk, hkgap

/-- The only failure is an interruption, after which the same bytes are left. -/
theorem yields_of_ask {e : IoError} (hfed : reliable.Fed feed)
    (hyields : reliable.Yields item.stream rest)
    (hask : supply.ask purpose size item feed = (.error e, item', feed')) :
  e.isInterruption = true ∧ reliable.Yields item'.stream rest
  := by
  obtain ⟨hportion, -⟩ := reliable.read (n := size) hyields hfed.sound
  have hread : (supply.read item.stream size feed.world).1 = .error e := congrArg (·.1) hask
  have hstream : (supply.read item.stream size feed.world).2.1 = item'.stream :=
    congrArg (·.2.1.stream) hask
  rw [hread, hstream] at hportion
  cases hportion with
  | interruption he h => exact ⟨he, h⟩

end

/-- Asking until there is no interruption yields bytes while bytes are left. -/
theorem exists_askUninterrupted (hfed : reliable.Fed feed)
    (hyields : reliable.Yields item.stream rest) {size : Nat} (hsize : 0 < size)
    (hrest : rest ≠ []) :
  ∃ k stream feed', 0 < k ∧ k ≤ size
    ∧ supply.askUninterrupted size item feed
        = (.ok (rest.take k), { item with stream := stream }, feed')
    ∧ reliable.Yields stream (rest.drop k) ∧ reliable.Fed feed'
  := by
  induction item, feed using Supply.askUninterrupted.induct supply size with
  | case1 item feed bytes item' feed' hask =>
      obtain ⟨hitem, hfed'⟩ := fed_of_ask hfed hyields hask
      obtain ⟨k, hpos, hle, rfl, hyields'⟩ := exists_take_of_ask hfed hyields hsize hrest hask
      refine ⟨k, item'.stream, feed', hpos, hle, ?_, hyields', hfed'⟩
      rw [Supply.askUninterrupted_of_ok hask, ← hitem]
  | case2 item feed e item' feed' hask he ih =>
      obtain ⟨hitem, hfed'⟩ := fed_of_ask hfed hyields hask
      obtain ⟨-, hyields'⟩ := yields_of_ask hfed hyields hask
      rw [Supply.askUninterrupted_of_interruption hask he]
      rw [hitem] at ih ⊢
      apply ih hfed' hyields'
  | case3 item feed e item' feed' hask he =>
      obtain ⟨he', -⟩ := yields_of_ask hfed hyields hask
      contradiction

/-- A gap that the range holds is passed over. -/
theorem exists_passOver (hfed : reliable.Fed feed) (hyields : reliable.Yields item.stream rest)
    {gap : Nat} (hgap : gap ≤ rest.length) :
  ∃ stream feed',
    supply.passOver gap item feed
        = (.ok 0, { item with itemPos := item.itemPos + gap, stream := stream }, feed')
      ∧ reliable.Yields stream (rest.drop gap) ∧ reliable.Fed feed'
  := by
  induction gap, item, feed using Supply.passOver.induct supply generalizing rest with
  | case1 item feed => use item.stream, feed, Supply.passOver_zero, hyields
  | case2 gap item feed hne item' feed' hask =>
      obtain ⟨hpos, -⟩ := yields_of_ask_skip hfed hyields hne hgap hask
      contradiction
  | case3 gap item feed hne b bs item' feed' hask ih =>
      obtain ⟨hitem, hfed'⟩ := fed_of_ask hfed hyields hask
      obtain ⟨hpos, hle, hyields'⟩ := yields_of_ask_skip hfed hyields hne hgap hask
      have hleft : gap - (b :: bs).length ≤ (rest.drop (b :: bs).length).length := by
        rw [List.length_drop]
        apply Nat.sub_le_sub_right hgap
      have hsum : (b :: bs).length + (gap - (b :: bs).length) = gap := Nat.add_sub_of_le hle
      rw [Supply.passOver_of_ok (Nat.pos_of_ne_zero hne) (List.cons_ne_nil b bs) hask]
      rw [hitem] at ih ⊢
      obtain ⟨stream, feed'', hover, hyields'', hfed''⟩ := ih hfed' hyields' hleft
      rw [List.drop_drop, hsum] at hyields''
      use stream, feed''
      rw [hover, Nat.add_assoc, hsum]
      use rfl, hyields''
  | case4 gap item feed hne e item' feed' hask he ih =>
      obtain ⟨hitem, hfed'⟩ := fed_of_ask hfed hyields hask
      obtain ⟨-, hyields'⟩ := yields_of_ask hfed hyields hask
      rw [Supply.passOver_of_interruption (Nat.pos_of_ne_zero hne) hask he]
      rw [hitem] at ih ⊢
      apply ih hfed' hyields' hgap
  | case5 gap item feed hne e item' feed' hask he =>
      obtain ⟨he', -⟩ := yields_of_ask hfed hyields hask
      contradiction

end Supply.Reliable

/-! ### Registries -/

/-- The turn does no more than shorten, interrupt or delay a read. -/
def ReadTurn.IsHarmless : ReadTurn → Prop
  | .atMost size => 0 < size
  | .fail e => e.isInterruption = true
  | .pending => True

/-- The turn lets a range be opened and does no harm to its reads. -/
def OpenTurn.IsHarmless : OpenTurn → Prop
  | .fail _ => False
  | .proceed reads => ∀ turn ∈ reads, turn.IsHarmless

/-- The script of the source does no harm. -/
structure ScriptedSource.IsHarmless (scripted : ScriptedSource) : Prop where
  resolves : ∀ turn ∈ scripted.resolves, turn = none
  opens : ∀ turn ∈ scripted.opens, turn.IsHarmless

/-- The stream yields these bytes whatever its script does. -/
structure ScriptedStream.Yields (s : ScriptedStream) (rest : Bytes) : Prop where
  stream_eq : s.stream = .buffer rest
  turns : ∀ turn ∈ s.turns, turn.IsHarmless

/-- The source opens all ranges that start within the item. -/
def Source.Holds (source : Source) (path : String) (data : Bytes) : Prop :=
  ∀ {offset length : Nat}, offset < data.length →
    source.openRange path offset length = .ok (.buffer ((data.drop offset).take length))

/-- The registry has a harmless source for every run that holds the item of the run. -/
def Registry.Serves (registry : Registry ScriptedSource) (piece : Piece) (store : Store) : Prop :=
  ∀ r : ItemRun, .run r ∈ piece.blocks → ∃ scripted, registry.get? r.source = some scripted
    ∧ scripted.IsHarmless ∧ scripted.source.Holds r.item.path (r.data store)

/-- A source in memory holds its items. -/
theorem MemorySource.holds {source : MemorySource} {path : String} {data : Bytes}
    (h : source.get? path = some data) :
  (Source.memory source).Holds path data
  := by
  intro offset length hoffset
  rw [Source.openRange, openRange_eq h, if_neg (Nat.not_lt_of_lt hoffset)]

/-- A scripted stream yields bytes, in portions that its script allows, or is interrupted. -/
theorem ScriptedStream.portion_of_readBy {rest : Bytes} {n : Nat} {turns : List ReadTurn}
    (hturns : ∀ turn ∈ turns, turn.IsHarmless) :
  Portion Yields rest n (readBy (.buffer rest) n turns).1 (readBy (.buffer rest) n turns).2
  := by
  induction turns with
  | nil =>
      apply Portion.bytes (Nat.le_refl n) fun hn _ => hn
      exact ⟨rfl, hturns⟩
  | cons turn turns ih =>
      have hrest : ∀ turn ∈ turns, turn.IsHarmless :=
        fun t ht => hturns t (List.mem_cons_of_mem turn ht)
      have hturn := hturns turn List.mem_cons_self
      cases turn with
      | atMost size =>
          apply Portion.bytes (Nat.min_le_right size n) fun hn _ => Nat.lt_min.mpr ⟨hturn, hn⟩
          exact ⟨rfl, hrest⟩
      | fail e => exact .interruption hturn ⟨rfl, hrest⟩
      | pending => apply ih hrest

namespace Registry

variable {registry : Registry ScriptedSource} {piece : Piece} {store : Store}
  {id : SourceId} {scripted : ScriptedSource}

/-- A harmless script may take the place of another. -/
theorem Serves.register (h : registry.Serves piece store) (hget : registry.get? id = some scripted)
    {scripted' : ScriptedSource} (hharmless : scripted'.IsHarmless)
    (hsource : scripted'.source = scripted.source) :
  (registry.register id scripted').Serves piece store
  := by
  intro r hr
  obtain ⟨s, hs, hsharmless, hholds⟩ := h r hr
  rw [get?_register]
  split
  · next hid =>
    obtain rfl : s = scripted := by
      rw [hid, hget] at hs
      apply (Option.some.inj hs).symm
    rw [← hsource] at hholds
    exact ⟨scripted', rfl, hharmless, hholds⟩
  · exact ⟨s, hs, hsharmless, hholds⟩

/-- The source of a run is found. -/
theorem exists_resolveScripted {r : ItemRun} (h : registry.Serves piece store)
    (hr : .run r ∈ piece.blocks) :
  ∃ registry', resolveScripted r.source registry = (.ok r.source, registry')
    ∧ registry'.Serves piece store
  := by
  obtain ⟨scripted, hget, hharmless, -⟩ := h r hr
  rw [resolveScripted, resolve, hget]
  dsimp only
  cases hresolves : scripted.resolves with
  | nil => exact ⟨registry, rfl, h⟩
  | cons turn turns =>
      have hturns := hharmless.resolves
      rw [hresolves] at hturns
      obtain rfl : turn = none := hturns turn List.mem_cons_self
      have hafter : ({ scripted with resolves := turns } : ScriptedSource).IsHarmless := by
        use fun t ht => hturns t (List.mem_cons_of_mem _ ht)
        apply hharmless.opens
      exact ⟨_, rfl, h.register hget hafter rfl⟩

/-- A range of the item of a run is opened. -/
theorem exists_openScripted {r : ItemRun} {offset length : Nat} (h : registry.Serves piece store)
    (hr : .run r ∈ piece.blocks) (hoffset : offset < (r.data store).length) :
  ∃ s notes registry',
    openScripted r.source r.item.path offset length registry = (.ok s, notes, registry')
      ∧ s.Yields (((r.data store).drop offset).take length) ∧ registry'.Serves piece store
  := by
  obtain ⟨scripted, hget, hharmless, hholds⟩ := h r hr
  rw [openScripted, resolve, hget]
  dsimp only
  rw [hholds hoffset]
  have hafter : ({ scripted with opens := scripted.opens.tail } : ScriptedSource).IsHarmless := by
    use hharmless.resolves
    exact fun turn hturn => hharmless.opens turn (List.mem_of_mem_tail hturn)
  have hafter := h.register hget hafter rfl
  cases hopens : scripted.opens with
  | nil =>
      rw [hopens] at hafter
      exact ⟨_, _, _, rfl, ⟨rfl, by simp⟩, hafter⟩
  | cons turn turns =>
      have hturn := hharmless.opens turn (by simp [hopens])
      rw [hopens] at hafter
      cases turn with
      | fail e => cases hturn
      | proceed reads => exact ⟨_, _, _, rfl, ⟨rfl, hturn⟩, hafter⟩

/-- The supply of a registry is reliable. -/
def reliable (piece : Piece) (store : Store) : Registry.supply.Reliable piece store where
  Sound registry := registry.Serves piece store
  LeadsTo h source := h = source
  Yields s rest := s.Yields rest
  resolve hr h := by
    obtain ⟨registry', hresolve, hserves⟩ := exists_resolveScripted h hr
    exact ⟨_, registry', hresolve, rfl, hserves⟩
  openRange _ hr hh h hoffset := by
    subst hh
    apply exists_openScripted h hr hoffset
  read {s} {rest} {n} {w} hyields h := by
    constructor
    · obtain ⟨stream, turns⟩ := s
      obtain ⟨rfl, hturns⟩ := hyields
      apply ScriptedStream.portion_of_readBy hturns
    · apply h

end Registry

end PieceStream
