import PieceStream.Proofs.TaskLikeness
import PieceStream.Proofs.Poisoning

/-!
# Solitude

Over a steady supply, which always finds the same sources and whose sources always open a range in
the same way, a member of a family does as if it were alone.  The members share the sources that
they have found, but it does not matter whether a source was found before: it is the one that would
be found.
-/

namespace PieceStream

variable {W H S : Type}

/-- What is found, what is opened and what a stream answers does not depend on the world. -/
structure Supply.Steady (supply : Supply W H S) : Prop where
  resolve_eq (source : SourceId) (w w' : W) :
    (supply.resolve source w).1 = (supply.resolve source w').1
  openRange_eq (handle : H) (path : String) (offset length : Nat) (w w' : W) :
    (supply.openRange handle path offset length w).1
      = (supply.openRange handle path offset length w').1
  read_eq (stream : S) (size : Nat) (w w' : W) :
    (supply.read stream size w).1 = (supply.read stream size w').1
      ∧ (supply.read stream size w).2.1 = (supply.read stream size w').2.1

/-- Whether the event is a call other than a look for a source, or the end of a stream. -/
def Event.isDealing : Event → Bool
  | .resolved _ => false
  | event => event.isCall

/-- The calls so far but the looks for sources, the latest first. -/
def Feed.dealings (feed : Feed W H) : List Event := feed.latest.filter Event.isDealing

/-- The calls since an earlier feed but the looks for sources, the latest first. -/
def Feed.dealingsSince (feed before : Feed W H) : List Event :=
  feed.dealings.take (feed.dealings.length - before.dealings.length)

/-- The sources kept are those that would be found. -/
def Setting.Keeps (setting : Setting W H S) (feed : Feed W H) : Prop :=
  ∀ (i : Nat) (handle : H), feed.handles[i]? = some (some handle) →
    ∃ r, setting.piece.blocks[i]? = some (.run r)
      ∧ ∀ w, (setting.supply.resolve r.source w).1 = .ok handle

variable {setting : Setting W H S} {feed : Feed W H} {span : PayloadRest}

/-! ### Feeds -/

namespace Feed

variable {event : Event} {made : List Event} {before : Feed W H}

theorem dealings_record :
  (feed.record event).dealings = (if event.isDealing then [event] else []) ++ feed.dealings
  := by
  rw [dealings, dealings, record, List.filter_cons]
  split <;> rfl

theorem dealings_notes {notes : List Note} :
  (notes.foldl Feed.note feed).dealings = feed.dealings
  := by
  induction notes generalizing feed with
  | nil => rfl
  | cons note notes ih =>
      rw [List.foldl_cons, ih, Feed.note, dealings_record]
      rfl

theorem handles_notes {notes : List Note} :
  (notes.foldl Feed.note feed).handles = feed.handles
  := by
  induction notes generalizing feed with
  | nil => rfl
  | cons note notes ih => rw [List.foldl_cons, ih, Feed.note, record]

/-- The calls that have been added are those since then. -/
theorem dealingsSince_eq (h : feed.dealings = made ++ before.dealings) :
  feed.dealingsSince before = made
  := by
  rw [dealingsSince, h, List.length_append, Nat.add_sub_cancel, List.take_left]

@[simp]
theorem dealingsSince_self :
  feed.dealingsSince feed = []
  := by
  rw [dealingsSince, Nat.sub_self, List.take_zero]

end Feed

namespace Setting

/-- A source is found or not whatever feed it is looked for in. -/
theorem Keeps.sourceFor (steady : setting.supply.Steady) (h : setting.Keeps feed)
    (hrun : setting.piece.blocks[span.block]? = some (.run span.run)) (w : W) :
  ∃ feed', setting.sourceFor span feed = ((setting.supply.resolve span.run.source w).1, feed')
    ∧ setting.Keeps feed' ∧ feed'.dealings = feed.dealings
  := by
  rw [Setting.sourceFor]
  split
  · next handle hhandle =>
    obtain ⟨r, hr, hfound⟩ := h _ _ (Option.join_eq_some_iff.mp hhandle)
    rw [hrun] at hr
    cases hr
    rw [hfound w]
    exact ⟨feed, rfl, h, rfl⟩
  · have houtcome := steady.resolve_eq span.run.source feed.world
    rcases hresolve : setting.supply.resolve span.run.source feed.world with ⟨e | handle, w'⟩
    · rw [hresolve] at houtcome
      rw [← houtcome w]
      exact ⟨_, rfl, h, rfl⟩
    · rw [hresolve] at houtcome
      rw [← houtcome w]
      refine ⟨_, rfl, ?_, rfl⟩
      intro i handle' hi
      simp only [Feed.record, List.getElem?_set] at hi
      split at hi
      · next hblock =>
        subst hblock
        split at hi
        · cases hi
          exact ⟨_, hrun, fun w => (houtcome w).symm⟩
        · cases hi
      · apply h i handle' hi

/-- What is concluded does not depend on the feed, to which notes alone are added. -/
theorem conclude_eq (outcome : Except SourceError S) (notes : List Note) (feed before : Feed W H) :
  Setting.conclude span outcome notes feed
    = ((Setting.conclude span outcome [] before).1, notes.foldl Feed.note feed)
  := by
  cases outcome <;> rfl

/-- A range is opened or not, with the same calls, whatever feed it is opened in. -/
theorem Keeps.openFor (steady : setting.supply.Steady)
    (hrun : setting.piece.blocks[span.block]? = some (.run span.run)) (w : W) :
  ∃ outcome made, ∀ {feed : Feed W H}, setting.Keeps feed →
    ∃ feed', setting.openFor span feed = (outcome, feed') ∧ setting.Keeps feed'
      ∧ feed'.dealings = made ++ feed.dealings
  := by
  cases hresolve : (setting.supply.resolve span.run.source w).1 with
  | error e =>
      refine ⟨.error (.sourceUnavailable span.run.source e), [], fun {feed} h => ?_⟩
      obtain ⟨feed', hsource, hkeeps, hdealings⟩ := h.sourceFor steady hrun w
      rw [Setting.openFor, hsource, hresolve]
      exact ⟨feed', rfl, hkeeps, hdealings⟩
  | ok handle =>
      let opened : Except SourceError S := (setting.supply.openRange handle span.path
        span.itemOffset (setting.lengthFor span) w).1
      let event : Event :=
        .opened span.run.source span.itemOffset (setting.lengthFor span) span.path
      refine ⟨(Setting.conclude span opened [] ⟨w, ([] : List (Option H)), []⟩).1, [event],
        fun {feed} h => ?_⟩
      obtain ⟨feed', hsource, hkeeps, hdealings⟩ := h.sourceFor steady hrun w
      have hannounced : (setting.announce span feed').dealings = event :: feed.dealings := by
        rw [announce, Feed.dealings_record, Feed.note, Feed.dealings_record, hdealings]
        rfl
      have hsame := steady.openRange_eq handle span.path span.itemOffset (setting.lengthFor span)
        (setting.announce span feed').world w
      rcases hopen : setting.supply.openRange handle span.path span.itemOffset
        (setting.lengthFor span) (setting.announce span feed').world with ⟨outcome, notes, w'⟩
      rw [hopen] at hsame
      obtain rfl : outcome = opened := hsame
      rw [Setting.openFor, hsource, hresolve]
      dsimp only
      rw [openFrom, hopen]
      dsimp only
      rw [conclude_eq opened notes _ ⟨w, [], []⟩]
      refine ⟨_, rfl, ?_, ?_⟩
      · intro i handle' hi
        rw [Feed.handles_notes] at hi
        apply hkeeps i handle' hi
      · rw [Feed.dealings_notes]
        apply hannounced

end Setting

/-! ### A likeness -/

/-- Both feeds keep sources that would be found, and the same calls have been added to theirs. -/
structure Feed.Apart (setting : Setting W H S) (before before' : List Event) (f g : Feed W H) :
    Prop where
  keeps : setting.Keeps f
  keeps' : setting.Keeps g
  added : ∃ made, f.dealings = made ++ before ∧ g.dealings = made ++ before'

namespace Feed

variable {before before' : List Event} {f g f' g' : Feed W H}

/-- The same calls may be added to both feeds. -/
theorem Apart.add (h : Apart setting before before' f g) {made : List Event}
    (hf : setting.Keeps f') (hg : setting.Keeps g') (hf' : f'.dealings = made ++ f.dealings)
    (hg' : g'.dealings = made ++ g.dealings) :
  Apart setting before before' f' g'
  := by
  obtain ⟨-, -, earlier, hadded, hadded'⟩ := h
  refine ⟨hf, hg, made ++ earlier, ?_, ?_⟩
  · rw [hf', hadded, List.append_assoc]
  · rw [hg', hadded', List.append_assoc]

/-- Both feeds may record an event, and their worlds may change. -/
theorem Apart.record (h : Apart setting before before' f g) (w w' : W) (event : Event) :
  Apart setting before before' ({ f with world := w }.record event)
    ({ g with world := w' }.record event)
  := h.add h.keeps h.keeps' dealings_record dealings_record

/-- Both feeds may take a note. -/
theorem Apart.note (h : Apart setting before before' f g) (n : Note) :
  Apart setting before before' (f.note n) (g.note n)
  := h.add h.keeps h.keeps' dealings_record dealings_record

end Feed

/-- Over a steady supply readers are alike whatever feeds they draw from. -/
def Supply.Steady.likeness (steady : setting.supply.Steady) (before before' : List Event) :
    setting.Likeness setting where
  piece_eq := rfl
  Feeds := Feed.Apart setting before before'
  Streams _ item other := other = item
  manner_eq := rfl
  note n h := h.note n
  drop {f g pos item other} h heq := by
    subst heq
    apply h.record f.world g.world (.closed other.source)
  place_eq heq := by
    subst heq
    exact ⟨rfl, rfl⟩
  forward heq _ _ := heq
  openFor {pos span f g} hspan h := by
    obtain ⟨outcome, made, hopen⟩ := Setting.Keeps.openFor steady hspan.run_eq f.world
    obtain ⟨f', hf, hkeeps, hmade⟩ := hopen h.keeps
    obtain ⟨g', hg, hkeeps', hmade'⟩ := hopen h.keeps'
    refine ⟨outcome, outcome, f', g', hf, hg, ?_, h.add hkeeps hkeeps' hmade hmade'⟩
    cases outcome with
    | error e => apply SameOutcome.error
    | ok item => exact .ok rfl
  ask {pos size span item other f g} purpose hspan heq _ _ h := by
    subst heq
    rcases hf : setting.supply.read other.stream size f.world with ⟨answer, stream, w⟩
    rcases hg : setting.supply.read other.stream size g.world with ⟨answer', stream', w'⟩
    have hsame := steady.read_eq other.stream size g.world f.world
    rw [hf, hg] at hsame
    obtain ⟨rfl, rfl⟩ : answer' = answer ∧ stream' = stream := hsame
    simp only [Supply.ask, hf, hg]
    exact ⟨_, _, _, _, _, rfl, rfl, rfl, h.record w w' _⟩

/-! ### Families -/

/-- The reply with no number for the copy that has been made, if one has. -/
def Reply.unnumbered : Reply → Reply
  | .copied (.ok _) => .copied (.ok 0)
  | reply => reply

/-- What comes of a command for the member that it is given to. -/
structure Deed (S : Type) where
  reply : Reply
  /-- The member afterwards. -/
  reader : Option (Reader S)
  /-- The calls but looks for sources, the latest first. -/
  calls : List Event

/-- Readers that match read alike, at once or by tasks. -/
theorem Reader.Reads.alike
    {read : Nat → Reader S → Feed W H → Except ReadError Bytes × Reader S × Feed W H}
    (h : Reads setting read) (hlaid : setting.piece.Laid) {likeness : setting.Likeness setting} :
  likeness.ReadsAlike read read
  := by
  cases h with
  | atOnce => apply Setting.Likeness.readsAlike_read likeness hlaid
  | byTasks setting => apply Setting.Likeness.readsAlike_readByTask likeness hlaid rfl

namespace Family

variable {F G : Family W H S} {reader : Reader S} {i j index : Nat} {command : Command}
  {read : Nat → Reader S → Feed W H → Except ReadError Bytes × Reader S × Feed W H}

/-- What comes of a command for the member of that number, and the family afterwards. -/
def deed (setting : Setting W H S)
    (read : Nat → Reader S → Feed W H → Except ReadError Bytes × Reader S × Feed W H)
    (index : Nat) (command : Command) (family : Family W H S) : Deed S × Family W H S :=
  let (reply, after) := family.runBy setting read index command
  (⟨reply.unnumbered, after.member? index, after.feed.dealingsSince family.feed⟩, after)

/-- What comes of the commands that are given to one member while others are given to others. -/
def deedsOf (setting : Setting W H S)
    (read : Nat → Reader S → Feed W H → Except ReadError Bytes × Reader S × Feed W H)
    (index : Nat) : List (Nat × Command) → Family W H S → List (Deed S)
  | [], _ => []
  | (i, command) :: rest, family =>
    let (deed, after) := family.deed setting read i command
    (if i = index then [deed] else []) ++ deedsOf setting read index rest after

/-- A reader that is alone, at an offset. -/
def alone (setting : Setting W H S) (offset : Nat) (world : W) : Family W H S :=
  ⟨[some (Reader.startAt setting offset)], Feed.start world setting.piece.blocks.length⟩

/-- These commands end with the making of a member at an offset: the first is made at the start of
the piece, and every other one by a copy. -/
inductive Makes (setting : Setting W H S)
    (read : Nat → Reader S → Feed W H → Except ReadError Bytes × Reader S × Feed W H) (world : W) :
    List (Nat × Command) → Nat → Nat → Prop
  | original : Makes setting read world [] 0 0
  | copy {earlier : List (Nat × Command)} {parent offset index : Nat}
      (h : (((start setting world).runAllBy setting read earlier).2.runBy setting read parent
        (.copy offset)).1 = .copied (.ok index)) :
      Makes setting read world (earlier ++ [(parent, .copy offset)]) index offset

/-- Members stand somewhere, and the sources kept are those that would be found. -/
structure Sound (setting : Setting W H S) (family : Family W H S) : Prop where
  stands : family.Stands setting.piece
  keeps : setting.Keeps family.feed

/-- A command replaces a member, or adds a copy. -/
theorem members_runBy (setting : Setting W H S)
    (read : Nat → Reader S → Feed W H → Except ReadError Bytes × Reader S × Feed W H) (i : Nat)
    (command : Command) (F : Family W H S) :
  (∃ member, (F.runBy setting read i command).2.members = F.members.set i member)
    ∨ ∃ offset, command = .copy offset
        ∧ (F.runBy setting read i command).1 = .copied (.ok F.members.length)
        ∧ (F.runBy setting read i command).2.members
          = F.members ++ [some (Reader.startAt setting offset)]
  := by
  have hkept : ∃ member, F.members = F.members.set i member := by
    rcases Nat.lt_or_ge i F.members.length with hlt | hge
    · exact ⟨F.members[i], by rw [List.set_getElem_self]⟩
    · exact ⟨none, by rw [List.set_eq_of_length_le hge]⟩
  rw [runBy]
  cases hmember : F.member? i with
  | none => exact .inl hkept
  | some reader =>
      cases command with
      | copy offset =>
          dsimp only
          rw [Reader.copyAt]
          cases Reader.checkReach setting offset with
          | error e => exact .inl hkept
          | ok _ => exact .inr ⟨offset, rfl, rfl, rfl⟩
      | drop =>
          rw [remove, hmember]
          exact .inl ⟨_, rfl⟩
      | _ => exact .inl ⟨_, rfl⟩

/-- No number is taken back. -/
theorem length_le_runBy (setting : Setting W H S)
    (read : Nat → Reader S → Feed W H → Except ReadError Bytes × Reader S × Feed W H) (i : Nat)
    (command : Command) (F : Family W H S) :
  F.members.length ≤ (F.runBy setting read i command).2.members.length
  := by
  rcases members_runBy setting read i command F with ⟨member, h⟩ | ⟨offset, -, -, h⟩
  · rw [h, List.length_set]
  · rw [h, List.length_append]
    apply Nat.le_add_right

/-- What is told to others does not change a member, nor bring it back. -/
theorem member?_runBy_eq (hne : i ≠ index) (hindex : index < F.members.length) :
  (F.runBy setting read i command).2.member? index = F.member? index
  := by
  rw [member?, member?]
  rcases members_runBy setting read i command F with ⟨member, h⟩ | ⟨offset, -, -, h⟩
  · rw [h, List.getElem?_set_ne hne]
  · rw [h, List.getElem?_append_left hindex]

/-- Readers that match over a steady supply are the same. -/
theorem match_iff (steady : setting.supply.Steady) {before before' : List Event}
    {twin : Reader S} :
  (steady.likeness before before').Match reader twin
    ↔ twin = reader ∧ ∃ pos, reader.StandsAt setting.piece pos
  := Setting.Likeness.match_iff_eq Iff.rfl

/-- Feeds that keep sources which would be found are apart from themselves and from each other. -/
theorem apart_of_keeps {f g : Feed W H} (hf : setting.Keeps f) (hg : setting.Keeps g) :
  Feed.Apart setting f.dealings g.dealings f g
  := ⟨hf, hg, [], rfl, rfl⟩

section

variable (steady : setting.supply.Steady) (hlaid : setting.piece.Laid)
  (hread : ∀ {before before'}, (steady.likeness before before').ReadsAlike read read)

include hlaid hread

/-- The same member of two families obeys alike. -/
theorem obey (hF : F.Sound setting) (hG : G.Sound setting) (hi : F.member? i = some reader)
    (hj : G.member? j = some reader) (command : Command) :
  (steady.likeness F.feed.dealings G.feed.dealings).Obey F G i j
    (F.runBy setting read i command) (G.runBy setting read j command)
  := by
  apply Setting.Likeness.runBy hlaid hread hi hj _ (apart_of_keeps hF.keeps hG.keeps)
  apply (match_iff steady).mpr ⟨rfl, _, hF.stands.member hi⟩

/-- Members and sources stay sound, whatever a member is told. -/
theorem sound_runBy (h : F.Sound setting) (i : Nat) (command : Command) :
  (F.runBy setting read i command).2.Sound setting
  := by
  cases hi : F.member? i with
  | none =>
      rw [runBy, hi]
      apply h
  | some reader =>
      obtain ⟨other, hobey⟩ : ∃ other,
          (steady.likeness F.feed.dealings F.feed.dealings).Obey F F i i
            (F.runBy setting read i command) other :=
        ⟨_, obey steady hlaid hread h h hi hi command⟩
      generalize F.runBy setting read i command = x at hobey ⊢
      cases hobey with
      | change reply hmatch hfeeds =>
          obtain ⟨-, pos, hstands⟩ := (match_iff steady).mp hmatch
          exact ⟨stands_update h.stands i hstands, hfeeds.keeps⟩
      | @copy offset hoffset =>
          refine ⟨?_, h.keeps⟩
          intro reader' hmem
          rcases List.mem_append.mp hmem with hmem | hmem
          · apply h.stands reader' hmem
          · cases List.mem_singleton.mp hmem
            exact ⟨offset, Reader.standsAt_startAt hlaid hoffset⟩
      | refuse e => apply h
      | go hfeeds =>
          refine ⟨?_, hfeeds.keeps⟩
          intro reader' hmem
          rcases List.mem_or_eq_of_mem_set hmem with hmem | heq
          · apply h.stands reader' hmem
          · cases heq

/-- Members and sources stay sound, whatever members are told one after the other. -/
theorem sound_runAllBy (h : F.Sound setting) (commands : List (Nat × Command)) :
  (F.runAllBy setting read commands).2.Sound setting
  := by
  induction commands generalizing F with
  | nil => apply h
  | cons c commands ih =>
      obtain ⟨i, command⟩ := c
      rw [runAllBy_cons]
      apply ih (sound_runBy steady hlaid hread h i command)

/-- A member of one family does as the same member of another. -/
theorem deed_eq (hF : F.Sound setting) (hG : G.Sound setting) (hi : i < F.members.length)
    (hj : j < G.members.length) (hsame : G.member? j = F.member? i) (command : Command) :
  (G.deed setting read j command).1 = (F.deed setting read i command).1
  := by
  cases hmember : F.member? i with
  | none =>
      rw [hmember] at hsame
      simp only [deed, runBy, hmember, hsame, Feed.dealingsSince_self]
  | some reader =>
      rw [hmember] at hsame
      have hobey := obey steady hlaid hread hF hG hmember hsame command
      rw [deed, deed]
      generalize F.runBy setting read i command = x at hobey ⊢
      generalize G.runBy setting read j command = y at hobey ⊢
      cases hobey with
      | @change reply _ twin f g hmatch hfeeds =>
          obtain ⟨rfl, -⟩ := (match_iff steady).mp hmatch
          obtain ⟨-, -, made, hmade, hmade'⟩ := hfeeds
          have hcalls : (F.update i twin f).feed.dealingsSince F.feed = made :=
            Feed.dealingsSince_eq hmade
          have hcalls' : (G.update j twin g).feed.dealingsSince G.feed = made :=
            Feed.dealingsSince_eq hmade'
          dsimp only
          rw [member?_update hmember, member?_update hsame, hcalls, hcalls']
      | copy hoffset =>
          rw [member?] at hmember hsame
          simp only [member?, List.getElem?_append_left hi, List.getElem?_append_left hj, hmember,
            hsame, Feed.dealingsSince_self, Reply.unnumbered]
      | refuse e =>
          dsimp only
          rw [hmember, hsame, Feed.dealingsSince_self, Feed.dealingsSince_self]
      | @go f g hfeeds =>
          obtain ⟨-, -, made, hmade, hmade'⟩ := hfeeds
          simp only [member?, List.getElem?_set_self hi, List.getElem?_set_self hj,
            Feed.dealingsSince_eq hmade, Feed.dealingsSince_eq hmade']

/-- Among others a member does as alone, and comes to the same. -/
theorem deedsOf_eq (hF : F.Sound setting) (hG : G.Sound setting) (hi : i < F.members.length)
    (hj : j < G.members.length) (hsame : G.member? j = F.member? i)
    (commands : List (Nat × Command)) :
  let own := (commands.filter (·.1 = i)).map fun c => (j, c.2)
  G.deedsOf setting read j own = F.deedsOf setting read i commands
    ∧ (G.runAllBy setting read own).2.member? j = (F.runAllBy setting read commands).2.member? i
  := by
  induction commands generalizing F G with
  | nil => exact ⟨rfl, hsame⟩
  | cons c commands ih =>
      obtain ⟨k, command⟩ := c
      have hF' := sound_runBy steady hlaid hread hF k command
      have hi' := Nat.lt_of_lt_of_le hi (length_le_runBy setting read k command F)
      by_cases hk : k = i
      · subst hk
        have hdeed := deed_eq steady hlaid hread hF hG hi hj hsame command
        have hG' := sound_runBy steady hlaid hread hG j command
        have hj' := Nat.lt_of_lt_of_le hj (length_le_runBy setting read j command G)
        obtain ⟨hdeeds, hlast⟩ := ih hF' hG' hi' hj' (congrArg Deed.reader hdeed)
        simp only [List.filter_cons, decide_true, if_true, List.map_cons, deedsOf, runAllBy_cons]
        refine ⟨?_, hlast⟩
        rw [hdeed]
        congr 1
      · -- A command to another member is none to the one that is alone.
        have hkept : G.member? j = (F.runBy setting read k command).2.member? i := by
          rw [hsame, member?_runBy_eq hk hi]
        obtain ⟨hdeeds, hlast⟩ := ih hF' hG hi' hj hkept
        simp only [List.filter_cons, hk, decide_false, Bool.false_eq_true, if_false, deedsOf,
          runAllBy_cons, List.nil_append]
        exact ⟨hdeeds, hlast⟩

end

/-- A reader that is alone is sound. -/
theorem sound_alone (hlaid : setting.piece.Laid) {offset : Nat}
    (hoffset : offset ≤ setting.piece.size) (world : W) :
  (alone setting offset world).Sound setting
  := by
  constructor
  · intro reader hmem
    cases List.mem_singleton.mp hmem
    exact ⟨offset, Reader.standsAt_startAt hlaid hoffset⟩
  · intro i handle hi
    simp [alone, Feed.start, List.getElem?_replicate] at hi

/-- The last command is given where those before it have led. -/
theorem runAllBy_concat {done : List (Nat × Command)} :
  (F.runAllBy setting read (done ++ [(i, command)])).2
    = ((F.runAllBy setting read done).2.runBy setting read i command).2
  := by
  rw [runAllBy_append]
  rfl

/-- A copy that has been made is a new reader and has the next number. -/
theorem runBy_copy_of_ok {parent offset : Nat}
    (h : (F.runBy setting read parent (.copy offset)).1 = .copied (.ok index)) :
  offset ≤ setting.piece.size ∧ F.members.length = index
    ∧ (F.runBy setting read parent (.copy offset)).2.members
      = F.members ++ [some (Reader.startAt setting offset)]
  := by
  rw [runBy] at h ⊢
  cases hmember : F.member? parent with
  | none =>
      rw [hmember] at h
      cases h
  | some reader =>
      rw [hmember] at h
      simp only [Reader.copyAt, Reader.checkReach] at h ⊢
      by_cases hreach : setting.piece.size < offset
      · simp only [if_pos hreach] at h
        cases h
      · simp only [if_neg hreach] at h ⊢
        cases h
        exact ⟨Nat.le_of_not_lt hreach, rfl, trivial⟩

/-- A member that has just been made is a new reader at its offset. -/
theorem Makes.member? {world : W} {done : List (Nat × Command)} {offset : Nat}
    (h : Makes setting read world done index offset) :
  offset ≤ setting.piece.size
    ∧ ((start setting world).runAllBy setting read done).2.member? index
      = some (Reader.startAt setting offset)
  := by
  cases h with
  | original => exact ⟨Nat.zero_le _, rfl⟩
  | copy h =>
      obtain ⟨hoffset, hindex, hmembers⟩ := runBy_copy_of_ok h
      refine ⟨hoffset, ?_⟩
      rw [member?_eq_some_iff, runAllBy_concat, hmembers, ← hindex]
      apply List.getElem?_concat_length

/-- Every member has been made. -/
theorem exists_makes (world : W) (commands : List (Nat × Command))
    (hindex : index < ((start setting world).runAllBy setting read commands).2.members.length) :
  ∃ done more offset, commands = done ++ more ∧ Makes setting read world done index offset
  := by
  induction commands using List.reverseRecOn with
  | nil =>
      have hzero : index = 0 := Nat.lt_one_iff.mp hindex
      rw [hzero]
      exact ⟨[], [], 0, rfl, .original⟩
  | append_singleton commands c ih =>
      obtain ⟨i, command⟩ := c
      rw [runAllBy_concat] at hindex
      rcases Nat.lt_or_ge index
        ((start setting world).runAllBy setting read commands).2.members.length with hlt | hge
      · obtain ⟨done, more, offset, hcommands, hmakes⟩ := ih hlt
        refine ⟨done, more ++ [(i, command)], offset, ?_, hmakes⟩
        rw [hcommands, List.append_assoc]
      · rcases members_runBy setting read i command
          ((start setting world).runAllBy setting read commands).2
          with ⟨member, h⟩ | ⟨offset, rfl, hreply, h⟩
        · rw [h, List.length_set] at hindex
          omega
        · rw [h, List.length_append, List.length_singleton] at hindex
          obtain rfl : index
              = ((start setting world).runAllBy setting read commands).2.members.length := by omega
          exact ⟨_, [], offset, (List.append_nil _).symm, .copy hreply⟩

/-- Over a steady supply every member does as if it were alone from its making on, whether members
read at once or by tasks, and whatever the others are told meanwhile: it answers its commands alike,
stands at the same offset, is poisoned or not and holds the same stream after each of them, and
makes the same calls but looks for sources. -/
theorem member_does_as_alone {plan : Plan} (hbuild : plan.build = .ok setting.piece)
    (steady : setting.supply.Steady) (hreads : Reader.Reads setting read) (world : W)
    {commands : List (Nat × Command)}
    (hindex : index < ((start setting world).runAllBy setting read commands).2.members.length) :
  ∃ done more offset, commands = done ++ more ∧ Makes setting read world done index offset
    ∧ ∀ world',
      let made := ((start setting world).runAllBy setting read done).2
      let own := (more.filter (·.1 = index)).map fun c => (0, c.2)
      (alone setting offset world').deedsOf setting read 0 own
          = made.deedsOf setting read index more
        ∧ ((alone setting offset world').runAllBy setting read own).2.member? 0
          = ((start setting world).runAllBy setting read commands).2.member? index
  := by
  have hlaid := Plan.laid_of_build hbuild
  have hread : ∀ {before before'}, (steady.likeness before before').ReadsAlike read read := by
    intro before before'
    apply hreads.alike hlaid
  obtain ⟨done, more, offset, rfl, hmakes⟩ := exists_makes world commands hindex
  obtain ⟨hoffset, hmember⟩ := hmakes.member?
  have hsound := sound_runAllBy steady hlaid hread
    (sound_alone hlaid (Nat.zero_le _) world) done
  refine ⟨done, more, offset, rfl, hmakes, fun world' => ?_⟩
  rw [runAllBy_append]
  apply deedsOf_eq steady hlaid hread hsound (sound_alone hlaid hoffset world')
    (lt_length_of_member? hmember) Nat.zero_lt_one hmember.symm

/-- A reader fails where a source is missing, and a copy of it goes on before that place. -/
theorem member_does_as_alone_missing_source :
  let plan : Plan :=
    ⟨[1], 4, [.item 1 [] [] ⟨0⟩ ⟨⟨1⟩, "a", 3⟩ 0 2, .item 3 [] [] ⟨7⟩ ⟨⟨2⟩, "b", 1⟩ 0 1]⟩
  let piece : Piece :=
    ⟨[1], 4, [.run ⟨⟨0⟩, ⟨⟨1⟩, "a", 3⟩, ⟨⟨1, [], []⟩, 0, 2⟩, []⟩,
      .run ⟨⟨7⟩, ⟨⟨2⟩, "b", 1⟩, ⟨⟨3, [], []⟩, 0, 1⟩, []⟩]⟩
  let supply : Supply Unit Unit Bytes :=
    { resolve := fun source w =>
        (if source.number = 0 then .ok () else .error (.unknownSource source), w)
      openRange := fun _ _ offset length w =>
        (.ok ((([10, 11, 12] : Bytes).drop offset).take length), [], w)
      read := fun stream size w => (.ok (stream.take size), stream.drop size, w)
      patience := fun _ _ => 0
      length_le_of_read := by
        rintro stream size w _ ⟨⟩
        apply List.length_take_le
      patience_lt_of_interruption := nofun }
  let setting : Setting Unit Unit Bytes := ⟨supply, piece, .standard, .blocking⟩
  let read : Nat → Reader Bytes → Feed Unit Unit →
      Except ReadError Bytes × Reader Bytes × Feed Unit Unit :=
    fun size reader feed => reader.read setting size feed
  let commands : List (Nat × Command) :=
    [(0, .read 9), (0, .copy 2), (0, .read 9), (1, .read 9), (0, .read 9), (1, .moveTo 1),
      (1, .read 1)]
  let reached := (start setting ()).runAllBy setting read commands
  plan.build = .ok setting.piece ∧ setting.supply.Steady ∧ Reader.Reads setting read
    ∧ 1 < reached.2.members.length
    ∧ reached.1
      = [.bytes (.ok [1, 10, 11]), .copied (.ok 1),
          .bytes (.error (.sourceUnavailable ⟨7⟩ (.unknownSource ⟨7⟩))), .bytes (.ok [11]),
          .bytes (.error .poisoned), .moved (.ok ()), .bytes (.ok [10])]
    ∧ ∃ done more offset, commands = done ++ more ∧ Makes setting read () done 1 offset
        ∧ (alone setting offset ()).deedsOf setting read 0
            ((more.filter (·.1 = 1)).map fun c => (0, c.2))
          = ((start setting ()).runAllBy setting read done).2.deedsOf setting read 1 more
  := by
  intro plan piece supply setting read commands reached
  have hbuild : plan.build = .ok setting.piece := rfl
  have steady : setting.supply.Steady := ⟨fun _ _ _ => rfl, fun _ _ _ _ _ _ => rfl,
    fun _ _ _ _ => ⟨rfl, rfl⟩⟩
  have hreads : Reader.Reads setting read := .atOnce setting
  have hreplies : reached.1
      = [.bytes (.ok [1, 10, 11]), .copied (.ok 1),
          .bytes (.error (.sourceUnavailable ⟨7⟩ (.unknownSource ⟨7⟩))), .bytes (.ok [11]),
          .bytes (.error .poisoned), .moved (.ok ()), .bytes (.ok [10])] := by
    simp only [reached, commands, read, setting, supply, piece]
    cbv
  have hindex : 1 < reached.2.members.length := by
    simp only [reached, commands, read, setting, supply, piece]
    cbv
  obtain ⟨done, more, offset, hcommands, hmakes, halone⟩ :=
    member_does_as_alone hbuild steady hreads () hindex
  exact ⟨hbuild, steady, hreads, hindex, hreplies, done, more, offset, hcommands, hmakes,
    (halone ()).1⟩

end Family

end PieceStream
