import Mathlib.Data.List.Forall2
import Mathlib.Data.List.Nodup
import PieceStream.Json.Decoding
import PieceStream.Proofs.Trees

/-!
# Records with reordered members

Reordering the members of objects, at any depth, keeps what a text can say and what can be held.  A
record is read from its members in any order: the draft depends on the names that have been read
and not on their order.
-/

namespace PieceStream.Json

mutual

/-- The values differ in the order of the members of their objects only. -/
inductive Reordered : Json → Json → Prop where
  | same (json : Json) : Reordered json json
  | array {elements elements' : List Json} (h : List.Forall₂ Reordered elements elements') :
    Reordered (.array elements) (.array elements')
  | object {members members' reordered : List (Key × Json)}
    (h : List.Forall₂ ReorderedMember members members') (hperm : members'.Perm reordered) :
    Reordered (.object members) (.object reordered)

/-- The members have the same key, and their values differ in the order of members only. -/
inductive ReorderedMember : Key × Json → Key × Json → Prop where
  | mk (key : Key) {v w : Json} (h : Reordered v w) : ReorderedMember (key, v) (key, w)

end

/-! ### Parts of reordered values -/

/-- Whether a value is neither an array nor an object. -/
def isFlat : Json → Bool
  | .array _ | .object _ => false
  | _ => true

variable {v w : Json} {elements : List Json} {members : List (Key × Json)}

theorem exists_of_forall₂ {α β : Type} {R : α → β → Prop} {as : List α} {bs : List β} {b : β}
    (h : List.Forall₂ R as bs) (hb : b ∈ bs) :
  ∃ a ∈ as, R a b
  := by
  induction h with
  | nil => cases hb
  | cons hR h ih =>
      rcases List.mem_cons.mp hb with rfl | hb
      · exact ⟨_, List.mem_cons_self, hR⟩
      · obtain ⟨a, ha, hR⟩ := ih hb
        exact ⟨a, List.mem_cons_of_mem _ ha, hR⟩

/-- A value without members has one order. -/
theorem Reordered.eq_of_isFlat (h : v.Reordered w) (hflat : v.isFlat = true) :
  w = v
  := by
  cases h with
  | same => rfl
  | array => cases hflat
  | object => cases hflat

theorem Reordered.ne_null (h : v.Reordered w) (hne : v ≠ .null) :
  w ≠ .null
  := by
  cases h with
  | same => apply hne
  | array => apply Json.noConfusion
  | object => apply Json.noConfusion

/-- An array is reordered in its elements. -/
theorem Reordered.array_cases (h : (Json.array elements).Reordered w) :
  ∃ elements', w = .array elements' ∧ List.Forall₂ Reordered elements elements'
  := by
  cases h with
  | same => exact ⟨elements, rfl, List.forall₂_same.mpr fun v _ => .same v⟩
  | array h => exact ⟨_, rfl, h⟩

/-- The members of a reordered object have the keys of the object, in some order, and are members
of it, reordered. -/
theorem Reordered.object_cases (h : (Json.object members).Reordered w) :
  ∃ members', w = .object members' ∧ (members'.map Prod.fst).Perm (members.map Prod.fst)
    ∧ ∀ m ∈ members', ∃ v, (m.1, v) ∈ members ∧ v.Reordered m.2
  := by
  cases h with
  | same => exact ⟨members, rfl, .refl _, fun m hm => ⟨m.2, hm, .same m.2⟩⟩
  | @object _ members' reordered h hperm =>
      have hkeys : members'.map Prod.fst = members.map Prod.fst := by
        clear hperm
        induction h with
        | nil => rfl
        | cons hm h ih =>
            obtain ⟨key, hv⟩ := hm
            rw [List.map_cons, List.map_cons, ih]
      refine ⟨reordered, rfl, hkeys ▸ hperm.symm.map Prod.fst, ?_⟩
      intro m hm
      obtain ⟨_, hmem, key, hv⟩ := exists_of_forall₂ h (hperm.mem_iff.mpr hm)
      exact ⟨_, hmem, hv⟩

/-! ### What reordering keeps -/

/-- Whether `p` holds of a value, which opens a nesting level, is told by its parts. -/
structure ByParts (p : Nat → Json → Prop) (fits : Nat → Prop) : Prop where
  array_iff (level : Nat) (elements : List Json) :
    p level (.array elements) ↔ fits level ∧ ∀ v ∈ elements, p (level + 1) v
  object_iff (level : Nat) (members : List (Key × Json)) :
    p level (.object members)
      ↔ fits level ∧ ∀ m ∈ members, (∃ name, m.1 = .text name) ∧ p (level + 1) m.2

/-- What is told by the parts of a value does not depend on the order of members. -/
theorem ByParts.of_reordered {p : Nat → Json → Prop} {fits : Nat → Prop} (hp : ByParts p fits)
    {v w : Json} (level : Nat) (h : v.Reordered w) (hv : p level v) :
  p level w
  := by
  match v with
  | .array elements =>
      obtain ⟨elements', rfl, helements⟩ := h.array_cases
      rw [hp.array_iff] at hv ⊢
      refine ⟨hv.1, fun w hw => ?_⟩
      obtain ⟨v, hmem, hvw⟩ := exists_of_forall₂ helements hw
      have hsize := List.sizeOf_lt_of_mem hmem
      apply ByParts.of_reordered hp (level + 1) hvw (hv.2 v hmem)
  | .object members =>
      obtain ⟨members', rfl, -, hmembers⟩ := h.object_cases
      rw [hp.object_iff] at hv ⊢
      refine ⟨hv.1, fun m hm => ?_⟩
      obtain ⟨v, hmem, hvw⟩ := hmembers m hm
      have hsize : sizeOf v < sizeOf members := by
        have hmember := List.sizeOf_lt_of_mem hmem
        rw [Prod.mk.sizeOf_spec] at hmember
        omega
      obtain ⟨hname, hv⟩ := hv.2 _ hmem
      refine ⟨hname, ByParts.of_reordered hp (level + 1) hvw hv⟩
  | .null | .bool _ | .number _ | .string _ | .unpaired | .broken =>
      rw [h.eq_of_isFlat rfl]
      apply hv
termination_by sizeOf v
decreasing_by
  · simp_wf
    omega
  · simp_wf
    omega

theorem byParts_plain :
  ByParts (fun _ v => v.plain = true) fun _ => True
  := by
  constructor
  case array_iff =>
      intro _ elements
      rw [plain, true_and]
      induction elements with
      | nil => simp [plainElements]
      | cons v elements ih => simp [plainElements, ih]
  case object_iff =>
      intro _ members
      rw [plain, true_and]
      induction members with
      | nil => simp [plainMembers]
      | cons m members ih =>
          obtain ⟨key, v⟩ := m
          cases key <;> simp [plainMembers, ih]

theorem byParts_holdable :
  ByParts (fun level v => v.holdable level = true) fun level => level < nestingLimit
  := by
  constructor
  case array_iff =>
      intro level elements
      rw [holdable, Bool.and_eq_true, decide_eq_true_iff]
      apply and_congr_right
      intro _
      induction elements with
      | nil => simp [holdableElements]
      | cons v elements ih => simp [holdableElements, ih]
  case object_iff =>
      intro level members
      rw [holdable, Bool.and_eq_true, decide_eq_true_iff]
      apply and_congr_right
      intro _
      induction members with
      | nil => simp [holdableMembers]
      | cons m members ih =>
          obtain ⟨key, v⟩ := m
          cases key <;> simp [holdableMembers, ih]

/-! ### Members in any order -/

/-- The members of a record in some order, their values reordered. -/
structure Presents (members : List (Key × Json)) (record : List (String × Json)) : Prop where
  keys : (members.map Prod.fst).Perm (record.map fun m => .text m.1)
  values : ∀ m ∈ members, ∃ n ∈ record, m.1 = .text n.1 ∧ n.2.Reordered m.2

variable {record : List (String × Json)}

/-- A record that is reordered has its members in some order. -/
theorem Reordered.exists_presents (h : (ofMembers record).Reordered w) :
  ∃ members, w = .object members ∧ Presents members record
  := by
  obtain ⟨members, rfl, hkeys, hvalues⟩ := h.object_cases
  rw [List.map_map] at hkeys
  refine ⟨members, rfl, hkeys, fun m hm => ?_⟩
  obtain ⟨v, hmem, hv⟩ := hvalues m hm
  obtain ⟨n, hn, heq⟩ := List.mem_map.mp hmem
  obtain ⟨hkey, rfl⟩ := Prod.mk.inj heq
  exact ⟨n, hn, hkey.symm, hv⟩

theorem Presents.nodup_keys (h : Presents members record) (hnodup : (record.map Prod.fst).Nodup) :
  (members.map Prod.fst).Nodup
  := by
  have hinj : Function.Injective Key.text := fun _ _ => Key.text.inj
  have hkeys := List.Nodup.map hinj hnodup
  rw [List.map_map] at hkeys
  apply h.keys.nodup_iff.mpr hkeys

/-- A member of a record stands somewhere among the members, and the others present the rest. -/
theorem Presents.exists_insert {name : String} {json : Json}
    (h : Presents members ((name, json) :: record))
    (hnodup : (((name, json) :: record).map Prod.fst).Nodup) :
  ∃ before v after, members = before ++ (.text name, v) :: after ∧ json.Reordered v
    ∧ Presents (before ++ after) record
  := by
  have hfresh : ∀ n ∈ record, n.1 ≠ name := by
    rintro n hn rfl
    apply (List.nodup_cons.mp hnodup).1 (List.mem_map.mpr ⟨n, hn, rfl⟩)
  have hmem : Key.text name ∈ members.map Prod.fst := by
    rw [h.keys.mem_iff]
    apply List.mem_cons_self
  obtain ⟨⟨key, v⟩, hm, rfl⟩ := List.mem_map.mp hmem
  obtain ⟨before, after, rfl⟩ := List.append_of_mem hm
  have hkeys := h.nodup_keys hnodup
  have hperm : (before ++ (.text name, v) :: after).Perm ((.text name, v) :: (before ++ after)) :=
    List.perm_middle
  replace hkeys := (hperm.map Prod.fst).nodup_iff.mp hkeys
  refine ⟨before, v, after, rfl, ?_, ?_, ?_⟩
  · obtain ⟨n, hn, hkey, hv⟩ := h.values _ hm
    rcases List.mem_cons.mp hn with rfl | hn
    · apply hv
    · exact absurd (Key.text.inj hkey).symm (hfresh n hn)
  · apply ((hperm.map Prod.fst).symm.trans h.keys).cons_inv
  · intro m hm
    obtain ⟨n, hn, hkey, hv⟩ := h.values m (hperm.mem_iff.mpr (List.mem_cons_of_mem _ hm))
    rcases List.mem_cons.mp hn with rfl | hn
    · rw [List.map_cons, List.nodup_cons] at hkeys
      exact absurd (List.mem_map.mpr ⟨m, hm, hkey⟩) hkeys.1
    · exact ⟨n, hn, hkey, hv⟩

/-! ### Reading a record -/

variable {δ : Type} {fields : List (Field δ)} {draft : List String → δ}

/-- Reading the value, however it is reordered, as the field of that name makes the draft that knows
one name more. -/
def Adds (fields : List (Field δ)) (draft : List String → δ) (name : String) (json : Json) : Prop :=
  ∃ field, fields.find? (·.name == name) = some field
    ∧ ∀ seen, field.isFilled (draft seen) = decide (name ∈ seen)
      ∧ ∀ v, json.Reordered v → field.fill v (draft seen) = .ok (draft (name :: seen))

/-- Members whose values can be read, no two of the same name, are all read. -/
theorem fillMembers_of_adds (seen : List String) (hnodup : (members.map Prod.fst).Nodup)
    (hadds : ∀ m ∈ members, ∃ name ∉ seen, m.1 = .text name
      ∧ ∃ json : Json, json.Reordered m.2 ∧ Adds fields draft name json) :
  ∃ seen', (∀ name, name ∈ seen ∨ .text name ∈ members.map Prod.fst → name ∈ seen')
    ∧ fillMembers fields members (draft seen) = .ok (draft seen')
  := by
  -- That no name still to come has been seen is kept because no two names are the same.
  induction members generalizing seen with
  | nil => exact ⟨seen, fun name h => h.resolve_right List.not_mem_nil, rfl⟩
  | cons m members ih =>
      obtain ⟨name, hname, hkey, json, hv, field, hfind, hfield⟩ := hadds m List.mem_cons_self
      obtain ⟨key, v⟩ := m
      obtain rfl : key = .text name := hkey
      obtain ⟨hfilled, hfill⟩ := hfield seen
      rw [List.map_cons, List.nodup_cons] at hnodup
      have hrest : ∀ m ∈ members, ∃ name' ∉ name :: seen, m.1 = .text name'
          ∧ ∃ json : Json, json.Reordered m.2 ∧ Adds fields draft name' json := by
        intro m hm
        obtain ⟨name', hname', hkey, hadds⟩ := hadds m (List.mem_cons_of_mem _ hm)
        refine ⟨name', ?_, hkey, hadds⟩
        rw [List.mem_cons, not_or]
        refine ⟨?_, hname'⟩
        rintro rfl
        apply hnodup.1 (List.mem_map.mpr ⟨m, hm, hkey⟩)
      obtain ⟨seen', hseen, hread⟩ := ih (name :: seen) hnodup.2 hrest
      refine ⟨seen', fun name' h => hseen name' ?_, ?_⟩
      · rw [List.map_cons, List.mem_cons, Key.text.injEq] at h
        rw [List.mem_cons]
        tauto
      · rw [fillMembers, hfind]
        dsimp only
        rw [hfilled, decide_eq_false hname, hfill v hv]
        apply hread

/-- A record whose values can be read, in whatever order their members are, is read. -/
theorem Presents.fillMembers_eq_ok (h : Presents members record)
    (hnodup : (record.map Prod.fst).Nodup) (hadds : ∀ m ∈ record, Adds fields draft m.1 m.2) :
  ∃ seen, (∀ m ∈ record, m.1 ∈ seen) ∧ fillMembers fields members (draft []) = .ok (draft seen)
  := by
  have hmembers : ∀ m ∈ members, ∃ name ∉ ([] : List String), m.1 = .text name
      ∧ ∃ json : Json, json.Reordered m.2 ∧ Adds fields draft name json := by
    intro m hm
    obtain ⟨n, hn, hkey, hv⟩ := h.values m hm
    exact ⟨n.1, List.not_mem_nil, hkey, n.2, hv, hadds n hn⟩
  obtain ⟨seen, hseen, hread⟩ := fillMembers_of_adds [] (h.nodup_keys hnodup) hmembers
  refine ⟨seen, fun m hm => hseen m.1 (.inr ?_), hread⟩
  rw [h.keys.mem_iff]
  apply List.mem_map_of_mem hm

/-- A record whose values can be read is read however it is reordered. -/
theorem Reordered.record_eq_ok {members : List (String × Json)} (origin : Origin)
    (h : (ofMembers members).Reordered w) (hnodup : (members.map Prod.fst).Nodup)
    (hadds : ∀ m ∈ members, Adds fields draft m.1 m.2) :
  ∃ seen, (∀ m ∈ members, m.1 ∈ seen)
    ∧ Json.record origin fields (draft []) w = .ok (draft seen)
  := by
  obtain ⟨members', rfl, hmembers⟩ := h.exists_presents
  apply hmembers.fillMembers_eq_ok hnodup hadds

end PieceStream.Json
