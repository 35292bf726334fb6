import Mathlib.Data.Nat.Digits.Defs
import PieceStream.Plan.Form
import PieceStream.Proofs.Records
import PieceStream.Proofs.Symbols

/-!
# Plans and their text

The text of a plan is read as the plan, and so is every text that differs from it in the order of
members only.  A value tells what is read from it however its members are ordered; the forms of
items, payload origins, candidates and plans tell them.
-/

namespace PieceStream

namespace Json

variable {α : Type} {read : Json → Except Fault α} {json : Json} {a : α}

/-- However its members are ordered, the value is read as `a`. -/
def Tells (read : Json → Except Fault α) (json : Json) (a : α) : Prop :=
  ∀ json', json.Reordered json' → read json' = .ok a

/-! ### Scalars -/

/-- A value without members tells what is read from it. -/
theorem tells_of_isFlat (hflat : json.isFlat = true) (h : read json = .ok a) :
  Tells read json a
  := by
  intro json' hjson
  rw [hjson.eq_of_isFlat hflat, h]

theorem tells_word (n : UInt64) :
  Tells word (.ofNat n.toNat) n
  := by
  apply tells_of_isFlat rfl
  have hn : n.toNat < wordLimit := n.toNat_lt
  simp [word, ofNat, Numeral.ofNat, hn]

theorem tells_text (s : String) :
  Tells text (.string s) s
  := tells_of_isFlat rfl rfl

theorem tells_bytes (bs : Bytes) :
  Tells bytes bs.toJson bs
  := by
  apply tells_of_isFlat rfl
  have hdecode := Base64.decode_encode bs
  simp only [bytes, Bytes.toJson, text, bind, Except.bind, hdecode]
  rfl

/-! ### Values within values -/

/-- A value that may be missing is told by its form or by null. -/
theorem tells_optional (form : α → Json) (hform : ∀ a, Tells read (form a) a)
    (hnull : ∀ a, form a ≠ .null) (a? : Option α) :
  Tells (optional read) ((a?.map form).getD .null) a?
  := by
  cases a? with
  | none => exact tells_of_isFlat rfl rfl
  | some a =>
      intro json hjson
      have hread := hform a json hjson
      have hne := hjson.ne_null (hnull a)
      rw [optional, hread]
      · rfl
      · apply hne

/-- An array is told by the forms of its elements. -/
theorem tells_elements (form : α → Json) (hform : ∀ a, Tells read (form a) a) (as : List α) :
  Tells (elements read) (.array (as.map form)) as
  := by
  intro json hjson
  obtain ⟨values, rfl, hvalues⟩ := hjson.array_cases
  rw [List.forall₂_map_left_iff] at hvalues
  rw [elements]
  clear hjson
  induction hvalues with
  | nil => rfl
  | @cons a v as values hv _ ih =>
      rw [List.mapM_cons, hform a v hv, ih]
      rfl

/-- The number of a word can be held. -/
theorem holdable_ofNat (n : UInt64) (level : Nat) :
  (ofNat n.toNat).holdable level = true
  := by
  have hdigits : Numeral.digitCount n.toNat ≤ 20 := by
    have hn : n.toNat < 10 ^ 20 := Nat.lt_trans n.toNat_lt (by decide)
    rw [Numeral.digitCount]
    split
    · omega
    · apply Nat.toDigits_length 10 n.toNat 20 (by decide) hn
  have horder : (Numeral.digitCount n.toNat : Int) + 0 < 309 := by omega
  simp only [ofNat, holdable, Numeral.exceedsDouble, Numeral.ofNat, horder, or_true, if_true,
    Bool.not_false]

/-! ### Drafts -/

/-- What a draft holds of a field once the names `seen` have been read. -/
def known {β : Type} (seen : List String) (name : String) (value : β) : Option β :=
  if name ∈ seen then some value else none

variable {β : Type} {seen : List String} {name name' : String} {value : β}

@[simp]
theorem isSome_known :
  (known seen name value).isSome = decide (name ∈ seen)
  := by
  rw [known]
  split <;> simp_all

@[simp]
theorem known_cons_self :
  known (name :: seen) name value = some value
  := if_pos List.mem_cons_self

@[simp]
theorem known_cons_of_ne (h : name ≠ name') :
  known (name' :: seen) name value = known seen name value
  := by
  simp [known, h]

theorem known_of_mem (h : name ∈ seen) :
  known seen name value = some value
  := if_pos h

/-- A field whose value is told makes the draft that knows its name. -/
theorem Tells.adds {δ : Type} {fields : List (Field δ)} {draft : List String → δ} {field : Field δ}
    {set : α → δ → δ} (h : Tells read json a) (hfind : fields.find? (·.name == name) = some field)
    (hfill : field.fill = fun v d => do return set (← read v) d)
    (hfilled : ∀ seen, field.isFilled (draft seen) = decide (name ∈ seen))
    (hset : ∀ seen, set a (draft seen) = draft (name :: seen)) :
  Adds fields draft name json
  := by
  refine ⟨field, hfind, fun seen => ⟨hfilled seen, fun v hv => ?_⟩⟩
  rw [hfill, ← hset]
  dsimp only
  rw [h v hv]
  rfl

/-- A record tells what is made of a draft that knows the names of all members. -/
theorem tells_record {δ : Type} {fields : List (Field δ)} {members : List (String × Json)}
    {make : δ → Except Fault α} {origin : Origin} (draft : List String → δ)
    (hread : ∀ json, read json = Json.record origin fields (draft []) json >>= make)
    (hnodup : (members.map Prod.fst).Nodup)
    (hadds : ∀ m ∈ members, Adds fields draft m.1 m.2)
    (hmake : ∀ seen, (∀ m ∈ members, m.1 ∈ seen) → make (draft seen) = .ok a) :
  Tells read (ofMembers members) a
  := by
  intro json h
  obtain ⟨seen, hseen, hrecord⟩ := h.record_eq_ok origin hnodup hadds
  rw [hread, hrecord]
  apply hmake seen hseen

end Json

open Json

/-! ### Items -/

theorem SourceId.tells (id : SourceId) :
  Tells SourceId.ofJson id.toJson id
  := by
  intro json h
  rw [SourceId.ofJson, tells_word id.number json h]
  rfl

namespace Item

/-- What is known of an item once the names `seen` have been read. -/
def draft (item : Item) (seen : List String) : Draft where
  id := known seen "id" item.id.number
  path := known seen "path" item.path
  size := known seen "size" item.size

/-- The form of an item tells the item. -/
theorem tells (origin : Origin) (item : Item) :
  Tells (Item.ofJson origin) item.toJson item
  := by
  apply tells_record item.draft (fun _ => rfl) (by simp)
  case hadds =>
    simp only [List.forall_mem_cons]
    refine ⟨?_, ?_, ?_, by simp⟩
    · apply (tells_word item.id.number).adds rfl rfl (fun _ => isSome_known)
      simp [draft]
    · apply (tells_text item.path).adds rfl rfl (fun _ => isSome_known)
      simp [draft]
    · apply (tells_word item.size).adds rfl rfl (fun _ => isSome_known)
      simp [draft]
  case hmake =>
    intro seen hseen
    simp only [List.forall_mem_cons] at hseen
    obtain ⟨hid, hpath, hsize, -⟩ := hseen
    simp only [draft, known_of_mem, hid, hpath, hsize]
    rfl

/-- Nothing of an item keeps its form from being held. -/
theorem holdable_toJson (item : Item) {level : Nat} (h : level < nestingLimit) :
  item.toJson.holdable level = true
  := by
  simp [toJson, ofMembers, holdable, holdableMembers, holdable_ofNat, h]

end Item

/-! ### Payload origins -/

namespace BlockData

/-- A member that is held until the kind is known. -/
def IsHeld (level : Nat) (m : Key × Json) : Prop :=
  ∃ name, m.1 = .text name ∧ name ≠ "kind" ∧ m.2.holdable level = true

variable {level : Nat} {kind : Kind} {members : List (Key × Json)}

/-- Members that are not the kind are held. -/
theorem splitKind_of_isHeld (kind? : Option Kind) (h : ∀ m ∈ members, IsHeld level m) :
  splitKind level kind? members = .ok (kind?, members)
  := by
  induction members with
  | nil => rfl
  | cons m members ih =>
      obtain ⟨⟨name, hkey, hname, hheld⟩, hmembers⟩ := List.forall_mem_cons.mp h
      obtain ⟨key, v⟩ := m
      obtain rfl : key = .text name := hkey
      rw [splitKind, if_neg hname, if_pos hheld, ih hmembers]
      rfl

/-- The kind is found behind any members, and all others are held. -/
theorem splitKind_insert {before after : List (Key × Json)} {v : Json}
    (hkind : Kind.ofJson v = .ok kind) (h : ∀ m ∈ before ++ after, IsHeld level m) :
  splitKind level none (before ++ (.text "kind", v) :: after) = .ok (some kind, before ++ after)
  := by
  induction before with
  | nil =>
      rw [List.nil_append, splitKind, if_pos rfl, hkind]
      apply splitKind_of_isHeld (some kind) h
  | cons m before ih =>
      obtain ⟨⟨name, hkey, hname, hheld⟩, hmembers⟩ := List.forall_mem_cons.mp h
      obtain ⟨key, v⟩ := m
      obtain rfl : key = .text name := hkey
      rw [List.cons_append, splitKind, if_neg hname, if_pos hheld, ih hmembers]
      rfl

/-- The kind is found at whatever place it stands, and the others remain in some order. -/
theorem exists_splitKind {name : String} {record : List (String × Json)}
    (h : Presents members (("kind", .string name) :: record))
    (hnodup : ("kind" :: record.map Prod.fst).Nodup)
    (hkind : Kind.ofJson (.string name) = .ok kind)
    (hheld : ∀ m ∈ record, m.2.holdable level = true) :
  ∃ held, splitKind level none members = .ok (some kind, held) ∧ Presents held record
  := by
  obtain ⟨before, v, after, rfl, hv, hothers⟩ := h.exists_insert hnodup
  obtain rfl := hv.eq_of_isFlat rfl
  refine ⟨before ++ after, splitKind_insert hkind fun m hm => ?_, hothers⟩
  obtain ⟨n, hn, hkey, hreordered⟩ := hothers.values m hm
  refine ⟨n.1, hkey, ?_, byParts_holdable.of_reordered level hreordered (hheld n hn)⟩
  intro hname
  apply (List.nodup_cons.mp hnodup).1 (List.mem_map.mpr ⟨n, hn, hname⟩)

/-- What is known of a range of an item once the names `seen` have been read. -/
def draft (source : Option SourceId) (content : Option Item) (offset length : UInt64)
    (seen : List String) : Draft where
  source := known seen "source" source
  item := known seen "item" content
  offset := known seen "item_offset" offset
  length := known seen "item_length" length

/-- An origin tells what is made of a draft that knows the names of all members but the kind. -/
theorem tells_kind {level : Nat} {kind : Kind} {δ : Type} {fields : List (Json.Field δ)}
    {name : String} {members : List (String × Json)} {make : δ → Except Fault BlockData}
    {data : BlockData} (draft : List String → δ) (hkind : Kind.ofJson (.string name) = .ok kind)
    (hread : ∀ json, ofFields kind json = Json.record .held fields (draft []) json >>= make)
    (hnodup : ("kind" :: members.map Prod.fst).Nodup)
    (hheld : ∀ m ∈ members, m.2.holdable (level + 1) = true)
    (hadds : ∀ m ∈ members, Adds fields draft m.1 m.2)
    (hmake : ∀ seen, (∀ m ∈ members, m.1 ∈ seen) → make (draft seen) = .ok data) :
  Tells (BlockData.ofJson level) (ofMembers (("kind", .string name) :: members)) data
  := by
  intro json h
  obtain ⟨members', rfl, hmembers⟩ := h.exists_presents
  obtain ⟨held, hsplit, hpresents⟩ := exists_splitKind hmembers hnodup hkind hheld
  obtain ⟨seen, hseen, hfill⟩ :=
    hpresents.fillMembers_eq_ok (List.nodup_cons.mp hnodup).2 hadds
  replace hfill : Json.record .held fields (draft []) (.object held) = .ok (draft seen) := hfill
  calc BlockData.ofJson level (.object members')
    _ = ofFields kind (.object held) := by rw [BlockData.ofJson, hsplit]; rfl
    _ = make (draft seen) := by rw [hread, hfill]; rfl
    _ = .ok data := hmake seen hseen

/-- The form of a given payload tells the payload. -/
theorem tells_inline (level : Nat) (payload : Bytes) :
  Tells (BlockData.ofJson level) (inline payload).toJson (inline payload)
  := by
  apply tells_kind (known · "payload" payload) rfl (fun _ => rfl) (by simp)
  case hheld =>
    simp [Bytes.toJson, holdable]
  case hadds =>
    simp only [List.forall_mem_cons]
    refine ⟨?_, by simp⟩
    apply (tells_bytes payload).adds rfl
      (funext fun v => funext fun _ => map_eq_pure_bind some v.bytes) (fun _ => isSome_known)
    simp
  case hmake =>
    intro seen hseen
    rw [known_of_mem (hseen _ List.mem_cons_self)]
    rfl

/-- The form of a range of an item tells the range. -/
theorem tells_item {level : Nat} (hlevel : level + 1 < nestingLimit) (source : Option SourceId)
    (content : Option Item) (offset length : UInt64) :
  Tells (BlockData.ofJson level) (item source content offset length).toJson
    (item source content offset length)
  := by
  apply tells_kind (draft source content offset length) rfl (fun _ => rfl) (by simp)
  case hheld =>
    simp only [List.forall_mem_cons]
    refine ⟨?_, ?_, holdable_ofNat offset _, holdable_ofNat length _, by simp⟩
    · cases source with
      | none => rfl
      | some id => apply holdable_ofNat id.number
    · cases content with
      | none => rfl
      | some item => apply item.holdable_toJson hlevel
  case hadds =>
    simp only [List.forall_mem_cons]
    refine ⟨?_, ?_, ?_, ?_, by simp⟩
    · apply (tells_optional SourceId.toJson SourceId.tells (by simp [SourceId.toJson, ofNat])
        source).adds rfl rfl (fun _ => isSome_known)
      simp [draft]
    · apply (tells_optional Item.toJson (Item.tells .held) (by simp [Item.toJson, ofMembers])
        content).adds rfl rfl (fun _ => isSome_known)
      simp [draft]
    · apply (tells_word offset).adds rfl rfl (fun _ => isSome_known)
      simp [draft]
    · apply (tells_word length).adds rfl rfl (fun _ => isSome_known)
      simp [draft]
  case hmake =>
    intro seen hseen
    simp only [List.forall_mem_cons] at hseen
    obtain ⟨hsource, hitem, hoffset, hlength, -⟩ := hseen
    simp only [draft, known_of_mem, hsource, hitem, hoffset, hlength]
    rfl

/-- The form of a payload origin tells the origin. -/
theorem tells {level : Nat} (hlevel : level + 1 < nestingLimit) (data : BlockData) :
  Tells (BlockData.ofJson level) data.toJson data
  := by
  cases data with
  | inline payload => apply tells_inline
  | item source content offset length => apply tells_item hlevel

end BlockData

/-! ### Candidates and plans -/

namespace Candidate

/-- What is known of a candidate once the names `seen` have been read. -/
def draft (c : Candidate) (seen : List String) : Draft where
  pieceOffset := known seen "piece_offset" c.pieceOffset
  length := known seen "length" c.length
  lengthPrefix := known seen "prefix" c.lengthPrefix
  identifier := known seen "identifier" c.identifier
  data := known seen "data" c.data

/-- The form of a candidate tells the candidate. -/
theorem tells (origin : Origin) (c : Candidate) :
  Tells (Candidate.ofJson origin) c.toJson c
  := by
  apply tells_record c.draft (fun _ => rfl) (by simp)
  case hadds =>
    simp only [List.forall_mem_cons]
    refine ⟨?_, ?_, ?_, ?_, ?_, by simp⟩
    · apply (tells_word c.pieceOffset).adds rfl rfl (fun _ => isSome_known)
      simp [draft]
    · apply (tells_word c.length).adds rfl rfl (fun _ => isSome_known)
      simp [draft]
    · apply (tells_bytes c.lengthPrefix).adds rfl rfl (fun _ => isSome_known)
      simp [draft]
    · apply (tells_bytes c.identifier).adds rfl rfl (fun _ => isSome_known)
      simp [draft]
    · have hlevel : dataLevel + 1 < nestingLimit := by decide
      apply (c.data.tells hlevel).adds rfl rfl (fun _ => isSome_known)
      simp [draft]
  case hmake =>
    intro seen hseen
    simp only [List.forall_mem_cons] at hseen
    obtain ⟨hoffset, hlength, hprefix, hidentifier, hdata, -⟩ := hseen
    simp only [draft, known_of_mem, hoffset, hlength, hprefix, hidentifier, hdata]
    rfl

end Candidate

namespace Plan

/-- What is known of a plan once the names `seen` have been read. -/
def draft (plan : Plan) (seen : List String) : Draft where
  header := known seen "header" plan.header
  pieceSize := known seen "piece_size" plan.pieceSize
  candidates := known seen "blocks" plan.candidates

/-- The form of a plan tells the plan. -/
theorem tells (origin : Origin) (plan : Plan) :
  Tells (Plan.ofJson origin) plan.toJson plan
  := by
  apply tells_record plan.draft (fun _ => rfl) (by simp)
  case hadds =>
    simp only [List.forall_mem_cons]
    refine ⟨?_, ?_, ?_, by simp⟩
    · apply (tells_bytes plan.header).adds rfl rfl (fun _ => isSome_known)
      simp [draft]
    · apply (tells_word plan.pieceSize).adds rfl rfl (fun _ => isSome_known)
      simp [draft]
    · apply (tells_elements Candidate.toJson (Candidate.tells origin) plan.candidates).adds rfl rfl
        (fun _ => isSome_known)
      simp [draft]
  case hmake =>
    intro seen hseen
    simp only [List.forall_mem_cons] at hseen
    obtain ⟨hheader, hsize, hblocks, -⟩ := hseen
    simp only [draft, known_of_mem, hheader, hsize, hblocks]
    rfl

/-- The text of a plan tells the plan. -/
theorem plain_toJson (plan : Plan) :
  plan.toJson.plain = true
  := by
  have hitem (item : Item) : item.toJson.plain = true := by
    simp [Item.toJson, ofMembers, plain, plainMembers, ofNat, Numeral.ofNat]
  have hdata (data : BlockData) : data.toJson.plain = true := by
    cases data with
    | inline payload => rfl
    | item source content offset length =>
        cases source <;> cases content <;>
          simp [BlockData.toJson, SourceId.toJson, ofMembers, plain, plainMembers, ofNat,
            Numeral.ofNat, hitem]
  have hcandidates : plainElements (plan.candidates.map Candidate.toJson) = true := by
    induction plan.candidates with
    | nil => rfl
    | cons c cs ih =>
        simp [Candidate.toJson, ofMembers, plain, plainElements, plainMembers, ofNat, Numeral.ofNat,
          Bytes.toJson, hdata, ih]
  simp [toJson, ofMembers, plain, plainMembers, ofNat, Numeral.ofNat, Bytes.toJson, hcandidates]

/-- The text of a plan is read as the plan, and so is every text that differs from it in the order
of the members of its objects. -/
theorem ofText_of_reordered (plan : Plan) :
  Plan.ofText plan.toText = .ok plan
    ∧ ∀ json, plan.toJson.Reordered json → Plan.ofText json.toText = .ok plan
  := by
  have hreordered : ∀ json, plan.toJson.Reordered json → Plan.ofText json.toText = .ok plan := by
    intro json h
    have hplain : json.plain = true := byParts_plain.of_reordered 0 h plan.plain_toJson
    have hread := plan.tells .text json h
    rw [Plan.ofText, Document.ofText_toText hplain, Document.read, hread]
    rfl
  exact ⟨hreordered plan.toJson (.same _), hreordered⟩

/-- The kind of a payload origin may come last. -/
theorem ofText_of_reordered_kind_last :
  Plan.ofText ("\x7b\"header\":\"UA==\",\"piece_size\":3,\"blocks\":[\x7b\"piece_offset\":1,"
      ++ "\"length\":2,\"prefix\":\"\",\"identifier\":\"\","
      ++ "\"data\":\x7b\"payload\":\"AQI=\",\"kind\":\"inline\"\x7d\x7d]\x7d")
    = .ok ⟨[0x50], 3, [⟨1, 2, [], [], .inline [1, 2]⟩]⟩
  := by
  have hdata : (BlockData.inline [1, 2]).toJson.Reordered
      (.object [(.text "payload", Bytes.toJson [1, 2]), (.text "kind", .string "inline")]) :=
    .object (List.forall₂_same.mpr fun m _ => .mk m.1 (.same m.2)) (.swap _ _ [])
  have hcandidate := Reordered.object
    (.cons (.mk (.text "piece_offset") (.same (ofNat 1)))
      (.cons (.mk (.text "length") (.same (ofNat 2)))
        (.cons (.mk (.text "prefix") (.same (Bytes.toJson [])))
          (.cons (.mk (.text "identifier") (.same (Bytes.toJson [])))
            (.cons (.mk (.text "data") hdata) .nil))))) (.refl _)
  have hplan := Reordered.object
    (.cons (.mk (.text "header") (.same (Bytes.toJson [0x50])))
      (.cons (.mk (.text "piece_size") (.same (ofNat 3)))
        (.cons (.mk (.text "blocks") (.array (.cons hcandidate .nil))) .nil))) (.refl _)
  have hread := (ofText_of_reordered ⟨[0x50], 3, [⟨1, 2, [], [], .inline [1, 2]⟩]⟩).2 _ hplan
  rw [← hread]
  apply congrArg
  decide +kernel

end Plan

end PieceStream
