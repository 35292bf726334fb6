import PieceStream.Proofs.ItemPaths
import PieceStream.Proofs.StrictLayout
import PieceStream.Source.Memory

/-!
# Sources that hold the same item

A range of an item is the same whether its source is in memory or on disk, whether opening it is
waited for or polled, and in what portions it is read.  So is the failure to open it.  The end of a
range in memory is a sum of words, and one that is no word ends the range where the item ends.
-/

namespace PieceStream

/-- The bytes of an item in a range, which the end of the item cuts. -/
def rangeOf (path : String) (data : Bytes) (offset length : Nat) : Except SourceError Bytes :=
  if data.length < offset then .error (.rangeOutOfBounds path offset data.length)
  else .ok ((data.take (min (offset + length) data.length)).drop offset)

/-! ### Reading to the end -/

section

variable {S T : Type} {turns : List (Option Nat)}

/-- Reads on until a portion is empty.  In each turn there is room for so many bytes, or nothing is
ready yet. -/
def readOut (read : S → Nat → Except IoError Bytes × S) (s : S) :
    List (Option Nat) → Option (Except IoError Bytes)
  | [] => none
  | none :: turns => readOut read s turns
  | some room :: turns =>
    match read s room with
    | (.error error, _) => some (.error error)
    | (.ok portion, s') =>
      if portion = [] then some (.ok [])
      else (readOut read s' turns).map (Except.map (portion ++ ·))

/-- Reads what has been opened to its end. -/
def readOpened (read : S → Nat → Except IoError Bytes × S) (turns : List (Option Nat)) :
    Except SourceError S → Option (Except SourceError Bytes)
  | .error error => some (.error error)
  | .ok s => (readOut read s turns).map (Except.mapError .io)

/-- What reads portion by portion as something else does is read out as that is. -/
theorem readOut_congr {readS : S → Nat → Except IoError Bytes × S}
    {readT : T → Nat → Except IoError Bytes × T} {view : S → T}
    (h : ∀ s n, readT (view s) n = ((readS s n).1, view (readS s n).2)) (s : S)
    (turns : List (Option Nat)) :
  readOut readT (view s) turns = readOut readS s turns
  := by
  induction turns generalizing s with
  | nil => rfl
  | cons turn turns ih =>
      cases turn with
      | none => exact ih s
      | some room =>
          rw [readOut, readOut, h]
          rcases readS s room with ⟨error | portion, s'⟩
          · rfl
          · dsimp only
            rw [ih]

/-- A turn with room takes a portion of the bytes that are left. -/
theorem readOut_buffer_cons {rest : Bytes} {room : Nat} (hroom : room ≠ 0)
    (turns : List (Option Nat)) :
  readOut ItemStream.read (.buffer rest) (some room :: turns)
    = if rest = [] then some (.ok [])
      else (readOut ItemStream.read (.buffer (rest.drop room)) turns).map
        (Except.map (rest.take room ++ ·))
  := by
  have hempty : rest.take room = [] ↔ rest = [] := by
    rw [List.take_eq_nil_iff, or_iff_right hroom]
  rw [readOut]
  simp only [ItemStream.read, hempty]

/-- From known bytes nothing else is read out. -/
theorem readOut_buffer_cases (rest : Bytes) (hroom : some 0 ∉ turns) :
  readOut ItemStream.read (.buffer rest) turns = none
    ∨ readOut ItemStream.read (.buffer rest) turns = some (.ok rest)
  := by
  induction turns generalizing rest with
  | nil => exact .inl rfl
  | cons turn turns ih =>
      obtain ⟨hturn, hturns⟩ := not_or.mp (List.mem_cons.not.mp hroom)
      cases turn with
      | none => exact ih rest hturns
      | some room =>
          rw [readOut_buffer_cons fun hzero => hturn (hzero ▸ rfl)]
          split
          · next hempty => exact .inr (by rw [hempty])
          · rcases ih (rest.drop room) hturns with hnone | hsome
            · exact .inl (by rw [hnone, Option.map_none])
            · refine .inr ?_
              rw [hsome, Option.map_some, Except.map, List.take_append_drop]

/-- Known bytes are all read out if there are turns enough. -/
theorem readOut_buffer {rest : Bytes} (hroom : some 0 ∉ turns)
    (henough : rest.length < turns.countP Option.isSome) :
  readOut ItemStream.read (.buffer rest) turns = some (.ok rest)
  := by
  refine (readOut_buffer_cases rest hroom).resolve_left ?_
  induction turns generalizing rest with
  | nil => exact absurd henough (Nat.not_lt_zero _)
  | cons turn turns ih =>
      obtain ⟨hturn, hturns⟩ := not_or.mp (List.mem_cons.not.mp hroom)
      cases turn with
      | none =>
          rw [List.countP_cons_of_neg (by simp)] at henough
          exact ih hturns henough
      | some room =>
          have hne : room ≠ 0 := fun hzero => hturn (hzero ▸ rfl)
          rw [List.countP_cons_of_pos rfl] at henough
          rw [readOut_buffer_cons hne]
          split
          · exact Option.some_ne_none _
          · next hrest =>
            have hlength := List.length_pos_iff.mpr hrest
            rw [Option.map_eq_none_iff]
            apply ih hturns
            rw [List.length_drop]
            omega

/-- What has been opened reads out as this, in whatever portions: nothing else is ever read out, and
it is if there are turns enough.  Only what is no failure has been opened without one. -/
structure ReadsAs (read : S → Nat → Except IoError Bytes × S) (opened : Except SourceError S)
    (outcome : Except SourceError Bytes) : Prop where
  failure : ∀ error, opened = .error error ↔ outcome = .error error
  only : ∀ turns, some 0 ∉ turns →
    ∀ result, readOpened read turns opened = some result → result = outcome
  ends : ∃ enough, ∀ turns, some 0 ∉ turns → enough ≤ turns.countP Option.isSome →
    readOpened read turns opened = some outcome

/-- Known bytes read out as they are. -/
theorem readsAs_buffer (outcome : Except SourceError Bytes) :
  ReadsAs ItemStream.read (outcome.map ItemStream.buffer) outcome
  := by
  cases outcome with
  | error error =>
      exact ⟨fun _ => map_eq_error_iff, fun _ _ _ hresult => (Option.some.inj hresult).symm, 0,
        fun _ _ _ => rfl⟩
  | ok bytes =>
      refine ⟨fun _ => map_eq_error_iff, fun turns hroom result hresult => ?_, bytes.length + 1,
        fun turns hroom hturns => ?_⟩
      · dsimp only [Except.map, readOpened] at hresult
        rcases readOut_buffer_cases bytes hroom with hnone | hsome
        · rw [hnone] at hresult
          cases hresult
        · rw [hsome] at hresult
          exact (Option.some.inj hresult).symm
      · dsimp only [Except.map, readOpened]
        rw [readOut_buffer hroom hturns]
        rfl

/-- A file that has been opened reads out as its stream. -/
theorem readsAs_of_stream {opened : Except SourceError FileRange}
    {outcome : Except SourceError Bytes}
    (h : ReadsAs ItemStream.read (opened.map FileRange.stream) outcome) :
  ReadsAs FileRange.read opened outcome
  := by
  have hread : ∀ turns, readOpened ItemStream.read turns (opened.map FileRange.stream)
      = readOpened FileRange.read turns opened := by
    intro turns
    cases opened with
    | error error => rfl
    | ok range =>
        dsimp only [Except.map, readOpened]
        rw [readOut_congr FileRange.read_stream]
  obtain ⟨hfailure, honly, hends⟩ := h
  simp only [hread] at honly hends
  exact ⟨fun error => map_eq_error_iff.symm.trans (hfailure error), honly, hends⟩

end

/-! ### Files that can be opened -/

/-- What names lead to through directories is found. -/
theorem FileTree.follow_eq {tree : FileTree} {place names : List String} {node : FileNode}
    (hnormal : ∀ name ∈ names, Path.IsNormal name)
    (hshort : ∀ name ∈ names, name.utf8ByteSize ≤ nameLimit)
    (hdirectories : ∀ count < names.length,
      tree.node? (place ++ names.take count) = some .directory)
    (hnode : tree.node? (place ++ names) = some node) :
  tree.follow place names = .ok (place ++ names, node)
  := by
  induction names generalizing place with
  | nil =>
      rw [List.append_nil] at hnode ⊢
      rw [follow, hnode]
  | cons name names ih =>
      obtain ⟨⟨hempty, hcurrent, hparent, -⟩, hnormals⟩ := List.forall_mem_cons.mp hnormal
      obtain ⟨hname, hshorts⟩ := List.forall_mem_cons.mp hshort
      have hplace := hdirectories 0 (Nat.succ_pos _)
      rw [List.take_zero, List.append_nil] at hplace
      rw [List.append_cons] at hnode ⊢
      rw [follow, hplace]
      dsimp only
      rw [if_neg (not_or.mpr ⟨hempty, hcurrent⟩), if_neg hparent, if_neg (Nat.not_lt.mpr hname)]
      refine ih hnormals hshorts (fun count hcount => ?_) hnode
      have hbelow := hdirectories (count + 1) (Nat.succ_lt_succ hcount)
      rwa [List.take_succ_cons, List.append_cons] at hbelow

namespace DiskSource

variable {source : DiskSource} {path : String} {data : Bytes} {offset length : Nat}

/-- A file with these bytes lies where an item path leads, below directories, and neither one of
its names nor its path as a whole is more than the system takes. -/
structure Stores (source : DiskSource) (path : String) (data : Bytes) : Prop where
  accepted : ¬ Path.Refused path
  directories : ∀ count < (Path.names path).length,
    source.tree.node? (source.root ++ (Path.names path).take count) = some .directory
  file : source.tree.node? (source.root ++ Path.names path) = some (.file data)
  short : ∀ name ∈ Path.names path, name.utf8ByteSize ≤ FileTree.nameLimit
  text : '\x00' ∉ (source.tree.pathText (source.root ++ Path.names path)).toList
  fits : (source.tree.pathText (source.root ++ Path.names path)).utf8ByteSize
    < FileTree.pathLimit

/-- A file that is stored can be opened. -/
theorem Stores.openFile_eq (h : source.Stores path data) :
  source.openFile (source.root ++ Path.names path)
    = .ok ⟨source.root ++ Path.names path, .file data, 0⟩
  := by
  rw [openFile, List.drop_left, FileTree.find, if_neg (by simpa using h.text),
    if_neg (Nat.not_le.mpr h.fits),
    FileTree.follow_eq (Path.isNormal_names path) h.short h.directories h.file]

/-- A range of a file that is stored is opened unless it starts beyond the end. -/
theorem Stores.openWaiting_eq (h : source.Stores path data) (offset length : Nat) :
  (source.openWaiting path offset length).1
    = if data.length < offset then .error (.rangeOutOfBounds path offset data.length)
      else .ok ⟨⟨source.root ++ Path.names path, .file data, offset⟩, length⟩
  := by
  rw [openWaiting, filePath_of_not_refused h.accepted]
  dsimp only
  rw [h.openFile_eq]
  dsimp only [FileHandle.checkStart]
  by_cases hbeyond : data.length < offset
  · rw [if_pos hbeyond, if_pos hbeyond]
  · rw [if_neg hbeyond, if_neg hbeyond]
    rfl

end DiskSource

/-! ### Ranges in memory -/

namespace MemorySource

variable {source : MemorySource} {path : String} {data : Bytes}

/-- Opens a range of an item with words: where it ends is the nearest word to a sum. -/
def strictOpenRange (source : MemorySource) (path : String) (offset length : UInt64) :
    Strict (Except SourceError ItemStream) :=
  match source.get? path with
  | none => return .error (.itemNotFound path)
  | some data =>
    if data.length < offset.toNat then
      return .error (.rangeOutOfBounds path offset.toNat data.length)
    else do
      let stop := min (saturate (offset.toNat + length.toNat)).toNat data.length
      let bytes ← Strict.drop offset.toNat (← Strict.take stop data)
      return .ok (.buffer bytes)

/-- Of an item that a memory of words can hold, a range is opened with words as it is without. -/
theorem strictOpenRange_eq (h : source.get? path = some data) (hdata : data.length < wordLimit)
    (offset length : UInt64) :
  source.strictOpenRange path offset length
    = .ok (source.openRange path offset.toNat length.toNat)
  := by
  rw [strictOpenRange, openRange, h]
  dsimp only
  split
  · rfl
  · next hwithin =>
    have hstop : min (saturate (offset.toNat + length.toNat)).toNat data.length
        = min (offset.toNat + length.toNat) data.length := by
      rw [toNat_saturate]
      omega
    have hdrop : offset.toNat
        ≤ (data.take (min (offset.toNat + length.toNat) data.length)).length := by
      rw [List.length_take]
      omega
    rw [hstop, Strict.take_eq (Nat.min_le_right _ _), Strict.ok_bind, Strict.drop_eq hdrop]
    rfl

/-- A range of an item is opened as its known bytes. -/
theorem openRange_eq_map (h : source.get? path = some data) (offset length : Nat) :
  source.openRange path offset length = (rangeOf path data offset length).map ItemStream.buffer
  := by
  rw [openRange, h, rangeOf]
  dsimp only
  split <;> rfl

end MemorySource

/-! ### The same item in both -/

/-- What is stored on disk is opened as what is held in memory. -/
theorem DiskSource.Stores.openRange_eq {memory : MemorySource} {disk : DiskSource} {path : String}
    {data : Bytes} (h : disk.Stores path data) (hmemory : memory.get? path = some data)
    (offset length : Nat) :
  disk.openRange path offset length = memory.openRange path offset length
  := by
  rw [disk.openRange_eq, h.openWaiting_eq, MemorySource.openRange_eq hmemory]
  split <;> rfl

/-- The same bytes under the same path in memory and on disk are opened as the same range, whatever
words it is given by, and beyond their end fail to open in the same way.  On disk it makes no
difference whether the calls are waited for or polled.  In memory there are none, and a range is
opened at once. -/
theorem sources_agree_on_ranges {memory : MemorySource} {disk : DiskSource} {path : String}
    {data : Bytes} (hmemory : memory.get? path = some data) (hdisk : disk.Stores path data)
    (offset length : UInt64) {polls : List Bool} (hpolls : 3 ≤ polls.count true) :
  let range := rangeOf path data offset.toNat length.toNat
  ReadsAs ItemStream.read (memory.openRange path offset.toNat length.toNat) range
    ∧ ReadsAs ItemStream.read (disk.openRange path offset.toNat length.toNat) range
    ∧ ReadsAs FileRange.read (disk.openWaiting path offset.toNat length.toNat).1 range
    ∧ (∃ opened, (disk.openPolled path offset.toNat length.toNat polls).1 = some opened
        ∧ ReadsAs FileRange.read opened range)
    ∧ (data.length < wordLimit →
        memory.strictOpenRange path offset length
          = .ok (memory.openRange path offset.toNat length.toNat))
  := by
  have hheld := memory.openRange_eq_map hmemory offset.toNat length.toNat
  have hstored := hdisk.openRange_eq hmemory offset.toNat length.toNat
  have hread : ReadsAs ItemStream.read (memory.openRange path offset.toNat length.toNat)
      (rangeOf path data offset.toNat length.toNat) := by
    rw [hheld]
    exact readsAs_buffer _
  have hwaiting : ReadsAs FileRange.read (disk.openWaiting path offset.toNat length.toNat).1
      (rangeOf path data offset.toNat length.toNat) := by
    apply readsAs_of_stream
    rw [← disk.openRange_eq, hstored]
    exact hread
  refine ⟨hread, hstored ▸ hread, hwaiting, ⟨_, ?_, hwaiting⟩,
    fun hdata => memory.strictOpenRange_eq hmemory hdata offset length⟩
  rw [disk.openPolled_eq hpolls]

/-- Three bytes, of which a range goes from the second one to beyond the last word. -/
theorem sources_agree_on_ranges_beyond_words :
  let memory := MemorySource.empty.insert "a/b" [1, 2, 3]
  let disk : DiskSource := ⟨(FileTree.empty "t").addFile "r/a/b" [1, 2, 3], ["r"]⟩
  let length : UInt64 := 18446744073709551615
  memory.get? "a/b" = some [1, 2, 3] ∧ disk.Stores "a/b" [1, 2, 3]
    ∧ wordLimit ≤ 1 + length.toNat ∧ 3 ≤ [true, false, true, true].count true
    ∧ ReadsAs ItemStream.read (memory.openRange "a/b" 1 length.toNat) (.ok [2, 3])
    ∧ ReadsAs FileRange.read (disk.openWaiting "a/b" 1 length.toNat).1 (.ok [2, 3])
  := by
  intro memory disk length
  have hmemory : memory.get? "a/b" = some [1, 2, 3] := rfl
  have hdisk : disk.Stores "a/b" [1, 2, 3] :=
    ⟨by decide, by decide, rfl, by decide, by decide, by decide⟩
  have hpolls : 3 ≤ [true, false, true, true].count true := by decide
  obtain ⟨hread, -, hwaiting, -⟩ := sources_agree_on_ranges hmemory hdisk 1 length hpolls
  exact ⟨hmemory, hdisk, by decide, hpolls, hread, hwaiting⟩

end PieceStream
