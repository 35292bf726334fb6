import Mathlib.Logic.Relation
import PieceStream.Proofs.Openings

/-!
# Files of item paths

The segments of a path between its slashes tell which item it names.  A path is refused exactly if
it starts at the root, goes up somewhere, or names nothing, and this is seen before any call to the
system.  Any other path stands for the file that its names lead to below the root, and it is this
file that is opened, whether calls are waited for or polled.  Paths that differ only in slashes and
single dots that tell nothing stand for the same file, those with different names for different
files.
-/

namespace PieceStream

namespace Path

variable {path other name segment : String} {cs : List Char}

/-! ### Segments -/

theorem splitSlashes_ne_nil (cs : List Char) :
  splitSlashes cs ≠ []
  := by
  cases cs with
  | nil => exact List.cons_ne_nil _ _
  | cons c rest =>
      rw [splitSlashes]
      split
      · apply List.cons_ne_nil
      · split <;> apply List.cons_ne_nil

/-- A slash separates the segments before it from those behind it. -/
theorem splitSlashes_append (front back : List Char) :
  splitSlashes (front ++ '/' :: back) = splitSlashes front ++ splitSlashes back
  := by
  induction front with
  | nil => rfl
  | cons c front ih =>
      rw [List.cons_append, splitSlashes, splitSlashes, ih]
      rcases hfront : splitSlashes front with _ | ⟨segment, others⟩
      · exact absurd hfront (splitSlashes_ne_nil front)
      · split <;> rfl

/-- Without a slash there is one segment. -/
theorem splitSlashes_of_not_mem (h : '/' ∉ cs) :
  splitSlashes cs = [cs]
  := by
  induction cs with
  | nil => rfl
  | cons c cs ih =>
      rw [List.mem_cons, not_or] at h
      rw [splitSlashes, if_neg (Ne.symm h.1), ih h.2]

/-- No segment holds a slash. -/
theorem not_mem_of_mem_splitSlashes {segment : List Char} (h : segment ∈ splitSlashes cs) :
  '/' ∉ segment
  := by
  induction cs generalizing segment with
  | nil =>
      rw [splitSlashes, List.mem_singleton] at h
      exact h ▸ List.not_mem_nil
  | cons c cs ih =>
      rw [splitSlashes] at h
      split at h
      · rcases List.mem_cons.mp h with rfl | hmem
        · exact List.not_mem_nil
        · exact ih hmem
      · next hc =>
        rcases hsplit : splitSlashes cs with _ | ⟨first, others⟩
        · exact absurd hsplit (splitSlashes_ne_nil cs)
        · rw [hsplit] at h ih
          rcases List.mem_cons.mp h with rfl | hmem
          · rw [List.mem_cons, not_or]
            exact ⟨Ne.symm hc, ih List.mem_cons_self⟩
          · exact ih (List.mem_cons_of_mem _ hmem)

/-- What slashes are put before is found between them. -/
theorem splitSlashes_flatMap {names : List String} (h : ∀ name ∈ names, '/' ∉ name.toList)
    (hcs : '/' ∉ cs) :
  splitSlashes (cs ++ names.flatMap fun name => '/' :: name.toList)
    = cs :: names.map String.toList
  := by
  induction names generalizing cs with
  | nil =>
      rw [List.flatMap_nil, List.append_nil]
      exact splitSlashes_of_not_mem hcs
  | cons name names ih =>
      obtain ⟨hname, hnames⟩ := List.forall_mem_cons.mp h
      rw [List.flatMap_cons, List.cons_append, splitSlashes_append, splitSlashes_of_not_mem hcs,
        ih hnames hname]
      rfl

theorem segments_append (front back : String) :
  segments (front ++ "/" ++ back) = segments front ++ segments back
  := by
  have hslash : (front ++ "/" ++ back).toList = front.toList ++ '/' :: back.toList := by
    simp
  rw [segments, hslash, splitSlashes_append, List.map_append]
  rfl

theorem not_mem_of_mem_segments (h : segment ∈ segments path) :
  '/' ∉ segment.toList
  := by
  obtain ⟨cs, hcs, rfl⟩ := List.mem_map.mp h
  rw [String.toList_ofList]
  exact not_mem_of_mem_splitSlashes hcs

/-- What follows the first slash does not make a path absolute. -/
theorem isAbsolute_append_congr (front back back' : String) :
  isAbsolute (front ++ "/" ++ back) = isAbsolute (front ++ "/" ++ back')
  := by
  simp only [isAbsolute, String.toList_append]
  cases front.toList <;> rfl

theorem isAbsolute_append_of_ne (h : path ≠ "") (back : String) :
  isAbsolute (path ++ back) = isAbsolute path
  := by
  simp only [isAbsolute, String.toList_append]
  cases hpath : path.toList with
  | nil => exact absurd (String.toList_eq_nil_iff.mp hpath) h
  | cons c rest => rfl

/-! ### Names -/

/-- The segments of a path that tell something. -/
def tellingSegments (path : String) : List String :=
  (segments path).filter fun segment => segment ≠ "" ∧ segment ≠ "."

/-- The names in a path, in order. -/
def names (path : String) : List String := (tellingSegments path).filter (· ≠ "..")

/-- A path that is absolute, goes up somewhere, or names nothing. -/
def Refused (path : String) : Prop :=
  isAbsolute path = true ∨ ".." ∈ segments path ∨ names path = []

instance (path : String) : Decidable (Refused path) := inferInstanceAs (Decidable (_ ∨ _ ∨ _))

/-- A name of something that lies in a directory. -/
structure IsNormal (name : String) : Prop where
  ne_empty : name ≠ ""
  ne_current : name ≠ "."
  ne_parent : name ≠ ".."
  not_mem_slash : '/' ∉ name.toList

theorem mem_tellingSegments :
  segment ∈ tellingSegments path ↔ segment ∈ segments path ∧ segment ≠ "" ∧ segment ≠ "."
  := by
  simp [tellingSegments]

theorem parent_mem_tellingSegments :
  ".." ∈ tellingSegments path ↔ ".." ∈ segments path
  := by
  simp [mem_tellingSegments]

theorem isNormal_names (path : String) :
  ∀ name ∈ names path, IsNormal name
  := by
  intro name h
  obtain ⟨htelling, hparent⟩ := List.mem_filter.mp h
  obtain ⟨hmem, hempty, hcurrent⟩ := mem_tellingSegments.mp htelling
  exact ⟨hempty, hcurrent, of_decide_eq_true hparent, not_mem_of_mem_segments hmem⟩

/-- The component of a segment that tells something. -/
def Component.ofTelling (segment : String) : Component :=
  if segment = ".." then .parent else .name segment

/-- Behind its start a path has a component for each segment that tells something. -/
theorem filterMap_ofSegment? (segs : List String) :
  segs.filterMap Component.ofSegment?
    = (segs.filter fun segment => segment ≠ "" ∧ segment ≠ ".").map Component.ofTelling
  := by
  induction segs with
  | nil => rfl
  | cons segment segs ih =>
      by_cases h : segment = "" ∨ segment = "."
      · have hnone : Component.ofSegment? segment = none := if_pos h
        rw [List.filterMap_cons_none hnone, List.filter_cons_of_neg, ih]
        simpa [Decidable.imp_iff_not_or] using h
      · have hsome : Component.ofSegment? segment = some (Component.ofTelling segment) := by
          rw [Component.ofSegment?, if_neg h, Component.ofTelling]
          split <;> rfl
        rw [List.filterMap_cons_some hsome, List.filter_cons_of_pos, ih, List.map_cons]
        simpa [not_or] using h

/-- The component that a path starts with, if that is more than a segment. -/
def start (path : String) : List Component :=
  if isAbsolute path then [.root]
  else if (segments path).head? = some "." then [.current]
  else []

theorem components_eq (path : String) :
  components path = start path ++ (tellingSegments path).map Component.ofTelling
  := by
  rw [components, filterMap_ofSegment?]
  rfl

theorem root_mem_components :
  .root ∈ components path ↔ isAbsolute path = true
  := by
  have hbehind : .root ∉ (tellingSegments path).map Component.ofTelling := by
    rw [List.mem_map]
    rintro ⟨segment, -, hroot⟩
    rw [Component.ofTelling] at hroot
    split at hroot <;> cases hroot
  rw [components_eq, List.mem_append, or_iff_left hbehind, start]
  split
  · next habsolute => exact iff_of_true (List.mem_singleton_self _) habsolute
  · next habsolute =>
    refine iff_of_false ?_ habsolute
    split <;> simp

theorem parent_mem_components :
  .parent ∈ components path ↔ ".." ∈ segments path
  := by
  have hstart : .parent ∉ start path := by
    rw [start]
    split
    · simp
    · split <;> simp
  rw [components_eq, List.mem_append, or_iff_right hstart, List.mem_map,
    ← parent_mem_tellingSegments]
  constructor
  · rintro ⟨segment, hmem, hparent⟩
    rw [Component.ofTelling] at hparent
    split at hparent
    · next heq => exact heq ▸ hmem
    · cases hparent
  · exact fun hmem => ⟨_, hmem, rfl⟩

/-- The segments that are names make the components that are names. -/
theorem pathNames_eq (path : String) :
  FileTree.pathNames path = names path
  := by
  rw [FileTree.pathNames, components_eq, List.filterMap_append, List.filterMap_map, names,
    ← List.filterMap_eq_filter, ← List.nil_append (List.filterMap (Option.guard _) _)]
  congr 1
  · rw [start]
    split
    · rfl
    · split <;> rfl
  · congr
    funext segment
    by_cases h : segment = ".." <;> simp [Component.ofTelling, Option.guard, h]

/-- Segments name what lies below their start unless one of them goes up. -/
theorem namesOf_map_ofTelling (segs : List String) :
  namesOf (segs.map Component.ofTelling)
    = if ".." ∈ segs then .error outsideMessage else .ok segs
  := by
  induction segs with
  | nil => rfl
  | cons segment segs ih =>
      rw [List.map_cons, Component.ofTelling]
      by_cases h : segment = ".."
      · rw [if_pos h, if_pos (by rw [h]; exact List.mem_cons_self)]
        rfl
      · rw [if_neg h, namesOf, ih]
        simp only [List.mem_cons, Ne.symm h, false_or]
        split <;> rfl

theorem names_eq_tellingSegments (h : ".." ∉ segments path) :
  names path = tellingSegments path
  := by
  rw [names, List.filter_eq_self]
  intro segment hmem
  apply decide_eq_true
  rintro rfl
  exact h (mem_tellingSegments.mp hmem).1

/-- The components of a path have its names unless they leave their start. -/
theorem namesOf_components (path : String) :
  namesOf (components path)
    = if isAbsolute path = true ∨ ".." ∈ segments path then .error outsideMessage
      else .ok (names path)
  := by
  have hbehind : namesOf ((tellingSegments path).map Component.ofTelling)
      = if ".." ∈ segments path then .error outsideMessage else .ok (names path) := by
    rw [namesOf_map_ofTelling]
    by_cases hparent : ".." ∈ segments path
    · rw [if_pos hparent, if_pos (parent_mem_tellingSegments.mpr hparent)]
    · rw [if_neg hparent, names_eq_tellingSegments hparent,
        if_neg (mt parent_mem_tellingSegments.mp hparent)]
  rw [components_eq, start]
  by_cases habsolute : isAbsolute path = true
  · rw [if_pos habsolute, if_pos (.inl habsolute)]
    rfl
  · simp only [habsolute, false_or, Bool.false_eq_true, if_false]
    rw [← hbehind]
    split <;> rfl

/-- What is wrong with a path that is refused. -/
def refusal (path : String) : String :=
  if isAbsolute path = true ∨ ".." ∈ segments path then outsideMessage else emptyMessage

/-- An item path that is not refused stands for its names. -/
theorem itemNames_eq (path : String) :
  itemNames path = if Refused path then .error (refusal path) else .ok (names path)
  := by
  rw [itemNames, namesOf_components, refusal]
  by_cases hleaves : isAbsolute path = true ∨ ".." ∈ segments path
  · have hrefused : Refused path := or_assoc.mp (.inl hleaves)
    rw [if_pos hleaves, if_pos hleaves, if_pos hrefused]
  · rw [if_neg hleaves, if_neg hleaves]
    cases hnames : names path with
    | nil =>
        have hrefused : Refused path := .inr (.inr hnames)
        rw [if_pos hrefused]
    | cons name rest =>
        have hsound : ¬ Refused path := by
          simpa [Refused, hnames, not_or] using hleaves
        rw [if_neg hsound]

example : itemNames "./a//b/." = .ok ["a", "b"] := rfl

example : itemNames "a/../b" = .error outsideMessage := rfl

/-! ### Respelling -/

/-- A path spelled with one more slash, or one more single dot, that tells nothing. -/
inductive Respells : String → String → Prop
  | slash (front back : String) : Respells (front ++ "/" ++ back) (front ++ "/" ++ "/" ++ back)
  | dot (front back : String) : Respells (front ++ "/" ++ back) (front ++ "/" ++ "." ++ "/" ++ back)
  | lastSlash {path : String} (h : path ≠ "") : Respells path (path ++ "/")
  | firstDot {path : String} (h : isAbsolute path = false) : Respells path ("." ++ "/" ++ path)

theorem tellingSegments_append (front back : String) :
  tellingSegments (front ++ "/" ++ back) = tellingSegments front ++ tellingSegments back
  := by
  rw [tellingSegments, segments_append, List.filter_append]
  rfl

theorem tellingSegments_append_slash (path : String) :
  tellingSegments (path ++ "/") = tellingSegments path
  := by
  have hempty : tellingSegments "" = [] := by decide
  have happend := tellingSegments_append path ""
  rwa [hempty, String.append_empty, List.append_nil] at happend

theorem tellingSegments_current :
  tellingSegments "." = []
  := by decide

theorem Respells.isAbsolute_eq (h : Respells path other) :
  isAbsolute path = isAbsolute other
  := by
  cases h with
  | slash front back =>
      have hstart := isAbsolute_append_congr front back ("/" ++ back)
      rwa [← String.append_assoc] at hstart
  | dot front back =>
      have hstart := isAbsolute_append_congr front back ("." ++ "/" ++ back)
      rwa [← String.append_assoc, ← String.append_assoc] at hstart
  | lastSlash h => exact (isAbsolute_append_of_ne h "/").symm
  | firstDot h =>
      rw [h, String.append_assoc]
      exact (isAbsolute_append_of_ne (by decide : "." ≠ "") _).symm

theorem Respells.tellingSegments_eq (h : Respells path other) :
  tellingSegments path = tellingSegments other
  := by
  cases h with
  | slash front back =>
      rw [tellingSegments_append, tellingSegments_append, tellingSegments_append_slash]
  | dot front back =>
      rw [tellingSegments_append, tellingSegments_append, tellingSegments_append,
        tellingSegments_current, List.append_nil]
  | lastSlash h => rw [tellingSegments_append_slash]
  | firstDot h => rw [tellingSegments_append, tellingSegments_current, List.nil_append]

/-- However a path is respelled, it tells the same from the same start. -/
theorem telling_eq_of_respelled (h : Relation.EqvGen Respells path other) :
  isAbsolute path = isAbsolute other ∧ tellingSegments path = tellingSegments other
  := by
  induction h with
  | rel path other hrespells => exact ⟨hrespells.isAbsolute_eq, hrespells.tellingSegments_eq⟩
  | refl path => exact ⟨rfl, rfl⟩
  | symm path other _ ih => exact ⟨ih.1.symm, ih.2.symm⟩
  | trans path middle other _ _ ih ih' => exact ⟨ih.1.trans ih'.1, ih.2.trans ih'.2⟩

/-- However a path is respelled, it stays refused or accepted, with the same names. -/
theorem names_eq_of_respelled (h : Relation.EqvGen Respells path other) :
  (Refused path ↔ Refused other) ∧ names path = names other
  := by
  obtain ⟨hstart, htelling⟩ := telling_eq_of_respelled h
  have hnames : names path = names other := by rw [names, htelling, names]
  refine ⟨?_, hnames⟩
  rw [Refused, Refused, hstart, hnames, ← parent_mem_tellingSegments, htelling,
    parent_mem_tellingSegments]

end Path

/-! ### What is found below a place -/

namespace FileTree

variable {tree : FileTree} {place names found : List String} {node : FileNode}

/-- Names lead to what lies at them below the place where they start. -/
theorem eq_append_of_follow (hnormal : ∀ name ∈ names, Path.IsNormal name)
    (h : tree.follow place names = .ok (found, node)) :
  found = place ++ names ∧ tree.node? found = some node
  := by
  induction names generalizing place with
  | nil =>
      rw [follow] at h
      split at h
      · next hnode =>
        cases h
        exact ⟨(List.append_nil _).symm, hnode⟩
      · cases h
  | cons name rest ih =>
      obtain ⟨⟨hempty, hcurrent, hparent, -⟩, hrest⟩ := List.forall_mem_cons.mp hnormal
      rw [follow] at h
      split at h
      · cases h
      · cases h
      · rw [if_neg (not_or.mpr ⟨hempty, hcurrent⟩), if_neg hparent] at h
        split at h
        · cases h
        · rw [List.append_cons]
          exact ih hrest h

/-- The text of a path goes on with a slash before each name. -/
theorem toList_pathText_append (tree : FileTree) (names : List String) :
  (tree.pathText (place ++ names)).toList
    = (tree.pathText place).toList ++ names.flatMap fun name => '/' :: name.toList
  := by
  rw [pathText, pathText, List.foldl_append]
  induction names generalizing place with
  | nil => simp
  | cons name names ih =>
      have hplace : place.foldl (fun text name => text ++ "/" ++ name) tree.base ++ "/" ++ name
          = (place ++ [name]).foldl (fun text name => text ++ "/" ++ name) tree.base := by
        rw [List.foldl_append, List.foldl_cons, List.foldl_nil]
      rw [List.foldl_cons, hplace, ih, ← hplace]
      simp

/-- Different names below a place make different texts. -/
theorem pathText_append_inj {names' : List String} (h : ∀ name ∈ names, Path.IsNormal name)
    (h' : ∀ name ∈ names', Path.IsNormal name) :
  tree.pathText (place ++ names) = tree.pathText (place ++ names') ↔ names = names'
  := by
  refine ⟨fun heq => ?_, fun heq => heq ▸ rfl⟩
  have htext := congrArg String.toList heq
  rw [toList_pathText_append, toList_pathText_append, List.append_cancel_left_eq] at htext
  have hsplit := congrArg (fun cs => Path.splitSlashes ([] ++ cs)) htext
  rw [Path.splitSlashes_flatMap (fun name hmem => (h name hmem).not_mem_slash) List.not_mem_nil,
    Path.splitSlashes_flatMap (fun name hmem => (h' name hmem).not_mem_slash) List.not_mem_nil]
    at hsplit
  exact (List.map_inj_right fun _ _ => String.toList_inj.mp).mp (List.cons.inj hsplit).2

end FileTree

/-! ### What is opened -/

namespace DiskSource

variable {source : DiskSource} {path message : String} {file : List String}
  {offset length : Nat} {polls : List Bool}

/-- In no manner is a path accepted, and no call is made. -/
structure Refuses (source : DiskSource) (path message : String) : Prop where
  range : ∀ offset length, source.openRange path offset length = .error (.invalidPath path message)
  waiting : ∀ offset length,
    source.openWaiting path offset length = (.error (.invalidPath path message), [])
  polled : ∀ offset length polls,
    source.openPolled path offset length polls = (some (.error (.invalidPath path message)), [])

/-- In either manner this file is opened for a path, and no other.  What has been opened is what
lies there. -/
structure OpensOnly (source : DiskSource) (path : String) (file : List String) : Prop where
  named : source.filePath path = .ok file
  range : ∀ offset length, source.openRange path offset length
    = (source.openWaiting path offset length).1.map FileRange.stream
  waiting : ∀ offset length other,
    .openFile other ∈ (source.openWaiting path offset length).2 ↔ other = file
  polled : ∀ offset length polls other,
    .openFile other ∈ (source.openPolled path offset length polls).2 ↔ other = file
  same : ∀ offset length polls, 3 ≤ polls.count true →
    source.openPolled path offset length polls
      = (some (source.openWaiting path offset length).1,
          (source.openWaiting path offset length).2)
  found : ∀ offset length range, (source.openWaiting path offset length).1 = .ok range →
    range.handle.place = file ∧ source.tree.node? file = some range.handle.node

theorem filePath_of_refused (h : Path.Refused path) :
  source.filePath path = .error (.invalidPath path (Path.refusal path))
  := by
  rw [filePath_eq, itemNames, Path.itemNames_eq, if_pos h]
  rfl

theorem filePath_of_not_refused (h : ¬ Path.Refused path) :
  source.filePath path = .ok (source.root ++ Path.names path)
  := by
  rw [filePath_eq, itemNames, Path.itemNames_eq, if_neg h]
  rfl

theorem fileText?_of_not_refused (h : ¬ Path.Refused path) :
  source.fileText? path = some (source.tree.pathText (source.root ++ Path.names path))
  := by
  rw [fileText?, itemNames, Path.itemNames_eq, if_neg h]

/-- A path without a file is refused. -/
theorem refuses_of_filePath (h : source.filePath path = .error (.invalidPath path message)) :
  source.Refuses path message
  := by
  have hwaiting : ∀ offset length,
      source.openWaiting path offset length = (.error (.invalidPath path message), []) := by
    intro offset length
    rw [openWaiting, h]
  refine ⟨fun offset length => ?_, hwaiting, fun offset length polls => ?_⟩
  · rw [openRange_eq, hwaiting]
    rfl
  · rw [openPolled, OpeningTask.start, h]
    dsimp only
    rw [OpeningTask.poll_finished]
    rfl

/-- The first call opens the file, and no later call opens anything. -/
theorem calls_openWaiting (h : source.filePath path = .ok file) (offset length : Nat) :
  ∃ later, (source.openWaiting path offset length).2 = .openFile file :: later
    ∧ ∀ other, .openFile other ∉ later
  := by
  rw [openWaiting, h]
  dsimp only
  split
  · exact ⟨[], rfl, by simp⟩
  · split
    · exact ⟨_, rfl, by simp⟩
    · exact ⟨_, rfl, by simp⟩

/-- What has been opened lies where the names of its path lead. -/
theorem place_of_openFile {names : List String} {handle : FileHandle}
    (hnormal : ∀ name ∈ names, Path.IsNormal name)
    (h : source.openFile (source.root ++ names) = .ok handle) :
  handle.place = source.root ++ names ∧ source.tree.node? (source.root ++ names) = some handle.node
  := by
  rw [openFile, List.drop_left, FileTree.find] at h
  split at h
  · cases h
  · next place node hfind =>
    cases h
    split at hfind
    · cases hfind
    · split at hfind
      · cases hfind
      · obtain ⟨rfl, hnode⟩ := FileTree.eq_append_of_follow hnormal hfind
        exact ⟨rfl, hnode⟩

theorem opensOnly_of_not_refused (h : ¬ Path.Refused path) :
  source.OpensOnly path (source.root ++ Path.names path)
  := by
  have hfile : source.filePath path = .ok (source.root ++ Path.names path) :=
    filePath_of_not_refused h
  have hwaiting : ∀ offset length other,
      .openFile other ∈ (source.openWaiting path offset length).2
        ↔ other = source.root ++ Path.names path := by
    intro offset length other
    obtain ⟨later, hcalls, hlater⟩ := calls_openWaiting hfile offset length
    rw [hcalls, List.mem_cons, or_iff_left (hlater other), FileCall.openFile.injEq]
  refine ⟨hfile, openRange_eq source path, hwaiting,
    fun offset length polls other => ⟨fun hmem => ?_, ?_⟩,
    fun _ _ _ hpolls => openPolled_eq hpolls, ?_⟩
  · exact (hwaiting offset length other).mp
      ((isPrefix_openPolled source path offset length polls).subset hmem)
  · rintro rfl
    rw [openPolled, OpeningTask.start, hfile]
    exact List.mem_append_left _ (List.mem_singleton_self _)
  · intro offset length range hrange
    rw [openWaiting, hfile] at hrange
    dsimp only at hrange
    split at hrange
    · cases hrange
    · next handle hopen =>
      have hplace := place_of_openFile (Path.isNormal_names path) hopen
      split at hrange
      · cases hrange
      · cases hrange
        exact hplace

/-- What has been opened is not refused for its path. -/
theorem checkStart_ne_invalidPath {handle : FileHandle} :
  handle.checkStart path offset ≠ .error (.invalidPath path message)
  := by
  intro hcheck
  rw [FileHandle.checkStart] at hcheck
  split at hcheck
  · split at hcheck
    · cases hcheck
    · cases hcheck
  · cases hcheck

/-- A path with a file does not fail as one that names no item. -/
theorem openWaiting_ne_invalidPath (h : source.filePath path = .ok file) (offset length : Nat) :
  (source.openWaiting path offset length).1 ≠ .error (.invalidPath path message)
  := by
  intro hopen
  rw [openWaiting, h] at hopen
  dsimp only at hopen
  split at hopen
  · rw [openingFailure] at hopen
    split at hopen <;> cases hopen
  · split at hopen
    · next hcheck =>
      cases hopen
      exact checkStart_ne_invalidPath hcheck
    · cases hopen

/-- In each manner a path fails as one that names no item exactly if it is refused. -/
theorem exists_invalidPath_iff (source : DiskSource) (path : String) (offset length : Nat)
    (polls : List Bool) :
  ((∃ message, source.openRange path offset length = .error (.invalidPath path message))
      ↔ Path.Refused path)
    ∧ ((∃ message,
          (source.openWaiting path offset length).1 = .error (.invalidPath path message))
        ↔ Path.Refused path)
    ∧ ((∃ message, (source.openPolled path offset length polls).1
          = some (.error (.invalidPath path message)))
        ↔ Path.Refused path)
  := by
  by_cases h : Path.Refused path
  · obtain ⟨hrange, hwaiting, hpolled⟩ := refuses_of_filePath (filePath_of_refused h)
    exact ⟨iff_of_true ⟨_, hrange offset length⟩ h,
      iff_of_true ⟨_, congrArg (·.1) (hwaiting offset length)⟩ h,
      iff_of_true ⟨_, congrArg (·.1) (hpolled offset length polls)⟩ h⟩
  · have hwaiting : ∀ message, (source.openWaiting path offset length).1
        ≠ .error (.invalidPath path message) :=
      fun _ => openWaiting_ne_invalidPath (filePath_of_not_refused h) offset length
    refine ⟨iff_of_false ?_ h, iff_of_false ?_ h, iff_of_false ?_ h⟩
    · rintro ⟨message, hrange⟩
      rw [openRange_eq, map_eq_error_iff] at hrange
      exact hwaiting message hrange
    · rintro ⟨message, hopen⟩
      exact hwaiting message hopen
    · rintro ⟨message, hpolled⟩
      exact hwaiting message (congrArg (·.1) (openWaiting_of_openPolled hpolled))

/-- A path is refused if it starts at the root, goes up somewhere, or names nothing, which is told
by its components as by its segments.  It then fails as one that names no item, without a call, and
no other path fails so.  For any other path one file is opened, whether the calls are waited for or
polled: the one that its names lead to from the root.  There is at least one of them, none of them
is empty, a dot or two dots, and none holds a slash.  However slashes and single dots are added or
taken away that tell nothing, the path stands for the same file, and a path with other names for
another. -/
theorem item_path_stays_below_root (source : DiskSource) (path : String) :
  (Path.Refused path
      ↔ .root ∈ Path.components path ∨ .parent ∈ Path.components path
        ∨ FileTree.pathNames path = [])
    ∧ FileTree.pathNames path = Path.names path
    ∧ (∀ offset length polls,
        ((∃ message, source.openRange path offset length = .error (.invalidPath path message))
            ↔ Path.Refused path)
          ∧ ((∃ message,
                (source.openWaiting path offset length).1 = .error (.invalidPath path message))
              ↔ Path.Refused path)
          ∧ ((∃ message, (source.openPolled path offset length polls).1
                = some (.error (.invalidPath path message)))
              ↔ Path.Refused path))
    ∧ (Path.Refused path → source.Refuses path (Path.refusal path))
    ∧ (¬ Path.Refused path →
        let names := Path.names path
        names ≠ [] ∧ (∀ name ∈ names, Path.IsNormal name)
          ∧ source.root <+: source.root ++ names ∧ source.root ≠ source.root ++ names
          ∧ source.OpensOnly path (source.root ++ names)
          ∧ (∀ other, Relation.EqvGen Path.Respells path other →
              ¬ Path.Refused other ∧ source.OpensOnly other (source.root ++ names))
          ∧ ∀ other, ¬ Path.Refused other →
              (source.filePath other = source.filePath path ↔ Path.names other = names)
                ∧ (source.fileText? other = source.fileText? path ↔ Path.names other = names))
  := by
  refine ⟨?_, Path.pathNames_eq path, exists_invalidPath_iff source path,
    fun h => refuses_of_filePath (filePath_of_refused h), fun h => ?_⟩
  · rw [Path.root_mem_components, Path.parent_mem_components, Path.pathNames_eq]
    exact Iff.rfl
  · have hnormal := Path.isNormal_names path
    have hnames : Path.names path ≠ [] := fun hnil => h (.inr (.inr hnil))
    refine ⟨hnames, hnormal, List.prefix_append _ _, fun heq => ?_, opensOnly_of_not_refused h,
      fun other hrespelled => ?_, fun other hother => ⟨?_, ?_⟩⟩
    · exact hnames (List.self_eq_append_right.mp heq)
    · obtain ⟨hrefused, hsame⟩ := Path.names_eq_of_respelled hrespelled
      have hother := mt hrefused.mpr h
      rw [hsame]
      exact ⟨hother, opensOnly_of_not_refused hother⟩
    · rw [filePath_of_not_refused h, filePath_of_not_refused hother, Except.ok.injEq,
        List.append_cancel_left_eq]
    · rw [fileText?_of_not_refused h, fileText?_of_not_refused hother, Option.some.injEq]
      exact FileTree.pathText_append_inj (Path.isNormal_names other) hnormal

end DiskSource

end PieceStream
