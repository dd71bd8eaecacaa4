import Mathlib.Data.List.DropRight
import Mathlib.Data.List.Infix
import Mathlib.Data.String.Basic

/-!
Paths as a POSIX `pathlib` holds them, and the places they name. Reading a text drops empty
components and `.` and keeps `..`; joining with an absolute path forgets the left side. A place is
the list of names from the root, and a path names one by taking `..` to the parent, as
`Path.resolve` does where there are no links.
-/

namespace Base

/-- The names from the root of the file system down to an entry. -/
abbrev Location := List String

/-- A text that stands as one component of a path. -/
def isPathPart (part : String) : Bool := part ≠ "" && part ≠ "." && part.toList.all (· ≠ '/')

structure PosixPath where
  absolute : Bool
  parts : List String
  parts_valid : parts.all isPathPart
  deriving DecidableEq

namespace PosixPath

theorem notMem_of_mem_splitOn {α : Type} [DecidableEq α] {x : α} {xs segment : List α}
    (h : segment ∈ xs.splitOn x) : x ∉ segment := by
  induction xs generalizing segment with
  | nil =>
      rw [List.splitOn_nil, List.mem_singleton] at h
      simp [h]
  | cons y rest ih =>
      rw [List.splitOn_cons_eq_if_modifyHead] at h
      by_cases hy : y = x
      · simp only [hy, beq_self_eq_true, if_true, List.mem_cons] at h
        rcases h with rfl | h
        · exact List.not_mem_nil
        · exact ih h
      · simp only [hy, beq_iff_eq, if_false] at h
        cases hrest : rest.splitOn x with
        | nil => exact absurd hrest (List.splitOn_ne_nil x rest)
        | cons first others =>
            rw [hrest, List.modifyHead_cons, List.mem_cons] at h
            rcases h with rfl | h
            · have hfirst : x ∉ first := ih (by simp [hrest])
              simp [Ne.symm hy, hfirst]
            · exact ih (by simp [hrest, h])

/-- The components a text is read as. -/
def partsOf (text : String) : List String :=
  ((text.toList.splitOn '/').map String.ofList).filter fun part => part ≠ "" && part ≠ "."

theorem partsOf_valid (text : String) : (partsOf text).all isPathPart := by
  refine List.all_eq_true.mpr fun part hpart => ?_
  rw [partsOf, List.mem_filter, List.mem_map] at hpart
  obtain ⟨⟨segment, hsegment, rfl⟩, hne⟩ := hpart
  rw [isPathPart, hne, Bool.true_and, String.toList_ofList]
  refine List.all_eq_true.mpr fun c hc => ?_
  have hslash := notMem_of_mem_splitOn hsegment
  exact decide_eq_true fun heq => hslash (heq ▸ hc)

/-- `PurePosixPath(text)` -/
def ofText (text : String) : PosixPath where
  absolute := text.toList.head? = some '/'
  parts := partsOf text
  parts_valid := partsOf_valid text

/-- `path.name`: the last component, or the empty text. -/
def name (path : PosixPath) : String := path.parts.getLast?.getD ""

/-- `path.suffix` -/
def suffix (path : PosixPath) : String :=
  let parted := path.name.toList.reverse.span (· ≠ '.')
  if parted.1 = [] ∨ parted.2.length ≤ 1 then "" else String.ofList ('.' :: parted.1.reverse)

/-- `path.parent` -/
def parent (path : PosixPath) : PosixPath :=
  { path with
    parts := path.parts.dropLast,
    parts_valid := by
      refine List.all_eq_true.mpr fun part hpart => ?_
      exact List.all_eq_true.mp path.parts_valid part (List.mem_of_mem_dropLast hpart) }

/-- `path / other` -/
def join (path other : PosixPath) : PosixPath :=
  if other.absolute then other
  else
    { absolute := path.absolute, parts := path.parts ++ other.parts,
      parts_valid := by rw [List.all_append, path.parts_valid, other.parts_valid]; rfl }

/-- `path / text` -/
def child (path : PosixPath) (text : String) : PosixPath := path.join (ofText text)

theorem partsOf_part {part : String} (h : isPathPart part) : partsOf part = [part] := by
  rw [isPathPart, Bool.and_eq_true, List.all_eq_true] at h
  obtain ⟨hne, hslash⟩ := h
  have hnot : '/' ∉ part.toList := fun hmem => by simpa using hslash '/' hmem
  rw [partsOf, List.splitOn_eq_singleton hnot, List.map_singleton, String.ofList_toList]
  exact List.filter_cons_of_pos hne

/-- A path whose text is one component is that component. -/
theorem ofText_part {part : String} (h : isPathPart part) :
    ofText part = ⟨false, [part], by simp [h]⟩ := by
  have habsolute : decide (part.toList.head? = some '/') = false := by
    rw [isPathPart, Bool.and_eq_true, List.all_eq_true] at h
    refine decide_eq_false fun hhead => ?_
    simpa using h.2 '/' (List.mem_of_mem_head? hhead)
  simp only [ofText, habsolute, partsOf_part h]

theorem ofText_empty : ofText "" = ⟨false, [], rfl⟩ := rfl

/-- The name of a path is a component, unless the path has none. -/
theorem name_cases (path : PosixPath) : path.name = "" ∨ isPathPart path.name := by
  rw [name]
  cases hlast : path.parts.getLast? with
  | none => exact Or.inl rfl
  | some part =>
      exact Or.inr (List.all_eq_true.mp path.parts_valid part (List.mem_of_getLast? hlast))

/-- Joining the name of a path adds that component, or nothing. -/
theorem parts_child_name (path other : PosixPath) :
    (path.child other.name).absolute = path.absolute ∧
      (path.child other.name).parts =
        path.parts ++ if other.name = "" then [] else [other.name] := by
  rcases name_cases other with hempty | hpart
  · rw [hempty, child, ofText_empty, join]
    simp
  · have hne : other.name ≠ "" := by
      intro hempty
      rw [hempty] at hpart
      exact absurd hpart (by decide)
    rw [child, ofText_part hpart, join, if_neg hne]
    simp

/-! ### Texts -/

/-- The root of a text: two slashes stand for themselves, any other number of them for one. -/
def rootOf (text : String) : String :=
  match text.toList with
  | '/' :: '/' :: '/' :: _ => "/"
  | '/' :: '/' :: _ => "//"
  | '/' :: _ => "/"
  | _ => ""

/-- `str(PurePosixPath(text))` -/
def normalText (text : String) : String :=
  let joined := rootOf text ++ "/".intercalate (partsOf text)
  if joined = "" then "." else joined

theorem rootOf_relative {text : String} (h : text.toList.head? ≠ some '/') : rootOf text = "" := by
  rw [rootOf]
  cases hlist : text.toList with
  | nil => rfl
  | cons c rest =>
      have hne : c ≠ '/' := by
        intro hc
        apply h
        rw [hlist, hc]
        rfl
      simp [hne]

/-- The components on both sides of a slash. -/
theorem partsOf_append_slash (left right : String) :
    partsOf (left ++ "/" ++ right) = partsOf left ++ partsOf right := by
  have htext : (left ++ "/" ++ right).toList = left.toList ++ '/' :: right.toList := by
    simp [String.toList_append]
  rw [partsOf, htext, List.splitOn_append_cons_self, List.map_append, List.filter_append]
  rfl

theorem partsOf_empty : partsOf "" = [] := rfl

theorem partsOf_intercalate {parts : List String} (h : ∀ part ∈ parts, isPathPart part) :
    partsOf ("/".intercalate parts) = parts := by
  induction parts with
  | nil => rfl
  | cons part rest ih =>
      rw [List.forall_mem_cons] at h
      by_cases hrest : rest = []
      · rw [hrest, String.intercalate_singleton, partsOf_part h.1]
      · rw [String.intercalate_cons_of_ne_nil hrest, partsOf_append_slash, partsOf_part h.1, ih h.2]
        rfl

/-- The relative texts that are their own normal form. -/
theorem normalText_eq_self_iff {text : String} (hrelative : text.toList.head? ≠ some '/') :
    normalText text = text ↔
      text = "." ∨ ∃ parts, parts ≠ [] ∧ (∀ part ∈ parts, isPathPart part) ∧
        text = "/".intercalate parts := by
  rw [normalText, rootOf_relative hrelative, String.empty_append]
  constructor
  · intro h
    by_cases hempty : "/".intercalate (partsOf text) = ""
    · rw [if_pos hempty] at h
      exact Or.inl h.symm
    · rw [if_neg hempty] at h
      refine Or.inr ⟨partsOf text, ?_, List.all_eq_true.mp (partsOf_valid text), h.symm⟩
      intro hnil
      rw [hnil] at hempty
      exact hempty String.intercalate_nil
  · intro h
    rcases h with rfl | ⟨parts, hne, hparts, rfl⟩
    · rfl
    · rw [partsOf_intercalate hparts]
      apply if_neg
      intro hempty
      apply hne
      rw [← partsOf_intercalate hparts, hempty]
      rfl

/-! ### Places -/

/-- The place reached from a place through one component. -/
def enter (place : Location) (part : String) : Location :=
  if part = ".." then place.dropLast else place ++ [part]

/-- The place a path names for a process in the directory `cwd`. -/
def resolve (cwd : Location) (path : PosixPath) : Location :=
  path.parts.foldl enter (if path.absolute then [] else cwd)

theorem resolve_join (cwd : Location) (path other : PosixPath) :
    (path.join other).resolve cwd =
      if other.absolute then other.resolve cwd else other.parts.foldl enter (path.resolve cwd) := by
  rw [join]
  split
  · rfl
  · rw [resolve, List.foldl_append, resolve]

/-- Components without `..` lead down from a place. -/
theorem foldl_enter_of_notMem {parts : List String} (h : ".." ∉ parts) (place : Location) :
    parts.foldl enter place = place ++ parts := by
  induction parts generalizing place with
  | nil => exact (List.append_nil place).symm
  | cons part rest ih =>
      rw [List.mem_cons, not_or] at h
      rw [List.foldl_cons, enter, if_neg (Ne.symm h.1), ih h.2, List.append_assoc]
      rfl

/-- A relative text without `..` leads down from the working directory. -/
theorem resolve_relative {text : String} (hrelative : text.toList.head? ≠ some '/')
    (hup : ".." ∉ partsOf text) (cwd : Location) :
    (ofText text).resolve cwd = cwd ++ partsOf text := by
  have habsolute : (ofText text).absolute = false := decide_eq_false hrelative
  rw [resolve, habsolute]
  exact foldl_enter_of_notMem hup cwd

/-- What components amount to: a climb of some levels, then names. -/
structure Descent where
  climbed : Nat
  names : List String
  deriving DecidableEq

namespace Descent

def enter (d : Descent) (part : String) : Descent :=
  if part = ".." then
    if d.names = [] then { d with climbed := d.climbed + 1 }
    else { d with names := d.names.dropLast }
  else { d with names := d.names ++ [part] }

/-- Where the descent leads from a place. -/
def reach (d : Descent) (place : Location) : Location := place.rdrop d.climbed ++ d.names

theorem reach_enter (d : Descent) (place : Location) (part : String) :
    (d.enter part).reach place = PosixPath.enter (d.reach place) part := by
  rw [enter, PosixPath.enter, reach]
  by_cases hup : part = ".."
  · rw [if_pos hup, if_pos hup]
    by_cases hnames : d.names = []
    · rw [if_pos hnames, reach, hnames, List.append_nil, List.append_nil, List.dropLast_eq_take]
      simp only [List.rdrop, List.length_take, List.take_take]
      congr 1
      omega
    · rw [if_neg hnames, reach, List.dropLast_append_of_ne_nil hnames]
  · rw [if_neg hup, if_neg hup, reach, List.append_assoc]

end Descent

/-- The components of a path with every `..` taken back that can be. -/
def descent (parts : List String) : Descent := parts.foldl Descent.enter ⟨0, []⟩

theorem foldl_enter (parts : List String) (place : Location) :
    parts.foldl enter place = (descent parts).reach place := by
  have hgeneral : ∀ d : Descent,
      parts.foldl enter (d.reach place) = (parts.foldl Descent.enter d).reach place := by
    induction parts with
    | nil => exact fun d => rfl
    | cons part rest ih =>
        intro d
        rw [List.foldl_cons, List.foldl_cons, ← Descent.reach_enter, ih]
  have hzero := hgeneral ⟨0, []⟩
  rwa [Descent.reach, List.rdrop_zero, List.append_nil] at hzero

end PosixPath

end Base
