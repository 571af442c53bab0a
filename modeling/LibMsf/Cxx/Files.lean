import LibMsf.Cxx.Strings

/-!
Paths and files.

A path string is resolved against the working directory, component by component:
empty components and dots stand for the directory itself, two dots for the one above.
Links are not modelled, so two strings denote one file just when they resolve to the
same path. Files are kept by their resolved paths.
-/

namespace Cxx

def separator : UInt8 := 47

/-- The components of a path string, empty ones included, the first one being `current`
followed by what comes before the first separator. -/
def components (current : Bytes) : Bytes → List Bytes
  | [] => [current]
  | c :: s =>
      if c = separator then current :: components [] s
      else components (current ++ [c]) s

abbrev Path := List Bytes

def enter (dir : Path) (name : Bytes) : Path :=
  if name = [] ∨ name = ascii ['.'] then dir
  else if name = ascii ['.', '.'] then dir.dropLast
  else dir ++ [name]

def resolve (cwd : Path) (path : Bytes) : Path :=
  (components [] path).foldl enter (if path.head? = some separator then [] else cwd)

theorem components_append (current a b : Bytes) :
    components current (a ++ separator :: b) = components current a ++ components [] b := by
  induction a generalizing current with
  | nil => simp [components]
  | cons c a ih =>
      by_cases hc : c = separator
      · simp [components, hc, ih]
      · simp [components, hc, ih]

theorem components_of_not_mem {name : Bytes} (h : separator ∉ name) (current : Bytes) :
    components current name = [current ++ name] := by
  induction name generalizing current with
  | nil => simp [components]
  | cons c name ih =>
      obtain ⟨hc, hrest⟩ := not_or.mp (mt List.mem_cons.mpr h)
      simp [components, Ne.symm hc, ih hrest]

/-- A name is glued to the last component of the string before it. That component is empty
only behind a separator. -/
theorem components_glued {name : Bytes} (hname : separator ∉ name) (current s : Bytes) :
    ∃ init last, components current (s ++ name) = init ++ [last ++ name] ∧
      (last = [] → current = [] ∧ s = [] ∨ s.getLast? = some separator) := by
  induction s generalizing current with
  | nil => exact ⟨[], current, components_of_not_mem hname current, fun h => .inl ⟨h, rfl⟩⟩
  | cons c s ih =>
      by_cases hc : c = separator
      · obtain ⟨init, last, hglued, hempty⟩ := ih []
        refine ⟨current :: init, last, ?_, ?_⟩
        · simp only [List.cons_append, components, if_pos hc, hglued]
        · intro hlast
          refine .inr ?_
          cases hempty hlast with
          | inl hnil => rw [hnil.2, hc]; rfl
          | inr hend => rw [List.getLast?_cons, hend, Option.getD_some]
      · obtain ⟨init, last, hglued, hempty⟩ := ih (current ++ [c])
        refine ⟨init, last, ?_, ?_⟩
        · simp only [List.cons_append, components, if_neg hc, hglued]
        · intro hlast
          cases hempty hlast with
          | inl hnil => exact absurd hnil.1 (by simp)
          | inr hend => exact .inr (by rw [List.getLast?_cons, hend, Option.getD_some])

theorem enter_of_long {name : Bytes} (h : 2 < name.length) (dir : Path) :
    enter dir name = dir ++ [name] := by
  have hself : ¬(name = [] ∨ name = ascii ['.']) := by
    rintro (rfl | rfl)
    · exact absurd h (by decide)
    · exact absurd h (by decide)
  have habove : ¬name = ascii ['.', '.'] := by
    rintro rfl
    exact absurd h (by decide)
  rw [enter, if_neg hself, if_neg habove]

theorem enter_empty (dir : Path) : enter dir [] = dir := by
  simp [enter]

theorem resolve_append {dir : Bytes} (hdir : dir ≠ []) (cwd : Path) (b : Bytes) :
    resolve cwd (dir ++ separator :: b) = (components [] b).foldl enter (resolve cwd dir) := by
  rw [resolve, resolve, components_append, List.foldl_append]
  cases dir with
  | nil => exact absurd rfl hdir
  | cons c dir => rfl

section Inside

variable {d name : Bytes} (cwd : Path)

/-- Inside a directory whose string ends in a separator. -/
theorem resolve_inside_trailing (hname : separator ∉ name) :
    resolve cwd (d ++ [separator] ++ name) = enter (resolve cwd (d ++ [separator])) name := by
  have hcomponents : components [] (d ++ [separator] ++ name) = components [] d ++ [name] := by
    rw [List.append_assoc, List.singleton_append, components_append, components_of_not_mem hname,
      List.nil_append]
  have hdir : components [] (d ++ [separator]) = components [] d ++ [[]] := components_append _ _ _
  have hhead : (d ++ [separator] ++ name).head? = (d ++ [separator]).head? := by
    cases d with
    | nil => rfl
    | cons c d => rfl
  rw [resolve, resolve, hcomponents, hdir, hhead, List.foldl_append, List.foldl_append]
  simp only [List.foldl_cons, List.foldl_nil, enter_empty]

theorem resolve_inside (hd : d ≠ []) (hname : separator ∉ name) :
    resolve cwd (d ++ separator :: name) = enter (resolve cwd d) name := by
  rw [resolve_append hd, components_of_not_mem hname, List.nil_append, List.foldl_cons,
    List.foldl_nil]

/-- Without a separator between them, a directory and a name never make the path of that
name in any directory. -/
theorem resolve_glued_ne (hd : d ≠ []) (hend : d.getLast? ≠ some separator)
    (hname : separator ∉ name) (hlong : 2 < name.length) (dir : Path) :
    resolve cwd (d ++ name) ≠ dir ++ [name] := by
  obtain ⟨init, last, hglued, hempty⟩ := components_glued hname [] d
  have hlast : last ≠ [] := by
    intro hnil
    cases hempty hnil with
    | inl h => exact hd h.2
    | inr h => exact hend h
  have hpos := List.length_pos_iff.mpr hlast
  intro heq
  rw [resolve, hglued, List.foldl_append, List.foldl_cons, List.foldl_nil,
    enter_of_long (by rw [List.length_append]; omega)] at heq
  have hlen := congrArg List.length (List.cons.inj (List.append_inj' heq rfl).2).1
  rw [List.length_append] at hlen
  omega

end Inside

abbrev FileSystem := Std.ExtTreeMap Path Bytes

namespace FileSystem

/-- What is read from a file, nothing when there is none. -/
def contents (files : FileSystem) (path : Path) : Bytes :=
  files[path]?.getD []

/-- Writing at the end of a file, which is created when there is none. -/
def extend (files : FileSystem) (path : Path) (bytes : Bytes) : FileSystem :=
  files.insert path (files.contents path ++ bytes)

/-- What `readdir` can list in a directory, in any order. -/
structure Lists (files : FileSystem) (dir : Path) (listing : List Bytes) : Prop where
  once : listing.Nodup
  mem_iff : ∀ name, name ∈ listing ↔
    name = ascii ['.'] ∨ name = ascii ['.', '.'] ∨ dir ++ [name] ∈ files

theorem getElem?_extend (files : FileSystem) (path path' : Path) (bytes : Bytes) :
    (files.extend path bytes)[path']? =
      if path = path' then some (files.contents path ++ bytes) else files[path']? := by
  rw [extend, Std.ExtTreeMap.getElem?_insert]
  simp only [Std.LawfulEqOrd.compare_eq_iff_eq]

/-- Writing to a file that is there changes nothing in the listing. -/
theorem Lists.extend {files : FileSystem} {dir path : Path} {listing : List Bytes}
    (h : files.Lists dir listing) (hpath : path ∈ files) (bytes : Bytes) :
    (files.extend path bytes).Lists dir listing := by
  refine ⟨h.once, ?_⟩
  intro name
  rw [FileSystem.extend, Std.ExtTreeMap.mem_insert, Std.LawfulEqOrd.compare_eq_iff_eq, h.mem_iff]
  refine or_congr_right (or_congr_right ?_)
  constructor
  · exact .inr
  · intro hin
    cases hin with
    | inl heq => exact heq ▸ hpath
    | inr hin => exact hin

theorem contents_extend (files : FileSystem) (path : Path) (bytes : Bytes) :
    (files.extend path bytes).contents path = files.contents path ++ bytes := by
  rw [contents, getElem?_extend, if_pos rfl, Option.getD_some]

theorem extend_extend (files : FileSystem) (path : Path) (a b : Bytes) :
    (files.extend path a).extend path b = files.extend path (a ++ b) := by
  refine Std.ExtTreeMap.ext_getElem? ?_
  intro path'
  rw [getElem?_extend, getElem?_extend, getElem?_extend, contents_extend, List.append_assoc]
  by_cases h : path = path'
  · simp only [if_pos h]
  · simp only [if_neg h]

end FileSystem

end Cxx
