import Rszero.Pieces

/-!
# Paths

Paths of a Unix file system as `std::path` reads them: texts that are split at slashes, of which
empty segments and dots do not count but for a dot at the start.
-/

namespace Rszero.FilePath

open Pieces

abbrev Path := List Char

inductive Component
  | rootDir
  | curDir
  | parentDir
  | normal (name : List Char)
  deriving DecidableEq

def Component.ofSegment (segment : List Char) : Option Component :=
  if segment = [] ∨ segment = ['.'] then none
  else if segment = ['.', '.'] then some .parentDir
  else some (.normal segment)

def start (path : Path) : Option Component :=
  if path.head? = some '/' then some .rootDir
  else if (path.splitOn '/').head? = some ['.'] then some .curDir
  else none

def components (path : Path) : List Component :=
  (start path).toList ++ (path.splitOn '/').filterMap Component.ofSegment

def fileName (path : Path) : Option (List Char) :=
  match (components path).getLast? with
  | some (.normal name) => some name
  | _ => none

/-- What follows the last dot of a name, unless nothing is before that dot. -/
def nameExtension (name : List Char) : Option (List Char) :=
  match splitOnce '.' name.reverse with
  | some (after, before) => if before = [] then none else some after.reverse
  | none => none

def extension (path : Path) : Option (List Char) := (fileName path).bind nameExtension

def join (base name : Path) : Path :=
  if name.head? = some '/' then name
  else if base = [] ∨ base.getLast? = some '/' then base ++ name
  else base ++ '/' :: name

/-- A name that a directory can have an entry under. -/
structure IsFileName (name : List Char) : Prop where
  nonempty : name ≠ []
  noSlash : '/' ∉ name
  notDot : name ≠ ['.']
  notDots : name ≠ ['.', '.']

variable {base path : Path} {name : List Char} {comps : List Component}

theorem nameExtension_eq_none (h : '.' ∉ name) : nameExtension name = none := by
  rw [nameExtension, splitOnce_eq_none (mt List.mem_reverse.1 h)]

theorem nameExtension_eq_some_iff {ext : List Char} : nameExtension name = some ext ↔
    ∃ before, name = before ++ '.' :: ext ∧ '.' ∉ ext ∧ before ≠ [] := by
  rw [nameExtension]
  constructor
  · intro h
    cases hsplit : splitOnce '.' name.reverse with
    | none =>
        rw [hsplit] at h
        exact absurd h nofun
    | some parts =>
        rw [hsplit] at h
        obtain ⟨after, before⟩ := parts
        obtain ⟨hafter, heq⟩ := splitOnce_eq_some_iff.1 hsplit
        dsimp only at h
        split_ifs at h with hnil
        obtain rfl := Option.some.inj h
        refine ⟨before.reverse, ?_, mt List.mem_reverse.1 hafter, mt List.reverse_eq_nil_iff.1 hnil⟩
        rw [← List.reverse_reverse name, heq, List.reverse_append, List.reverse_cons,
          List.append_assoc, List.singleton_append]
  · rintro ⟨before, rfl, hext, hbefore⟩
    have hsplit : splitOnce '.' (before ++ '.' :: ext).reverse =
        some (ext.reverse, before.reverse) := by
      rw [List.reverse_append, List.reverse_cons, List.append_assoc, List.singleton_append]
      exact splitOnce_append (mt List.mem_reverse.1 hext) _
    rw [hsplit]
    exact (if_neg (mt List.reverse_eq_nil_iff.1 hbefore)).trans (by rw [List.reverse_reverse])

theorem ofSegment_of_isFileName (h : IsFileName name) :
    Component.ofSegment name = some (.normal name) := by
  rw [Component.ofSegment, if_neg (not_or.2 ⟨h.nonempty, h.notDot⟩), if_neg h.notDots]

theorem components_of_isFileName (h : IsFileName name) : components name = [.normal name] := by
  have hhead : name.head? ≠ some '/' := fun heq => h.noSlash (List.mem_of_head? heq)
  have hsplit : name.splitOn '/' = [name] := List.splitOn_eq_singleton h.noSlash
  have hstart : start name = none := by
    rw [start, if_neg hhead, hsplit, List.head?_cons, if_neg (mt Option.some.inj h.notDot)]
  rw [components, hstart, hsplit, List.filterMap_cons_some (ofSegment_of_isFileName h)]
  rfl

theorem start_append (hbase : base ≠ []) (rest : Path) :
    start (base ++ '/' :: rest) = start base := by
  have hhead : (base ++ '/' :: rest).head? = base.head? := List.head?_append_of_ne_nil _ hbase
  have hsplit : ((base ++ '/' :: rest).splitOn '/').head? = (base.splitOn '/').head? := by
    rw [List.splitOn_append_cons_self, List.head?_append_of_ne_nil _ (List.splitOn_ne_nil _ _)]
  rw [start, start, hhead, hsplit]

theorem components_append_slash (hbase : base ≠ []) (h : IsFileName name) :
    components (base ++ '/' :: name) = components base ++ [.normal name] := by
  rw [components, components, start_append hbase, List.splitOn_append_cons_self,
    List.splitOn_eq_singleton h.noSlash, List.filterMap_append,
    List.filterMap_cons_some (ofSegment_of_isFileName h), List.append_assoc]
  rfl

/-- A slash at the end of a path does not count. -/
theorem components_slash (hbase : base ≠ []) : components (base ++ ['/']) = components base := by
  rw [components, components, start_append hbase, List.splitOn_append_cons_self,
    List.filterMap_append]
  simp [Component.ofSegment]

theorem components_root (h : IsFileName name) :
    components ('/' :: name) = [.rootDir, .normal name] := by
  have hsplit : ('/' :: name).splitOn '/' = [[], name] := by
    rw [← List.nil_append ('/' :: name), List.splitOn_append_cons_self,
      List.splitOn_eq_singleton h.noSlash]
    rfl
  rw [components, hsplit, List.filterMap_cons_none (by decide),
    List.filterMap_cons_some (ofSegment_of_isFileName h)]
  rfl

/-- A path joined with a name is that of a child. -/
theorem components_join (h : IsFileName name) :
    components (join base name) = components base ++ [.normal name] := by
  have hhead : name.head? ≠ some '/' := fun heq => h.noSlash (List.mem_of_head? heq)
  rw [join, if_neg hhead]
  by_cases hbase : base = []
  · subst hbase
    rw [if_pos (.inl rfl), List.nil_append, components_of_isFileName h]
    rfl
  · by_cases hlast : base.getLast? = some '/'
    · obtain ⟨dir, rfl⟩ := List.getLast?_eq_some_iff.1 hlast
      rw [if_pos (.inr hlast), List.append_assoc, List.singleton_append]
      by_cases hdir : dir = []
      · subst hdir
        exact components_root h
      · rw [components_slash hdir, components_append_slash hdir h]
    · rw [if_neg (not_or.2 ⟨hbase, hlast⟩), components_append_slash hbase h]

theorem fileName_of_components (h : components path = comps ++ [.normal name]) :
    fileName path = some name := by
  rw [fileName, h, List.getLast?_concat]

end Rszero.FilePath
