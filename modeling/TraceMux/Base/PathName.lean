/-
# Path names

A path is the list of its components. The last component is the file name, unless it is
the parent directory or the root; the part of it behind the last dot is the extension and
the part before it the stem, unless the dot comes first.
-/

import TraceMux.Base.Text

namespace TraceMux.Base.PathName

/-- The components of a path that is given as text. The root is a component, empty
components and those that stay where they are do not count. -/
def components (path : Text) : List Text :=
  (if path.head? = some '/' then [['/']] else []) ++
    (path.splitOn '/').filter fun part => part ≠ [] ∧ part ≠ ['.']

def fileName (path : List Text) : Option Text :=
  match path.getLast? with
  | none => none
  | some last => if last = ['.', '.'] ∨ last = ['/'] then none else some last

/-- What is before and behind the last dot. -/
def rsplitDot : Text → Option (Text × Text)
  | [] => none
  | c :: rest =>
    match rsplitDot rest with
    | some (before, after) => some (c :: before, after)
    | none => if c = '.' then some ([], rest) else none

def stemOf (name : Text) : Text :=
  match rsplitDot name with
  | none => name
  | some (before, _) => if before = [] then name else before

def extensionOf (name : Text) : Option Text :=
  match rsplitDot name with
  | none => none
  | some (before, after) => if before = [] then none else some after

def fileStem (path : List Text) : Option Text := (fileName path).map stemOf

def extension (path : List Text) : Option Text := (fileName path).bind extensionOf

/-- Put another file name in the place of the one a path has. -/
def withFileName (path : List Text) (name : Text) : List Text :=
  if (fileName path).isSome then path.dropLast ++ [name] else path ++ [name]

variable {name : Text} {path : List Text}

theorem eq_of_rsplitDot {before after : Text} (h : rsplitDot name = some (before, after)) :
    name = before ++ '.' :: after := by
  induction name generalizing before with
  | nil => cases h
  | cons c rest ih =>
    rw [rsplitDot] at h
    split at h
    · next before' after' hrest =>
      cases h
      rw [ih hrest, List.cons_append]
    · split at h
      · next hdot =>
        cases h
        rw [hdot, List.nil_append]
      · cases h

theorem length_le_stem_extension (name : Text) :
    name.length ≤ (stemOf name).length + 1 + ((extensionOf name).getD []).length := by
  unfold stemOf extensionOf
  split
  · simp
  · next before after hsplit =>
    split
    · simp
    · rw [eq_of_rsplitDot hsplit]
      simp
      omega

theorem eq_dropLast_append (h : fileName path = some name) : path = path.dropLast ++ [name] := by
  unfold fileName at h
  split at h
  · cases h
  · next last hlast =>
    split at h
    · cases h
    · cases h
      exact (List.dropLast_append_getLast? _ hlast).symm

theorem withFileName_inj {name' : Text} (h : withFileName path name = withFileName path name') :
    name = name' := by
  unfold withFileName at h
  split at h
  · simpa using h
  · simpa using h

theorem withFileName_ne (h : ∀ old, fileName path = some old → old.length < name.length) :
    withFileName path name ≠ path := by
  intro heq
  unfold withFileName at heq
  split at heq
  · next hsome =>
    obtain ⟨old, hold⟩ := Option.isSome_iff_exists.mp hsome
    rw [eq_dropLast_append hold] at heq
    have hname : name = old := by simpa using heq
    exact absurd (h old hold) (by rw [hname]; exact Nat.lt_irrefl _)
  · have hlength := congrArg List.length heq
    simp at hlength

end TraceMux.Base.PathName
