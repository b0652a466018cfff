import OxEmbed.Library.Text

/-!
# Unix paths

A path as the list of its components: repeated separators and inner `.` do not count, and `..` is
a component of its own. Two paths are the same when they have the same components.

## Main definitions

* `Component`, `components` : the components of a path.
* `join` : a path from a directory on; an absolute path replaces the directory.
* `fileName`, `display` : the last component, if it is a name, and the text of a path.
* `Plain` : a file name without a separator.

## Main results

* `plain_of_mem_components` : the names in a path are plain.
* `components_join` : the last component of a joined plain name is that name.
* `join_inj` : plain names in one directory give different paths.
* `components_join_inside` : a name without a separator stays inside its directory.
-/

namespace OxEmbed.UnixPath

inductive Component
  | rootDir
  | curDir
  | parentDir
  | normal (name : List Char)
  deriving DecidableEq, Repr

/-- The component of a piece between two separators. -/
def ofPiece (p : List Char) : Option Component :=
  if p = [] ∨ p = ['.'] then none
  else if p = ['.', '.'] then some .parentDir
  else some (.normal p)

/-- The component that only stands at the start of a path. -/
def lead (path : List Char) : List Component :=
  if path.head? = some '/' then [.rootDir]
  else if (path.splitOn '/').head? = some ['.'] then [.curDir]
  else []

def components (path : List Char) : List Component :=
  lead path ++ (path.splitOn '/').filterMap ofPiece

def join (dir name : List Char) : List Char :=
  if name.head? = some '/' then name
  else if dir = [] ∨ dir.getLast? = some '/' then dir ++ name
  else dir ++ '/' :: name

/-- The name that ends a path. -/
def fileName (path : List Component) : Option (List Char) :=
  match path.getLast? with
  | some (.normal name) => some name
  | _ => none

/-- A path as a text. -/
def display : List Component → String
  | [] => ""
  | [c] => text c
  | .rootDir :: cs => "/" ++ display cs
  | c :: cs => text c ++ "/" ++ display cs
where
  text : Component → String
    | .rootDir => "/"
    | .curDir => "."
    | .parentDir => ".."
    | .normal name => .ofList name

/-- A file name without a separator. -/
structure Plain (name : List Char) : Prop where
  noSep : '/' ∉ name
  ofPiece : ofPiece name = some (.normal name)

variable {dir x y : List Char}

/-- The pieces of a path have no separators. -/
theorem sep_not_mem_of_mem_splitOn {path : List Char} (h : x ∈ path.splitOn '/') : '/' ∉ x :=
  Text.notMem_of_mem_splitOn h

/-- The names in a path are plain. -/
theorem plain_of_mem_components {path : List Char} (h : .normal x ∈ components path) :
    Plain x := by
  have hpiece : ∃ p ∈ path.splitOn '/', ofPiece p = some (.normal x) := by
    rcases List.mem_append.1 h with h | h
    · rw [lead] at h
      split at h
      · cases List.mem_singleton.1 h
      · split at h
        · cases List.mem_singleton.1 h
        · cases h
    · exact List.mem_filterMap.1 h
  obtain ⟨p, hp, hx⟩ := hpiece
  have hpx : p = x := by
    rw [ofPiece] at hx
    split at hx
    · cases hx
    · split at hx
      · cases hx
      · exact Component.normal.inj (Option.some.inj hx)
  subst hpx
  exact ⟨sep_not_mem_of_mem_splitOn hp, hx⟩

theorem mem_of_fileName {path : List Component} (h : fileName path = some x) :
    .normal x ∈ path := by
  rw [fileName] at h
  split at h
  next name hlast =>
    rw [← Option.some.inj h]
    exact List.mem_of_getLast? hlast
  · cases h

theorem Plain.splitOn (h : Plain x) : x.splitOn '/' = [x] := by
  rw [List.splitOn_eq_splitOnP]
  refine List.splitOnP_eq_singleton fun c hc => ?_
  exact beq_false_of_ne fun hsep => h.noSep (hsep ▸ hc)

theorem splitOn_append_cons (hx : Plain x) : (dir ++ '/' :: x).splitOn '/' =
    dir.splitOn '/' ++ [x] := by
  have hsplit := hx.splitOn
  rw [List.splitOn_eq_splitOnP] at hsplit ⊢
  rw [List.splitOnP_append_cons _ _ (by decide), hsplit, List.splitOn_eq_splitOnP]

/-- The last component of a joined plain name is that name. -/
theorem components_join (dir : List Char) (hx : Plain x) :
    ∃ cs, components (join dir x) = cs ++ [.normal x] := by
  have hlast (d : List Char) : ∃ cs, components (d ++ '/' :: x) = cs ++ [.normal x] := by
    refine ⟨lead (d ++ '/' :: x) ++ (d.splitOn '/').filterMap ofPiece, ?_⟩
    rw [components, splitOn_append_cons hx, List.filterMap_append, List.append_assoc]
    simp [hx.ofPiece]
  have hhead : x.head? ≠ some '/' := fun h => hx.noSep (List.mem_of_head? h)
  rw [join, if_neg hhead]
  split
  next hdir =>
    rcases hdir with rfl | hdir
    · refine ⟨lead x, ?_⟩
      rw [List.nil_append, components, hx.splitOn]
      simp [hx.ofPiece]
    · obtain ⟨d, rfl⟩ := List.getLast?_eq_some_iff.1 hdir
      rw [List.append_assoc]
      exact hlast d
  · exact hlast dir

theorem fileName_join (dir : List Char) (hx : Plain x) :
    fileName (components (join dir x)) = some x := by
  obtain ⟨cs, hcs⟩ := components_join dir hx
  rw [fileName, hcs, List.getLast?_concat]

/-- Plain names in one directory give different paths. -/
theorem join_inj (hx : Plain x) (hy : Plain y)
    (h : components (join dir x) = components (join dir y)) : x = y := by
  have hname := fileName_join dir hx
  rw [h, fileName_join dir hy] at hname
  exact (Option.some.inj hname).symm

/-! ### Files inside a directory -/

/-- What a path starts with does not depend on what comes after a separator. -/
theorem lead_append_sep (d x : List Char) : lead (d ++ '/' :: x) = lead (d ++ ['/']) := by
  have hhead : (d ++ '/' :: x).head? = (d ++ ['/']).head? := by cases d <;> rfl
  rw [lead, lead, hhead, List.splitOn_append_cons_self, List.splitOn_append_cons_self,
    List.head?_append_of_ne_nil _ (List.splitOn_ne_nil _ _),
    List.head?_append_of_ne_nil _ (List.splitOn_ne_nil _ _)]

/-- A separator at the end of a path does not count. -/
theorem components_append_sep (hdir : dir ≠ []) : components (dir ++ ['/']) = components dir := by
  have hhead : (dir ++ ['/']).head? = dir.head? := List.head?_append_of_ne_nil _ hdir
  rw [components, components, lead, lead, hhead, List.splitOn_append_cons_self,
    List.head?_append_of_ne_nil _ (List.splitOn_ne_nil _ _), List.filterMap_append,
    List.splitOn_nil]
  simp [ofPiece]

theorem components_append_cons (d : List Char) (hx : '/' ∉ x) :
    components (d ++ '/' :: x) = components (d ++ ['/']) ++ (ofPiece x).toList := by
  rw [components, components, lead_append_sep, List.splitOn_append_cons_self,
    List.splitOn_append_cons_self, List.splitOn_eq_singleton hx, List.filterMap_append,
    List.filterMap_append, List.splitOn_nil, List.append_assoc, List.append_assoc]
  have hnil : ofPiece [] = none := rfl
  cases hpiece : ofPiece x <;> simp [hnil, hpiece]

/-- **A name without a separator that is not `..` stays inside its directory.** -/
theorem components_join_inside (dir : List Char) (hx : '/' ∉ x) (hdots : x ≠ ['.', '.']) :
    ∃ rest, components (join dir x) = components dir ++ rest ∧ .rootDir ∉ rest ∧
      .parentDir ∉ rest := by
  have hpiece (c : Component) (hc : c ∈ (ofPiece x).toList) : c = .normal x := by
    rw [ofPiece] at hc
    split at hc
    · cases hc
    · exact List.mem_singleton.1 hc
  have hinside (c : Component) (hc : c ≠ .normal x) : c ∉ (ofPiece x).toList :=
    fun hmem => hc (hpiece c hmem)
  have hhead : x.head? ≠ some '/' := fun h => hx (List.mem_of_head? h)
  rw [join, if_neg hhead]
  split
  next hdir =>
    by_cases hnil : dir = []
    · subst hnil
      refine ⟨components x, rfl, ?_⟩
      rw [components, lead, if_neg hhead, List.splitOn_eq_singleton hx]
      have hlast : [x].filterMap ofPiece = (ofPiece x).toList := by
        cases hx' : ofPiece x <;> simp [hx']
      rw [hlast]
      constructor
      · rw [List.mem_append, not_or]
        refine ⟨?_, hinside _ nofun⟩
        split <;> simp
      · rw [List.mem_append, not_or]
        refine ⟨?_, hinside _ nofun⟩
        split <;> simp
    · obtain ⟨d, rfl⟩ := List.getLast?_eq_some_iff.1 (hdir.resolve_left hnil)
      rw [List.append_assoc, List.singleton_append, components_append_cons d hx]
      exact ⟨_, rfl, hinside _ nofun, hinside _ nofun⟩
  next hdir =>
    rw [components_append_cons dir hx, components_append_sep fun h => hdir (.inl h)]
    exact ⟨_, rfl, hinside _ nofun, hinside _ nofun⟩

end OxEmbed.UnixPath
