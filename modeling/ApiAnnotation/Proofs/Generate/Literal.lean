import ApiAnnotation.Generate
import ApiAnnotation.Proofs.Compile.FirstNameless
import ApiAnnotation.Proofs.Text.Parts

/-!
# Files that are named as they stand

The files of a run may be listed one by one, without wildcards. Each is then found at the place that
its name leads to from the base directory, and nothing else is. This needs more than that the names
are free of wildcards: the base directory is put in front of a name before the whole is read as a
pattern, so the name of the directory has to be free of them, too
(`ApiAnnotation.Glob.IsLiteral`). A directory with a bracket in its name is not found.

A pattern that stands for itself is read as the components of a path. They are entered one after the
other, as they are when a file is looked up, and the path that is spelled on the way is the pattern.

## Main statements

* `ApiAnnotation.Glob.parse_of_literal`: a pattern that stands for itself is read as its components.
* `ApiAnnotation.Glob.expand_of_literal`: it leads to one place, by the path that it is.
* `ApiAnnotation.ResolvedOptions.expandFiles_of_literal`: the files of a run that are named as they
  stand.
-/

namespace ApiAnnotation

/-- A walk that succeeds at every item gathers what is found there. -/
theorem mapM_eq_ok_map {ε α β : Type} {f : α → Except ε β} {g : α → β} {l : List α}
    (h : ∀ a ∈ l, f a = .ok (g a)) : l.mapM f = .ok (l.map g) :=
  mapM_eq_ok_iff.mpr (List.forall₂_map_right_iff.mpr (List.forall₂_same.mpr h))

theorem Text.endsWith_iff (s pat : String) : s.endsWith pat = true ↔ pat.toList <:+ s.toList := by
  have h : s.toSlice.endsWith pat = true ↔ pat.toList <:+ s.toSlice.copy.toList :=
    String.Slice.endsWith_string_iff
  rwa [String.copy_toSlice] at h

namespace FileTree

variable {path directory entry : String}

/-! ### Components of a path -/

theorem components_ne_nil (path : String) : components path ≠ [] := fun h =>
  List.splitOn_ne_nil _ _ (List.map_eq_nil_iff.mp h)

/-- A path behind a directory has the components of both. -/
theorem components_append (directory entry : String) :
    components (directory ++ "/" ++ entry) = components directory ++ components entry := by
  have htext : (directory ++ "/" ++ entry).toList = directory.toList ++ '/' :: entry.toList := by
    simp
  rw [components, Text.segments, htext, List.splitOn_append_cons_self, List.map_append]
  rfl

/-- A slash in front leaves the first component empty. -/
theorem empty_mem_components_of_startsWith (h : path.startsWith "/" = true) :
    "" ∈ components path := by
  obtain ⟨rest, hrest⟩ := String.startsWith_string_iff.mp h
  have hpath : path = "" ++ "/" ++ String.ofList rest := by
    rw [← String.toList_inj, ← hrest]
    simp
  rw [hpath, components_append]
  exact List.mem_append_left _ (List.mem_singleton_self _)

/-- A slash at the end leaves the last component empty. -/
theorem empty_mem_components_of_endsWith (h : path.endsWith "/" = true) :
    "" ∈ components path := by
  obtain ⟨front, hfront⟩ := (Text.endsWith_iff path "/").mp h
  have hpath : path = String.ofList front ++ "/" ++ "" := by
    rw [← String.toList_inj, ← hfront]
    simp
  rw [hpath, components_append]
  exact List.mem_append_right _ (List.mem_singleton_self _)

end FileTree

/-- What leads on from where names lead. -/
theorem Location.walk_append (loc : Location) (names rest : List String) :
    loc.walk (names ++ rest) = (loc.walk names).bind (·.walk rest) := by
  induction names generalizing loc with
  | nil => rfl
  | cons name names ih =>
    rw [List.cons_append, walk, walk]
    cases loc.step name with
    | error fault => rfl
    | ok next => exact ih next

namespace Glob

variable {text : String} {names : List String}

/-! ### Patterns that stand for themselves -/

/-- **Whether a text stands for itself** when it is read as a pattern: it has no wildcards and opens
no bracket. -/
def IsLiteral (text : String) : Prop := ∀ c ∈ text.toList, c ≠ '*' ∧ c ≠ '?' ∧ c ≠ '['

instance (text : String) : Decidable (IsLiteral text) := List.decidableBAll _ _

theorem atomsFrom_of_literal {cs : List Char} (h : ∀ c ∈ cs, c ≠ '*' ∧ c ≠ '?' ∧ c ≠ '[')
    {fuel : Nat} (hfuel : cs.length ≤ fuel) (before : Option Char) (position : Nat) :
    atomsFrom fuel before position cs = .ok (cs.map .char) := by
  induction cs generalizing fuel before position with
  | nil => cases fuel <;> rfl
  | cons c cs ih =>
    obtain ⟨fuel, rfl⟩ := Nat.exists_eq_add_one_of_ne_zero (Nat.ne_zero_of_lt hfuel)
    obtain ⟨⟨hstar, hquestion, hbracket⟩, hcs⟩ := List.forall_mem_cons.mp h
    rw [atomsFrom, if_neg hbracket, ih hcs (Nat.le_of_succ_le_succ hfuel), if_neg hstar,
      if_neg hquestion]
    · rfl
    · rintro _ rfl
      exact absurd rfl hstar
    · rintro _ rfl
      exact absurd rfl hstar

/-- A text that stands for itself is read as its characters. -/
theorem atoms_of_literal (h : IsLiteral text) : atoms text = .ok (text.toList.map .char) :=
  atomsFrom_of_literal h (Nat.le_of_eq String.length_toList) _ _

theorem plainText?_map_char (cs : List Char) : plainText? (cs.map .char) = some cs := by
  induction cs with
  | nil => rfl
  | cons c cs ih =>
    rw [plainText?] at ih ⊢
    rw [List.map_cons, List.mapM_cons, ih]
    rfl

theorem Component.ofAtoms_map_char (cs : List Char) :
    ofAtoms (cs.map .char) = .name (String.ofList cs) := by
  rw [ofAtoms, plainText?_map_char]

/-- **A pattern that stands for itself is read as its components.** -/
theorem parse_of_literal (h : IsLiteral text) :
    parse text = .ok ((componentTexts text).map .name) := by
  have hcomponent : ∀ part ∈ componentTexts text,
      (atoms part).map Component.ofAtoms = .ok (.name part) := by
    intro part hpart
    have hmem : part ∈ Text.segments '/' text := by
      rw [componentTexts] at hpart
      split at hpart
      · exact List.mem_of_mem_dropLast hpart
      · exact hpart
    rw [atoms_of_literal fun c hc => h c (Text.mem_of_mem_segments hmem hc), Except.map,
      Component.ofAtoms_map_char, String.ofList_toList]
  rw [parse, atoms_of_literal h]
  exact mapM_eq_ok_map hcomponent

/-! ### Entering names one after the other -/

/-- The path that names spell, each being put behind those before it. -/
theorem Visit.foldl_pathTo {path : String} (hroot : path ≠ rootPath)
    (hslash : path.toList.getLast? ≠ some '/')
    (hnames : ∀ name ∈ names, name ≠ "" ∧ '/' ∉ name.toList) :
    (names.foldl pathTo path).toList = path.toList ++ names.flatMap ('/' :: ·.toList) := by
  induction names generalizing path with
  | nil => exact (List.append_nil _).symm
  | cons name names ih =>
    obtain ⟨⟨hname, hfree⟩, hnames⟩ := List.forall_mem_cons.mp hnames
    have hends : ¬path.endsWith "/" = true := by
      rw [Text.endsWith_iff]
      rintro ⟨front, hfront⟩
      exact hslash (by simp [← hfront])
    have hpath : pathTo path name = path ++ "/" ++ name := by
      rw [pathTo, if_neg hroot, if_neg hends]
    have hnext : (path ++ "/" ++ name).toList = path.toList ++ '/' :: name.toList := by simp
    rw [List.foldl_cons, hpath, ih ?_ ?_ hnames, hnext]
    · simp
    · intro heq
      have hmem : '/' ∈ (path ++ "/" ++ name).toList := by simp
      rw [heq] at hmem
      exact absurd hmem (by decide)
    · intro hlast
      have hne : name.toList ≠ [] := by simpa using hname
      rw [hnext, List.getLast?_append_cons, List.getLast?_cons_of_ne_nil hne] at hlast
      exact hfree (List.mem_of_getLast? hlast)

/-- **Names are entered one after the other**, as they are when a path is walked. -/
theorem expandFrom_names {v : Visit} {loc : Location} (h : v.location.walk names = .ok loc)
    (hnames : "" ∉ names) :
    expandFrom (names.map .name) v = [⟨names.foldl Visit.pathTo v.path, loc⟩] := by
  induction names generalizing v with
  | nil =>
    obtain rfl := Except.ok.inj h
    rfl
  | cons name names ih =>
    rw [List.mem_cons, not_or] at hnames
    rw [Location.walk] at h
    rcases hstep : v.location.step name with fault | next
    · rw [hstep] at h
      cases h
    · rw [hstep] at h
      have henter : v.enter? name = some ⟨Visit.pathTo v.path name, next⟩ := by
        rw [Visit.enter?, hstep]
        simp [Ne.symm hnames.1]
      rw [List.map_cons, expandFrom, henter]
      exact ih h hnames.2

/-- The path that the components of a path spell from the root on is that path. -/
theorem Visit.foldl_pathTo_components {path : String} (hempty : "" ∉ FileTree.components path)
    (hfirst : (FileTree.components path).head? ≠ some rootPath) :
    (FileTree.components path).foldl pathTo rootPath = path := by
  have hnames : ∀ name ∈ FileTree.components path, name ≠ "" ∧ '/' ∉ name.toList :=
    fun name hname => ⟨fun heq => hempty (heq ▸ hname), Text.not_mem_of_mem_segments hname⟩
  have hspelled : ['/'].intercalate ((FileTree.components path).map String.toList) =
      path.toList := by
    rw [FileTree.components, Text.segments, List.map_map]
    have hid : String.toList ∘ String.ofList = id := funext fun _ => String.toList_ofList
    rw [hid, List.map_id, List.intercalate_splitOn]
  rcases hcomponents : FileTree.components path with _ | ⟨first, rest⟩
  · exact absurd hcomponents (FileTree.components_ne_nil path)
  rw [hcomponents] at hnames hfirst hspelled
  obtain ⟨⟨-, hfree⟩, hrest⟩ := List.forall_mem_cons.mp hnames
  rw [List.foldl_cons, pathTo, if_pos rfl, ← String.toList_inj, foldl_pathTo ?_ ?_ hrest,
    ← hspelled, List.map_cons, Text.intercalate_cons, List.flatMap_map]
  · exact fun heq => hfirst (congrArg some heq)
  · exact fun hlast => hfree (List.mem_of_getLast? hlast)

/-- **A pattern that stands for itself leads to one place**, by the path that it is. -/
theorem expand_of_literal {tree : FileTree} {path : String} {loc : Location}
    (h : IsLiteral path) (hempty : "" ∉ FileTree.components path)
    (hfirst : (FileTree.components path).head? ≠ some Visit.rootPath)
    (hwalk : Location.walk { node := tree } (FileTree.components path) = .ok loc) :
    expand tree path = .ok [⟨path, loc⟩] := by
  have htexts : componentTexts path = FileTree.components path := by
    rw [componentTexts, if_neg]
    · rfl
    · exact fun hlast => hempty (List.mem_of_getLast? hlast)
  have hstart : ¬path.startsWith "/" = true := fun hslash =>
    hempty (FileTree.empty_mem_components_of_startsWith hslash)
  have hend : ¬path.endsWith "/" = true := fun hslash =>
    hempty (FileTree.empty_mem_components_of_endsWith hslash)
  have hvisits := expandFrom_names (v := .root tree) hwalk hempty
  rw [show (Visit.root tree).path = Visit.rootPath from rfl,
    Visit.foldl_pathTo_components hempty hfirst] at hvisits
  rw [expand, parse_of_literal h, htexts]
  simp only [Except.map, if_neg hstart, if_neg hend, hvisits]

end Glob

/-! ### Files that are named as they stand -/

namespace FileTree

/-- **A text names a directory of a tree**: it is a relative path of names without wildcards, and it
leads from the root to a place. -/
structure NamesDirectory (tree : FileTree) (directory : String) (loc : Location) : Prop where
  /-- There are no wildcards in it. -/
  literal : Glob.IsLiteral directory
  /-- No component is empty, so the path is relative. -/
  empty : "" ∉ components directory
  /-- No component stands for the place itself. -/
  dot : "." ∉ components directory
  /-- It leads to the place. -/
  locate : tree.locate directory = .ok loc

/-- **A text names a file beneath a place**: it is a relative path without wildcards, and it leads
from the place to a file. -/
structure NamesFile (loc : Location) (entry : String) : Prop where
  /-- There are no wildcards in it. -/
  literal : Glob.IsLiteral entry
  /-- No component is empty, so the path is relative. -/
  empty : "" ∉ components entry
  /-- It leads to a file. -/
  walk : ∃ file, loc.walk (components entry) = .ok file ∧ file.node.isFile = true

variable {tree : FileTree} {directory entry : String} {loc : Location}

/-- A text names a file if what it leads to is found to be one. -/
theorem NamesFile.of_map (hlocate : tree.locate directory = .ok loc)
    (hliteral : Glob.IsLiteral entry) (hempty : "" ∉ components entry)
    (hfile : ((tree.locate directory).bind fun loc => loc.walk (components entry)).map
      (·.node.isFile) = .ok true) : NamesFile loc entry := by
  refine ⟨hliteral, hempty, ?_⟩
  rw [hlocate] at hfile
  change (loc.walk (components entry)).map (·.node.isFile) = .ok true at hfile
  rcases hwalk : loc.walk (components entry) with fault | file
  · rw [hwalk] at hfile
    cases hfile
  · rw [hwalk] at hfile
    exact ⟨file, rfl, Except.ok.inj hfile⟩

theorem NamesDirectory.walk (h : tree.NamesDirectory directory loc) :
    Location.walk { node := tree } (components directory) = .ok loc := by
  have hlocate := h.locate
  rw [FileTree.locate] at hlocate
  split at hlocate
  · cases hlocate
  · exact hlocate

/-- A file beneath a directory is found by the path behind the directory, and nothing else is. -/
theorem NamesFile.expand (h : NamesFile loc entry)
    (hdirectory : tree.NamesDirectory directory loc) :
    ∃ file : Location, file.node.isFile = true ∧
      Glob.expand tree (directory ++ "/" ++ entry) = .ok [⟨directory ++ "/" ++ entry, file⟩] := by
  obtain ⟨file, hwalk, hfile⟩ := h.walk
  refine ⟨file, hfile, Glob.expand_of_literal ?_ ?_ ?_ ?_⟩
  · have hslash : Glob.IsLiteral "/" := by decide
    intro c hc
    rw [String.toList_append, String.toList_append, List.mem_append, List.mem_append] at hc
    rcases hc with (hc | hc) | hc
    · exact hdirectory.literal c hc
    · exact hslash c hc
    · exact h.literal c hc
  · rw [components_append, List.mem_append, not_or]
    exact ⟨hdirectory.empty, h.empty⟩
  · obtain ⟨first, rest, hcomponents⟩ :=
      List.exists_cons_of_ne_nil (components_ne_nil directory)
    rw [components_append, hcomponents]
    exact fun hfirst => hdirectory.dot (hcomponents ▸ Option.some.inj hfirst ▸ List.mem_cons_self)
  · rw [components_append, Location.walk_append, hdirectory.walk]
    exact hwalk

end FileTree

namespace ResolvedOptions

open FileTree

variable {o : ResolvedOptions} {tree : FileTree} {directory entry : String} {loc : Location}

/-- A relative path is put behind the base directory and a slash. -/
theorem joinPath_of_components (hdirectory : "" ∉ components directory)
    (hentry : "" ∉ components entry)
    (hbasedir : o.basedir = directory ∨ o.basedir = directory ++ "/") :
    joinPath o.basedir entry = directory ++ "/" ++ entry := by
  have hentry : ¬entry.startsWith "/" = true := fun h =>
    hentry (empty_mem_components_of_startsWith h)
  rw [joinPath, if_neg hentry]
  rcases hbasedir with hbasedir | hbasedir
  · have hne : directory ≠ "" := by
      rintro rfl
      exact hdirectory (List.mem_singleton_self "")
    have hend : ¬directory.endsWith "/" = true := fun h =>
      hdirectory (empty_mem_components_of_endsWith h)
    rw [hbasedir]
    simp [hne, hend]
  · have hend : (directory ++ "/").endsWith "/" = true := by
      rw [Text.endsWith_iff]
      simp
    rw [hbasedir]
    simp [hend]

/-- **Files that are named as they stand are found one by one**, each by its name behind that of the
base directory, which may end in a slash. -/
theorem expandFiles_of_literal (hbasedir : o.basedir = directory ∨ o.basedir = directory ++ "/")
    (hdirectory : tree.NamesDirectory directory loc)
    (hfiles : ∀ entry ∈ o.files, NamesFile loc entry) :
    o.expandFiles tree = .ok (o.files.map fun entry => directory ++ "/" ++ entry) := by
  have hpattern : ∀ entry ∈ o.files,
      o.expandPattern tree entry = .ok [directory ++ "/" ++ entry] := by
    intro entry hmem
    obtain ⟨file, hfile, hexpand⟩ := (hfiles entry hmem).expand hdirectory
    rw [expandPattern, joinPath_of_components hdirectory.empty (hfiles entry hmem).empty hbasedir,
      hexpand]
    simp [Except.map, Except.mapError, filesAmong, hfile]
  rw [expandFiles, mapM_eq_ok_map hpattern, Except.map, ← List.flatMap_def, ← List.map_eq_flatMap]

/-- A base directory with a slash at its end, a file that is listed twice, and a bracket that closes
nothing. -/
theorem expandFiles_of_literal_routes :
    let tree := FileTree.ofList
      [("app/routes/a.js", .file (some "")), ("app/routes/b/c].js", .file none)]
    let o : ResolvedOptions :=
      { basedir := "app/routes/", files := ["b/c].js", "a.js", "a.js"], template := .titled "" "" }
    (∃ loc, tree.NamesDirectory "app/routes" loc ∧ ∀ entry ∈ o.files, NamesFile loc entry) ∧
      o.expandFiles tree =
        .ok ["app/routes/b/c].js", "app/routes/a.js", "app/routes/a.js"] := by
  intro tree o
  have hplain : ∀ entry ∈ o.files, Glob.IsLiteral entry ∧ "" ∉ components entry := by decide
  have hfile : ∀ entry ∈ o.files, ((tree.locate "app/routes").bind fun loc =>
      loc.walk (components entry)).map (·.node.isFile) = .ok true := by
    decide +kernel
  rcases hlocate : tree.locate "app/routes" with fault | loc
  · rw [hlocate] at hfile
    cases hfile "a.js" (by decide)
  have hdirectory : tree.NamesDirectory "app/routes" loc :=
    ⟨by decide, by decide, by decide, hlocate⟩
  have hfiles : ∀ entry ∈ o.files, NamesFile loc entry := fun entry hentry =>
    .of_map hlocate (hplain entry hentry).1 (hplain entry hentry).2 (hfile entry hentry)
  exact ⟨⟨loc, hdirectory, hfiles⟩, expandFiles_of_literal (Or.inr rfl) hdirectory hfiles⟩

/-- **A directory with brackets in its name is read as a pattern**, and the file beneath it is not
found. -/
theorem expandFiles_brackets :
    let tree := FileTree.ofList [("app/[id]/a.js", .file (some ""))]
    let o : ResolvedOptions :=
      { basedir := "app/[id]", files := ["a.js"], template := .titled "" "" }
    (∃ loc, tree.locate o.basedir = .ok loc ∧ loc.node.isFile = false ∧
      ∀ entry ∈ o.files, NamesFile loc entry) ∧
      o.files.map (fun entry => o.basedir ++ "/" ++ entry) = ["app/[id]/a.js"] ∧
      o.expandFiles tree = .ok [] := by
  intro tree o
  have hdirectory : (tree.locate o.basedir).map (·.node.isFile) = .ok false := by decide +kernel
  have hfile : ((tree.locate o.basedir).bind fun loc =>
      loc.walk (components "a.js")).map (·.node.isFile) = .ok true := by
    decide +kernel
  rcases hlocate : tree.locate o.basedir with fault | loc
  · rw [hlocate] at hdirectory
    cases hdirectory
  have hentry : NamesFile loc "a.js" :=
    .of_map hlocate (by decide) (by decide) hfile
  rw [hlocate] at hdirectory
  refine ⟨⟨loc, rfl, Except.ok.inj hdirectory, ?_⟩, by decide, by decide +kernel⟩
  intro entry hmem
  exact List.mem_singleton.mp hmem ▸ hentry

end ResolvedOptions

end ApiAnnotation
