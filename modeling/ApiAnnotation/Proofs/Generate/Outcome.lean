import ApiAnnotation.Generate
import ApiAnnotation.Proofs.Compile.FirstNameless

/-!
# What a run comes to

Several things can go wrong in a run, and of those that do only one is told. Which one it is follows
from the order of the stages and not from where in the tree the faults lie: options come before
patterns, and all patterns before the first file. So a pattern that cannot be read is told of even
if an earlier pattern matches a file that does not compile. Among the files, which are taken in the
order of the patterns and of the matches of each, it is the first one at fault that is told of,
whether it cannot be read or does not compile.

`ApiAnnotation.Run` says what a run comes to without running anything. A run that fails nowhere
comes to what all files contribute in a row, taken in at once, although each file is taken in before
the next one is read.

## Main definitions

* `ApiAnnotation.FileFault`: what may be told of a file.
* `ApiAnnotation.Run`: what a run comes to.

## Main statements

* `ApiAnnotation.compileFile_eq_error_iff`: what is told of a file.
* `ApiAnnotation.foldlM_takeFile`: taking in files one by one is taking in all they contribute.
* `ApiAnnotation.generate_eq_iff_run`: a run comes to what `ApiAnnotation.Run` says.
-/

namespace ApiAnnotation

/-! ### One source -/

/-- A source with a nameless block does not compile, and what is told points at the first one. -/
theorem FirstNameless.compileSource_eq {source : String} {span : Span}
    (h : FirstNameless source span) (file : String) :
    compileSource file source = .error (.namelessAt file span) := by
  obtain ⟨past, block, rest, hsplit, hnameless, hspan, -, hpast⟩ := h
  rw [compileSource, hsplit, List.filter_append, List.filter_cons_of_pos hnameless.isSignificant]
  refine mapM_append_eq_error (fun earlier hearlier => ?_) ?_ _
  · obtain ⟨-, f, hf⟩ := hpast earlier (List.mem_filter.mp hearlier).1
    exact ⟨f, by rw [Block.fragmentIn, hf]⟩
  · rw [Block.fragmentIn, (Block.fragment?_eq_none_iff block).mpr hnameless, hspan]

/-! ### One file -/

section File

variable {tree : FileTree} {path : String}

/-- **What may be told of a file**: that it cannot be read, or where it defines a schema without a
name. -/
inductive FileFault (tree : FileTree) (path : String) : GenerateError → Prop
  /-- The file cannot be read. -/
  | unreadable {fault : ReadFault} :
    tree.read path = .error fault → FileFault tree path (.unreadable path fault)
  /-- The file holds a nameless block, the first of which is pointed at. -/
  | nameless {source : String} {span : Span} :
    tree.read path = .ok source → FirstNameless source span →
      FileFault tree path (.compile (.namelessAt path span))

/-- **What a file contributes**: the fragments of its source. -/
def Contributes (tree : FileTree) (path : String) (fs : List Fragment) : Prop :=
  ∃ source, tree.read path = .ok source ∧ compileSource path source = .ok fs

/-- A file that can be read comes to what its source does. -/
theorem compileFile_of_read {source : String} (h : tree.read path = .ok source) :
    compileFile tree path = (compileSource path source).mapError .compile := by
  rw [compileFile, h]

theorem compileFile_eq_ok_iff {fs : List Fragment} :
    compileFile tree path = .ok fs ↔ Contributes tree path fs := by
  constructor
  · intro h
    rcases hread : tree.read path with fault | source
    · rw [compileFile, hread] at h
      cases h
    · rw [compileFile_of_read hread] at h
      rcases hcompile : compileSource path source with e | gs
      · rw [hcompile] at h
        cases h
      · rw [hcompile] at h
        exact ⟨source, hread, hcompile.trans (congrArg _ (Except.ok.inj h))⟩
  · rintro ⟨source, hread, hcompile⟩
    rw [compileFile_of_read hread, hcompile]
    rfl

/-- **What is told of a file.** -/
theorem compileFile_eq_error_iff {e : GenerateError} :
    compileFile tree path = .error e ↔ FileFault tree path e := by
  constructor
  · intro h
    rcases hread : tree.read path with fault | source
    · rw [compileFile, hread] at h
      obtain rfl := Except.error.inj h
      exact .unreadable hread
    · rw [compileFile_of_read hread] at h
      rcases hcompile : compileSource path source with e' | gs
      · obtain ⟨span, rfl, hspan⟩ := compileSource_eq_error hcompile
        rw [hcompile] at h
        obtain rfl := Except.error.inj h
        exact .nameless hread hspan
      · rw [hcompile] at h
        cases h
  · rintro (hread | ⟨hread, hspan⟩)
    · rw [compileFile, hread]
    · rw [compileFile_of_read hread, hspan.compileSource_eq path]
      rfl

/-- A file of which nothing may be told contributes. -/
theorem exists_compileFile_eq_ok_iff :
    (∃ fs, compileFile tree path = .ok fs) ↔ ∀ e, ¬FileFault tree path e := by
  simp only [← compileFile_eq_error_iff]
  rcases compileFile tree path with e | fs
  · exact iff_of_false nofun fun h => h e rfl
  · exact iff_of_true ⟨fs, rfl⟩ nofun

end File

/-! ### All files -/

/-- **Taking in files one by one is taking in all they contribute**, in one go and in their
order. -/
theorem foldlM_takeFile (tree : FileTree) (paths : List String) (doc : Document) :
    paths.foldlM (Document.takeFile tree) doc =
      (paths.mapM (compileFile tree)).map fun parts => doc.mergeAll parts.flatten := by
  induction paths generalizing doc with
  | nil => rfl
  | cons path paths ih =>
    rw [List.foldlM_cons, List.mapM_cons, Document.takeFile]
    rcases compileFile tree path with e | fs
    · rfl
    · refine (ih (doc.mergeAll fs)).trans ?_
      rcases paths.mapM (compileFile tree) with e | parts
      · rfl
      · exact congrArg Except.ok List.foldl_append.symm

/-! ### The whole run -/

namespace Options

/-- **What a pattern of the options finds**: it is put behind the base directory, which is the
current one unless told otherwise. -/
def find (o : Options) (tree : FileTree) (pattern : String) :
    Except Glob.PatternFault (List Glob.Visit) :=
  Glob.expand tree (joinPath (o.basedir.getD ".") pattern)

/-- **What a pattern of the options matches**: the files among what it finds. -/
def Matches (o : Options) (tree : FileTree) (pattern : String) (paths : List String) : Prop :=
  ∃ visits, o.find tree pattern = .ok visits ∧
    paths = (visits.filter (·.location.node.isFile)).map (·.path)

/-- **The files of a run**: what the patterns match, in the order of the patterns and of the matches
of each. A file that several patterns match stands there several times. -/
def Lists (o : Options) (tree : FileTree) (paths : List String) : Prop :=
  ∃ patterns parts, o.files = some patterns ∧ List.Forall₂ (o.Matches tree) patterns parts ∧
    paths = parts.flatten

end Options

/-- **What a run comes to.** -/
inductive Run (o : Options) (tree : FileTree) : Except GenerateError Document → Prop
  /-- Without a template nothing else is looked at. -/
  | noTemplate :
    o.template = none → Run o tree (.error (.options (.missingField "swaggerDefinition")))
  /-- Without patterns the tree is not looked at. -/
  | noFiles {template : Template} :
    o.template = some template → o.files = none →
      Run o tree (.error (.options (.missingField "files")))
  /-- The first pattern that cannot be read is told as it stands in the options. -/
  | badPattern {template : Template} {past rest : List String} {pattern : String}
      {fault : Glob.PatternFault} :
    o.template = some template → o.files = some (past ++ pattern :: rest) →
      (∀ earlier ∈ past, ∃ visits, o.find tree earlier = .ok visits) →
      o.find tree pattern = .error fault → Run o tree (.error (.pattern pattern fault))
  /-- The first file of which something may be told is told of. -/
  | badFile {template : Template} {past rest : List String} {path : String} {e : GenerateError} :
    o.template = some template → o.Lists tree (past ++ path :: rest) →
      (∀ earlier ∈ past, ∀ e, ¬FileFault tree earlier e) → FileFault tree path e →
      Run o tree (.error e)
  /-- What the files contribute is taken in at once. -/
  | document {template : Template} {paths : List String} {parts : List (List Fragment)} :
    o.template = some template → o.Lists tree paths →
      List.Forall₂ (Contributes tree) paths parts →
      Run o tree (.ok ((Document.ofTemplate template).mergeAll parts.flatten))

section Run

variable {o : Options} {r : ResolvedOptions} {tree : FileTree} {pattern : String}
  {paths : List String}

theorem Options.resolve_eq_ok_iff :
    o.resolve = .ok r ↔
      o.template = some r.template ∧ o.files = some r.files ∧ r.basedir = o.basedir.getD "." := by
  rw [Options.resolve]
  rcases o.template with _ | template
  · exact iff_of_false nofun nofun
  rcases o.files with _ | patterns
  · exact iff_of_false nofun nofun
  · constructor
    · intro h
      obtain rfl := Except.ok.inj h
      exact ⟨rfl, rfl, rfl⟩
    · rintro ⟨htemplate, hfiles, hbasedir⟩
      obtain rfl := Option.some.inj htemplate
      obtain rfl := Option.some.inj hfiles
      exact congrArg (fun basedir => Except.ok { r with basedir }) hbasedir.symm

/-- A pattern of a run is expanded to what is found of it. -/
theorem Options.expandPattern_of_resolve (h : o.resolve = .ok r) (tree : FileTree)
    (pattern : String) :
    r.expandPattern tree pattern =
      ((o.find tree pattern).map ResolvedOptions.filesAmong).mapError (.pattern pattern) := by
  obtain ⟨-, -, hbasedir⟩ := Options.resolve_eq_ok_iff.mp h
  rw [ResolvedOptions.expandPattern, hbasedir]
  rfl

theorem Options.expandPattern_eq_ok_iff (h : o.resolve = .ok r) :
    r.expandPattern tree pattern = .ok paths ↔ o.Matches tree pattern paths := by
  rw [Options.expandPattern_of_resolve h, Options.Matches]
  rcases o.find tree pattern with fault | visits
  · exact iff_of_false nofun fun ⟨_, hvisits, _⟩ => nomatch hvisits
  · constructor
    · intro hpaths
      exact ⟨visits, rfl, (Except.ok.inj hpaths).symm⟩
    · rintro ⟨visits', hvisits, rfl⟩
      obtain rfl := Except.ok.inj hvisits
      rfl

theorem Options.expandPattern_eq_error_iff (h : o.resolve = .ok r) {e : GenerateError} :
    r.expandPattern tree pattern = .error e ↔
      ∃ fault, o.find tree pattern = .error fault ∧ e = .pattern pattern fault := by
  rw [Options.expandPattern_of_resolve h]
  rcases o.find tree pattern with fault | visits
  · constructor
    · intro he
      exact ⟨fault, rfl, (Except.error.inj he).symm⟩
    · rintro ⟨fault', hfault, rfl⟩
      obtain rfl := Except.error.inj hfault
      rfl
  · exact iff_of_false nofun fun ⟨_, hfault, _⟩ => nomatch hfault

/-- A pattern can be read exactly if it is expanded to some files. -/
theorem Options.exists_expandPattern_eq_ok_iff (h : o.resolve = .ok r) :
    (∃ paths, r.expandPattern tree pattern = .ok paths) ↔
      ∃ visits, o.find tree pattern = .ok visits := by
  simp only [Options.expandPattern_eq_ok_iff h, Options.Matches]
  exact ⟨fun ⟨_, visits, hvisits, _⟩ => ⟨visits, hvisits⟩,
    fun ⟨visits, hvisits⟩ => ⟨_, visits, hvisits, rfl⟩⟩

/-- **The files that a run takes are those it lists.** -/
theorem Options.expandFiles_eq_ok_iff (h : o.resolve = .ok r) :
    r.expandFiles tree = .ok paths ↔ o.Lists tree paths := by
  obtain ⟨-, hfiles, -⟩ := Options.resolve_eq_ok_iff.mp h
  have hmatches : ∀ parts, r.files.mapM (r.expandPattern tree) = .ok parts ↔
      List.Forall₂ (o.Matches tree) r.files parts := by
    intro parts
    simp only [mapM_eq_ok_iff, Options.expandPattern_eq_ok_iff h]
  rw [ResolvedOptions.expandFiles, Options.Lists]
  constructor
  · intro hpaths
    rcases hparts : r.files.mapM (r.expandPattern tree) with e | parts
    · rw [hparts] at hpaths
      cases hpaths
    · rw [hparts] at hpaths
      exact ⟨r.files, parts, hfiles, (hmatches parts).mp hparts, (Except.ok.inj hpaths).symm⟩
  · rintro ⟨patterns, parts, hpatterns, hparts, rfl⟩
    obtain rfl := Option.some.inj (hfiles.symm.trans hpatterns)
    rw [(hmatches parts).mpr hparts]
    rfl

/-- **A run stops at the first pattern that cannot be read.** -/
theorem Options.expandFiles_eq_error_iff (h : o.resolve = .ok r) {e : GenerateError} :
    r.expandFiles tree = .error e ↔
      ∃ past pattern rest fault, r.files = past ++ pattern :: rest ∧
        (∀ earlier ∈ past, ∃ visits, o.find tree earlier = .ok visits) ∧
        o.find tree pattern = .error fault ∧ e = .pattern pattern fault := by
  rw [ResolvedOptions.expandFiles]
  constructor
  · intro he
    rcases hparts : r.files.mapM (r.expandPattern tree) with e' | parts
    · rw [hparts] at he
      obtain rfl := Except.error.inj he
      obtain ⟨past, pattern, rest, hsplit, hpattern, hpast⟩ := mapM_eq_error hparts
      obtain ⟨fault, hfault, rfl⟩ := (Options.expandPattern_eq_error_iff h).mp hpattern
      exact ⟨past, pattern, rest, fault, hsplit, fun earlier hearlier =>
        (Options.exists_expandPattern_eq_ok_iff h).mp (hpast earlier hearlier), hfault, rfl⟩
    · rw [hparts] at he
      cases he
  · rintro ⟨past, pattern, rest, fault, hsplit, hpast, hfault, rfl⟩
    have hpattern := (Options.expandPattern_eq_error_iff h).mpr ⟨fault, hfault, rfl⟩
    rw [hsplit, mapM_append_eq_error (fun earlier hearlier =>
      (Options.exists_expandPattern_eq_ok_iff h).mpr (hpast earlier hearlier)) hpattern]
    rfl

/-- Once options are resolved, a run expands the patterns and takes in what all files contribute. -/
theorem generate_of_resolve (h : o.resolve = .ok r) (tree : FileTree) :
    generate o tree = (r.expandFiles tree).bind fun files =>
      (files.mapM (compileFile tree)).map fun parts =>
        (Document.ofTemplate r.template).mergeAll parts.flatten := by
  simp only [← foldlM_takeFile]
  rw [generate, h]
  rfl

/-- A run comes to something that it may come to. -/
theorem run_generate (o : Options) (tree : FileTree) : Run o tree (generate o tree) := by
  rcases htemplate : o.template with _ | template
  · rw [generate, Options.resolve, htemplate]
    exact .noTemplate htemplate
  rcases hfiles : o.files with _ | patterns
  · rw [generate, Options.resolve, htemplate, hfiles]
    exact .noFiles htemplate hfiles
  have hresolve : o.resolve =
      .ok { basedir := o.basedir.getD ".", files := patterns, template } :=
    Options.resolve_eq_ok_iff.mpr ⟨htemplate, hfiles, rfl⟩
  rw [generate_of_resolve hresolve]
  rcases hexpand : ResolvedOptions.expandFiles _ tree with e | paths
  · obtain ⟨past, pattern, rest, fault, rfl, hpast, hfault, rfl⟩ :=
      (Options.expandFiles_eq_error_iff hresolve).mp hexpand
    exact .badPattern htemplate hfiles hpast hfault
  have hlists := (Options.expandFiles_eq_ok_iff hresolve).mp hexpand
  show Run o tree (Except.map _ (paths.mapM (compileFile tree)))
  rcases hparts : paths.mapM (compileFile tree) with e | parts
  · obtain ⟨past, path, rest, rfl, hpath, hpast⟩ := mapM_eq_error hparts
    exact .badFile htemplate hlists
      (fun earlier hearlier => exists_compileFile_eq_ok_iff.mp (hpast earlier hearlier))
      (compileFile_eq_error_iff.mp hpath)
  · exact .document htemplate hlists
      ((mapM_eq_ok_iff.mp hparts).imp fun _ _ => compileFile_eq_ok_iff.mp)

/-- A run comes to nothing else. -/
theorem Run.generate_eq {result : Except GenerateError Document} (h : Run o tree result) :
    generate o tree = result := by
  have hresolve : ∀ {template patterns}, o.template = some template → o.files = some patterns →
      o.resolve = .ok { basedir := o.basedir.getD ".", files := patterns, template } :=
    fun htemplate hfiles => Options.resolve_eq_ok_iff.mpr ⟨htemplate, hfiles, rfl⟩
  cases h with
  | noTemplate htemplate =>
    rw [generate, Options.resolve, htemplate]
    rfl
  | noFiles htemplate hfiles =>
    rw [generate, Options.resolve, htemplate, hfiles]
    rfl
  | badPattern htemplate hfiles hpast hfault =>
    have hresolve := hresolve htemplate hfiles
    rw [generate_of_resolve hresolve, (Options.expandFiles_eq_error_iff hresolve).mpr
      ⟨_, _, _, _, rfl, hpast, hfault, rfl⟩]
    rfl
  | badFile htemplate hlists hpast hfault =>
    obtain ⟨patterns, -, hfiles, -⟩ := id hlists
    have hresolve := hresolve htemplate hfiles
    rw [generate_of_resolve hresolve, (Options.expandFiles_eq_ok_iff hresolve).mpr hlists]
    refine congrArg (Except.map _) (mapM_append_eq_error (fun earlier hearlier => ?_)
      (compileFile_eq_error_iff.mpr hfault) _)
    exact exists_compileFile_eq_ok_iff.mpr (hpast earlier hearlier)
  | document htemplate hlists hparts =>
    obtain ⟨patterns, -, hfiles, -⟩ := id hlists
    have hresolve := hresolve htemplate hfiles
    rw [generate_of_resolve hresolve, (Options.expandFiles_eq_ok_iff hresolve).mpr hlists]
    refine congrArg (Except.map _) (mapM_eq_ok_iff.mpr ?_)
    exact hparts.imp fun _ _ => compileFile_eq_ok_iff.mpr

/-- **What a run comes to.** The options alone, then the patterns alone, then the files one after
the other decide on a failure, and if nothing fails, the document is that of the template with all
contributions in the order of the files. -/
theorem generate_eq_iff_run {result : Except GenerateError Document} :
    generate o tree = result ↔ Run o tree result := by
  constructor
  · rintro rfl
    exact run_generate o tree
  · exact Run.generate_eq

example : generate { template := some {}, files := some ["a.js", "**a"] }
    (.directory [("a.js", .file none)]) = .error (.pattern "**a" ⟨4, .recursion⟩) := by
  decide +kernel

end Run

end ApiAnnotation
