import ApiAnnotation.Proofs.Compile.Origin
import ApiAnnotation.Proofs.Directive.Typedef

/-!
# Required properties

A definition should list a required property once: the list is a set for those who read the
document. Its properties are kept apart by their names, a later one taking the place of an earlier
one, but the names of the required ones are put down as they are met. A property that is marked
twice is listed twice (`ApiAnnotation.Definition.not_nodup_required`), and one that is marked first
and then described again without a mark stays in the list.

So the list has a name as often as the directives mark it (`ApiAnnotation.Definition.ListsMarks`),
and no name stands twice in it exactly if none is marked twice. This is so of the definitions of
every source.

## Main statements

* `ApiAnnotation.Typedef.listsMarks`: the list of a typedef.
* `ApiAnnotation.Block.exists_typedef_of_get?_definitions`: where a definition comes from.
* `ApiAnnotation.Definition.listsMarks_of_typedef_and_of_compileSource`: the lists of typedefs and
  of compiled sources.
-/

namespace ApiAnnotation

/-- **Whether a directive marks the property of a name as required.** -/
def Directive.Marks (name : String) (d : Directive) : Prop :=
  d.title = "property" ∧ d.IsMarked ∧ d.effectiveName = name

instance (name : String) (d : Directive) : Decidable (d.Marks name) :=
  inferInstanceAs (Decidable (_ ∧ _ ∧ _))

/-- **A definition lists marks** if its required properties are those that directives mark. -/
structure Definition.ListsMarks (definition : Definition) (ds : List Directive) : Prop where
  /-- A name is listed as often as it is marked. -/
  count : ∀ name, definition.required.count name = ds.countP fun d => d.Marks name
  /-- No name is listed twice exactly if none is marked twice. -/
  nodup_iff : definition.required.Nodup ↔ ∀ name, (ds.countP fun d => d.Marks name) ≤ 1

theorem Directive.count_requiredNames (name : String) (ds : List Directive) :
    (requiredNames ds).count name = ds.countP fun d => d.Marks name := by
  rw [requiredNames, properties, List.filter_filter, List.count, List.countP_map,
    List.countP_filter]
  refine List.countP_congr fun d _ => ?_
  rw [decide_eq_true_eq, Marks]
  simp [and_comm, and_assoc]

variable {head : Directive} {rest : List Directive} {typedef : Typedef}

/-- **The required properties of a typedef** are those that its directives mark. -/
theorem Typedef.listsMarks (h : ofDirectives? (head :: rest) = some typedef) :
    typedef.definition.ListsMarks rest := by
  have hcount : ∀ name,
      typedef.definition.required.count name = rest.countP fun d => d.Marks name := fun name => by
    rw [(describes_of_ofDirectives? h).required, Directive.count_requiredNames]
  refine ⟨hcount, List.nodup_iff_count_le_one.trans (forall_congr' fun name => ?_)⟩
  rw [hcount]

/-- A definition of a block is that of its typedef. -/
theorem Block.exists_typedef_of_get?_definitions {block : Block} {f : Fragment} {typeName : String}
    {definition : Definition} (h : block.fragment? = some f)
    (hdefinition : f.definitions.get? typeName = some definition) :
    ∃ head rest, block.directives = head :: rest ∧ head.title = "typedef" ∧ head.name = typeName ∧
      Typedef.ofDirectives? (head :: rest) = some ⟨typeName, definition⟩ := by
  rcases typedef_or_describes h with ⟨htypedef, typedef, hread, rfl⟩ | hdescribes
  · obtain ⟨head, hhead, htitle⟩ := (isTypedef_iff block).mp htypedef
    obtain ⟨rest, hdirectives⟩ := List.head?_eq_some_iff.mp (Option.mem_def.mp hhead)
    rw [hdirectives] at hread
    rw [Typedef.toFragment, SortedMap.get?_insert] at hdefinition
    split at hdefinition
    · next heq =>
      obtain rfl := Option.some.inj hdefinition
      have htypeName := (Typedef.describes_of_ofDirectives? hread).typeName
      subst heq
      exact ⟨head, rest, hdirectives, htitle, htypeName.symm, hread⟩
    · cases hdefinition
  · -- a block of operations defines nothing
    rw [hdescribes.definitions] at hdefinition
    cases hdefinition

/-- A definition of a source that is found by running its compilation. -/
theorem exists_definition_of_findSome? {file source typeName : String} {names : List String}
    (h : ((compileSource file source).toOption.bind fun fs =>
      fs.findSome? (·.definitions.get? typeName)).map (·.required) = some names) :
    ∃ fs f definition, compileSource file source = .ok fs ∧ f ∈ fs ∧
      f.definitions.get? typeName = some definition ∧ definition.required = names := by
  obtain ⟨definition, hfound, hrequired⟩ := Option.map_eq_some_iff.mp h
  obtain ⟨fs, hfs, hfind⟩ := Option.bind_eq_some_iff.mp hfound
  obtain ⟨f, hf, hdefinition⟩ := List.exists_of_findSome?_eq_some hfind
  refine ⟨fs, f, definition, ?_, hf, hdefinition, hrequired⟩
  rcases hcompile : compileSource file source with e | fs'
  · rw [hcompile] at hfs
    cases hfs
  · rw [hcompile] at hfs
    rw [Option.some.inj hfs]

/-- **The required properties of definitions**: those of a typedef are the ones that its directives
mark, and every definition that a source is compiled to is that of a typedef of the source. -/
theorem Definition.listsMarks_of_typedef_and_of_compileSource (head : Directive)
    (rest : List Directive) (file source : String) :
    (∀ typedef, Typedef.ofDirectives? (head :: rest) = some typedef →
      typedef.definition.ListsMarks rest) ∧
    ∀ fs, compileSource file source = .ok fs → ∀ f ∈ fs, ∀ typeName definition,
      f.definitions.get? typeName = some definition →
        ∃ block ∈ Block.ofSource source, ∃ head rest, block.directives = head :: rest ∧
          head.title = "typedef" ∧ head.name = typeName ∧ definition.ListsMarks rest := by
  refine ⟨fun _ h => Typedef.listsMarks h, ?_⟩
  intro fs h f hf typeName definition hdefinition
  obtain ⟨block, hblock, hfragment⟩ := exists_of_mem_compileSource h hf
  obtain ⟨head, rest, hdirectives, htitle, hname, hread⟩ :=
    Block.exists_typedef_of_get?_definitions hfragment hdefinition
  exact ⟨block, hblock, head, rest, hdirectives, htitle, hname, Typedef.listsMarks hread⟩

/-- One property is marked and then described again without a mark, and the name of another one goes
on after the mark. -/
theorem Definition.listsMarks_of_typedef_and_of_compileSource_pet :
    let head : Directive := { title := "typedef", name := "Pet" }
    let rest : List Directive := [
      { title := "property", name := "id.required" },
      { title := "property", name := "id" },
      { title := "property", name := "name.required.x" }]
    let source := "/** @typedef Pet\n@property id.required\n@property id\n" ++
      "@property name.required.x */"
    (∃ typedef, Typedef.ofDirectives? (head :: rest) = some typedef ∧
      typedef.definition.ListsMarks rest) ∧
    ∃ fs f definition, compileSource "a.js" source = .ok fs ∧ f ∈ fs ∧
      f.definitions.get? "Pet" = some definition ∧ definition.required = ["id", "name"] ∧
        ∃ block ∈ Block.ofSource source, ∃ head rest, block.directives = head :: rest ∧
          head.title = "typedef" ∧ head.name = "Pet" ∧ definition.ListsMarks rest := by
  intro head rest source
  obtain ⟨htypedef, hsource⟩ :=
    Definition.listsMarks_of_typedef_and_of_compileSource head rest "a.js" source
  refine ⟨⟨_, rfl, htypedef _ rfl⟩, ?_⟩
  have hfound : ((compileSource "a.js" source).toOption.bind fun fs =>
      fs.findSome? (·.definitions.get? "Pet")).map (·.required) = some ["id", "name"] := by
    decide +kernel
  obtain ⟨fs, f, definition, hcompile, hf, hdefinition, hrequired⟩ :=
    exists_definition_of_findSome? hfound
  exact ⟨fs, f, definition, hcompile, hf, hdefinition, hrequired,
    hsource fs hcompile f hf "Pet" definition hdefinition⟩

/-- **A property that is marked twice is listed twice**, by a typedef and in what a source is
compiled to. -/
theorem Definition.not_nodup_required :
    let ds : List Directive := [
      { title := "typedef", name := "Pet" },
      { title := "property", name := "id.required", type := some ⟨some "integer"⟩ },
      { title := "property", name := "id.required", type := some ⟨some "string"⟩ }]
    let source := "/** @typedef Pet\n@property \x7binteger\x7d id.required\n" ++
      "@property \x7bstring\x7d id.required */"
    (∃ typedef, Typedef.ofDirectives? ds = some typedef ∧ ¬typedef.definition.required.Nodup) ∧
      ∃ fs f definition, compileSource "a.js" source = .ok fs ∧ f ∈ fs ∧
        f.definitions.get? "Pet" = some definition ∧ ¬definition.required.Nodup := by
  intro ds source
  refine ⟨⟨_, rfl, by decide +kernel⟩, ?_⟩
  have hfound : ((compileSource "a.js" source).toOption.bind fun fs =>
      fs.findSome? (·.definitions.get? "Pet")).map (·.required) = some ["id", "id"] := by
    decide +kernel
  obtain ⟨fs, f, definition, hcompile, hf, hdefinition, hrequired⟩ :=
    exists_definition_of_findSome? hfound
  refine ⟨fs, f, definition, hcompile, hf, hdefinition, ?_⟩
  rw [hrequired]
  decide

end ApiAnnotation
