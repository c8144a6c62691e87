import ApiAnnotation.Proofs.Compile.Origin
import ApiAnnotation.Proofs.Entries

/-!
# What a document says about types

Parameters, responses and properties each state a type by name and, if it is a model of the
document, point to its schema. The two are read off the braces of a directive on their own, and
nothing is checked afterwards, so that they fit together has to come from the reader: it keeps the
name of a type only if that is a dotted path, and no segment of a path is empty.

`ApiAnnotation.TypeReference.Stated` says which pairs of a type and a schema there may be, without
reference to the reader. Every directive of a comment makes such a pair
(`ApiAnnotation.TypeReference.stated_ofType`), whichever of the three parts it goes into.

## Main statements

* `ApiAnnotation.Block.hasPaths_of_mem_ofSource`: the types of a source have dotted paths as names.
* `ApiAnnotation.Fragment.statesTypes_of_fragment?`: what the fragment of a block says about types.
* `ApiAnnotation.Fragment.statesTypes_of_compileSource`: what the fragments of a source say.
-/

namespace ApiAnnotation

/-- **A segment of the name of a type**: letters and digits of ASCII, underscores and dollars, and
at least one of them. -/
def IsNameSegment (cs : List Char) : Prop :=
  cs ≠ [] ∧ ∀ c ∈ cs, c.isAlphanum = true ∨ c = '_' ∨ c = '$'

/-- **What may be stated about a type**: its name, and the schema it points to. -/
inductive TypeReference.Stated : Option String → Option SchemaRef → Prop
  /-- Nothing is stated. -/
  | nothing : Stated none none
  /-- The type is a string, for want of a name. -/
  | string : Stated (some "string") none
  /-- The type has a dotted path as its name, and the path does not refer to a model. -/
  | path {segments : List (List Char)} : segments ≠ [] → (∀ cs ∈ segments, IsNameSegment cs) →
    segments[1]? ≠ some "model".toList →
      Stated (some (String.ofList (['.'].intercalate segments))) none
  /-- The type is a model, and the schema is the definition of that name. -/
  | model {name : String} : IsNameSegment name.toList →
    Stated (some name) (some ⟨"#/definitions/" ++ name⟩)

/-! ### The name of a type -/

/-- A plain name is a dotted path. -/
theorem isNamePath_iff (cs : List Char) :
    isNamePath cs = true ↔ ∀ segment ∈ cs.splitOn '.', IsNameSegment segment := by
  rw [isNamePath, List.all_eq_true]
  refine forall₂_congr fun segment _ => ?_
  simp [IsNameSegment, isTitleChar, or_assoc]

namespace TypeReference

/-- A dotted path states what it refers to. -/
theorem stated_ofName {name : String} (h : isNamePath name.toList = true) :
    Stated (ofName name).typeName? (ofName name).schema? := by
  have hsegments := (isNamePath_iff name.toList).mp h
  have hname : name = String.ofList (['.'].intercalate (name.toList.splitOn '.')) := by
    rw [List.intercalate_splitOn, String.ofList_toList]
  have hplain (hsecond : (name.toList.splitOn '.')[1]? ≠ some "model".toList) :
      Stated (some name) none := by
    conv => arg 1; rw [hname]
    exact .path (List.splitOn_ne_nil _ _) hsegments hsecond
  rw [ofName, Text.segments]
  rcases hsplit : name.toList.splitOn '.' with _ | ⟨base, _ | ⟨second, rest⟩⟩
  · exact hplain (by rw [hsplit]; simp)
  · exact hplain (by rw [hsplit]; simp)
  · rw [List.map_cons, List.map_cons]
    by_cases hsecond : String.ofList second = modelMarker
    · simp only [if_pos hsecond]
      -- the model is named by the first segment
      refine .model ?_
      rw [String.toList_ofList]
      exact hsegments base (hsplit ▸ List.mem_cons_self)
    · simp only [if_neg hsecond]
      refine hplain fun hmarker => hsecond ?_
      rw [hsplit] at hmarker
      rw [Option.some.inj hmarker]
      decide

end TypeReference

/-- **Whether the type of a directive has a dotted path as its name**, if it has a name at all. -/
def Directive.HasPath (d : Directive) : Prop :=
  ∀ t ∈ d.type, ∀ name ∈ t.name, isNamePath name.toList = true

/-- **What a directive states about its type.** -/
theorem TypeReference.stated_ofType {d : Directive} (h : d.HasPath) :
    Stated (ofType d.type).typeName? (ofType d.type).schema? := by
  rcases htype : d.type with _ | t
  · exact .nothing
  · rw [ofType]
    rcases hname : t.usableName? with _ | name
    · exact .string
    · have hname : t.name = some name := (Option.filter_eq_some_iff.mp hname).1
      exact stated_ofName (h t htype name hname)

/-! ### The types of a source -/

/-- Braces are read as a dotted path or as a type without a name. -/
theorem Directive.hasPath_ofText (text : List Char) : (Directive.ofText text).HasPath := by
  intro t ht name hname
  change t ∈ (takeType _ _).1 at ht
  rw [takeType] at ht
  split at ht
  · obtain rfl := Option.some.inj ht
    rw [TypeExpr.ofText] at hname
    split at hname
    · next hpath =>
      obtain rfl := Option.some.inj hname
      rwa [String.toList_ofList]
    · cases hname
  · cases ht

/-- **The types of a source have dotted paths as names.** -/
theorem Block.hasPaths_of_mem_ofSource {source : String} {block : Block}
    (h : block ∈ Block.ofSource source) : ∀ d ∈ block.directives, d.HasPath := by
  obtain ⟨span, -, before, body, after, -, -, -, rfl⟩ := standsAt_of_mem_ofSource h
  intro d hd
  obtain ⟨chunk, -, rfl⟩ := List.mem_map.mp hd
  exact Directive.hasPath_ofText _

/-! ### The parts of a fragment -/

open TypeReference

/-- **A fragment states types** in its parameters, in its responses and in its properties. -/
structure Fragment.StatesTypes (f : Fragment) : Prop where
  /-- The parameters of an operation state types. -/
  parameters : ∀ uri method op, f.operation? uri method = some op →
    ∀ p ∈ op.parameters, Stated p.type p.schema
  /-- The responses of an operation state types. -/
  responses : ∀ uri method op, f.operation? uri method = some op →
    ∀ code r, op.responses.get? code = some r → Stated r.type r.schema
  /-- The properties of a definition state types. -/
  properties : ∀ typeName definition, f.definitions.get? typeName = some definition →
    ∀ name p, definition.properties.get? name = some p → Stated p.type p.schema

variable {block : Block} {ds : List Directive} {f : Fragment}

/-- A response is what one of the directives says. -/
theorem Responses.exists_of_get? {code : String} {r : Response}
    (h : (Responses.ofDirectives ds).get? code = some r) :
    ∃ d ∈ ds, Response.ofDirective d = (code, r) := by
  obtain ⟨d, hd, hresponse⟩ := List.mem_map.mp (Entries.mem_sort (SortedMap.mem_entries.mpr h))
  exact ⟨d, (List.mem_filter.mp hd).1, hresponse⟩

/-- A property is what one of the directives says, or was there before. -/
theorem Definition.exists_of_get?_foldl_enter {name : String} {p : Property}
    (definition : Definition) (h : (ds.foldl enter definition).properties.get? name = some p) :
    (∃ d ∈ ds, p = Property.ofDirective d) ∨ definition.properties.get? name = some p := by
  induction ds generalizing definition with
  | nil => exact Or.inr h
  | cons d ds ih =>
    rcases ih (definition.enter d) h with ⟨d', hd', hp⟩ | hp
    · exact Or.inl ⟨d', List.mem_cons_of_mem d hd', hp⟩
    · have hinsert : (definition.properties.insert d.propertyName.1 (Property.ofDirective d)).get?
        name = some p := hp
      rw [SortedMap.get?_insert] at hinsert
      split at hinsert
      · exact Or.inl ⟨d, List.mem_cons_self, (Option.some.inj hinsert).symm⟩
      · exact Or.inr hinsert

/-- The operations that directives describe state types. -/
theorem Fragment.Describes.statesTypes (h : f.Describes block block.directives)
    (hds : ∀ d ∈ block.directives, d.HasPath) : f.StatesTypes := by
  have hdescribed : ∀ {uri method op}, f.operation? uri method = some op →
      op = Operation.described block block.directives ⟨method, uri⟩ := fun {uri method op} hop => by
    rw [h.operation?] at hop
    split at hop
    · exact (Option.some.inj hop).symm
    · cases hop
  refine ⟨fun uri method op hop p hp => ?_, fun uri method op hop code r hr => ?_, ?_⟩
  · rw [hdescribed hop] at hp
    obtain ⟨d, hd, rfl⟩ := List.mem_map.mp hp
    exact stated_ofType (hds d (List.mem_filter.mp hd).1)
  · rw [hdescribed hop] at hr
    obtain ⟨d, hd, hresponse⟩ := Responses.exists_of_get? hr
    obtain rfl := (Prod.mk.inj hresponse).2
    exact stated_ofType (hds d hd)
  · intro typeName definition hdefinition
    rw [h.definitions] at hdefinition
    cases hdefinition

/-- So does the definition of a schema. -/
theorem Typedef.statesTypes {typedef : Typedef} (h : Typedef.ofDirectives? ds = some typedef)
    (hds : ∀ d ∈ ds, d.HasPath) : typedef.toFragment.StatesTypes := by
  refine ⟨fun uri method op hop => ?_, fun uri method op hop => ?_, ?_⟩
  · cases hop
  · cases hop
  · intro typeName definition hdefinition name p hp
    rcases ds with _ | ⟨head, rest⟩
    · cases h
    rw [ofDirectives?] at h
    split at h
    · cases h
    obtain rfl := Option.some.inj h
    rw [toFragment, SortedMap.get?_insert] at hdefinition
    split at hdefinition
    · obtain rfl := Option.some.inj hdefinition
      rcases Definition.exists_of_get?_foldl_enter {} hp with ⟨d, hd, rfl⟩ | hnone
      · exact stated_ofType (hds d (List.mem_cons_of_mem head (List.mem_filter.mp hd).1))
      · cases hnone
    · cases hdefinition

/-- **What the fragment of a block says about types.** -/
theorem Fragment.statesTypes_of_fragment? (h : block.fragment? = some f)
    (hds : ∀ d ∈ block.directives, d.HasPath) : f.StatesTypes := by
  rcases Block.typedef_or_describes h with ⟨-, typedef, htypedef, rfl⟩ | hdescribes
  · exact Typedef.statesTypes htypedef hds
  · exact hdescribes.statesTypes hds

/-- **What the fragments of a source say about types**: wherever a schema is pointed to, it is the
definition of the name that stands beside it, and that name is a segment of a path; and a name
without a schema is a path that refers to no model. -/
theorem Fragment.statesTypes_of_compileSource {file source : String} {fs : List Fragment}
    (h : compileSource file source = .ok fs) : ∀ f ∈ fs, f.StatesTypes := by
  intro f hf
  obtain ⟨block, hblock, hfragment⟩ := exists_of_mem_compileSource h hf
  exact statesTypes_of_fragment? hfragment (Block.hasPaths_of_mem_ofSource hblock)

/-- A model with a third segment, a type in two pairs of braces, and a path that only looks like a
model. -/
theorem Fragment.statesTypes_of_compileSource_braces :
    let source := "/** @route GET /\n@param \x7bA.model.b\x7d a\n@returns \x7b\x7bA\x7d\x7d 1 */" ++
      "/** @typedef A\n@property \x7bmodel.$\x7d b */"
    ∃ fs, compileSource "a.js" source = .ok fs ∧ fs.length = 2 ∧ ∀ f ∈ fs, f.StatesTypes := by
  intro source
  have hlength : (compileSource "a.js" source).toOption.map List.length = some 2 := by
    decide +kernel
  rcases hcompile : compileSource "a.js" source with e | fs
  · rw [hcompile] at hlength
    cases hlength
  · rw [hcompile] at hlength
    exact ⟨fs, rfl, Option.some.inj hlength, Fragment.statesTypes_of_compileSource hcompile⟩

end ApiAnnotation
