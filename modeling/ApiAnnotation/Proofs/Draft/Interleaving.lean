import ApiAnnotation.Proofs.Compile.FirstNameless
import ApiAnnotation.Proofs.Draft.Course

/-!
# How directives may be interleaved

A block lists its directives in one row, but they are read by four readers that do not look at each
other: the routes with their details, the parameters, the responses, and the group. Each reader
takes its own directives out of the row, in their order, so a directive may be moved past those of
another reader, and one that no reader takes may stand anywhere.

Only the routes and the details are bound to one another. A detail belongs to the route opened last,
and that route is found among the directives of this one reader
(`ApiAnnotation.Directive.lastText?_filter`).

## Main statements

* `ApiAnnotation.Block.SameOperations.describes`: what the four readers take determines what is
  described.
* `ApiAnnotation.Block.fragment?_congr`: blocks in which the readers take the same have the same
  fragment.
-/

namespace ApiAnnotation

namespace Directive

/-- Whether a directive opens a route or says something about the one opened last. -/
def isOperational (d : Directive) : Bool :=
  ["route", "operationId", "summary", "produces", "consumes"].contains d.title

variable {ds : List Directive} {d : Directive}

theorem isOperational_of_route (h : d.title = "route") : d.isOperational = true := by
  rw [isOperational, h]
  decide

theorem isOperational_of_detail {detail : Detail} (h : d.title = detail.title) :
    d.isOperational = true := by
  rw [isOperational, h]
  cases detail <;> decide

/-! ### Reading the routes and details alone -/

theorem routes_filter (ds : List Directive) : routes (ds.filter (·.isOperational)) = routes ds := by
  rw [routes, routes, List.filter_filter]
  refine congrArg _ (List.filter_congr fun d _ => ?_)
  by_cases h : d.title = "route"
  · simp [h, isOperational_of_route h]
  · simp [h]

theorem openRoute?_filter (ds : List Directive) :
    openRoute? (ds.filter (·.isOperational)) = openRoute? ds := by
  rw [openRoute?, routes_filter, openRoute?]

/-- **A detail keeps its route** when the directives of the other readers are left out. -/
theorem lastText?_filter (detail : Detail) (route : Route) (ds : List Directive) :
    lastText? detail route (ds.filter (·.isOperational)) = lastText? detail route ds := by
  -- the route a detail belongs to is decided by what stands before it, so the list grows at its end
  induction ds using List.reverseRecOn with
  | nil => rfl
  | append_singleton ds d ih =>
    rw [List.filter_append]
    by_cases hd : d.isOperational = true
    · rw [List.filter_cons_of_pos hd, List.filter_nil, lastText?_concat, lastText?_concat,
        openRoute?_filter, ih]
    · have hdetail : d.title ≠ detail.title := fun h => hd (isOperational_of_detail h)
      rw [List.filter_cons_of_neg hd, List.filter_nil, List.append_nil, ih, lastText?_concat,
        if_neg fun h => hdetail h.1]

end Directive

namespace Block

/-- **Blocks in which the four readers take the same**, whatever stands between. -/
structure SameOperations (block block' : Block) : Prop where
  /-- Neither block defines a schema. -/
  operations : block.isTypedef = false ∧ block'.isTypedef = false
  /-- The texts are equal. -/
  description : block.description = block'.description
  /-- The routes and the details are equal and follow one another in the same order. -/
  operational : block.directives.filter (·.isOperational) =
    block'.directives.filter (·.isOperational)
  /-- So do the parameters. -/
  parameters : block.directives.filter (·.title = "param") =
    block'.directives.filter (·.title = "param")
  /-- So do the responses. -/
  responses : block.directives.filter (·.isReturns) = block'.directives.filter (·.isReturns)
  /-- The first groups are equal, or there is none. -/
  group : block.directives.find? (·.title = "group") = block'.directives.find? (·.title = "group")

/-- **Blocks that define the same schema**, whatever stands between. -/
structure SameDefinition (block block' : Block) : Prop where
  /-- Both blocks define a schema. -/
  typedef : block.isTypedef = true ∧ block'.isTypedef = true
  /-- The names are equal. -/
  name : block.directives.head?.map (·.name) = block'.directives.head?.map (·.name)
  /-- The properties are equal and follow one another in the same order. -/
  properties : block.directives.tail.filter (·.title = "property") =
    block'.directives.tail.filter (·.title = "property")

variable {block block' : Block} {f : Fragment}

/-- The operations of a route are described alike. -/
theorem SameOperations.described_eq (h : block.SameOperations block') (route : Route) :
    Operation.described block block.directives route =
      Operation.described block' block'.directives route := by
  have hdetail : ∀ detail : Detail, Directive.lastText? detail route block.directives =
      Directive.lastText? detail route block'.directives := fun detail => by
    rw [← Directive.lastText?_filter, h.operational, Directive.lastText?_filter]
  rw [Operation.described, Operation.described, Operation.mk.injEq]
  refine ⟨h.description, ?_, ?_, hdetail _, hdetail _, ?_, ?_, ?_⟩
  · rw [Tag.ofDirectives, h.group, Tag.ofDirectives]
  · rw [Directive.parameters, h.parameters, Directive.parameters]
  · rw [hdetail]
  · rw [hdetail]
  · rw [Responses.ofDirectives, h.responses, Responses.ofDirectives]

/-- **What the readers take determines what is described.** -/
theorem SameOperations.describes (h : block.SameOperations block')
    (hf : f.Describes block block.directives) : f.Describes block' block'.directives := by
  have hroutes : Directive.routes block.directives = Directive.routes block'.directives := by
    rw [← Directive.routes_filter, h.operational, Directive.routes_filter]
  have htag : Tag.ofDirectives block.directives = Tag.ofDirectives block'.directives := by
    rw [Tag.ofDirectives, h.group, Tag.ofDirectives]
  refine ⟨fun uri method => ?_, fun uri => ?_, ?_, hf.definitions⟩
  · rw [hf.operation?, hroutes, h.described_eq]
  · rw [hf.uris, hroutes]
  · rw [hf.tags, hroutes, htag]

/-- The definition of a block is made of its name and its properties. -/
theorem SameDefinition.fragment?_eq (h : block.SameDefinition block') :
    block.fragment? = block'.fragment? := by
  obtain ⟨d, hd, -⟩ := (isTypedef_iff block).mp h.typedef.1
  obtain ⟨d', hd', -⟩ := (isTypedef_iff block').mp h.typedef.2
  obtain ⟨rest, hrest⟩ := List.head?_eq_some_iff.mp (Option.mem_def.mp hd)
  obtain ⟨rest', hrest'⟩ := List.head?_eq_some_iff.mp (Option.mem_def.mp hd')
  have hname := h.name
  have hproperties := h.properties
  rw [hrest, hrest'] at hname hproperties
  have hname : d.name = d'.name := Option.some.inj hname
  have hproperties : rest.filter (·.title = "property") = rest'.filter (·.title = "property") :=
    hproperties
  rw [fragment?, fragment?, if_pos h.typedef.1, if_pos h.typedef.2, hrest, hrest',
    Typedef.ofDirectives?, Typedef.ofDirectives?, hname, hproperties]

/-- **The fragment of a block depends only on what each reader takes.** Blocks with the same
operations both have a fragment, and it is the same; blocks that define the same schema have the
same fragment or both fail. -/
theorem fragment?_congr (block block' : Block) :
    (block.SameOperations block' →
        ∃ f, block.fragment? = some f ∧ block'.fragment? = some f) ∧
      (block.SameDefinition block' → block.fragment? = block'.fragment?) := by
  refine ⟨fun h => ?_, SameDefinition.fragment?_eq⟩
  obtain ⟨f, hf, hdescribes⟩ := Draft.exists_fragment?_describes h.operations.1
  obtain ⟨f', hf', hdescribes'⟩ := Draft.exists_fragment?_describes h.operations.2
  -- both are described by the second block, and there is only one such fragment
  obtain rfl := (h.describes hdescribes).unique hdescribes'
  exact ⟨f, hf, hf'⟩

/-- Two blocks with two routes each, one of which lists its parameters, its group and its response
among them and the other behind them; and two schemas, one with a directive that nobody reads. -/
theorem fragment?_congr_pets :
    let get : Directive := { title := "route", description := "GET /pets" }
    let put : Directive := { title := "route", description := "PUT /pets/{id}" }
    let summary : Directive := { title := "summary", description := "List pets" }
    let produces : Directive := { title := "produces", description := "text/csv text/xml" }
    let limit : Directive := { title := "param", name := "limit.query" }
    let id : Directive := { title := "param", name := "id.path.required" }
    let pets : Directive := { title := "group", description := "pets-All pets" }
    let cats : Directive := { title := "group", description := "cats" }
    let found : Directive := { title := "return", description := "200-Found" }
    let gone : Directive := { title := "returns", description := "404-Gone" }
    let see : Directive := { title := "see", description := "the manual" }
    let typedef : Directive := { title := "typedef", name := "Pet" }
    let name : Directive := { title := "property", name := "name.required" }
    let age : Directive := { title := "property", name := "age" }
    let block : Block :=
      { description := "Pets"
        directives := [limit, get, pets, summary, found, put, id, see, cats, gone, produces] }
    let block' : Block :=
      { description := "Pets"
        directives := [pets, get, summary, put, produces, limit, id, cats, found, gone] }
    let schema : Block := { directives := [typedef, name, see, age] }
    let schema' : Block := { description := "A pet", directives := [typedef, name, age, get] }
    (block.SameOperations block' ∧
        ∃ f, block.fragment? = some f ∧ block'.fragment? = some f) ∧
      schema.SameDefinition schema' ∧ schema.fragment? = schema'.fragment? := by
  intro get put summary produces limit id pets cats found gone see typedef name age block block'
    schema schema'
  have hoperations : block.SameOperations block' :=
    ⟨by decide, rfl, by decide, by decide, by decide, by decide⟩
  have hdefinition : schema.SameDefinition schema' := ⟨by decide, by decide, by decide⟩
  exact ⟨⟨hoperations, (fragment?_congr block block').1 hoperations⟩, hdefinition,
    (fragment?_congr schema schema').2 hdefinition⟩

end Block

end ApiAnnotation
