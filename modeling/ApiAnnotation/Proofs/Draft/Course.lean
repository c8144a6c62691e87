import ApiAnnotation.Proofs.Draft.Outline

/-!
# The draft follows the description

A draft takes the directives one at a time, yet what it amounts to is read off the whole list
(`ApiAnnotation.Fragment.Describes`). The bridge is `ApiAnnotation.Draft.Records`, which says of
every part of a draft what the directives taken so far have made of it: each of the four kinds of
directives keeps it (`ApiAnnotation.Draft.Records.step`), so every run does
(`ApiAnnotation.Draft.records_foldl_step`), and finishing turns outlines into whole operations.

## Main statements

* `ApiAnnotation.Draft.records_foldl_step`: what a draft holds after any directives.
* `ApiAnnotation.Draft.finish_foldl_step_eq_iff`: the fragment of any directives.
-/

namespace ApiAnnotation

namespace Draft

open Directive

/-- **What a draft holds** after the directives `ds` of a block. -/
structure Records (block : Block) (ds : List Directive) (draft : Draft) : Prop where
  /-- The text is that of the block. -/
  description : draft.description = block.description
  /-- The tag is that of the block. -/
  tag : draft.tag = Tag.ofDirectives block.directives
  /-- The responses are those of the block. -/
  responses : draft.responses = Responses.ofDirectives block.directives
  /-- The route opened last is open. -/
  current : draft.current = openRoute? ds
  /-- All parameters are kept. -/
  parameters : draft.parameters = Directive.parameters ds
  /-- The operations are the outlines of the routes. -/
  operation? : ∀ uri method, draft.fragment.operation? uri method =
    if ⟨method, uri⟩ ∈ routes ds then some (Operation.outline block ds ⟨method, uri⟩) else none
  /-- There is no path but those of the routes. -/
  uris : ∀ uri, uri ∈ SortedMap.keys draft.fragment.paths ↔ ∃ route ∈ routes ds, route.uri = uri
  /-- The tag stands once for each route. -/
  tags : draft.fragment.tags = (routes ds).map fun _ => Tag.ofDirectives block.directives
  /-- Nothing is defined. -/
  definitions : draft.fragment.definitions = ∅

variable {block : Block} {ds : List Directive} {draft : Draft} {d : Directive}

theorem records_start (block : Block) : Records block [] (start block) where
  description := rfl
  tag := rfl
  responses := rfl
  current := rfl
  parameters := rfl
  operation? _ _ := rfl
  uris uri := by simp [start, routes, SortedMap.keys, EmptyCollection.emptyCollection]
  tags := rfl
  definitions := rfl

/-! ### One directive -/

/-- A route that is opened is outlined, with the details it had before. -/
theorem Records.opened (h : Records block ds draft) (route : Route) :
    { (draft.fragment.operation? route.uri route.method).getD {} with
      parameters := [], description := draft.description, tags := [draft.tag.name] } =
      Operation.outline block ds route := by
  rw [h.operation?, h.description, h.tag]
  by_cases hmem : route ∈ routes ds
  · rw [if_pos hmem]
    rfl
  · rw [if_neg hmem, Operation.outline_of_notMem hmem]
    rfl

theorem Records.step_route (h : Records block ds draft) (hd : d.title = "route") :
    Records block (ds ++ [d]) (draft.step d) := by
  have hne : ∀ detail : Detail, d.title ≠ detail.title := fun detail =>
    hd ▸ detail.title_ne_route.symm
  have hstep : draft.step d = draft.openRoute (Route.ofText d.description) := if_pos hd
  have hroutes : routes (ds ++ [d]) = routes ds ++ [Route.ofText d.description] :=
    routes_concat_route hd
  have hopen : openRoute? (ds ++ [d]) = some (Route.ofText d.description) :=
    openRoute?_concat_route hd
  -- how the route is read does not matter from here on
  generalize Route.ofText d.description = route at hstep hroutes hopen
  rw [hstep]
  refine ⟨h.description, h.tag, h.responses, hopen.symm, ?_, ?_, ?_, ?_, h.definitions⟩
  · rw [parameters_concat, if_neg (by rw [hd]; decide), List.append_nil]
    exact h.parameters
  · intro uri method
    rw [Operation.outline_concat_of_ne hne, hroutes]
    refine (Paths.operation?_alter _).trans ?_
    by_cases hroute : uri = route.uri ∧ method = route.method
    · -- the operation may be there already, which `Records.opened` allows for
      obtain ⟨rfl, rfl⟩ := hroute
      rw [if_pos ⟨rfl, rfl⟩, if_pos (List.mem_append_right _ (List.mem_singleton_self route))]
      exact congrArg some (h.opened route)
    · rw [if_neg hroute]
      refine (h.operation? uri method).trans (if_congr ?_ rfl rfl)
      rw [List.mem_append, List.mem_singleton]
      refine ⟨Or.inl, fun hmem => hmem.resolve_right fun heq => hroute ?_⟩
      exact ⟨congrArg Route.uri heq, congrArg Route.method heq⟩
  · intro uri
    refine (Paths.mem_keys_alter _).trans ?_
    rw [h.uris uri, hroutes]
    simp [or_comm, eq_comm]
  · rw [hroutes, List.map_append, ← h.tags, ← h.tag]
    rfl

/-- A directive that opens no route and sets no detail adds to the parameters at most. -/
theorem Records.concat (h : Records block ds draft) (hroute : d.title ≠ "route")
    (houtline : ∀ route, Operation.outline block (ds ++ [d]) route =
      Operation.outline block ds route) :
    Records block (ds ++ [d]) { draft with parameters := Directive.parameters (ds ++ [d]) } := by
  refine ⟨h.description, h.tag, h.responses, ?_, rfl, ?_, ?_, ?_, h.definitions⟩
  · rw [openRoute?_concat_of_ne hroute]
    exact h.current
  · intro uri method
    rw [houtline, routes_concat_of_ne hroute]
    exact h.operation? uri method
  · rw [routes_concat_of_ne hroute]
    exact h.uris
  · rw [routes_concat_of_ne hroute]
    exact h.tags

/-- If it is no parameter either, the draft stays as it is. -/
theorem Records.concat_of_ne (h : Records block ds draft) (hroute : d.title ≠ "route")
    (hparam : d.title ≠ "param")
    (houtline : ∀ route, Operation.outline block (ds ++ [d]) route =
      Operation.outline block ds route) : Records block (ds ++ [d]) draft := by
  have hparameters : Directive.parameters (ds ++ [d]) = draft.parameters := by
    rw [parameters_concat, if_neg hparam, List.append_nil, h.parameters]
  have hrecords := h.concat hroute houtline
  rwa [hparameters] at hrecords

theorem Records.step_param (h : Records block ds draft) (hd : d.title = "param") :
    Records block (ds ++ [d]) (draft.step d) := by
  have hroute : d.title ≠ "route" := by rw [hd]; decide
  have hne : ∀ detail : Detail, d.title ≠ detail.title := fun detail =>
    hd ▸ detail.title_ne_param.symm
  have hparameters : draft.parameters ++ [Parameter.ofDirective d] =
      Directive.parameters (ds ++ [d]) := by
    rw [parameters_concat, if_pos hd, ← h.parameters]
  rw [step, if_neg hroute, if_pos hd, hparameters]
  exact h.concat hroute fun _ => Operation.outline_concat_of_ne hne

theorem Records.step_detail (h : Records block ds draft) {detail : Detail}
    (hd : d.title = detail.title) : Records block (ds ++ [d]) (draft.step d) := by
  have hroute : d.title ≠ "route" := hd ▸ detail.title_ne_route
  have hparam : d.title ≠ "param" := hd ▸ detail.title_ne_param
  have hstep : draft.step d = draft.setDetail detail d.description := by
    rw [step, if_neg hroute, if_neg hparam, hd, detail.ofTitle?_title]
  rw [hstep, setDetail]
  rcases hopen : draft.current with _ | route
  · -- before the first route the directive is lost
    refine h.concat_of_ne hroute hparam fun route => ?_
    rw [Operation.outline_concat_detail hd, if_neg]
    exact fun hsome => Option.some_ne_none route (hsome.symm.trans (h.current.symm.trans hopen))
  · -- only the operation of the open route changes, and the paths keep their keys
    have hlast : openRoute? ds = some route := h.current.symm.trans hopen
    refine ⟨h.description, h.tag, h.responses, ?_, ?_, ?_, ?_, ?_, h.definitions⟩
    · rw [openRoute?_concat_of_ne hroute]
      exact hlast.symm
    · rw [parameters_concat, if_neg hparam, List.append_nil]
      exact h.parameters
    · intro uri method
      rw [Operation.outline_concat_detail hd, routes_concat_of_ne hroute]
      refine (Paths.operation?_modify _).trans ?_
      by_cases heq : uri = route.uri ∧ method = route.method
      · obtain ⟨rfl, rfl⟩ := heq
        rw [if_pos ⟨rfl, rfl⟩, if_pos hlast, if_pos (mem_routes_of_openRoute? hlast)]
        refine (congrArg (Option.map _) (h.operation? route.uri route.method)).trans ?_
        rw [if_pos (mem_routes_of_openRoute? hlast), Option.map_some]
      · have hother : openRoute? ds ≠ some ⟨method, uri⟩ := fun hsome => by
          obtain rfl := Option.some.inj (hlast.symm.trans hsome)
          exact heq ⟨rfl, rfl⟩
        rw [if_neg heq, if_neg hother]
        exact h.operation? uri method
    · intro uri
      rw [routes_concat_of_ne hroute]
      exact (Paths.mem_keys_modify _).trans (h.uris uri)
    · rw [routes_concat_of_ne hroute]
      exact h.tags

/-- A directive of another title is passed over. -/
theorem Records.step_other (h : Records block ds draft) (hroute : d.title ≠ "route")
    (hparam : d.title ≠ "param") (hdetail : ∀ detail : Detail, d.title ≠ detail.title) :
    Records block (ds ++ [d]) (draft.step d) := by
  have hnone : Detail.ofTitle? d.title = none := by
    refine Option.eq_none_iff_forall_ne_some.mpr fun detail hsome => ?_
    exact hdetail detail (Detail.title_of_ofTitle? hsome)
  rw [step, if_neg hroute, if_neg hparam, hnone]
  exact h.concat_of_ne hroute hparam fun _ => Operation.outline_concat_of_ne hdetail

/-- **Every directive keeps the record.** -/
theorem Records.step (h : Records block ds draft) (d : Directive) :
    Records block (ds ++ [d]) (draft.step d) := by
  by_cases hroute : d.title = "route"
  · exact h.step_route hroute
  by_cases hparam : d.title = "param"
  · exact h.step_param hparam
  by_cases hdetail : ∃ detail : Detail, d.title = detail.title
  · obtain ⟨detail, hd⟩ := hdetail
    exact h.step_detail hd
  · exact h.step_other hroute hparam fun detail hd => hdetail ⟨detail, hd⟩

/-! ### A whole run -/

/-- **What a draft holds after any directives.** -/
theorem records_foldl_step (block : Block) (ds : List Directive) :
    Records block ds (ds.foldl Draft.step (start block)) := by
  -- a fold from the left grows at the end of the list
  induction ds using List.reverseRecOn with
  | nil => exact records_start block
  | append_singleton ds d ih =>
    rw [List.foldl_append]
    exact ih.step d

/-- Parameters and responses make the outline of a route its operation. -/
theorem Records.finish (h : Records block ds draft) : draft.finish.Describes block ds := by
  rw [Draft.finish]
  rcases hopen : draft.current with _ | route
  · -- no route was opened, so there is nothing to finish
    have hroutes : routes ds = [] := List.getLast?_eq_none_iff.mp (h.current.symm.trans hopen)
    refine ⟨fun uri method => ?_, h.uris, h.tags, h.definitions⟩
    rw [h.operation?, hroutes, if_neg List.not_mem_nil, if_neg List.not_mem_nil]
  · refine ⟨fun uri method => ?_, fun uri => ?_, h.tags, h.definitions⟩
    · refine (Paths.operation?_mapOperations _).trans ?_
      refine (congrArg (Option.map _) (h.operation? uri method)).trans ?_
      by_cases hmem : ⟨method, uri⟩ ∈ routes ds
      · rw [if_pos hmem, if_pos hmem, Option.map_some, h.parameters, h.responses]
        rfl
      · rw [if_neg hmem, if_neg hmem, Option.map_none]
    · exact (Paths.mem_keys_mapOperations _).trans (h.uris uri)

/-- A block that does not define a schema has the fragment that its directives describe. -/
theorem exists_fragment?_describes (h : block.isTypedef = false) :
    ∃ f, block.fragment? = some f ∧ f.Describes block block.directives := by
  refine ⟨_, ?_, (records_foldl_step block block.directives).finish⟩
  rw [Block.fragment?, h, if_neg Bool.false_ne_true]

/-- **The fragment of any directives is the one that they describe**, and no other is. A block that
does not define a schema has the fragment that its own directives describe. -/
theorem finish_foldl_step_eq_iff (block : Block) (ds : List Directive) (f : Fragment) :
    ((ds.foldl Draft.step (start block)).finish = f ↔ f.Describes block ds) ∧
      (block.isTypedef = false →
        (block.fragment? = some f ↔ f.Describes block block.directives)) := by
  have hiff : ∀ ds : List Directive,
      (ds.foldl Draft.step (start block)).finish = f ↔ f.Describes block ds := fun ds =>
    ⟨fun heq => heq ▸ (records_foldl_step block ds).finish,
      fun hf => (records_foldl_step block ds).finish.unique hf⟩
  refine ⟨hiff ds, fun htypedef => ?_⟩
  rw [Block.fragment?, htypedef, if_neg Bool.false_ne_true, Option.some.injEq]
  exact hiff block.directives

/-- A block that opens a route twice: the summary of the first time stays, and the one before any
route is lost. -/
theorem fragment?_of_reopened_route :
    let block : Block :=
      { description := "Pets"
        directives := [
          { title := "summary", description := "lost" },
          { title := "route", description := "GET /pets" },
          { title := "summary", description := "List pets" },
          { title := "route", description := "PUT /pets" },
          { title := "param", name := "limit.query" },
          { title := "route", description := "get /pets" },
          { title := "produces", description := "text/xml text/csv" }] }
    block.isTypedef = false ∧ ∃ f, block.fragment? = some f ∧ f.Describes block block.directives ∧
      (f.operation? "/pets" "get").map (·.summary) = some (some "List pets") ∧
      (f.operation? "/pets" "put").map (·.summary) = some none := by
  intro block
  have hblock : block.isTypedef = false := by decide
  obtain ⟨f, hf⟩ : ∃ f, block.fragment? = some f := ⟨_, rfl⟩
  have hdescribes := ((finish_foldl_step_eq_iff block block.directives f).2 hblock).mp hf
  refine ⟨hblock, f, hf, hdescribes, ?_, ?_⟩
  · rw [hdescribes.operation?]
    decide +kernel
  · rw [hdescribes.operation?]
    decide +kernel

end Draft

end ApiAnnotation
