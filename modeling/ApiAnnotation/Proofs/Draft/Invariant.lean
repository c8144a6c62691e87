import ApiAnnotation.Proofs.Draft.Course

/-!
# A draft between two directives

A draft remembers the route that was opened last, and it holds operations. A detail is set in the
operation of that route, which is looked up each time it is needed, and nothing is done if it is not
there. So the two must fit together, though they are changed apart: a route may be opened again, may
name no method or no path, and whatever comes before the first one goes into no operation at all.

`ApiAnnotation.Draft.Coherent` says how they fit together after any directives, before the draft is
finished: the operation of the open route is there, so that no detail that follows a route is ever
lost, and there is nothing but what routes have opened. Once a route is open, one is open for good
(`ApiAnnotation.Draft.isSome_current_step`).

## Main statements

* `ApiAnnotation.Draft.Records.coherent`: what a draft holds fits together.
* `ApiAnnotation.Draft.coherent_foldl_step`: so it does after any directives of any block.
-/

namespace ApiAnnotation

namespace Draft

open Directive

/-! ### The open route -/

theorem current_setDetail (draft : Draft) (detail : Detail) (text : String) :
    (draft.setDetail detail text).current = draft.current := by
  rw [setDetail]
  split
  · rfl
  · rfl

/-- **The route that is open after a directive**: the one that it opens, or the one before. -/
theorem current_step (draft : Draft) (d : Directive) :
    (draft.step d).current =
      if d.title = "route" then some (Route.ofText d.description) else draft.current := by
  rw [step]
  split
  · rfl
  split
  · rfl
  split
  · exact current_setDetail draft _ _
  · rfl

/-- **No directive closes a route** without opening another one. -/
theorem isSome_current_step {draft : Draft} (h : draft.current.isSome) (d : Directive) :
    (draft.step d).current.isSome := by
  rw [current_step]
  split
  · rfl
  · exact h

/-! ### What fits together -/

/-- **A draft between two directives**, those before being `ds`. -/
structure Coherent (block : Block) (ds : List Directive) (draft : Draft) : Prop where
  /-- The open route is what the last directive of that title says. -/
  current : draft.current =
    (ds.filter (·.title = "route")).getLast?.map fun d => Route.ofText d.description
  /-- No route is open exactly as long as there was no directive of that title. -/
  current_eq_none_iff : draft.current = none ↔ ∀ d ∈ ds, d.title ≠ "route"
  /-- As long as no route is open, the fragment is empty. -/
  fragment_eq : draft.current = none → draft.fragment = {}
  /-- The operation of the open route is there, and a detail is set in it. -/
  open_operation : ∀ route, draft.current = some route →
    ∃ op, draft.fragment.operation? route.uri route.method = some op ∧
      ∀ detail text, (draft.setDetail detail text).fragment.operation? route.uri route.method =
        some (op.set detail text)
  /-- There is one tag for each route, that of the block. -/
  tags : draft.fragment.tags =
    List.replicate (ds.countP (·.title = "route")) (Tag.ofDirectives block.directives)
  /-- Every path has a method. -/
  methods : ∀ uri methods, draft.fragment.paths.get? uri = some methods →
    ∃ method op, methods.get? method = some op
  /-- No operation has parameters or responses. -/
  bare : ∀ uri method op, draft.fragment.operation? uri method = some op →
    op.parameters = [] ∧ op.responses = ∅

variable {block : Block} {ds : List Directive} {draft : Draft}

/-- There are no routes as long as no directive has their title. -/
theorem routes_eq_nil_iff : routes ds = [] ↔ ∀ d ∈ ds, d.title ≠ "route" := by
  simp [routes, List.filter_eq_nil_iff]

/-- A draft without a route has nothing in its fragment. -/
theorem Records.fragment_eq (h : Records block ds draft) (hroutes : routes ds = []) :
    draft.fragment = {} := by
  have hpaths : draft.fragment.paths = ∅ := by
    refine Paths.ext_operation? (fun uri => ?_) fun uri method => ?_
    · rw [h.uris, hroutes]
      simp [SortedMap.keys, EmptyCollection.emptyCollection]
    · refine (h.operation? uri method).trans ?_
      rw [hroutes, if_neg List.not_mem_nil]
      rfl
  have htags : draft.fragment.tags = [] := by rw [h.tags, hroutes, List.map_nil]
  calc draft.fragment
    _ = ⟨draft.fragment.paths, draft.fragment.tags, draft.fragment.definitions⟩ := rfl
    _ = {} := by rw [hpaths, htags, h.definitions]

/-- An operation of a draft is the outline of a route. -/
theorem Records.eq_outline (h : Records block ds draft) {uri method : String} {op : Operation}
    (hop : draft.fragment.operation? uri method = some op) :
    op = Operation.outline block ds ⟨method, uri⟩ := by
  rw [h.operation?] at hop
  split at hop
  · exact (Option.some.inj hop).symm
  · cases hop

/-- The operation of a route is its outline. -/
theorem Records.operation?_of_mem (h : Records block ds draft) {route : Route}
    (hmem : route ∈ routes ds) :
    draft.fragment.operation? route.uri route.method = some (Operation.outline block ds route) :=
  (h.operation? route.uri route.method).trans (if_pos hmem)

/-- Every path has the method of a route. -/
theorem Records.exists_method (h : Records block ds draft) {uri : String}
    {methods : SortedMap Operation} (hmethods : draft.fragment.paths.get? uri = some methods) :
    ∃ method op, methods.get? method = some op := by
  have hkey : uri ∈ SortedMap.keys draft.fragment.paths := by
    rw [SortedMap.mem_keys, hmethods]
    rfl
  obtain ⟨route, hmem, rfl⟩ := (h.uris uri).mp hkey
  obtain ⟨methods', hmethods', hmethod⟩ := Option.bind_eq_some_iff.mp (h.operation?_of_mem hmem)
  obtain rfl := Option.some.inj (hmethods.symm.trans hmethods')
  exact ⟨route.method, _, hmethod⟩

/-- A draft without a route has none open. -/
theorem Records.current_eq_none_iff (h : Records block ds draft) :
    draft.current = none ↔ routes ds = [] := by
  rw [h.current, openRoute?, List.getLast?_eq_none_iff]

/-- A detail is set in the operation of the open route. -/
theorem operation?_setDetail {route : Route} {op : Operation}
    (hcurrent : draft.current = some route)
    (hop : draft.fragment.operation? route.uri route.method = some op)
    (detail : Detail) (text : String) :
    (draft.setDetail detail text).fragment.operation? route.uri route.method =
      some (op.set detail text) := by
  simp only [setDetail, hcurrent]
  refine (Paths.operation?_modify _).trans ?_
  rw [if_pos ⟨rfl, rfl⟩]
  exact congrArg (Option.map _) hop

/-- **What a draft holds fits together.** -/
theorem Records.coherent (h : Records block ds draft) : Coherent block ds draft where
  current := by rw [h.current, openRoute?, routes, List.getLast?_map]
  current_eq_none_iff := h.current_eq_none_iff.trans routes_eq_nil_iff
  fragment_eq hcurrent := h.fragment_eq (h.current_eq_none_iff.mp hcurrent)
  open_operation route hcurrent := by
    have hmem : route ∈ routes ds := mem_routes_of_openRoute? (h.current.symm.trans hcurrent)
    have hop := h.operation?_of_mem hmem
    exact ⟨_, hop, operation?_setDetail hcurrent hop⟩
  tags := by
    rw [h.tags, List.map_const', routes, List.length_map, List.countP_eq_length_filter]
  methods uri methods hmethods := h.exists_method hmethods
  bare uri method op hop := by
    rw [h.eq_outline hop]
    exact ⟨rfl, rfl⟩

/-- **A draft fits together after any directives of any block**, and none that follows closes the
open route without opening another one. -/
theorem coherent_foldl_step (block : Block) (ds : List Directive) :
    Coherent block ds (ds.foldl step (start block)) ∧
      ∀ (draft : Draft) (d : Directive), draft.current.isSome → (draft.step d).current.isSome :=
  ⟨(records_foldl_step block ds).coherent, fun _ d h => isSome_current_step h d⟩

/-- Routes that name neither a method nor a path: the first one is opened again behind another
method of the same path, and it is open to every directive that follows. -/
theorem coherent_foldl_step_defaults :
    let block : Block :=
      { description := "Pets"
        directives := [
          { title := "summary", description := "lost" },
          { title := "route" },
          { title := "summary", description := "List pets" },
          { title := "route", description := "POST" },
          { title := "param", name := "limit.query" },
          { title := "route", description := "get " }] }
    let draft := block.directives.foldl step (start block)
    draft.current = some ⟨"get", ""⟩ ∧ Coherent block block.directives draft ∧
      (∀ d, (draft.step d).current.isSome) ∧
      ∃ op, draft.fragment.operation? "" "get" = some op ∧ op.summary = some "List pets" ∧
        op.parameters = [] ∧ op.responses = ∅ := by
  intro block draft
  have hcurrent : draft.current = some ⟨"get", ""⟩ := by decide +kernel
  obtain ⟨hcoherent, hopen⟩ := coherent_foldl_step block block.directives
  refine ⟨hcurrent, hcoherent, fun d => hopen draft d (hcurrent ▸ rfl), ?_⟩
  obtain ⟨op, hop, -⟩ := hcoherent.open_operation ⟨"get", ""⟩ hcurrent
  have hsummary : (draft.fragment.operation? "" "get").map (·.summary) =
      some (some "List pets") := by
    decide +kernel
  obtain ⟨hparameters, hresponses⟩ := hcoherent.bare "" "get" op hop
  refine ⟨op, hop, ?_, hparameters, hresponses⟩
  rw [hop] at hsummary
  exact Option.some.inj hsummary

end Draft

end ApiAnnotation
