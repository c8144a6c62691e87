import ApiAnnotation.Compile
import ApiAnnotation.Proofs.FilterPast
import ApiAnnotation.Proofs.Paths

/-!
# What a list of directives describes

The fragment of a block is described here without taking the directives one after the other: each of
its parts is read off the whole list. The routes and the parameters are those of the list, in their
order. A detail of an operation is the last one of its title that stands in the reach of the route,
that is, whose nearest route before it (`ApiAnnotation.Directive.openRoute?`) is that very route.
A route may be opened again, so its reach may have several pieces.

## Main definitions

* `ApiAnnotation.Operation.described`: the operation of a route.
* `ApiAnnotation.Fragment.Describes`: what the fragment of a list of directives is.
-/

namespace ApiAnnotation

/-- The title of the directives that set a detail. -/
def Detail.title : Detail → String
  | operationId => "operationId"
  | summary => "summary"
  | produces => "produces"
  | consumes => "consumes"

theorem Detail.ofTitle?_title (detail : Detail) : ofTitle? detail.title = some detail := by
  cases detail <;> decide

theorem Detail.title_of_ofTitle? {title : String} {detail : Detail}
    (h : ofTitle? title = some detail) : title = detail.title := by
  rw [ofTitle?] at h
  split at h
  · next htitle => rw [htitle, ← Option.some.inj h]; rfl
  split at h
  · next htitle => rw [htitle, ← Option.some.inj h]; rfl
  split at h
  · next htitle => rw [htitle, ← Option.some.inj h]; rfl
  split at h
  · next htitle => rw [htitle, ← Option.some.inj h]; rfl
  · exact absurd h (Option.some_ne_none detail).symm

theorem Detail.title_ne_route (detail : Detail) : detail.title ≠ "route" := by
  cases detail <;> decide

theorem Detail.title_ne_param (detail : Detail) : detail.title ≠ "param" := by
  cases detail <;> decide

/-! ### Reading the whole list -/

namespace Directive

/-- The routes that directives open, in their order. -/
def routes (ds : List Directive) : List Route :=
  (ds.filter (·.title = "route")).map fun d => Route.ofText d.description

/-- The parameters that directives describe, in their order. -/
def parameters (ds : List Directive) : List Parameter :=
  (ds.filter (·.title = "param")).map Parameter.ofDirective

/-- The route that is open after the directives: the one opened last. -/
def openRoute? (ds : List Directive) : Option Route := (routes ds).getLast?

/-- The directives that set a detail of a route: those of its title with that route open. -/
def settings (detail : Detail) (route : Route) (ds : List Directive) : List Directive :=
  filterPast (fun past d => d.title = detail.title && openRoute? past = some route) ds

/-- The text of the last directive that sets a detail of a route. -/
def lastText? (detail : Detail) (route : Route) (ds : List Directive) : Option String :=
  (settings detail route ds).getLast?.map (·.description)

variable {ds : List Directive} {d : Directive} {route : Route} {detail : Detail}

theorem routes_concat :
    routes (ds ++ [d]) =
      routes ds ++ if d.title = "route" then [Route.ofText d.description] else [] := by
  rw [routes, List.filter_append, List.map_append]
  by_cases h : d.title = "route" <;> simp [routes, h]

theorem routes_concat_of_ne (h : d.title ≠ "route") : routes (ds ++ [d]) = routes ds := by
  rw [routes_concat, if_neg h, List.append_nil]

theorem routes_concat_route (h : d.title = "route") :
    routes (ds ++ [d]) = routes ds ++ [Route.ofText d.description] := by
  rw [routes_concat, if_pos h]

theorem parameters_concat :
    parameters (ds ++ [d]) =
      parameters ds ++ if d.title = "param" then [Parameter.ofDirective d] else [] := by
  rw [parameters, List.filter_append, List.map_append]
  by_cases h : d.title = "param" <;> simp [parameters, h]

theorem openRoute?_concat_of_ne (h : d.title ≠ "route") :
    openRoute? (ds ++ [d]) = openRoute? ds := by
  rw [openRoute?, routes_concat_of_ne h, openRoute?]

theorem openRoute?_concat_route (h : d.title = "route") :
    openRoute? (ds ++ [d]) = some (Route.ofText d.description) := by
  rw [openRoute?, routes_concat_route h, List.getLast?_concat]

theorem mem_routes_of_openRoute? (h : openRoute? ds = some route) : route ∈ routes ds :=
  List.mem_of_getLast? h

theorem lastText?_concat :
    lastText? detail route (ds ++ [d]) =
      if d.title = detail.title ∧ openRoute? ds = some route then some d.description
      else lastText? detail route ds := by
  rw [lastText?, settings, filterPast_concat]
  by_cases h : d.title = detail.title ∧ openRoute? ds = some route <;> simp [lastText?, settings, h]

/-- A route that is not there has no details. -/
theorem lastText?_eq_none (h : route ∉ routes ds) : lastText? detail route ds = none := by
  have hnil : settings detail route ds = [] := by
    refine List.eq_nil_iff_forall_not_mem.mpr fun d hd => h ?_
    obtain ⟨past, rest, rfl, hp⟩ := mem_of_mem_filterPast hd
    have hopen : openRoute? past = some route := by
      rw [Bool.and_eq_true, decide_eq_true_eq, decide_eq_true_eq] at hp
      exact hp.2
    rw [routes, List.filter_append, List.map_append]
    exact List.mem_append_left _ (mem_routes_of_openRoute? hopen)
  rw [lastText?, hnil]
  rfl

end Directive

/-! ### The operation of a route -/

namespace Operation

open Directive

variable (block : Block) (ds : List Directive) (route : Route)

/-- The operation of a route without parameters and responses, as it is drafted. -/
def outline : Operation where
  description := block.description
  tags := [(Tag.ofDirectives block.directives).name]
  operationId := lastText? .operationId route ds
  summary := lastText? .summary route ds
  produces := (lastText? .produces route ds).map mediaTypes
  consumes := (lastText? .consumes route ds).map mediaTypes

/-- **The operation of a route.** Text, tag and responses are those of the block. The parameters are
those of all the directives, wherever they stand, and only the details depend on the route. -/
def described : Operation where
  description := block.description
  tags := [(Tag.ofDirectives block.directives).name]
  parameters := Directive.parameters ds
  operationId := lastText? .operationId route ds
  summary := lastText? .summary route ds
  produces := (lastText? .produces route ds).map mediaTypes
  consumes := (lastText? .consumes route ds).map mediaTypes
  responses := Responses.ofDirectives block.directives

variable {block ds route} {d : Directive}

/-- A directive for a detail sets it in the open route and nowhere else. -/
theorem outline_concat_detail {detail : Detail} (h : d.title = detail.title) :
    outline block (ds ++ [d]) route =
      if openRoute? ds = some route then (outline block ds route).set detail d.description
      else outline block ds route := by
  cases detail <;>
    simp only [outline, lastText?_concat, h, Detail.title, Operation.set, String.reduceEq,
      true_and, false_and, if_false] <;>
    split <;> rfl

/-- Any other directive leaves the operation as it is. -/
theorem outline_concat_of_ne (h : ∀ detail : Detail, d.title ≠ detail.title) :
    outline block (ds ++ [d]) route = outline block ds route := by
  simp only [outline, lastText?_concat, h, false_and, if_false]

/-- A route that was not there starts without details. -/
theorem outline_of_notMem (h : route ∉ routes ds) :
    outline block ds route =
      { description := block.description, tags := [(Tag.ofDirectives block.directives).name] } := by
  simp only [outline, lastText?_eq_none h, Option.map_none]

end Operation

/-! ### The fragment -/

/-- **What the fragment of a list of directives is**, the block that they belong to being given. -/
structure Fragment.Describes (block : Block) (ds : List Directive) (f : Fragment) : Prop where
  /-- The operations are those of the routes and no others. -/
  operation? : ∀ uri method, f.operation? uri method =
    if ⟨method, uri⟩ ∈ Directive.routes ds then some (Operation.described block ds ⟨method, uri⟩)
    else none
  /-- There is no path but those of the routes. -/
  uris : ∀ uri, uri ∈ SortedMap.keys f.paths ↔ ∃ route ∈ Directive.routes ds, route.uri = uri
  /-- The tag of the block stands once for each route. -/
  tags : f.tags = (Directive.routes ds).map fun _ => Tag.ofDirectives block.directives
  /-- Nothing is defined. -/
  definitions : f.definitions = ∅

/-- There is only one such fragment. -/
theorem Fragment.Describes.unique {block : Block} {ds : List Directive} {f f' : Fragment}
    (h : f.Describes block ds) (h' : f'.Describes block ds) : f = f' := by
  have hpaths : f.paths = f'.paths := by
    refine Paths.ext_operation? (fun uri => ?_) fun uri method => ?_
    · exact (h.uris uri).trans (h'.uris uri).symm
    · exact (h.operation? uri method).trans (h'.operation? uri method).symm
  obtain ⟨paths, tags, definitions⟩ := f
  obtain ⟨paths', tags', definitions'⟩ := f'
  rw [Fragment.mk.injEq]
  exact ⟨hpaths, h.tags.trans h'.tags.symm, h.definitions.trans h'.definitions.symm⟩

end ApiAnnotation
