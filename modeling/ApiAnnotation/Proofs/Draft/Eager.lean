import ApiAnnotation.Draft
import ApiAnnotation.Proofs.Paths
import Mathlib.Data.List.Induction

/-!
# Completing a fragment after every directive

There is a plainer way to assemble the fragment of a block: keep it complete all the time. As soon
as a route is open, every directive is followed by a pass over all the operations opened so far,
which gives each of them the parameters collected so far and the responses of the whole block.
`ApiAnnotation.EagerDraft` does that. It repeats much work, and what it does once too often is
overwritten by the next pass; but it never holds an operation that lacks something.

A draft puts off these passes to its end. That it loses nothing by it is a simulation:
`ApiAnnotation.EagerDraft.Matches` relates the two states up to what a pass replaces, and every
directive keeps the relation, whether it opens a slot, opens one again, or is dropped.

## Main statements

* `ApiAnnotation.EagerDraft.Matches.handle`: one directive keeps the two in step.
* `ApiAnnotation.EagerDraft.Matches.finish_eq`: after a pass the two have the same fragment.
* `ApiAnnotation.EagerDraft.finish_take_eq_fragment_take`: so they agree after any number of
  directives.
-/

namespace ApiAnnotation

/-- The operation with its parameters and responses replaced. -/
def Operation.complete (parameters : List Parameter) (responses : Responses) (op : Operation) :
    Operation :=
  { op with parameters, responses }

/-- A fragment in the making that is complete after every directive. -/
structure EagerDraft where
  /-- The block that the directives belong to. -/
  block : Block
  /-- The route opened last. -/
  current : Option Route := none
  /-- The parameters met so far. -/
  parameters : List Parameter := []
  /-- The fragment so far. -/
  fragment : Fragment := {}
deriving DecidableEq, Repr

namespace EagerDraft

/-- Nothing is there before the first directive. -/
def start (block : Block) : EagerDraft where
  block := block

/-- Opens the slot of a route. A slot that is there already is used again without its parameters. -/
def openRoute (eager : EagerDraft) (route : Route) : EagerDraft :=
  let group := Tag.ofDirectives eager.block.directives
  let slot (op : Option Operation) : Operation :=
    { op.getD {} with
      parameters := [], description := eager.block.description, tags := [group.name] }
  { eager with
    current := some route
    fragment :=
      { eager.fragment with
        paths := eager.fragment.paths.alter route.uri route.method slot
        tags := eager.fragment.tags ++ [group] } }

/-- Sets a detail in the slot of the open route. While no route is open the detail is dropped. -/
def setDetail (eager : EagerDraft) (detail : Detail) (text : String) : EagerDraft :=
  match eager.current with
  | none => eager
  | some route =>
    { eager with
      fragment :=
        { eager.fragment with
          paths := eager.fragment.paths.modify route.uri route.method (·.set detail text) } }

/-- Does what a directive says. -/
def handle (eager : EagerDraft) (d : Directive) : EagerDraft :=
  if d.title = "route" then eager.openRoute (Route.ofText d.description)
  else if d.title = "param" then
    { eager with parameters := eager.parameters ++ [Parameter.ofDirective d] }
  else match Detail.ofTitle? d.title with
    | some detail => eager.setDetail detail d.description
    | none => eager

/-- Gives the parameters so far, and the responses read from the whole block, to every operation,
if a route is open. -/
def attach (eager : EagerDraft) : EagerDraft :=
  match eager.current with
  | none => eager
  | some _ =>
    { eager with
      fragment :=
        { eager.fragment with
          paths := eager.fragment.paths.mapOperations
            (Operation.complete eager.parameters
              (Responses.ofDirectives eager.block.directives)) } }

/-- Takes one directive. -/
def step (eager : EagerDraft) (d : Directive) : EagerDraft := (eager.handle d).attach

/-! ### What completing forgets -/

section Complete

variable {parameters : List Parameter} {responses : Responses}

/-- Only the last completion counts. -/
theorem complete_comp_complete (parameters' : List Parameter) (responses' : Responses) :
    Operation.complete parameters responses ∘ Operation.complete parameters' responses' =
      Operation.complete parameters responses := rfl

/-- Operations that are equal when complete agree in all that a route leaves to them. -/
theorem complete_slot_congr (description : String) (tags : List String)
    {op op' : Option Operation}
    (h : op.map (Operation.complete parameters responses) =
      op'.map (Operation.complete parameters responses)) :
    Operation.complete parameters responses
        { op.getD {} with parameters := [], description, tags } =
      Operation.complete parameters responses
        { op'.getD {} with parameters := [], description, tags } := by
  rcases op with _ | op <;> rcases op' with _ | op'
  · rfl
  · exact absurd h.symm (Option.some_ne_none _)
  · exact absurd h (Option.some_ne_none _)
  · have hop := Option.some.inj h
    simp only [Operation.complete, Operation.mk.injEq, true_and, and_true] at hop ⊢
    exact hop.2.2

/-- Setting a detail is the same before and after completing. -/
theorem complete_set (detail : Detail) (text : String) (op : Operation) :
    Operation.complete parameters responses (op.set detail text) =
      (Operation.complete parameters responses op).set detail text := by
  cases detail <;> rfl

end Complete

/-! ### Drafts in step -/

/-- **A draft and an eager one in step**: they have read the same, and their operations differ at
most in what completing them replaces. -/
structure Matches (draft : Draft) (eager : EagerDraft) : Prop where
  /-- The draft has the text of the block. -/
  description : draft.description = eager.block.description
  /-- The draft has the tag of the block. -/
  tag : draft.tag = Tag.ofDirectives eager.block.directives
  /-- The draft has the responses of the block. -/
  responses : draft.responses = Responses.ofDirectives eager.block.directives
  /-- The same route is open. -/
  current : draft.current = eager.current
  /-- The same parameters were met. -/
  parameters : draft.parameters = eager.parameters
  /-- Before the first route the fragments are the same. -/
  awaiting : draft.current = none → draft.fragment = eager.fragment
  /-- The paths are the same once they are completed. -/
  paths : ∀ parameters responses,
    draft.fragment.paths.mapOperations (Operation.complete parameters responses) =
      eager.fragment.paths.mapOperations (Operation.complete parameters responses)
  /-- The tags are the same. -/
  tags : draft.fragment.tags = eager.fragment.tags
  /-- The definitions are the same. -/
  definitions : draft.fragment.definitions = eager.fragment.definitions

variable {draft : Draft} {eager : EagerDraft}

theorem matches_start (block : Block) : Matches (Draft.start block) (start block) :=
  ⟨rfl, rfl, rfl, rfl, rfl, fun _ => rfl, fun _ _ => rfl, rfl, rfl⟩

/-- A pass over the operations only replaces what does not count. -/
theorem Matches.attach (h : Matches draft eager) : Matches draft eager.attach := by
  rw [EagerDraft.attach]
  rcases hcurrent : eager.current with _ | route
  · exact h
  · have hopen : draft.current = some route := h.current.trans hcurrent
    have hpaths : ∀ parameters responses,
        draft.fragment.paths.mapOperations (Operation.complete parameters responses) =
          (eager.fragment.paths.mapOperations (Operation.complete eager.parameters
            (Responses.ofDirectives eager.block.directives))).mapOperations
              (Operation.complete parameters responses) := by
      intro parameters responses
      rw [h.paths, Paths.mapOperations_mapOperations, complete_comp_complete]
    exact ⟨h.description, h.tag, h.responses, hopen, h.parameters,
      fun hnone => absurd (hopen.symm.trans hnone) (Option.some_ne_none route), hpaths, h.tags,
      h.definitions⟩

/-- **After a pass the eager fragment is what the draft amounts to.** -/
theorem Matches.finish_eq (h : Matches draft eager) : draft.finish = eager.attach.fragment := by
  rw [EagerDraft.attach, Draft.finish, h.current]
  rcases hcurrent : eager.current with _ | route
  · exact h.awaiting (h.current.trans hcurrent)
  · have hpaths := h.paths draft.parameters draft.responses
    rw [h.parameters, h.responses] at hpaths
    simp only [Fragment.mk.injEq]
    refine ⟨?_, h.tags, h.definitions⟩
    rw [h.parameters, h.responses]
    exact hpaths

/-! ### One directive -/

/-- A slot that is opened in both holds the same, whatever was attached to it before. -/
theorem Matches.openRoute (h : Matches draft eager) (route : Route) :
    Matches (draft.openRoute route) (eager.openRoute route) := by
  refine ⟨h.description, h.tag, h.responses, rfl, h.parameters, ?_, ?_, ?_, h.definitions⟩
  · intro hnone
    exact absurd hnone (Option.some_ne_none route)
  · intro parameters responses
    have hpaths := Paths.mapOperations_alter_congr route.uri route.method
      (h.paths parameters responses)
      fun op op' hop => complete_slot_congr draft.description [draft.tag.name] hop
    simp only [Draft.openRoute, EagerDraft.openRoute]
    rw [← h.description, ← h.tag]
    exact hpaths
  · have htags : draft.fragment.tags ++ [draft.tag] =
        eager.fragment.tags ++ [Tag.ofDirectives eager.block.directives] := by
      rw [h.tags, h.tag]
    exact htags

/-- A detail is set in the open slot of both, or dropped by both. -/
theorem Matches.setDetail (h : Matches draft eager) (detail : Detail) (text : String) :
    Matches (draft.setDetail detail text) (eager.setDetail detail text) := by
  rw [Draft.setDetail, EagerDraft.setDetail, h.current]
  rcases hcurrent : eager.current with _ | route
  · exact h
  · refine ⟨h.description, h.tag, h.responses, rfl, h.parameters, ?_, ?_, h.tags, h.definitions⟩
    · intro hnone
      exact absurd hnone (Option.some_ne_none route)
    · intro parameters responses
      refine Paths.mapOperations_modify_congr (h.paths parameters responses) fun op op' hop => ?_
      rw [complete_set, complete_set, hop]

/-- **Every directive keeps the two in step.** -/
theorem Matches.handle (h : Matches draft eager) (d : Directive) :
    Matches (draft.step d) (eager.handle d) := by
  rw [Draft.step, EagerDraft.handle]
  by_cases hroute : d.title = "route"
  · rw [if_pos hroute, if_pos hroute]
    exact h.openRoute (Route.ofText d.description)
  rw [if_neg hroute, if_neg hroute]
  by_cases hparam : d.title = "param"
  · have hparameters : draft.parameters ++ [Parameter.ofDirective d] =
        eager.parameters ++ [Parameter.ofDirective d] := by
      rw [h.parameters]
    rw [if_pos hparam, if_pos hparam]
    exact ⟨h.description, h.tag, h.responses, h.current, hparameters, h.awaiting, h.paths, h.tags,
      h.definitions⟩
  rw [if_neg hparam, if_neg hparam]
  rcases Detail.ofTitle? d.title with _ | detail
  · exact h
  · exact h.setDetail detail d.description

/-! ### A whole run -/

/-- The two are in step after any directives. -/
theorem matches_foldl (block : Block) (ds : List Directive) :
    Matches (ds.foldl Draft.step (Draft.start block)) (ds.foldl step (start block)) := by
  -- a fold from the left grows at the end of the list
  induction ds using List.reverseRecOn with
  | nil => exact matches_start block
  | append_singleton ds d ih =>
    rw [List.foldl_append, List.foldl_append]
    exact (ih.handle d).attach

/-- **Putting the passes off loses nothing**: a draft that is finished after any number of
directives amounts to the fragment that is kept complete all the time. -/
theorem finish_take_eq_fragment_take (block : Block) (ds : List Directive) (k : Nat) :
    ((ds.take k).foldl Draft.step (Draft.start block)).finish =
      ((ds.take k).foldl step (start block)).fragment := by
  -- the last of the directives is followed by a pass, unless there was none at all
  induction ds.take k using List.reverseRecOn with
  | nil => rfl
  | append_singleton past d _ =>
    rw [List.foldl_append, List.foldl_append]
    exact ((matches_foldl block past).handle d).finish_eq

end EagerDraft

end ApiAnnotation
