import ApiAnnotation.Directive.Group
import ApiAnnotation.Directive.MediaType
import ApiAnnotation.Directive.Parameter
import ApiAnnotation.Directive.Response
import ApiAnnotation.Directive.Route

/-!
# Drafting a fragment

The directives of a block are taken one at a time. A `@route` opens an operation, and the
directives that describe an operation belong to the one opened last; before the first route they
are lost. Parameters are collected wherever they stand. When all directives are taken, every
operation of the draft receives the parameters and the responses of the whole block.

## Main definitions

* `ApiAnnotation.Draft`: the state between two directives.
* `ApiAnnotation.Draft.step`: takes one directive.
* `ApiAnnotation.Draft.finish`: the fragment that the draft amounts to.
-/

namespace ApiAnnotation

/-- A property of an operation that a directive of its own sets. -/
inductive Detail where
  /-- The identifier. -/
  | operationId
  /-- What the operation does, in short. -/
  | summary
  /-- The media types it answers in. -/
  | produces
  /-- The media types it accepts. -/
  | consumes
deriving DecidableEq, Repr

/-- The detail that directives of a title set. -/
def Detail.ofTitle? (title : String) : Option Detail :=
  if title = "operationId" then some .operationId
  else if title = "summary" then some .summary
  else if title = "produces" then some .produces
  else if title = "consumes" then some .consumes
  else none

/-- Sets a detail of an operation from the text of its directive. -/
def Operation.set (op : Operation) (detail : Detail) (text : String) : Operation :=
  match detail with
  | .operationId => { op with operationId := some text }
  | .summary => { op with summary := some text }
  | .produces => { op with produces := some (mediaTypes text) }
  | .consumes => { op with consumes := some (mediaTypes text) }

/-- A fragment in the making: the state between two directives of a block. -/
structure Draft where
  /-- The text of the block, which describes every operation. -/
  description : String
  /-- The tag of the block, carried by every operation. -/
  tag : Tag
  /-- The responses of the block, given to every operation at the end. -/
  responses : Responses
  /-- The route opened last. -/
  current : Option Route := none
  /-- The parameters met so far. -/
  parameters : List Parameter := []
  /-- The operations and tags so far, without parameters and responses. -/
  fragment : Fragment := {}
deriving DecidableEq, Repr

namespace Draft

/-- The draft of a block none of whose directives is taken yet. -/
def start (block : Block) : Draft where
  description := block.description
  tag := Tag.ofDirectives block.directives
  responses := Responses.ofDirectives block.directives

/-- Opens the operation of a route. One that is open already keeps its details. -/
def openRoute (draft : Draft) (route : Route) : Draft :=
  let opened (op : Option Operation) : Operation :=
    { op.getD {} with parameters := [], description := draft.description, tags := [draft.tag.name] }
  { draft with
    current := some route
    fragment :=
      { draft.fragment with
        paths := draft.fragment.paths.alter route.uri route.method opened
        tags := draft.fragment.tags ++ [draft.tag] } }

/-- Sets a detail of the operation opened last, if one is open. -/
def setDetail (draft : Draft) (detail : Detail) (text : String) : Draft :=
  match draft.current with
  | none => draft
  | some route =>
    { draft with
      fragment :=
        { draft.fragment with
          paths := draft.fragment.paths.modify route.uri route.method (·.set detail text) } }

/-- Takes one directive. -/
def step (draft : Draft) (d : Directive) : Draft :=
  if d.title = "route" then draft.openRoute (Route.ofText d.description)
  else if d.title = "param" then
    { draft with parameters := draft.parameters ++ [Parameter.ofDirective d] }
  else match Detail.ofTitle? d.title with
    | some detail => draft.setDetail detail d.description
    | none => draft

/-- The fragment that the draft amounts to. -/
def finish (draft : Draft) : Fragment :=
  match draft.current with
  | none => draft.fragment
  | some _ =>
    { draft.fragment with
      paths := draft.fragment.paths.mapOperations fun op =>
        { op with parameters := draft.parameters, responses := draft.responses } }

end Draft

end ApiAnnotation
