import ApiAnnotation.Compile.Source
import ApiAnnotation.Journal
import ApiAnnotation.Report

/-!
# The journal of a compilation

Comments that are not closed are noted when the comments of a source are taken, blocks without
directives when blocks are compiled, and routes, definitions and dropped directives when a block
becomes a fragment.
-/

namespace ApiAnnotation

/-- What is noted when a directive is taken: a route that is opened, or a detail that is lost since
no operation is open. -/
def Draft.notes (draft : Draft) (d : Directive) : Journal :=
  if d.title = "route" then
    let route := Route.ofText d.description
    [⟨.trace, "route " ++ route.method ++ " " ++ route.uri⟩]
  else if (Detail.ofTitle? d.title).isSome && draft.current.isNone then
    [⟨.debug, "dropping @" ++ d.title ++ " " ++ ticked d.description ++
      ": it precedes the block's @route"⟩]
  else []

/-- The journal of directives that are taken in turn. -/
def Draft.journal (draft : Draft) : List Directive → Journal
  | [] => []
  | d :: ds => draft.notes d ++ (draft.step d).journal ds

namespace Block

/-- The journal of a block that becomes a fragment. -/
def journal (block : Block) : Journal :=
  if block.isTypedef then
    (Typedef.ofDirectives? block.directives).toList.map fun t => ⟨.trace, "typedef " ++ t.typeName⟩
  else (Draft.start block).journal block.directives

/-- The journal of blocks that are compiled in turn, the first that fails being the last. -/
def journalOfAll : List Block → Journal
  | [] => []
  | block :: blocks =>
    if block.fragment?.isNone then block.journal else block.journal ++ journalOfAll blocks

/-- What is noted of a token when the comments of a source are taken. -/
def noteOfToken? (source : String) (t : Token) : Option Note :=
  match t.kind with
  | .openComment =>
    let p := place source t.start
    some ⟨.warn, "unterminated comment at " ++ toString p.line ++ ":" ++ toString p.column ++
      " ignored"⟩
  | _ => none

/-- The journal of taking the comments of a source. -/
def journalOfSource (source : String) : Journal :=
  (Token.scan source).filterMap (noteOfToken? source)

end Block

/-- The journal of compiling blocks. -/
def compileJournal : List Block → Journal
  | [] => []
  | block :: blocks =>
    if !block.isSignificant then
      ⟨.debug, "skipping annotation block without directives"⟩ :: compileJournal blocks
    else if block.fragment?.isNone then block.journal
    else block.journal ++ compileJournal blocks

/-- The journal of compiling a source. -/
def compileSourceJournal (file source : String) : Journal :=
  let blocks := Block.ofSource source
  Block.journalOfSource source ++
    ⟨.debug, file ++ ": " ++ toString blocks.length ++ " doc comment(s)"⟩ ::
      Block.journalOfAll (blocks.filter (·.isSignificant))

end ApiAnnotation
