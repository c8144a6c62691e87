import ApiAnnotation.Generate
import ApiAnnotation.Journal.Compile

/-!
# The journal of a run

The number of files is noted for every pattern, then what happens in every file, and in the end what
the document consists of. A step that fails notes nothing more.
-/

namespace ApiAnnotation

/-- What is noted of a pattern. -/
def patternNote (pattern : String) (files : List String) : Note :=
  if files = [] then ⟨.warn, "pattern " ++ ticked pattern ++ " matched no files"⟩
  else
    ⟨.debug, "pattern " ++ ticked pattern ++ " matched " ++ toString files.length ++ " file(s)"⟩

namespace ResolvedOptions

/-- The journal of expanding patterns in turn. -/
def patternsJournal (o : ResolvedOptions) (tree : FileTree) : List String → Journal
  | [] => []
  | pattern :: patterns =>
    match o.expandPattern tree pattern with
    | .error _ => []
    | .ok files => patternNote pattern files :: patternsJournal o tree patterns

/-- The journal of expanding the patterns of a run. -/
def expandJournal (o : ResolvedOptions) (tree : FileTree) : Journal :=
  o.patternsJournal tree o.files

end ResolvedOptions

/-- The journal of compiling files in turn. -/
def filesJournal (tree : FileTree) : List String → Journal
  | [] => []
  | path :: paths =>
    match tree.read path with
    | .error _ => []
    | .ok source =>
      compileSourceJournal path source ++
        match compileSource path source with
        | .error _ => []
        | .ok _ => filesJournal tree paths

/-- What is noted of a document in the end. -/
def summaryNote (files fragments : Nat) (doc : Document) : Note :=
  ⟨.info, "generated document from " ++ toString files ++ " file(s): " ++ toString fragments ++
    " fragment(s), " ++ toString doc.operationCount ++ " operation(s), " ++
    toString doc.definitions.size ++ " definition(s)"⟩

/-- The journal of the files of a run, with the summary if none of them fails. -/
def filesAndSummary (o : ResolvedOptions) (tree : FileTree) (files : List String) : Journal :=
  filesJournal tree files ++
    match files.mapM (compileFile tree) with
    | .error _ => []
    | .ok fragments =>
      [summaryNote files.length fragments.flatten.length
        ((Document.ofTemplate o.template).mergeAll fragments.flatten)]

/-- The journal of a run. -/
def generateJournal (o : Options) (tree : FileTree) : Journal :=
  match o.resolve with
  | .error _ => []
  | .ok o =>
    o.expandJournal tree ++
      match o.expandFiles tree with
      | .error _ => []
      | .ok files => filesAndSummary o tree files

end ApiAnnotation
