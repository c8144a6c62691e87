import ApiAnnotation.Compile.Source
import ApiAnnotation.Glob.Expand
import ApiAnnotation.Options

/-!
# Generating a document

A run expands the patterns of its options, and then reads the files they match one after the other,
compiles each and merges what it contributes into the document, which starts as that of the
template. All patterns are expanded before the first file is read.

## Main definitions

* `ApiAnnotation.Options.ofFile`: reads options from a file.
* `ApiAnnotation.ResolvedOptions.expandFiles`: the files of a run.
* `ApiAnnotation.generate`: the document of a run.
-/

namespace ApiAnnotation

/-- Why a run fails. -/
inductive GenerateError where
  /-- The options cannot be used. -/
  | options (error : OptionsError)
  /-- A pattern cannot be read. -/
  | pattern (pattern : String) (fault : Glob.PatternFault)
  /-- A file cannot be read. -/
  | unreadable (path : String) (fault : ReadFault)
  /-- The annotations of a file do not compile. -/
  | compile (error : CompileError)
deriving DecidableEq, Repr

/-- What a user is told. -/
def GenerateError.report : GenerateError → Report
  | options error => error.report
  | pattern text _ =>
    { message := "Invalid file pattern " ++ ticked text
      code := some "generator::invalid_pattern"
      help := some "Patterns follow glob syntax, e.g. \x60routes/**/*.js\x60." }
  | unreadable path _ =>
    { message := "Failed to read " ++ ticked path
      code := some "generator::io"
      help := some "Check that the file exists and is readable." }
  | compile error => error.report

/-! ### Options from a file -/

/-- The last component of a path, components without effect being left out. -/
def fileName? (path : String) : Option String :=
  match FileTree.components path with
  | [] => none
  | first :: rest =>
    let names := first :: rest.filter (· ≠ ".")
    (names.filter (· ≠ "")).getLast?.filter fun name => name ≠ "." && name ≠ ".."

/-- What follows the last dot of the name of a file. A dot in front of the name does not count. -/
def extension? (path : String) : Option String :=
  (fileName? path).bind fun name =>
    let letters := name.toList.reverse
    match letters.dropWhile (· ≠ '.') with
    | '.' :: _ :: _ => some (String.ofList (letters.takeWhile (· ≠ '.')).reverse)
    | _ => none

/-- The format that the name of a file tells. -/
def OptionsFormat.ofPath? (path : String) : Option OptionsFormat :=
  match (extension? path).map fun extension => extension.map Char.toLower with
  | some "json" => some .json
  | some "yaml" | some "yml" => some .yaml
  | _ => none

/-- Reads options from a file. The name of the file is looked at before the file is. -/
def Options.ofFile (tree : FileTree) (path : String) : Except GenerateError Options :=
  match OptionsFormat.ofPath? path with
  | none => .error (.options (.unsupportedFormat path))
  | some format =>
    match tree.read path with
    | .error fault => .error (.unreadable path fault)
    | .ok text => (Options.ofText format text).mapError .options

/-! ### The files of a run -/

/-- A pattern behind the directory it starts from. An absolute pattern stands alone. -/
def joinPath (directory pattern : String) : String :=
  if pattern.startsWith "/" then pattern
  else if directory = "" || directory.endsWith "/" then directory ++ pattern
  else directory ++ "/" ++ pattern

namespace ResolvedOptions

/-- The files among what a pattern matches. -/
def filesAmong (visits : List Glob.Visit) : List String :=
  (visits.filter (·.location.node.isFile)).map (·.path)

/-- The files that a pattern of the run matches. -/
def expandPattern (o : ResolvedOptions) (tree : FileTree) (pattern : String) :
    Except GenerateError (List String) :=
  ((Glob.expand tree (joinPath o.basedir pattern)).map filesAmong).mapError (.pattern pattern)

/-- The files of the run: those of each pattern in turn. -/
def expandFiles (o : ResolvedOptions) (tree : FileTree) : Except GenerateError (List String) :=
  (o.files.mapM (o.expandPattern tree)).map List.flatten

end ResolvedOptions

/-! ### The document of a run -/

/-- What a file contributes. -/
def compileFile (tree : FileTree) (path : String) : Except GenerateError (List Fragment) :=
  match tree.read path with
  | .error fault => .error (.unreadable path fault)
  | .ok source => (compileSource path source).mapError .compile

/-- The document with what a file contributes. -/
def Document.takeFile (tree : FileTree) (doc : Document) (path : String) :
    Except GenerateError Document := do
  let fragments ← compileFile tree path
  return doc.mergeAll fragments

/-- The document of a run. What a file contributes is taken in before the next file is read. -/
def generate (o : Options) (tree : FileTree) : Except GenerateError Document := do
  let o ← o.resolve.mapError .options
  let files ← o.expandFiles tree
  files.foldlM (Document.takeFile tree) (Document.ofTemplate o.template)

end ApiAnnotation
