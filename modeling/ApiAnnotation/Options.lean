import ApiAnnotation.Form.Document
import ApiAnnotation.Report
import ApiAnnotation.Yaml.Text

/-!
# Options

A run is described by the directory it works in, the patterns of the files it reads, and the
template of the document it writes. Options may leave each of them open; a run needs the last two.
-/

namespace ApiAnnotation

/-- What a run is told. -/
structure Options where
  /-- The directory that the patterns start from. -/
  basedir : Option String := none
  /-- The patterns of the files to read. -/
  files : Option (List String) := none
  /-- The template of the document. -/
  template : Option Template := none
deriving DecidableEq, Repr

/-- What a run needs to know. -/
structure ResolvedOptions where
  /-- The directory that the patterns start from. -/
  basedir : String
  /-- The patterns of the files to read. -/
  files : List String
  /-- The template of the document. -/
  template : Template
deriving DecidableEq, Repr

/-- The formats in which options are written. -/
inductive OptionsFormat where
  /-- JSON. -/
  | json
  /-- YAML. -/
  | yaml
deriving DecidableEq, Repr

/-- Why options cannot be used. -/
inductive OptionsError where
  /-- A field that a run needs is missing. -/
  | missingField (name : String)
  /-- The text is not JSON of the form of options. -/
  | invalidJson (fault : Fault)
  /-- The text is not YAML of the form of options. -/
  | invalidYaml
  /-- The name of a file does not tell its format. -/
  | unsupportedFormat (path : String)
deriving DecidableEq, Repr

/-- What a user is told. -/
def OptionsError.report : OptionsError → Report
  | missingField name =>
    { message := "'" ++ name ++ "' is required"
      code := some "config::missing_field"
      help := some "Generator options need both \x60files\x60 and \x60swaggerDefinition\x60." }
  | invalidJson _ => { message := "Invalid JSON options", code := some "config::invalid_json" }
  | invalidYaml => { message := "Invalid YAML options", code := some "config::invalid_yaml" }
  | unsupportedFormat path =>
    { message := "Unsupported options file " ++ ticked path
      code := some "config::unsupported_format"
      help := some "Use a \x60.json\x60, \x60.yaml\x60 or \x60.yml\x60 file." }

namespace Options

/-- The member that holds the template. -/
def templateKey : String := "swaggerDefinition"

/-- The member that holds the patterns. -/
def filesKey : String := "files"

variable {m : Type → Type} [Monad m] [MonadExcept Fault m] {ν : Type} [Readable ν m]

/-- The fields of options. -/
def fields : List (Field m ν Options) :=
  [{ name := "basedir"
     read := fun v o => return { o with basedir := ← Readable.optional Readable.text v } },
   { name := filesKey
     read := fun v o =>
      return { o with files := ← Readable.optional (Readable.list Readable.text) v } },
   { name := templateKey
     read := fun v o => return { o with template := ← Readable.optional Template.read v } }]

/-- Reads options. -/
def read (v : ν) : m Options := Field.readRecord fields {} v

/-- Reads options from a text. -/
def ofText (format : OptionsFormat) (text : String) : Except OptionsError Options :=
  match format with
  | .json => (Json.decode read text).mapError .invalidJson
  | .yaml => (Yaml.decode read text).mapError fun _ => .invalidYaml

/-- The directory that patterns start from unless told otherwise. -/
def defaultBasedir : String := "."

/-- What a run needs to know. A missing template is reported before missing patterns. -/
def resolve (o : Options) : Except OptionsError ResolvedOptions :=
  match o.template, o.files with
  | none, _ => .error (.missingField templateKey)
  | some _, none => .error (.missingField filesKey)
  | some template, some files =>
    .ok { basedir := o.basedir.getD defaultBasedir, files, template }

end Options

end ApiAnnotation
