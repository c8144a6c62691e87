import ApiAnnotation.Json
import ApiAnnotation.Operation

/-!
# Documents

A document starts from a template and takes in fragments, one after the other. An operation replaces
the one of the same method and path, a definition the one of the same name; of the tags with one
name the first stays.

## Main definitions

* `ApiAnnotation.Template`: what the user gives: metadata and seeded parts.
* `ApiAnnotation.Document.ofTemplate`: the document without any fragment.
* `ApiAnnotation.Document.merge`: takes in a fragment.
-/

namespace ApiAnnotation

/-- What a document says about the interface as a whole. -/
structure Info where
  /-- The title. -/
  title : String := ""
  /-- The version. -/
  version : String := ""
  /-- What the interface is about. -/
  description : Option String := none
  /-- Further members, kept as they are. -/
  extra : SortedMap Json := ∅
deriving DecidableEq, Repr

/-- All of a document but its paths, tags and definitions. -/
structure Metadata where
  /-- What is said about the interface. -/
  info : Info := {}
  /-- The host that serves it. -/
  host : Option String := none
  /-- The path under which it is served. -/
  basePath : Option String := none
  /-- The transfer protocols. -/
  schemes : List String := []
  /-- The media types that operations accept. -/
  consumes : List String := []
  /-- The media types that operations answer in. -/
  produces : List String := []
  /-- Further members, kept as they are. -/
  extra : SortedMap Json := ∅
deriving DecidableEq, Repr

/-- What a document starts from. -/
structure Template where
  /-- The metadata. -/
  metadata : Metadata := {}
  /-- Operations that are there from the start. -/
  paths : Paths := ∅
  /-- Tags that are there from the start. -/
  tags : List Tag := []
  /-- Definitions that are there from the start. -/
  definitions : Definitions := ∅
deriving DecidableEq, Repr

/-- The template that gives a title and a version and nothing else. -/
def Template.titled (title version : String) : Template where
  metadata := { info := { title, version } }

/-- A document. -/
structure Document where
  /-- The version of the format. -/
  swagger : String
  /-- The metadata. -/
  metadata : Metadata
  /-- The operations. -/
  paths : Paths
  /-- The tags. -/
  tags : List Tag
  /-- The definitions. -/
  definitions : Definitions
deriving DecidableEq, Repr

/-- The tags with one more, unless there is one of its name. -/
def addTag (tags : List Tag) (tag : Tag) : List Tag :=
  if tags.any (·.name = tag.name) then tags else tags ++ [tag]

namespace Document

/-- The version of the format in which documents are written. -/
def formatVersion : String := "2.0"

/-- The member of a document that names the version of its format. -/
def formatKey : String := "swagger"

/-- The document that a template amounts to. The version of the format is not the template's to
say. -/
def ofTemplate (t : Template) : Document where
  swagger := formatVersion
  metadata := { t.metadata with extra := t.metadata.extra.erase formatKey }
  paths := t.paths
  tags := t.tags.foldl addTag []
  definitions := t.definitions

/-- Takes in a fragment. -/
def merge (doc : Document) (f : Fragment) : Document :=
  { doc with
    paths := f.paths.entries.foldl (fun paths (uri, methods) =>
      SortedMap.alter paths uri fun before => (before.getD ∅).union methods) doc.paths
    tags := f.tags.foldl addTag doc.tags
    definitions := SortedMap.union doc.definitions f.definitions }

/-- Takes in fragments in turn. -/
def mergeAll (doc : Document) (fragments : List Fragment) : Document :=
  fragments.foldl merge doc

/-- The number of operations. -/
def operationCount (doc : Document) : Nat := doc.paths.operationCount

end Document

end ApiAnnotation
