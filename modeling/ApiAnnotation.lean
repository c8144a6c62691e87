import ApiAnnotation.Block.Comment
import ApiAnnotation.Block.Source
import ApiAnnotation.Compile
import ApiAnnotation.Compile.Source
import ApiAnnotation.Directive
import ApiAnnotation.Directive.Group
import ApiAnnotation.Directive.MediaType
import ApiAnnotation.Directive.Parameter
import ApiAnnotation.Directive.Response
import ApiAnnotation.Directive.Route
import ApiAnnotation.Directive.Typedef
import ApiAnnotation.Document
import ApiAnnotation.Draft
import ApiAnnotation.Fault
import ApiAnnotation.FileTree
import ApiAnnotation.Form.Directive
import ApiAnnotation.Form.Document
import ApiAnnotation.Form.Operation
import ApiAnnotation.Generate
import ApiAnnotation.Glob.Expand
import ApiAnnotation.Glob.Pattern
import ApiAnnotation.Journal
import ApiAnnotation.Journal.Compile
import ApiAnnotation.Journal.Generate
import ApiAnnotation.Json
import ApiAnnotation.Json.Numeral
import ApiAnnotation.Json.Text
import ApiAnnotation.Json.Tree
import ApiAnnotation.Json.Written
import ApiAnnotation.Number
import ApiAnnotation.Number.Binary64
import ApiAnnotation.Number.Shortest
import ApiAnnotation.Operation
import ApiAnnotation.Options
import ApiAnnotation.Readable
import ApiAnnotation.Report
import ApiAnnotation.SortedMap.Basic
import ApiAnnotation.SortedMap.Lemmas
import ApiAnnotation.Text.Alphanumeric
import ApiAnnotation.Text.Blank
import ApiAnnotation.Text.CodeRange
import ApiAnnotation.Text.Lines
import ApiAnnotation.Text.Lowercase
import ApiAnnotation.Text.Position
import ApiAnnotation.Text.Trim
import ApiAnnotation.Token.Basic
import ApiAnnotation.Token.Lexeme
import ApiAnnotation.Token.Scan
import ApiAnnotation.TypeReference
import ApiAnnotation.Yaml.Character
import ApiAnnotation.Yaml.Cursor
import ApiAnnotation.Yaml.Node
import ApiAnnotation.Yaml.Property
import ApiAnnotation.Yaml.Scalar
import ApiAnnotation.Yaml.ScalarText
import ApiAnnotation.Yaml.Scan
import ApiAnnotation.Yaml.Text
import ApiAnnotation.Yaml.Token
import ApiAnnotation.Yaml.Written
import ApiAnnotation.Proofs.FilterPast
import ApiAnnotation.Proofs.Paths
import ApiAnnotation.Proofs.Draft.Course
import ApiAnnotation.Proofs.Draft.Interleaving
import ApiAnnotation.Proofs.Draft.Eager
import ApiAnnotation.Proofs.Document.Merge
import ApiAnnotation.Proofs.Document.DeclaredTags
import ApiAnnotation.Proofs.Text.Cut
import ApiAnnotation.Proofs.Text.Returns
import ApiAnnotation.Proofs.Text.Parts
import ApiAnnotation.Proofs.Token.Reading
import ApiAnnotation.Proofs.Token.Tiling
import ApiAnnotation.Proofs.Token.Returns
import ApiAnnotation.Proofs.Token.States
import ApiAnnotation.Proofs.Token.Grammar
import ApiAnnotation.Proofs.Token.Literals
import ApiAnnotation.Proofs.Token.Significant
import ApiAnnotation.Proofs.Token.Comments
import ApiAnnotation.Proofs.Token.Front
import ApiAnnotation.Proofs.Block.Written
import ApiAnnotation.Proofs.Block.Brace
import ApiAnnotation.Proofs.Block.Parts
import ApiAnnotation.Proofs.Block.RoundTrip
import ApiAnnotation.Proofs.Block.Sections
import ApiAnnotation.Proofs.Block.Layout
import ApiAnnotation.Proofs.Token.Rewritten
import ApiAnnotation.Proofs.Block.Retitled
import ApiAnnotation.Proofs.Directive.Typedef
import ApiAnnotation.Proofs.Directive.Response
import ApiAnnotation.Proofs.Directive.Required
import ApiAnnotation.Proofs.Directive.NormalForm
import ApiAnnotation.Proofs.Compile.FirstNameless
import ApiAnnotation.Proofs.Compile.Origin
import ApiAnnotation.Proofs.Compile.StatedTypes
import ApiAnnotation.Proofs.Compile.Keys
import ApiAnnotation.Proofs.Compile.Concat
import ApiAnnotation.Proofs.Compile.Inserted
import ApiAnnotation.Proofs.Compile.Returns
import ApiAnnotation.Proofs.Compile.Retitled
import ApiAnnotation.Proofs.Document.RoundTrip
import ApiAnnotation.Proofs.Document.Reordering
import ApiAnnotation.Proofs.Document.Seeds
import ApiAnnotation.Proofs.Form.Spelling
import ApiAnnotation.Proofs.Generate.Outcome
import ApiAnnotation.Proofs.Generate.Literal
import ApiAnnotation.Proofs.Draft.Invariant
import ApiAnnotation.Proofs.Journal.Agreement
import ApiAnnotation.Proofs.Block.Shape
import ApiAnnotation.Proofs.Directive.MediaType
import ApiAnnotation.Proofs.Text.Boundary
import ApiAnnotation.Proofs.Text.Place
import ApiAnnotation.Proofs.Block.BraceGroup
import ApiAnnotation.Proofs.Block.ByOffset
