import ApiAnnotation.Block.Source
import ApiAnnotation.Compile
import ApiAnnotation.Report

/-!
# Compiling a source

The doc comments of a source are compiled in their order. The first one that defines a schema
without a name fails the source, and the failure points at that comment.
-/

namespace ApiAnnotation

/-- Why annotations do not compile. -/
inductive CompileError where
  /-- A schema is defined without a name. -/
  | nameless
  /-- The comment at `span` of a file defines a schema without a name. -/
  | namelessAt (file : String) (span : Span)
deriving DecidableEq, Repr

namespace CompileError

/-- What a user is told. -/
def report : CompileError → Report
  | nameless =>
    { message := "Malformed typedef: the schema definition has no type name"
      code := some "compiler::malformed_typedef"
      help := some "A @typedef must be followed by a name, e.g. \x60@typedef Pet\x60." }
  | namelessAt file _ =>
    { message := "Malformed annotation in " ++ file
      code := some "compiler::malformed_annotation"
      help := some
        "Name the schema right after the tag, e.g. \x60@typedef \x7bobject\x7d Pet\x60." }

/-- What is written at the comment that an error points to. -/
def spanLabel : String := "this @typedef has no type name"

end CompileError

/-- The fragment of a block of a file, or the error that points at it. -/
def Block.fragmentIn (file : String) (block : Block) : Except CompileError Fragment :=
  match block.fragment?, block.span with
  | some fragment, _ => .ok fragment
  | none, some span => .error (.namelessAt file span)
  | none, none => .error .nameless

/-- The fragments of the doc comments of a source that have a directive. -/
def compileSource (file source : String) : Except CompileError (List Fragment) :=
  ((Block.ofSource source).filter (·.isSignificant)).mapM (Block.fragmentIn file)

end ApiAnnotation
