import ApiAnnotation.Directive.Typedef
import ApiAnnotation.Draft

/-!
# Compiling annotation blocks

Every block that has a directive becomes one fragment. A block that starts with `@typedef` is a
definition and nothing else; any other block describes operations.
-/

namespace ApiAnnotation

/-- The fragment that consists of one definition. -/
def Typedef.toFragment (t : Typedef) : Fragment where
  definitions := (∅ : Definitions).insert t.typeName t.definition

namespace Block

/-- Whether the block defines a schema. -/
def isTypedef (block : Block) : Bool :=
  (block.directives.head?.map (·.title)) = some "typedef"

/-- The fragment of a block, or `none` where it defines a schema without a name. -/
def fragment? (block : Block) : Option Fragment :=
  if block.isTypedef then (Typedef.ofDirectives? block.directives).map Typedef.toFragment
  else some (block.directives.foldl Draft.step (Draft.start block)).finish

end Block

/-- The fragments of the blocks that have a directive, in their order, or `none` where one of them
defines a schema without a name. -/
def compile? (blocks : List Block) : Option (List Fragment) :=
  (blocks.filter (·.isSignificant)).mapM Block.fragment?

end ApiAnnotation
