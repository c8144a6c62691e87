import ApiAnnotation.FileTree
import ApiAnnotation.Glob.Pattern

/-!
# Expanding glob patterns

A pattern is expanded to what it matches, component by component from the root of the tree. The
entries of a directory come in the order of their names, what a directory holds where its own name
comes. Names without wildcards are looked up as they stand.
-/

namespace ApiAnnotation

namespace Glob

/-- A place that is reached, with the path by which it is reached. -/
structure Visit where
  /-- The path. -/
  path : String
  /-- The place. -/
  location : Location

namespace Visit

/-- The path of the root of a tree. -/
def rootPath : String := "."

/-- The root of a tree. -/
def root (tree : FileTree) : Visit := { path := rootPath, location := { node := tree } }

/-- The path with a name behind it. Nothing stands in front of the names at the root. -/
def pathTo (path name : String) : String :=
  if path = rootPath then name
  else if path.endsWith "/" then path ++ name
  else path ++ "/" ++ name

/-- The place that a component without wildcards leads to. -/
def enter? (v : Visit) (name : String) : Option Visit :=
  if v.path = rootPath && name = "" then none
  else match v.location.step name with
    | .ok location => some { path := pathTo v.path name, location }
    | .error _ => none

/-- The entries of a directory, each with its name. -/
def children (v : Visit) : List (String × Visit) :=
  v.location.node.entries.map fun (name, node) =>
    (name,
      { path := pathTo v.path name
        location := { node, above := v.location.node :: v.location.above } })

mutual

/-- All places within a node, each with its name, a directory before what it holds. -/
def within (path : String) (above : List FileTree) : FileTree → List (String × Visit)
  | .file _ => []
  | .directory entries => withinEntries path (.directory entries :: above) entries

/-- All places within entries. -/
def withinEntries (path : String) (above : List FileTree) :
    List (String × FileTree) → List (String × Visit)
  | [] => []
  | (name, node) :: entries =>
    (name, { path := pathTo path name, location := { node, above } }) ::
      within (pathTo path name) above node ++ withinEntries path above entries

end

/-- All places within a directory, each with its name. -/
def descendants (v : Visit) : List (String × Visit) :=
  within v.path v.location.above v.location.node

end Visit

/-- The names that no directory lists, and that a wildcard matches only if it starts with a dot. -/
def dotNames : List String := ["..", "."]

/-- The places that components lead to. -/
def expandFrom : List Component → Visit → List Visit
  | [], v => [v]
  | .name name :: rest, v =>
    match v.enter? name with
    | some v => expandFrom rest v
    | none => []
  | .wildcard atoms :: rest, v =>
    let dotted := if atoms.head? = some (.char '.') then dotNames else []
    let special := (dotted.filter fun name => matchesText atoms name.toList).filterMap v.enter?
    let listed := (v.children.filter fun (name, _) => matchesText atoms name.toList).map (·.2)
    (special ++ listed).flatMap (expandFrom rest)
  | .directories :: rest, v =>
    match rest with
    | [] => []
    | .directories :: rest => expandFrom (.directories :: rest) v
    | component :: rest =>
      (v.descendants.filter fun (name, _) => component.matchesName name).flatMap fun (_, v) =>
        expandFrom rest v

/-- What a pattern matches, in order. A pattern that ends in a slash matches only directories, and
an absolute one nothing in the tree. -/
def expand (tree : FileTree) (pattern : String) : Except PatternFault (List Visit) :=
  (parse pattern).map fun components =>
    if pattern.startsWith "/" then []
    else
      let visits := expandFrom components (.root tree)
      if pattern.endsWith "/" then visits.filter (!·.location.node.isFile) else visits

end Glob

end ApiAnnotation
