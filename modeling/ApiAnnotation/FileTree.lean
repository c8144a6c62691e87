import ApiAnnotation.SortedMap.Basic
import ApiAnnotation.Text.Trim

/-!
# Trees of files

A run reads files from a tree of directories. Paths are walked from its root, component by
component; every component but the last must name a directory, and a path cannot leave the tree.
-/

namespace ApiAnnotation

/-- A file or a directory. -/
inductive FileTree where
  /-- A file, with its text unless its bytes are not one. -/
  | file (text : Option String)
  /-- A directory, with its entries in the order of their names. -/
  | directory (entries : List (String × FileTree))
deriving Repr, Inhabited

namespace FileTree

/-- The tree that holds nothing. -/
def empty : FileTree := directory []

/-- Whether a node is a file. -/
def isFile : FileTree → Bool
  | file _ => true
  | directory _ => false

/-- The entries of a directory. -/
def entries : FileTree → List (String × FileTree)
  | file _ => []
  | directory entries => entries

/-- The components of a path. -/
def components (path : String) : List String := Text.segments '/' path

/-- The tree with a node at a path, given by the names on the way. Directories on the way are made,
and a directory that is there already stays. -/
def insert (node : FileTree) : List String → FileTree → FileTree
  | [], tree =>
    match node, tree with
    | directory [], directory entries => directory entries
    | node, _ => node
  | name :: names, tree =>
    directory (Entries.alter name (fun old => insert node names (old.getD empty)) tree.entries)

/-- The tree of a list of paths with their nodes. -/
def ofList (nodes : List (String × FileTree)) : FileTree :=
  nodes.foldl (fun tree (path, node) =>
    insert node ((components path).filter fun name => name ≠ "" && name ≠ ".") tree) empty

end FileTree

/-! ### Walking paths -/

/-- Why a path leads nowhere. -/
inductive PathFault where
  /-- A name on the way is missing. -/
  | notFound
  /-- A name on the way is that of a file. -/
  | notDirectory
deriving DecidableEq, Repr

/-- A place in a tree. -/
structure Location where
  /-- The node at the place. -/
  node : FileTree
  /-- The directories that hold it, the innermost one first. -/
  above : List FileTree := []
deriving Repr

namespace Location

/-- The place that a component of a path leads to. -/
def step (loc : Location) (name : String) : Except PathFault Location :=
  match loc.node with
  | .file _ => .error .notDirectory
  | .directory entries =>
    if name = "" || name = "." then .ok loc
    else if name = ".." then
      match loc.above with
      | [] => .error .notFound
      | node :: above => .ok { node, above }
    else match entries.lookup name with
      | some node => .ok { node, above := loc.node :: loc.above }
      | none => .error .notFound

/-- The place that the components of a path lead to. -/
def walk (loc : Location) : List String → Except PathFault Location
  | [] => .ok loc
  | name :: names => (loc.step name).bind fun loc => loc.walk names

end Location

/-- Why a file cannot be read. -/
inductive ReadFault where
  /-- There is nothing at the path. -/
  | notFound
  /-- The path leads through a file. -/
  | notDirectory
  /-- There is a directory at the path. -/
  | isDirectory
  /-- The bytes of the file are not a text. -/
  | notText
deriving DecidableEq, Repr

/-- The fault of reading at a path that leads nowhere. -/
def ReadFault.ofPath : PathFault → ReadFault
  | .notFound => notFound
  | .notDirectory => notDirectory

namespace FileTree

/-- The place of a path. An absolute path lies outside the tree. -/
def locate (tree : FileTree) (path : String) : Except PathFault Location :=
  if path = "" || path.startsWith "/" then .error .notFound
  else Location.walk { node := tree } (components path)

/-- The text of the file at a path. -/
def read (tree : FileTree) (path : String) : Except ReadFault String :=
  match tree.locate path with
  | .error fault => .error (.ofPath fault)
  | .ok { node := .directory _, .. } => .error .isDirectory
  | .ok { node := .file none, .. } => .error .notText
  | .ok { node := .file (some text), .. } => .ok text

end FileTree

end ApiAnnotation
