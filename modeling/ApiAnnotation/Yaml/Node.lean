import ApiAnnotation.Yaml.Token

/-!
# The nodes of a YAML text

A text holds at most one document, which is a tree of scalars, lists and maps. A reference stands
for the node at its anchor; it is kept as a reference, since that node may be the one around it.

## Main definitions

* `ApiAnnotation.Yaml.Node`: a node.
* `ApiAnnotation.Yaml.Content.ofTokens?`: the document of a list of tokens.
-/

namespace ApiAnnotation

namespace Yaml

/-- A node. -/
inductive Node where
  /-- A scalar with its tag, if it has one. -/
  | scalar (tag : Option TagText) (style : ScalarStyle) (text : List Char)
  /-- A list. -/
  | list (tag : Option TagText) (items : List Node)
  /-- A map. -/
  | map (tag : Option TagText) (members : List (Node × Node))
  /-- A reference to the anchor of a number. -/
  | reference (anchor : Nat)
deriving Repr, Inhabited

/-- The scalar that stands where nothing is written. -/
def Node.empty : Node := .scalar none .plain []

mutual

/-- The size of a node: lists and maps count twice, everything else once. -/
def Node.size : Node → Nat
  | .scalar .. => 1
  | .list _ items => 2 + sizeOfItems items
  | .map _ members => 2 + sizeOfMembers members
  | .reference _ => 1

/-- The size of items. -/
def sizeOfItems : List Node → Nat
  | [] => 0
  | item :: items => item.size + sizeOfItems items

/-- The size of members. -/
def sizeOfMembers : List (Node × Node) → Nat
  | [] => 0
  | (key, value) :: members => key.size + value.size + sizeOfMembers members

end

/-- What a text holds. -/
structure Content where
  /-- The root of the document, if there is a document. -/
  root : Option Node := none
  /-- The nodes at the anchors. -/
  anchors : List (Nat × Node) := []

/-! ### Building nodes -/

/-- The state between two tokens. An anchor takes as its number the number of names known before it,
so it shares a number with another one only after a name was used twice. -/
structure Builder where
  /-- The tokens that are left. -/
  tokens : List Token
  /-- The shorthands for tags. -/
  shorthands : List (List Char × TagText) := []
  /-- The number of the last anchor of each name. -/
  names : List (List Char × Nat) := []
  /-- The anchors met so far, the last one first. -/
  met : List Nat := []
  /-- The nodes at the anchors, each with the number of anchors met before it. -/
  nodes : List (Nat × Node) := []

/-- Building may fail where the tokens are not those of a document. -/
abbrev Build := StateT Builder Option

namespace Build

/-- The next token. -/
def peek : Build (Option Token) := return (← get).tokens.head?

/-- Passes over a token. -/
def skip : Build Unit := modify fun s => { s with tokens := s.tokens.drop 1 }

/-- Enters an anchor. Gives the number of anchors met before it. -/
def meet (name : List Char) : Build Nat := do
  let s ← get
  let number := s.names.length
  let names := (name, number) :: s.names.filter (·.1 ≠ name)
  set { s with names, met := number :: s.met }
  return s.met.length

/-- The tag that a shorthand and a suffix stand for. -/
def tag (handle : List Char) (suffix : TagText) : Build TagText := do
  if handle = [] then return suffix
  match (← get).shorthands.lookup handle with
  | some expansion => return expansion ++ suffix
  | none => failure

/-- Takes the anchor of a node, if there is one. -/
def anchor : Build (Option (List Char)) := do
  match ← peek with
  | some (.anchor name) =>
    skip
    return some name
  | _ => return none

/-- Takes the tag of a node, if there is one. -/
def tagToken : Build (Option (List Char × TagText)) := do
  match ← peek with
  | some (.tag handle suffix) =>
    skip
    return some (handle, suffix)
  | _ => return none

/-- Takes the anchor and the tag of a node, in either order. -/
def properties : Build (Option (List Char) × Option TagText) := do
  let name ← anchor
  let parts ← tagToken
  let name ← if name.isNone && parts.isSome then anchor else pure name
  match parts with
  | none => return (name, none)
  | some (handle, suffix) => return (name, some (← tag handle suffix))

mutual

/-- Builds a node. Blocks are taken only where they may stand, and the dashes of a list at the
column of its key only there. -/
def node (block unindented : Bool) : Nat → Build Node
  | 0 => failure
  | fuel + 1 => do
    match ← peek with
    | some (.reference name) =>
      skip
      match (← get).names.lookup name with
      | some number => return .reference number
      | none => failure
    | _ =>
      let (name, tag) ← properties
      match name with
      | none => content block unindented tag false fuel
      | some name =>
        let serial ← meet name
        let result ← content block unindented tag true fuel
        modify fun s => { s with nodes := (serial, result) :: s.nodes }
        return result

/-- Builds what stands after the anchor and the tag of a node. -/
def content (block unindented : Bool) (tag : Option TagText) (anchored : Bool) :
    Nat → Build Node
  | 0 => failure
  | fuel + 1 => do
    match ← peek with
    | some (.scalar style text) =>
      skip
      return .scalar tag style text
    | some .openList =>
      skip
      return .list tag (← flowItems true fuel)
    | some .openMap =>
      skip
      return .map tag (← flowMembers true fuel)
    | some .blockList =>
      if !block then failure
      skip
      return .list tag (← blockItems fuel)
    | some .blockMap =>
      if !block then failure
      skip
      return .map tag (← blockMembers fuel)
    | some .item =>
      if unindented then return .list tag (← unindentedItems fuel)
      else if anchored || tag.isSome then return .scalar tag .plain []
      else failure
    | _ => if anchored || tag.isSome then return .scalar tag .plain [] else failure

/-- Builds the items of a block. -/
def blockItems : Nat → Build (List Node)
  | 0 => failure
  | fuel + 1 => do
    match ← peek with
    | some .item =>
      skip
      let item ← match ← peek with
        | some .item | some .blockEnd => pure .empty
        | _ => node true false fuel
      return item :: (← blockItems fuel)
    | some .blockEnd =>
      skip
      return []
    | _ => failure

/-- Builds the items of a list at the column of its key. -/
def unindentedItems : Nat → Build (List Node)
  | 0 => failure
  | fuel + 1 => do
    match ← peek with
    | some .item =>
      skip
      let item ← match ← peek with
        | some .item | some .key | some .value | some .blockEnd => pure .empty
        | _ => node true false fuel
      return item :: (← unindentedItems fuel)
    | _ => return []

/-- Builds a key or a value in a block. -/
def blockPart : Nat → Build Node
  | 0 => failure
  | fuel + 1 => do
    match ← peek with
    | some .key | some .value | some .blockEnd => return .empty
    | _ => node true true fuel

/-- Builds the members of a block. -/
def blockMembers : Nat → Build (List (Node × Node))
  | 0 => failure
  | fuel + 1 => do
    match ← peek with
    | some .key =>
      skip
      let key ← blockPart fuel
      let value ← match ← peek with
        | some .value => do
          skip
          blockPart fuel
        | _ => pure .empty
      return (key, value) :: (← blockMembers fuel)
    | some .blockEnd =>
      skip
      return []
    | _ => failure

/-- Builds the value of a member in a flow collection that a token closes. -/
def flowValue (close : Token) : Nat → Build Node
  | 0 => failure
  | fuel + 1 => do
    match ← peek with
    | some .value =>
      skip
      let next ← peek
      if next = some .comma || next = some close then return .empty else node false false fuel
    | _ => return .empty

/-- Builds the items of a flow list. A key within it opens a map of one member; where that key is
empty, the token after it is lost. -/
def flowItems (first : Bool) : Nat → Build (List Node)
  | 0 => failure
  | fuel + 1 => do
    match ← peek with
    | some .closeList =>
      skip
      return []
    | next =>
      if !first then
        if next = some .comma then skip else failure
      match ← peek with
      | some .key =>
        skip
        let key ← match ← peek with
          | some .value | some .comma | some .closeList => do
            skip
            pure .empty
          | _ => node false false fuel
        let value ← flowValue .closeList fuel
        return .map none [(key, value)] :: (← flowItems false fuel)
      | some .closeList =>
        skip
        return []
      | _ =>
        let item ← node false false fuel
        return item :: (← flowItems false fuel)

/-- Builds the members of a flow map. -/
def flowMembers (first : Bool) : Nat → Build (List (Node × Node))
  | 0 => failure
  | fuel + 1 => do
    match ← peek with
    | some .closeMap =>
      skip
      return []
    | next =>
      if !first then
        if next = some .comma then skip else failure
      match ← peek with
      | some .key =>
        skip
        let key ← match ← peek with
          | some .value | some .comma | some .closeMap => pure .empty
          | _ => node false false fuel
        let value ← flowValue .closeMap fuel
        return (key, value) :: (← flowMembers false fuel)
      | some .closeMap =>
        skip
        return []
      | _ =>
        let key ← node false false fuel
        return (key, .empty) :: (← flowMembers false fuel)

end

/-! ### Documents -/

/-- The shorthands that every document has. -/
def defaultShorthands : List (List Char × TagText) :=
  [(['!'], .ofAscii ['!']), (['!', '!'], .ofAscii "tag:yaml.org,2002:".toList)]

/-- Takes the directives of a document: at most one version, which must be known, and no shorthand
twice. -/
def directives (versioned : Bool) : Nat → Build Unit
  | 0 => failure
  | fuel + 1 => do
    match ← peek with
    | some (.version major minor) =>
      if versioned || major ≠ 1 || !(minor = 1 || minor = 2) then failure
      skip
      directives true fuel
    | some (.shorthand handle expansion) =>
      let s ← get
      if (s.shorthands.lookup handle).isSome then failure
      set { s with shorthands := s.shorthands ++ [(handle, expansion)] }
      skip
      directives versioned fuel
    | _ => return

/-- Takes the root of a document of a number of tokens. No token takes more than four steps. -/
def root (count : Nat) : Build Node := do
  directives false count
  let explicit := (← peek) = some .documentStart
  let directed := (← get).tokens.length < count
  let fuel := 4 * count + 4
  if directed && !explicit then failure
  modify fun s => { s with shorthands := s.shorthands ++ defaultShorthands }
  if explicit then
    skip
    match ← peek with
    | none | some (.version ..) | some (.shorthand ..) | some .documentStart | some .documentEnd =>
      return .empty
    | _ => node true false fuel
  else node true false fuel

end Build

/-- The document of a list of tokens. A text without tokens holds none. -/
def Content.ofTokens? (tokens : List Token) : Option Content :=
  if tokens = [] then some {}
  else do
    let (root, s) ← (Build.root tokens.length).run { tokens }
    if s.tokens.any (· ≠ .documentEnd) then none
    let serialOf (number : Nat) : Nat := (s.met.length - 1) - (s.met.idxOf number)
    let anchors := s.met.eraseDups.filterMap fun number =>
      (s.nodes.lookup (serialOf number)).map (number, ·)
    return { root := some root, anchors }

end Yaml

end ApiAnnotation
