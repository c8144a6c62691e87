import ApiAnnotation.Yaml.Property

/-!
# The tokens of a YAML text

Blocks begin and end by indentation. A key that stands before its colon is known as a key only when
the colon is reached, so the place of every scalar that may turn out to be one is kept, and the
tokens that announce the key are entered there.

## Main definition

* `ApiAnnotation.Yaml.Token.ofText?`: the tokens of a text, or `none` where it is not YAML.
-/

namespace ApiAnnotation

namespace Yaml

/-- The place of something that may turn out to be a key. -/
structure Candidate where
  /-- Whether it must be a key, since the indentation says so. -/
  required : Bool
  /-- The number of tokens before it. -/
  position : Nat
  /-- The number of bytes before it. -/
  index : Nat
  /-- Its line. -/
  line : Nat
  /-- Its column. -/
  column : Nat
deriving Repr

/-- The state between two tokens. -/
structure Scanner where
  /-- The text that is left. -/
  cursor : Cursor
  /-- The tokens so far. -/
  tokens : Array Token := #[]
  /-- The column of the block that is open, or a negative number. -/
  indent : Int := -1
  /-- The columns of the blocks around it. -/
  outer : List Int := []
  /-- What may turn out to be a key outside all flow collections. -/
  candidate : Option Candidate := none
  /-- The same for the flow collections that are open, the innermost one first. -/
  flow : List (Option Candidate) := []
  /-- Whether a key may begin here. -/
  keyAllowed : Bool := true

namespace Scanner

/-- Whether a flow collection is open. -/
def inFlow (s : Scanner) : Bool := !s.flow.isEmpty

/-- Adds a token. -/
def push (token : Token) (s : Scanner) : Scanner := { s with tokens := s.tokens.push token }

/-- Passes over characters. -/
def advance (n : Nat) (s : Scanner) : Scanner := { s with cursor := s.cursor.advance n }

/-! ### Blocks -/

/-- Ends the blocks whose column is greater than the given one. -/
def unroll (column : Int) (s : Scanner) : Scanner :=
  if s.inFlow then s else go s.outer s
where
  /-- Ends blocks in turn, the columns of the blocks around being given. -/
  go : List Int → Scanner → Scanner
    | [], s => s
    | around :: outer, s =>
      if column < s.indent then
        go outer { s with indent := around, outer, tokens := s.tokens.push .blockEnd }
      else s

/-- Begins a block at a column if it is greater than that of the open one. The token is entered
before the given number of tokens. -/
def roll (column : Nat) (position : Nat) (token : Token) (s : Scanner) : Scanner :=
  if s.inFlow || (column : Int) ≤ s.indent then s
  else
    { s with
      indent := column
      outer := s.indent :: s.outer
      tokens := s.tokens.insertIdxIfInBounds position token }

/-! ### Keys -/

/-- The greatest number of bytes from the start of a key to its colon. -/
def maxKeyLength : Nat := 1024

/-- What may turn out to be a key in the innermost collection. -/
def current (s : Scanner) : Option Candidate :=
  match s.flow with
  | [] => s.candidate
  | candidate :: _ => candidate

/-- The state with another candidate in the innermost collection. -/
def setCurrent (candidate : Option Candidate) (s : Scanner) : Scanner :=
  match s.flow with
  | [] => { s with candidate }
  | _ :: flow => { s with flow := candidate :: flow }

/-- Whether something can no longer be a key: the line is over, or the key would be too long. -/
def isStale (s : Scanner) (k : Candidate) : Bool :=
  k.line < s.cursor.line || k.index + maxKeyLength < s.cursor.index

/-- Drops the candidate outside all flow collections and the one in the innermost collection if they
can no longer be keys; the former must not have to be one. No other candidate is looked at before
its collection is the innermost, and only the one outside may have to be a key. -/
def dropStale? (s : Scanner) : Option Scanner :=
  let stale (k : Option Candidate) : Bool := (k.map s.isStale).getD false
  if stale s.candidate && (s.candidate.map (·.required)).getD false then none
  else
    let s := if stale s.candidate then { s with candidate := none } else s
    some (if stale s.current then s.setCurrent none else s)

/-- Gives up the candidate of the innermost collection, which must not have to be a key. -/
def dropCandidate? (s : Scanner) : Option Scanner :=
  if (s.current.map (·.required)).getD false then none else some (s.setCurrent none)

/-- Notes that what comes next may turn out to be a key. -/
def noteCandidate? (s : Scanner) : Option Scanner :=
  if !s.keyAllowed then some s
  else do
    let c := s.cursor
    let required := !s.inFlow && s.indent = c.column
    let s ← s.dropCandidate?
    return s.setCurrent (some
      { required, position := s.tokens.size, index := c.index, line := c.line, column := c.column })

/-! ### Tokens -/

/-- Passes over spaces, comments and line breaks. Outside flow collections a key may begin on a new
line; a tab is passed only where none may. A byte order mark may start a line and fills its first
column. -/
def toNextToken : Nat → Scanner → Scanner
  | 0, s => s
  | fuel + 1, s =>
    let c := s.cursor
    let c := if c.column = 0 && c.startsWith [byteOrderMark] then c.advance 1 else c
    let tabs := s.inFlow || !s.keyAllowed
    let c := c.dropWhile fun x => x = ' ' || (tabs && x = '\t')
    let c := if c.startsWith ['#'] then c.dropLine else c
    if c.atBreak then
      toNextToken fuel { s with cursor := c.takeBreak.2, keyAllowed := s.keyAllowed || !s.inFlow }
    else { s with cursor := c }

/-- Ends all blocks before a directive or a line between documents. -/
def endBlocks? (s : Scanner) : Option Scanner := do
  let s ← (s.unroll (-1)).dropCandidate?
  return { s with keyAllowed := false }

/-- Takes the line before or after a document. -/
def takeMarker? (token : Token) (s : Scanner) : Option Scanner := do
  let s ← s.endBlocks?
  return (s.advance 3).push token

/-- Takes a directive. -/
def takeDirective? (s : Scanner) : Option Scanner := do
  let s ← s.endBlocks?
  let (token, cursor) ← directive? (s.cursor.advance 1)
  return { s with cursor }.push token

/-- Takes an opening bracket. -/
def takeOpening? (token : Token) (s : Scanner) : Option Scanner := do
  let s ← s.noteCandidate?
  return ({ s with flow := none :: s.flow, keyAllowed := true }.advance 1).push token

/-- Takes a closing bracket. -/
def takeClosing? (token : Token) (s : Scanner) : Option Scanner := do
  let s ← s.dropCandidate?
  return ({ s with flow := s.flow.drop 1, keyAllowed := false }.advance 1).push token

/-- Takes a comma. -/
def takeComma? (s : Scanner) : Option Scanner := do
  let s ← s.dropCandidate?
  return ({ s with keyAllowed := true }.advance 1).push .comma

/-- Takes the dash before an item. -/
def takeItem? (s : Scanner) : Option Scanner := do
  if !s.inFlow && !s.keyAllowed then none
  let s ← (s.roll s.cursor.column s.tokens.size .blockList).dropCandidate?
  return ({ s with keyAllowed := true }.advance 1).push .item

/-- Takes the question mark before a key. -/
def takeKey? (s : Scanner) : Option Scanner := do
  if !s.inFlow && !s.keyAllowed then none
  let s ← (s.roll s.cursor.column s.tokens.size .blockMap).dropCandidate?
  return ({ s with keyAllowed := !s.inFlow }.advance 1).push .key

/-- Takes the colon before a value. If there is a candidate, it is a key. -/
def takeValue? (s : Scanner) : Option Scanner :=
  match s.current with
  | some k =>
    let s := { s with tokens := s.tokens.insertIdxIfInBounds k.position .key }
    let s := (s.roll k.column k.position .blockMap).setCurrent none
    some (({ s with keyAllowed := false }.advance 1).push .value)
  | none =>
    if !s.inFlow && !s.keyAllowed then none
    else
      let s := s.roll s.cursor.column s.tokens.size .blockMap
      some (({ s with keyAllowed := !s.inFlow }.advance 1).push .value)

/-- Takes an anchor, or a reference to one. -/
def takeAnchor? (token : List Char → Token) (s : Scanner) : Option Scanner := do
  let s ← s.noteCandidate?
  let (name, cursor) ← anchorName? (s.cursor.advance 1)
  return { s with cursor, keyAllowed := false }.push (token name)

/-- Takes a tag. -/
def takeTag? (s : Scanner) : Option Scanner := do
  let s ← s.noteCandidate?
  let (token, cursor) ← tag? s.inFlow s.cursor
  return { s with cursor, keyAllowed := false }.push token

/-- Takes a block of lines. -/
def takeBlockText? (folded : Bool) (s : Scanner) : Option Scanner := do
  let s ← s.dropCandidate?
  let (text, cursor) ← blockText? folded s.indent (s.cursor.advance 1)
  return { s with cursor, keyAllowed := true }.push
    (.scalar (if folded then .folded else .literal) text)

/-- Takes a quoted scalar. -/
def takeQuoted? (quote : Char) (s : Scanner) : Option Scanner := do
  let s ← s.noteCandidate?
  let (text, cursor) ← quoted? quote (s.cursor.advance 1)
  return { s with cursor, keyAllowed := false }.push (.scalar .quoted text)

/-- Takes a plain scalar. A key may begin after it if it was followed by a line break. -/
def takePlain? (s : Scanner) : Option Scanner := do
  let s ← s.noteCandidate?
  let (text, broken, cursor) ← plain? s.inFlow (s.indent + 1) s.cursor
  return { s with cursor, keyAllowed := broken }.push (.scalar .plain text)

/-- Whether a plain scalar may start with a character, the text after it being given. -/
def mayStartPlain (inFlow : Bool) (c : Char) (cs : List Char) : Bool :=
  if c = '-' then !((cs.head?.map isSpacing).getD false)
  else if c = '?' || c = ':' then !inFlow && !atGap cs
  else !(isGap c || ",[]#&*!|>\"%@\x60\x7b\x7d".toList.contains c || c = '\'')

/-- Takes the token at the cursor, which is at the given character. -/
def takeAt? (c : Char) (cs : List Char) (s : Scanner) : Option Scanner :=
  if s.cursor.column = 0 && c = '%' then s.takeDirective?
  else if s.cursor.atDocumentStart then s.takeMarker? .documentStart
  else if s.cursor.atDocumentEnd then s.takeMarker? .documentEnd
  else if c = '[' then s.takeOpening? .openList
  else if c = '\x7b' then s.takeOpening? .openMap
  else if c = ']' then s.takeClosing? .closeList
  else if c = '}' then s.takeClosing? .closeMap
  else if c = ',' then s.takeComma?
  else if c = '-' && atGap cs then s.takeItem?
  else if c = '?' && (s.inFlow || atGap cs) then s.takeKey?
  else if c = ':' && (s.inFlow || atGap cs) then s.takeValue?
  else if c = '*' then s.takeAnchor? .reference
  else if c = '&' then s.takeAnchor? .anchor
  else if c = '!' then s.takeTag?
  else if c = '|' && !s.inFlow then s.takeBlockText? false
  else if c = '>' && !s.inFlow then s.takeBlockText? true
  else if c = '\'' || c = '"' then s.takeQuoted? c
  else if mayStartPlain s.inFlow c cs then s.takePlain?
  else none

/-- Takes all tokens that are left. Each is written with a character at least, so the fuel is never
less than the text that is left. -/
def finish? : Nat → Scanner → Option (List Token)
  | 0, _ => none
  | fuel + 1, s => do
    let s ← (s.toNextToken (fuel + 1)).dropStale?
    let s := s.unroll s.cursor.column
    match s.cursor.rest with
    | [] => return (← s.endBlocks?).tokens.toList
    | c :: cs => (s.takeAt? c cs).bind (finish? fuel)

end Scanner

/-- The tokens of a text, or `none` where it is not YAML. -/
def Token.ofText? (text : String) : Option (List Token) :=
  let cs := text.toList
  if cs.all isReadable then Scanner.finish? (cs.length + 1) { cursor := { rest := cs } } else none

end Yaml

end ApiAnnotation
