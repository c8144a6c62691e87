import ApiAnnotation.Text.Trim

/-!
# Glob patterns

A pattern is a path whose components may hold wildcards: `*` for any characters, `?` for one, and
brackets for one of a set. A component `**` stands for any number of directories.

## Main definitions

* `ApiAnnotation.Glob.parse`: reads a pattern.
* `ApiAnnotation.Glob.Component.matchesName`: whether a component matches a name.
-/

namespace ApiAnnotation

namespace Glob

/-- What is wrong with a pattern. -/
inductive PatternError where
  /-- There are more than two stars in a row. -/
  | stars
  /-- Two stars share a component with something else. -/
  | recursion
  /-- A bracket is not closed, or empty. -/
  | bracket
deriving DecidableEq, Repr

/-- What a user is told. -/
def PatternError.message : PatternError → String
  | stars => "wildcards are either regular \x60*\x60 or recursive \x60**\x60"
  | recursion => "recursive wildcards must form a single path component"
  | bracket => "invalid range pattern"

/-- An error in a pattern, and the number of characters before it. -/
structure PatternFault where
  /-- Where it is. -/
  position : Nat
  /-- What it is. -/
  error : PatternError
deriving DecidableEq, Repr

/-- What a user is told. -/
def PatternFault.message (fault : PatternFault) : String :=
  "Pattern syntax error near position " ++ toString fault.position ++ ": " ++ fault.error.message

/-- A part of a pattern. -/
inductive Atom where
  /-- A character that stands for itself. -/
  | char (c : Char)
  /-- Any one character. -/
  | anyChar
  /-- Any characters. -/
  | anyChars
  /-- Any directories. -/
  | anyDirectories
  /-- One character of a set, or none of it; the set is given by ranges. -/
  | bracket (negated : Bool) (ranges : List (Char × Char))
deriving DecidableEq, Repr

/-- The ranges of the characters between brackets. A dash between two characters makes them the ends
of a range. -/
def bracketRanges : List Char → List (Char × Char)
  | a :: '-' :: b :: cs => (a, b) :: bracketRanges cs
  | a :: cs => (a, a) :: bracketRanges cs
  | [] => []

/-- Reads a bracket, the opening one being passed: the atom, and what follows it. The first
character of a set never closes it. -/
def bracket? (cs : List Char) : Option (Atom × List Char) :=
  let (negated, cs) := match cs with
    | '!' :: cs => (true, cs)
    | cs => (false, cs)
  match cs with
  | [] => none
  | c :: cs =>
    match cs.dropWhile (· ≠ ']') with
    | [] => none
    | _ :: rest => some (.bracket negated (bracketRanges (c :: cs.takeWhile (· ≠ ']'))), rest)

/-- Reads the atoms of a pattern, the character before them and its position being known. The fuel
bounds their number. -/
def atomsFrom : Nat → Option Char → Nat → List Char → Except PatternFault (List Atom)
  | 0, _, _, _ => .ok []
  | _ + 1, _, _, [] => .ok []
  | _ + 1, _, position, '*' :: '*' :: '*' :: _ => .error ⟨position + 2, .stars⟩
  | fuel + 1, before, position, '*' :: '*' :: cs =>
    if before = none || before = some '/' then
      match cs with
      | [] => .ok [.anyDirectories]
      | '/' :: cs => (atomsFrom fuel (some '/') (position + 3) cs).map (.anyDirectories :: ·)
      | _ => .error ⟨position + 2, .recursion⟩
    else .error ⟨position - 1, .recursion⟩
  | fuel + 1, _, position, c :: cs =>
    if c = '[' then
      match bracket? cs with
      | none => .error ⟨position, .bracket⟩
      | some (atom, rest) =>
        (atomsFrom fuel (some ']') (position + 1 + (cs.length - rest.length)) rest).map (atom :: ·)
    else
      let atom := if c = '*' then .anyChars else if c = '?' then .anyChar else .char c
      (atomsFrom fuel (some c) (position + 1) cs).map (atom :: ·)

/-- Reads the atoms of a pattern. -/
def atoms (pattern : String) : Except PatternFault (List Atom) :=
  atomsFrom pattern.length none 0 pattern.toList

/-! ### Components -/

/-- A component of a pattern. -/
inductive Component where
  /-- A name without wildcards. -/
  | name (s : String)
  /-- A name with wildcards. -/
  | wildcard (atoms : List Atom)
  /-- Any number of directories. -/
  | directories
deriving DecidableEq, Repr

/-- The text of atoms that all stand for themselves. -/
def plainText? (atoms : List Atom) : Option (List Char) :=
  atoms.mapM fun
    | .char c => some c
    | _ => none

/-- The component of its atoms. -/
def Component.ofAtoms (atoms : List Atom) : Component :=
  match plainText? atoms with
  | some cs => .name (String.ofList cs)
  | none => if atoms.contains .anyDirectories then .directories else .wildcard atoms

/-- The texts of the components of a pattern. A slash at the end is not followed by another. -/
def componentTexts (pattern : String) : List String :=
  let texts := Text.segments '/' pattern
  if texts.getLast? = some "" then texts.dropLast else texts

/-- Reads a pattern: first as a whole, then each of its components. -/
def parse (pattern : String) : Except PatternFault (List Component) := do
  let _ ← atoms pattern
  (componentTexts pattern).mapM fun text => (atoms text).map .ofAtoms

/-! ### Matching -/

/-- Whether an atom may stand for a character. -/
def Atom.matchesChar (atom : Atom) (c : Char) : Bool :=
  match atom with
  | .char d => c = d
  | .bracket negated ranges => ranges.any (fun (a, b) => a ≤ c && c ≤ b) != negated
  | .anyChar | .anyChars | .anyDirectories => true

/-- Whether an atom may stand for any number of characters. -/
def Atom.isRepeated : Atom → Bool
  | .anyChars | .anyDirectories => true
  | _ => false

/-- For each suffix of a list, whether it or a shorter one is marked. -/
def anyAfter : List Bool → List Bool
  | [] => []
  | mark :: marks =>
    let after := anyAfter marks
    (mark || after.headD false) :: after

/-- For each suffix of a text, whether it starts with a character that satisfies a condition and
goes on with a marked suffix. -/
def oneBefore (p : Char → Bool) : List Char → List Bool → List Bool
  | c :: cs, _ :: marks => (p c && marks.headD false) :: oneBefore p cs marks
  | _, _ => [false]

/-- For each suffix of a text, from the whole of it to the empty one, whether atoms match it. All
suffixes are decided together, so the work is that of one pass over the text for each atom. -/
def matchesSuffixes : List Atom → List Char → List Bool
  | [], cs => cs.map (fun _ => false) ++ [true]
  | atom :: atoms, cs =>
    let marks := matchesSuffixes atoms cs
    if atom.isRepeated then anyAfter marks else oneBefore atom.matchesChar cs marks

/-- Whether atoms match a name. -/
def matchesText (atoms : List Atom) (cs : List Char) : Bool :=
  (matchesSuffixes atoms cs).headD false

/-- Whether a component matches a name. -/
def Component.matchesName (component : Component) (s : String) : Bool :=
  match component with
  | .name t => t = s
  | .wildcard atoms => matchesText atoms s.toList
  | .directories => true

end Glob

end ApiAnnotation
