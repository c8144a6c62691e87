import ApiAnnotation.Text.Alphanumeric
import ApiAnnotation.Text.Trim
import ApiAnnotation.Token.Basic

/-!
# The first token of a text

`ApiAnnotation.Lexeme.first` cuts one token off the front of a text. Which token that is depends on
the first characters and, at a lone slash, on the significant character before it: a slash opens a
regular expression literal after an operator or an opening bracket, or at the start of the source,
and divides anywhere else.

## Main statements

* `ApiAnnotation.Lexeme.text_append_rest_first`: the token and the rest are the text.
* `ApiAnnotation.Lexeme.length_rest_first_lt`: the token is not empty.
-/

namespace ApiAnnotation

/-- A token cut off the front of a text, and what is left. -/
structure Lexeme where
  /-- What the token is. -/
  kind : Token.Kind
  /-- The characters of the token. -/
  text : List Char
  /-- The characters after it. -/
  rest : List Char
deriving Repr

/-- The content of a literal up to its end: the characters before the closing mark, whether there
is one, and what follows. -/
structure Content where
  /-- The characters of the literal. -/
  body : List Char
  /-- Whether the closing mark follows them. -/
  closed : Bool
  /-- The text after the closing mark, or after the body where there is none. -/
  rest : List Char
deriving Repr

namespace Content

/-- The content with more characters in front. -/
def prepend (cs : List Char) (content : Content) : Content :=
  { content with body := cs ++ content.body }

/-- The whole text that was read, the closing mark given. -/
def whole (mark : Char) (content : Content) : List Char :=
  content.body ++ (bif content.closed then [mark] else []) ++ content.rest

/-- Reads the content of a string literal. A backslash takes the next character with it, and a line
feed ends the literal unclosed unless the quote is a backtick. -/
def ofString (quote : Char) : List Char → Content
  | [] => ⟨[], false, []⟩
  | c :: cs =>
    if c = quote then ⟨[], true, cs⟩
    else if c = '\\' then
      match cs with
      | [] => ⟨[c], false, []⟩
      | e :: cs => (ofString quote cs).prepend [c, e]
    else if c = '\n' ∧ quote ≠ '\x60' then ⟨[c], false, cs⟩
    else (ofString quote cs).prepend [c]

/-- Reads the pattern of a regular expression literal, `inClass` telling whether a bracket is open.
A slash within brackets does not close the literal, and a line feed ends it unclosed. -/
def ofRegex (inClass : Bool) : List Char → Content
  | [] => ⟨[], false, []⟩
  | c :: cs =>
    if c = '\n' then ⟨[], false, c :: cs⟩
    else if c = '/' ∧ inClass = false then ⟨[], true, cs⟩
    else if c = '\\' then
      match cs with
      | [] => ⟨[c], false, []⟩
      | e :: cs' => if e = '\n' then ⟨[c], false, cs⟩ else (ofRegex inClass cs').prepend [c, e]
    else
      (ofRegex (if c = '[' then true else if c = ']' then false else inClass) cs).prepend [c]

@[simp] theorem whole_prepend (mark : Char) (cs : List Char) (content : Content) :
    (content.prepend cs).whole mark = cs ++ content.whole mark := by
  simp [whole, prepend]

@[simp] theorem whole_ofString (quote : Char) (cs : List Char) :
    (ofString quote cs).whole quote = cs := by
  fun_induction ofString quote cs <;> simp_all [whole, prepend]

@[simp] theorem whole_ofRegex (inClass : Bool) (cs : List Char) :
    (ofRegex inClass cs).whole '/' = cs := by
  fun_induction ofRegex inClass cs <;> simp_all [whole, prepend]

end Content

namespace Lexeme

/-- The characters after which a slash opens a regular expression literal. -/
def operators : List Char := "(,=:[!&|?\x7b\x7d;+-*%<>~^".toList

/-- Whether a slash after the given significant character opens a regular expression literal. -/
def regexMayFollow : Option Char → Bool
  | none => true
  | some c => operators.contains c

/-- A comment that runs to the end of its line, the two slashes being taken off. -/
def lineComment (cs : List Char) : Lexeme where
  kind := .comment (String.ofList (Text.trim (cs.takeWhile (· ≠ '\n'))))
  text := '/' :: '/' :: cs.takeWhile (· ≠ '\n')
  rest := cs.dropWhile (· ≠ '\n')

/-- A comment up to the first `*/`, the opening being taken off. Without an end it takes the rest of
the source. -/
def closedComment (opening : List Char) (kind : List Char → Token.Kind) (cs : List Char) : Lexeme :=
  match Text.cutAt? ['*', '/'] cs with
  | none => ⟨.openComment, opening ++ cs, []⟩
  | some (body, rest) => ⟨kind body, opening ++ body ++ ['*', '/'], rest⟩

/-- A block comment, the opening `/*` being taken off. One more star opens a doc comment, unless
it belongs to the end of an empty comment. -/
def blockComment (cs : List Char) : Lexeme :=
  let plain := closedComment ['/', '*'] fun body => .comment (String.ofList (Text.trim body))
  match cs with
  | '*' :: '/' :: _ => plain cs
  | '*' :: cs => closedComment ['/', '*', '*'] (fun body => .docComment (String.ofList body)) cs
  | _ => plain cs

/-- A regular expression literal with its flags, the opening slash being taken off. Where it is
not closed it is code. -/
def regex (cs : List Char) : Lexeme :=
  let content := Content.ofRegex false cs
  if content.closed then
    { kind := .regexLiteral (String.ofList content.body)
      text := '/' :: content.body ++ '/' :: content.rest.takeWhile isAlphanumeric
      rest := content.rest.dropWhile isAlphanumeric }
  else ⟨.code, '/' :: content.body, content.rest⟩

/-- A string literal, the opening quote being taken off. -/
def string (quote : Char) (cs : List Char) : Lexeme :=
  let content := Content.ofString quote cs
  if content.closed then
    { kind := .stringLiteral (String.ofList content.body)
      text := quote :: content.body ++ [quote]
      rest := content.rest }
  else ⟨.openString, quote :: content.body, content.rest⟩

/-- A token whose first character is `c` and whose others are the longest run with a property. -/
def run (kind : Token.Kind) (p : Char → Bool) (c : Char) (cs : List Char) : Lexeme where
  kind := kind
  text := c :: cs.takeWhile p
  rest := cs.dropWhile p

/-- Whether a character opens a string literal. -/
def isQuote (c : Char) : Bool := c == '"' || c == '\'' || c == '\x60'

/-- Whether a character goes on with a run of code. -/
def isCode (c : Char) : Bool := !(isBlank c || c == '/' || isQuote c)

/-- The first token of the text `c :: cs`, the significant character before it being given. -/
def first (before : Option Char) (c : Char) (cs : List Char) : Lexeme :=
  if c = '/' then
    match cs with
    | '/' :: cs => lineComment cs
    | '*' :: cs => blockComment cs
    | cs => if regexMayFollow before then regex cs else ⟨.code, [c], cs⟩
  else if isQuote c then string c cs
  else if isBlank c then run .blanks isBlank c cs
  else run .code isCode c cs

/-! ### A token and the rest are the text -/

theorem text_append_rest_closedComment (opening : List Char) (kind : List Char → Token.Kind)
    (cs : List Char) :
    (closedComment opening kind cs).text ++ (closedComment opening kind cs).rest =
      opening ++ cs := by
  simp only [closedComment]
  split
  · simp
  · next hcut => simp [Text.eq_append_of_cutAt? hcut]

theorem text_append_rest_blockComment (cs : List Char) :
    (blockComment cs).text ++ (blockComment cs).rest = '/' :: '*' :: cs := by
  simp only [blockComment]
  split <;> simp [text_append_rest_closedComment]

theorem text_append_rest_regex (cs : List Char) :
    (regex cs).text ++ (regex cs).rest = '/' :: cs := by
  have h := Content.whole_ofRegex false cs
  simp only [Content.whole] at h
  simp only [regex]
  split <;> simp_all [List.append_assoc]

theorem text_append_rest_string (quote : Char) (cs : List Char) :
    (string quote cs).text ++ (string quote cs).rest = quote :: cs := by
  have h := Content.whole_ofString quote cs
  simp only [Content.whole] at h
  simp only [string]
  split <;> simp_all [List.append_assoc]

/-- The token and the rest are the text. -/
theorem text_append_rest_first (before : Option Char) (c : Char) (cs : List Char) :
    (first before c cs).text ++ (first before c cs).rest = c :: cs := by
  simp only [first]
  split
  · next hc =>
    subst hc
    split
    · simp [lineComment]
    · exact text_append_rest_blockComment _
    · split
      · exact text_append_rest_regex _
      · simp
  · split
    · exact text_append_rest_string c cs
    · split <;> simp [run]

/-- The token starts with the first character, so it is not empty. -/
theorem head?_text_first (before : Option Char) (c : Char) (cs : List Char) :
    (first before c cs).text.head? = some c := by
  simp only [first]
  split
  · next hc =>
    subst hc
    split
    · simp [lineComment]
    · simp only [blockComment, closedComment]
      split <;> split <;> simp
    · split
      · simp only [regex]
        split <;> simp
      · simp
  · split
    · simp only [string]
      split <;> simp
    · split <;> simp [run]

/-- What is left is shorter than the text. -/
theorem length_rest_first_lt (before : Option Char) (c : Char) (cs : List Char) :
    (first before c cs).rest.length < (c :: cs).length := by
  have happ := congrArg List.length (text_append_rest_first before c cs)
  have hhead := head?_text_first before c cs
  rw [List.length_append] at happ
  have : (first before c cs).text ≠ [] := fun h => by simp [h] at hhead
  have := List.length_pos_iff.2 this
  omega

end Lexeme

end ApiAnnotation
