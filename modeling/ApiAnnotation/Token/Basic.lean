import ApiAnnotation.Directive

/-!
# Tokens

A source is cut into tokens so that its doc comments can be found: comments, literals and white
space are told apart, and everything else is code.
-/

namespace ApiAnnotation

/-- What a token is. -/
inductive Token.Kind where
  /-- The end of the source. -/
  | endOfSource
  /-- A run of white space. -/
  | blanks
  /-- A comment `/** … */`, with the text between its ends. -/
  | docComment (body : String)
  /-- A comment `// …` or `/* … */`, with its text trimmed. -/
  | comment (text : String)
  /-- A string literal in any of the three quotes, with its content as written. -/
  | stringLiteral (content : String)
  /-- A regular expression literal, with its pattern. -/
  | regexLiteral (pattern : String)
  /-- Anything else. -/
  | code
  /-- A block comment that is not closed. -/
  | openComment
  /-- A string literal that is not closed. -/
  | openString
deriving DecidableEq, Repr

/-- A token of a source. -/
structure Token where
  /-- What it is. -/
  kind : Token.Kind
  /-- The byte offset at which it starts. -/
  start : Nat
  /-- The byte offset just past its end. -/
  stop : Nat
deriving DecidableEq, Repr

/-- The bytes a token covers. -/
def Token.span (t : Token) : Span where
  offset := t.start
  length := t.stop - t.start

end ApiAnnotation
