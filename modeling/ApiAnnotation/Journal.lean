/-!
# Journal entries

What happens on the way to an answer is noted in a journal: which routes were met, which directives
were dropped, which patterns matched nothing. A journal is a function of the same input as the
answer, and it ends where the answer fails.
-/

namespace ApiAnnotation

/-- How much a journal entry matters. -/
inductive Level where
  /-- A single step. -/
  | trace
  /-- An event that explains the answer. -/
  | debug
  /-- The summary of a run. -/
  | info
  /-- Something that is likely a mistake. -/
  | warn
deriving DecidableEq, Repr

/-- The name of a level. -/
def Level.name : Level → String
  | trace => "trace"
  | debug => "debug"
  | info => "info"
  | warn => "warn"

/-- An entry of a journal. -/
structure Note where
  /-- How much it matters. -/
  level : Level
  /-- What happened. -/
  message : String
deriving DecidableEq, Repr

/-- What happened, in order. -/
abbrev Journal := List Note

end ApiAnnotation
