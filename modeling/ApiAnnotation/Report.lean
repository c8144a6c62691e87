/-!
# Reports

Every failure is told to the user by a message, and where there is more to say by a code that
identifies its kind and by a hint how to mend it.
-/

namespace ApiAnnotation

/-- What a user is told about a failure. -/
structure Report where
  /-- What went wrong. -/
  message : String
  /-- The code of this kind of failure. -/
  code : Option String := none
  /-- How to mend it. -/
  help : Option String := none
deriving DecidableEq, Repr

/-- A text between the quotes in which reports and journals name things. -/
def ticked (s : String) : String := "\x60" ++ s ++ "\x60"

end ApiAnnotation
