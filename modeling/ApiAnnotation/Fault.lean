/-!
# Faults of read values

What is read may fail to be a text of its format at all, or be one and still not have the shape that
is asked for. Reading goes from the front to the back, so the first fault is the one that is told.
-/

namespace ApiAnnotation

/-- Why something that was read is not a value of the shape asked for. -/
inductive Fault where
  /-- The text does not follow the grammar of its format. -/
  | malformed
  /-- The text ends before the value does. -/
  | ended
  /-- The value has another shape, or lacks a part. -/
  | shape
  /-- A list goes on after the fields of the record it stands for. -/
  | surplus
deriving DecidableEq, Repr

end ApiAnnotation
