/-!
# Evaluation contexts

The settings that every evaluation and every write is given (`Context`).  The only one so far says
where a write through a range takes the new elements from.
-/

namespace DocQuery

/-- Where a write through a range takes the new elements from. -/
inductive RangeWrite where
  /-- From the array that is being written: its first element goes to the first position of the
  range, its second to the second, and so on.  What has been written is read again where the range
  runs into it, and the value given to the write plays no part. -/
  | selfCopy
  /-- From the value given to the write, an array, in order; where it has too few elements, nulls
  are written. -/
  | spread
deriving DecidableEq

/-- A range is filled from the array itself unless told otherwise. -/
instance : Inhabited RangeWrite := ⟨.selfCopy⟩

/-- The settings of an evaluation. -/
structure Context where
  rangeWrite : RangeWrite := default
deriving DecidableEq

instance : Inhabited Context := ⟨{}⟩

def Context.withRangeWrite (context : Context) (rangeWrite : RangeWrite) : Context :=
  { context with rangeWrite }

end DocQuery
