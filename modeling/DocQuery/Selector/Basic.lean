import DocQuery.Digits

/-!
# Selectors

A selector names a part of an array: the whole of it, one element, or the run of elements between
two bounds, both included.  It keeps two indices as they were given; a negative index counts from
the end.  The two indices decide between the three forms before the size of any array is known:
`0` and `-1` select the whole, equal indices one element, and all others a range.

A selector is written `[*]`, `[i]` or `[i:j]`.
-/

namespace DocQuery

/-- A part of an array, named by two indices. -/
structure Selector where
  /-- The index of the first element. -/
  start : Int64
  /-- The index of the last element. -/
  stop : Int64
deriving DecidableEq, Hashable

namespace Selector

/-! ### The three forms -/

/-- The elements from one index to another, both included, in that direction. -/
def range (start stop : Int64) : Selector :=
  ⟨start, stop⟩

/-- The whole array. -/
def all : Selector :=
  range 0 (-1)

def index (i : Int64) : Selector :=
  range i i

/-- A selector that nobody gave selects the whole array. -/
instance : Inhabited Selector := ⟨all⟩

def isAll (s : Selector) : Bool :=
  s.start = 0 && s.stop = -1

/-- Whether the two indices differ.  This holds for the whole array, too. -/
def isRange (s : Selector) : Bool :=
  s.start ≠ s.stop

section Forms

variable {s : Selector}

theorem isAll_iff : s.isAll = true ↔ s.start = 0 ∧ s.stop = -1 := by
  simp [isAll]

theorem isAll_iff_eq_all : s.isAll = true ↔ s = all := by
  rw [isAll_iff]
  constructor
  · intro h
    show mk s.start s.stop = mk 0 (-1)
    rw [h.1, h.2]
  · rintro rfl
    exact ⟨rfl, rfl⟩

theorem isRange_iff : s.isRange = true ↔ s.start ≠ s.stop := by
  simp [isRange]

theorem isRange_eq_false_iff : s.isRange = false ↔ s.start = s.stop := by
  simp [isRange]

theorem isRange_index (i : Int64) : (index i).isRange = false :=
  isRange_eq_false_iff.mpr rfl

end Forms

/-! ### Text -/

/-- What stands between the brackets. -/
def body (s : Selector) : List Char :=
  if s.isAll then ['*']
  else if s.isRange then Digits.ofInt s.start.toInt ++ ':' :: Digits.ofInt s.stop.toInt
  else Digits.ofInt s.start.toInt

def text (s : Selector) : String :=
  String.ofList ('[' :: s.body ++ [']'])

end Selector

end DocQuery
