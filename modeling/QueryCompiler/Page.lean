-- SUMMARY: Pages of a result: the plan that a dialect follows, and the bounds of row numbers.
import QueryCompiler.Dialect.Profile

/-!
# Pages

A page is a positive limit, a positive offset, both or neither. The dialect
decides the construct that cuts it out. Rows are numbered from one, and the
numbers that are bound stop at the greatest 64-bit integer, so that no page is
too far away to be asked for.
-/

namespace QueryCompiler

/-- A page of a result. A missing limit keeps all rows, a missing offset skips none. -/
structure Page where
  limit : Option Nat := none
  offset : Option Nat := none
deriving DecidableEq, Repr

namespace Page

/-- Whether the page is less than the whole result. -/
def isPartial (page : Page) : Bool :=
  page.limit.isSome || page.offset.isSome

/-! ## Bounds -/

/-- A number of rows as a bound value. -/
def bound (n : Nat) : Int64 :=
  Int64.ofInt (min n (2 ^ 63 - 1) : Nat)

/-- The sum of two numbers of rows, which stops at the greatest 64-bit number. -/
def saturatingAdd (m n : Nat) : Nat :=
  min (m + n) (2 ^ 64 - 1)

/-- The number of the first row after `offset` rows. -/
def firstRow (offset : Nat) : Int64 :=
  bound (saturatingAdd offset 1)

/-- The number of the first row past a page. -/
def pastLastRow (offset limit : Nat) : Int64 :=
  bound (saturatingAdd (saturatingAdd offset limit) 1)

theorem toInt_bound (n : Nat) : (bound n).toInt = min n (2 ^ 63 - 1) := by
  rw [bound, Int64.toInt_ofInt_of_le] <;> omega

/-- A sum that stopped is beyond every bound, so stopping in between changes nothing. -/
theorem bound_saturatingAdd_add (m n k : Nat) : bound (saturatingAdd m n + k) = bound (m + n + k) := by
  have hmin : min (saturatingAdd m n + k) (2 ^ 63 - 1) = min (m + n + k) (2 ^ 63 - 1) := by
    unfold saturatingAdd
    omega
  rw [bound, bound, hmin]

theorem firstRow_eq (offset : Nat) : firstRow offset = bound (offset + 1) :=
  bound_saturatingAdd_add offset 1 0

theorem pastLastRow_eq (offset limit : Nat) : pastLastRow offset limit = bound (offset + limit + 1) :=
  (bound_saturatingAdd_add _ 1 0).trans (bound_saturatingAdd_add offset limit 1)

end Page

/-- How a query is paged. -/
inductive Plan where
  | whole
  | limitOffset (page : Page)
  | top (limit : Nat)
  | rowNumber (page : Page)
  | rowNum (page : Page)
deriving DecidableEq, Repr

/-- The plan of a construct for a page. -/
def Plan.ofPage (paging : Paging) (page : Page) : Plan :=
  if !page.isPartial then .whole
  else
    match paging, page with
    | .limitOffset, page => .limitOffset page
    | .topCount, ⟨some limit, none⟩ => .top limit
    | .topCount, page => .rowNumber page
    | .rowNumber, page => .rowNumber page
    | .rowNum, page => .rowNum page

end QueryCompiler
