-- SUMMARY: What a statement is compiled for: a profile and the options that are no part of it.
import QueryCompiler.Dialect.Profile

/-!
# Options

The names that paging adds to a statement may be chosen, and the number of
parameters may be limited otherwise than by the dialect.
-/

namespace QueryCompiler

structure Options where
  /-- The column of row numbers. -/
  rowNumberAlias : String := "row_num"
  /-- The derived table around numbered rows. -/
  wrapperAlias : String := "results_wrapper"
  /-- Replaces the limit of the dialect. -/
  maxBindings : Option Nat := none
deriving DecidableEq, Repr

/-- What a statement is compiled for. -/
structure Target where
  profile : Profile
  options : Options
deriving DecidableEq, Repr

/-- The most parameters that a statement may bind. -/
def Target.bindingLimit (t : Target) : Nat :=
  t.options.maxBindings.getD t.profile.maxBindings

end QueryCompiler
