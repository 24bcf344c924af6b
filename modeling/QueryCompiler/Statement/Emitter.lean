-- SUMMARY: Emitters: what the parts of a statement share while it is emitted, and why they may refuse it.
import QueryCompiler.Error
import QueryCompiler.Identifier.Reference
import QueryCompiler.Token.Bindings

/-!
# Emitters

The parts of a statement are emitted one after the other, the nested queries among
them, and all of them bind their values in one context. The first part that is
refused ends the whole.
-/

namespace QueryCompiler

variable {α : Type}

/-- What all emitters of one compilation share. -/
structure Context where
  bindings : Bindings := {}
  /-- How many queries are being emitted, each inside the one before it. -/
  depth : Nat := 0
deriving Repr

/-- A step of a compilation, which may bind values and may refuse the query. -/
abbrev Emitter := StateT Context (Except CompileError)

namespace Emitter

/-- Binds a value. The token is the parameter that refers to it. -/
def param (v : Value) : Emitter (Token Nat) :=
  modifyGet fun c =>
    let (index, bindings) := c.bindings.bind v
    (.param index, { c with bindings })

/-- Emits a query inside those that are being emitted already. -/
def deeper (emit : Emitter α) : Emitter α := do
  modify fun c => { c with depth := c.depth + 1 }
  let result ← emit
  modify fun c => { c with depth := c.depth - 1 }
  return result

/-- Whether the query that is being emitted is the whole statement. -/
def isOutermost : Emitter Bool := do
  return (← get).depth == 1

end Emitter

/-- A nested query, as the statement around it sees it. -/
structure Subquery where
  emit : Emitter (List (Token Nat))
  /-- It is ordered, paged or a set operation, and so has to be delimited as an operand. -/
  isDelimited : Bool

/-- Emits a nested query in parentheses. -/
def Subquery.emitParenthesized (q : Subquery) : Emitter (List (Token Nat)) := do
  return Token.parenthesized (← q.emit)

/-! ## Refusals -/

/-- Refuses a blank name. -/
def checkName (place : NamePlace) (name : String) : Except CompileError Unit :=
  if Text.isVoid name then .error (.blankName place) else .ok ()

/-- The tokens of a name that may not be blank. -/
def Profile.checkedReference (p : Profile) (place : NamePlace) (name : String) :
    Except CompileError (List (Token α)) := do
  checkName place name
  return p.reference name

/-- The error for what the dialect does not support. -/
def Profile.notSupported (p : Profile) (feature : Feature) : CompileError :=
  .notSupported p.name feature

/-! ## Negation -/

namespace Token

/-- `NOT` and a space in front, when negated. -/
def notBefore (negated : Bool) : List (Token α) :=
  if negated then [.keyword .not, .space] else []

/-- A space and `NOT` behind, when negated. -/
def notAfter (negated : Bool) : List (Token α) :=
  if negated then [.space, .keyword .not] else []

end Token

end QueryCompiler
