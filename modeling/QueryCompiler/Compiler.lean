-- SUMMARY: Compiling a query for a dialect, and the texts of the result.
import QueryCompiler.Dialect.Basic
import QueryCompiler.Statement.Compound

/-!
# Compiler

A compiler is a dialect with options. It emits a query into a fresh context and
refuses the result when too many values are bound. What it returns holds tokens
and values; both texts of the statement are made from these.
-/

namespace QueryCompiler

/-- A compiled query. The value at an index belongs to the parameter with that index. -/
structure Compiled where
  dialect : Dialect
  tokens : List (Token Nat)
  bindings : Array Value
deriving Repr

namespace Compiled

/-- The text with placeholders. -/
def sql (c : Compiled) : String :=
  Token.placeholderText c.dialect.profile c.tokens

/-- The text with literals in place of the placeholders, when finite numbers are written in this way. -/
def inlineSqlWith (write : Double → String) (c : Compiled) : String :=
  Token.inlineTextWith write c.dialect.profile c.bindings c.tokens

/-- The text with literals in place of the placeholders, for people to read. -/
def inlineSql (c : Compiled) : String :=
  Token.inlineText c.dialect.profile c.bindings c.tokens

/-- The number of parameters in the text. -/
def paramCount (c : Compiled) : Nat :=
  (Token.params c.tokens).length

/-- The placeholder of each bound value. -/
def placeholders (c : Compiled) : List String :=
  (List.range c.bindings.size).map c.dialect.profile.placeholder

end Compiled

structure Compiler where
  dialect : Dialect := .tsql
  options : Options := {}
deriving DecidableEq, Repr

namespace Compiler

/-- What statements are compiled for. -/
def target (c : Compiler) : Target :=
  ⟨c.dialect.profile, c.options⟩

/-- The most parameters that a statement may bind. -/
def bindingLimit (c : Compiler) : Nat :=
  c.target.bindingLimit

/-- Compiles a query as a whole or refuses it. -/
def compile (c : Compiler) (q : Query) : Except CompileError Compiled := do
  let (tokens, context) ← (q.emit c.target).run {}
  if c.bindingLimit < context.bindings.size then
    .error (.tooManyBindings c.dialect.name c.bindingLimit context.bindings.size)
  return ⟨c.dialect, tokens, context.bindings.values⟩

end Compiler

end QueryCompiler
