-- SUMMARY: The tokens of names: compound references, aliases and tables.
import QueryCompiler.Column.InlineAlias
import QueryCompiler.Token.Basic

/-!
# References

A name becomes tokens segment by segment. A star stays bare, a segment that is
already quoted is passed on as it is, and every other segment is quoted when it
is written. Quoting a quoted name therefore changes nothing.
-/

namespace QueryCompiler.Profile

variable {α : Type}

/-- The token of one segment. -/
def segmentToken (p : Profile) (cs : List Char) : Token α :=
  if cs = ['*'] then .symbol .star
  else if p.quotes.isQuoted cs then .raw (String.ofList cs)
  else .ident (String.ofList cs)

/-- The tokens of a name such as `schema.table.column`. -/
def reference (p : Profile) (name : String) : List (Token α) :=
  ((p.quotes.split (Text.trim name.toList)).map fun cs => p.segmentToken (Text.trim cs)).intersperse
    (.symbol .dot)

/-- The token of an alias, which is one segment whatever dots it has. -/
def aliasToken (p : Profile) (name : String) : Token α :=
  p.segmentToken (Text.trim name.toList)

/-- The tokens that give a table an alias. -/
def tableAlias (p : Profile) (name : String) : List (Token α) :=
  (if p.tableAliasAs then Token.spaced .as else [.space]) ++ [p.aliasToken name]

/-- The tokens of a table. Without an alias of its own, its name may have one inline. -/
def table (p : Profile) (name : String) (aliasName : Option String) : List (Token α) :=
  match aliasName with
  | some aliasName => p.reference name ++ p.tableAlias aliasName
  | none =>
    match InlineAlias.splitText name with
    | (name, some aliasName) => p.reference name ++ p.tableAlias aliasName
    | (name, none) => p.reference name

/-- A name as quoted text. -/
def quoteName (p : Profile) (name : String) : String :=
  Token.textOf p p.placeholder (p.reference name)

end QueryCompiler.Profile
