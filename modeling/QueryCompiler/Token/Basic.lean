-- SUMMARY: The tokens of SQL text and their spelling.
import QueryCompiler.Dialect.Profile
import QueryCompiler.Text.CaseMap

/-!
# Tokens

A statement is a list of tokens before it is text. The type `α` of what stands
at a bound parameter is left open: while a statement is put together it is the
value itself, later it is the index of the value among the bindings. Only the
spelling depends on the profile.
-/

namespace QueryCompiler

inductive Keyword where
  | select | from | where_ | and | or | not | as | on
  | join | inner | left | right | full | outer | cross
  | groupBy | having | orderBy | asc | desc | limit | offset | top
  | in_ | between | like | ilike | isNull | isNotNull | exists
  | distinct | all | union | intersect | except | with_ | over | null
deriving DecidableEq, Repr

/-- The spelling of a keyword. Only the set difference differs between dialects. -/
def Keyword.text (p : Profile) : Keyword → String
  | .select => "SELECT"
  | .from => "FROM"
  | .where_ => "WHERE"
  | .and => "AND"
  | .or => "OR"
  | .not => "NOT"
  | .as => "AS"
  | .on => "ON"
  | .join => "JOIN"
  | .inner => "INNER"
  | .left => "LEFT"
  | .right => "RIGHT"
  | .full => "FULL"
  | .outer => "OUTER"
  | .cross => "CROSS"
  | .groupBy => "GROUP BY"
  | .having => "HAVING"
  | .orderBy => "ORDER BY"
  | .asc => "ASC"
  | .desc => "DESC"
  | .limit => "LIMIT"
  | .offset => "OFFSET"
  | .top => "TOP"
  | .in_ => "IN"
  | .between => "BETWEEN"
  | .like => "LIKE"
  | .ilike => "ILIKE"
  | .isNull => "IS NULL"
  | .isNotNull => "IS NOT NULL"
  | .exists => "EXISTS"
  | .distinct => "DISTINCT"
  | .all => "ALL"
  | .union => "UNION"
  | .intersect => "INTERSECT"
  | .except => p.exceptKeyword
  | .with_ => "WITH"
  | .over => "OVER"
  | .null => "NULL"

inductive Symbol where
  | comma | dot | star | lparen | rparen
  | eq | ne | lt | gt | le | ge
deriving DecidableEq, Repr

def Symbol.text : Symbol → String
  | .comma => ","
  | .dot => "."
  | .star => "*"
  | .lparen => "("
  | .rparen => ")"
  | .eq => "="
  | .ne => "<>"
  | .lt => "<"
  | .gt => ">"
  | .le => "<="
  | .ge => ">="

inductive Token (α : Type) where
  | keyword (k : Keyword)
  | symbol (s : Symbol)
  | space
  /-- One segment of a name, still to be quoted. -/
  | ident (name : String)
  /-- An integer that belongs to the statement and not to its values. -/
  | litInt (n : Int64)
  /-- The name of a function, written in upper case. -/
  | function (name : String)
  /-- A bound parameter. -/
  | param (a : α)
  /-- Text that is written as it is. -/
  | raw (text : String)
deriving DecidableEq, Repr

namespace Token

variable {α : Type}

/-- The spelling of a token, given the spelling of parameters. -/
def text (p : Profile) (paramText : α → String) : Token α → String
  | .keyword k => k.text p
  | .symbol s => s.text
  | .space => " "
  | .ident name => p.quoteIdentifier name
  | .litInt n => toString n.toInt
  | .function name => Text.upper name
  | .param a => paramText a
  | .raw text => text

/-- What stands at a parameter, for a token that is one. -/
def param? : Token α → Option α
  | .param a => some a
  | _ => none

/-! ## Groups of tokens -/

/-- A keyword between spaces. -/
def spaced (k : Keyword) : List (Token α) :=
  [.space, .keyword k, .space]

/-- Tokens in parentheses. -/
def parenthesized (tokens : List (Token α)) : List (Token α) :=
  .symbol .lparen :: tokens ++ [.symbol .rparen]

/-- Groups of tokens with a comma and a space between them. -/
def commaSeparated (groups : List (List (Token α))) : List (Token α) :=
  List.intercalate [.symbol .comma, .space] groups

/-- A keyword between spaces and what follows it, or nothing when nothing does. -/
def sectionOf (k : Keyword) (body : List (Token α)) : List (Token α) :=
  if body.isEmpty then [] else spaced k ++ body

/-- The parameters of a list of tokens, in order. -/
def params (tokens : List (Token α)) : List α :=
  tokens.filterMap param?

/-- The text of a list of tokens. -/
def textOf (p : Profile) (paramText : α → String) (tokens : List (Token α)) : String :=
  String.join (tokens.map (text p paramText))

@[simp] theorem params_nil : params ([] : List (Token α)) = [] := rfl

@[simp] theorem params_append (a b : List (Token α)) : params (a ++ b) = params a ++ params b :=
  List.filterMap_append

theorem toList_textOf (p : Profile) (paramText : α → String) (tokens : List (Token α)) :
    (textOf p paramText tokens).toList = tokens.flatMap fun t => (t.text p paramText).toList := by
  simp [textOf, List.flatMap_map]

end Token

end QueryCompiler
