-- SUMMARY: The five dialects and their profiles.
import QueryCompiler.Dialect.Profile
import QueryCompiler.Text.CaseMap

/-!
# Dialects

The supported engines. A dialect is a name for its profile; names are read in
any case and with the common abbreviations.
-/

namespace QueryCompiler

inductive Dialect where
  | tsql
  | postgres
  | mysql
  | sqlite
  | oracle
deriving DecidableEq, Repr

namespace Dialect

/-- All dialects, in the order in which results for all of them are listed. -/
def all : List Dialect :=
  [.tsql, .postgres, .mysql, .sqlite, .oracle]

/-! ## Quotes -/

def brackets : QuotePair := ⟨'[', ']'⟩

def doubleQuotes : QuotePair := ⟨'"', '"'⟩

def backticks : QuotePair := ⟨'\x60', '\x60'⟩

/-! ## Profiles -/

/-- SQL Server. -/
def tsqlProfile : Profile where
  name := "tsql"
  quotes := brackets
  placeholderForm := .indexed "@p"
  paging := .topCount
  loneOffset := .bare
  trueLiteral := "1"
  falseLiteral := "0"
  marksUnicode := true
  bytesOpening := "0x"
  bytesClosing := ""
  caselessMatch := .lowerCase
  tableAliasAs := true
  hasIntersect := true
  hasExcept := true
  exceptKeyword := "EXCEPT"
  hasFullJoin := true
  hasRightJoin := true
  hasOperandParens := true
  maxBindings := 2100

def postgresProfile : Profile where
  name := "postgres"
  quotes := doubleQuotes
  placeholderForm := .dollar
  paging := .limitOffset
  loneOffset := .bare
  trueLiteral := "true"
  falseLiteral := "false"
  marksUnicode := false
  bytesOpening := "'\\x"
  bytesClosing := "'"
  caselessMatch := .ilike
  tableAliasAs := true
  hasIntersect := true
  hasExcept := true
  exceptKeyword := "EXCEPT"
  hasFullJoin := true
  hasRightJoin := true
  hasOperandParens := true
  maxBindings := 65535

def mysqlProfile : Profile where
  name := "mysql"
  quotes := backticks
  placeholderForm := .mark
  paging := .limitOffset
  loneOffset := .afterLimit "18446744073709551615"
  trueLiteral := "1"
  falseLiteral := "0"
  marksUnicode := false
  bytesOpening := "X'"
  bytesClosing := "'"
  caselessMatch := .lowerCase
  tableAliasAs := true
  hasIntersect := false
  hasExcept := false
  exceptKeyword := "EXCEPT"
  hasFullJoin := false
  hasRightJoin := true
  hasOperandParens := true
  maxBindings := 65535

def sqliteProfile : Profile where
  name := "sqlite"
  quotes := doubleQuotes
  placeholderForm := .mark
  paging := .limitOffset
  loneOffset := .afterLimit "-1"
  trueLiteral := "1"
  falseLiteral := "0"
  marksUnicode := false
  bytesOpening := "X'"
  bytesClosing := "'"
  caselessMatch := .lowerCase
  tableAliasAs := true
  hasIntersect := true
  hasExcept := true
  exceptKeyword := "EXCEPT"
  hasFullJoin := true
  hasRightJoin := true
  hasOperandParens := false
  maxBindings := 32766

def oracleProfile : Profile where
  name := "oracle"
  quotes := doubleQuotes
  placeholderForm := .indexed ":p"
  paging := .rowNum
  loneOffset := .bare
  trueLiteral := "1"
  falseLiteral := "0"
  marksUnicode := true
  bytesOpening := "HEXTORAW('"
  bytesClosing := "')"
  caselessMatch := .lowerCase
  tableAliasAs := false
  hasIntersect := true
  hasExcept := true
  exceptKeyword := "MINUS"
  hasFullJoin := true
  hasRightJoin := true
  hasOperandParens := true
  maxBindings := 65535

def profile : Dialect → Profile
  | .tsql => tsqlProfile
  | .postgres => postgresProfile
  | .mysql => mysqlProfile
  | .sqlite => sqliteProfile
  | .oracle => oracleProfile

/-! ## Names -/

/-- The name of a dialect, as in its profile. -/
def name (d : Dialect) : String :=
  d.profile.name

/-- The dialect with exactly this name or abbreviation. -/
def ofExactName? (s : String) : Option Dialect :=
  match s with
  | "tsql" | "sqlserver" | "mssql" => some .tsql
  | "postgres" | "postgresql" | "pg" => some .postgres
  | "mysql" => some .mysql
  | "sqlite" => some .sqlite
  | "oracle" => some .oracle
  | _ => none

/-- The dialect with this name or abbreviation, in any case. -/
def ofName? (s : String) : Option Dialect :=
  ofExactName? (Text.lower s)

/-- What is said about a name that is none of a dialect. -/
def unknownNameMessage (s : String) : String :=
  "Unknown dialect: " ++ s

end Dialect

end QueryCompiler
