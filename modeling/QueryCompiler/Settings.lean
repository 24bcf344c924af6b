-- SUMMARY: Settings of a compiler: reading them from JSON and TOML, and refusing what a compiler cannot use.
import QueryCompiler.Compiler
import QueryCompiler.Query.Writer
import QueryCompiler.Text.Blank
import QueryCompiler.Toml.Parser

/-!
# Settings

Settings choose the dialect and the options of a compiler. Every key may be left
out. Keys that are not known are ignored, and values of a wrong type are refused
when settings are read; empty names and a limit of zero are refused afterwards.
-/

namespace QueryCompiler

/-! ## Options as JSON -/

/-- Options from a record of which every field may be left out. -/
def Options.ofRecord? (record : Json) : Option Options := do
  let rowNumberAlias ← record.fieldD? "row_number_alias" ({} : Options).rowNumberAlias Json.str?
  let wrapperAlias ← record.fieldD? "wrapper_alias" ({} : Options).wrapperAlias Json.str?
  let maxBindings ← record.fieldD? "max_parameters" none (Json.nullable? Json.uint64?)
  return ⟨rowNumberAlias, wrapperAlias, maxBindings.map UInt64.toNat⟩

def Options.ofJson? (json : Json) : Option Options :=
  (json.record? ["row_number_alias", "wrapper_alias", "max_parameters"]).bind Options.ofRecord?

/-- The fields of options. -/
def Options.members (o : Options) : List (String × Json) :=
  [("row_number_alias", .str o.rowNumberAlias), ("wrapper_alias", .str o.wrapperAlias),
    ("max_parameters", Json.ofOption (fun n => .int (n : Nat)) o.maxBindings)]

def Options.toJson (o : Options) : Json :=
  .obj o.members

/-! ## Settings -/

structure Settings where
  compiler : Compiler := {}
deriving DecidableEq, Repr

/-- What makes settings unusable. -/
inductive SettingsFlaw where
  | emptyRowNumberAlias
  | emptyWrapperAlias
  | noParameters
deriving DecidableEq, Repr

def SettingsFlaw.message : SettingsFlaw → String
  | .emptyRowNumberAlias => "compiler.row_number_alias must not be empty"
  | .emptyWrapperAlias => "compiler.wrapper_alias must not be empty"
  | .noParameters => "compiler.max_parameters must be positive"

inductive SettingsError where
  | noFile (path : String)
  /-- The file is no text. -/
  | unreadable
  /-- The text is no document, or a value in it has a wrong type. -/
  | malformed
  | invalid (flaw : SettingsFlaw)
deriving DecidableEq, Repr

/-- What is said about an error, where it is said by this library. -/
def SettingsError.message? : SettingsError → Option String
  | .noFile path => some ("Config file not found: " ++ path)
  | .invalid flaw => some ("Invalid configuration: " ++ flaw.message)
  | .unreadable | .malformed => none

/-- What settings are read from. -/
inductive SettingsFile where
  | missing
  | directory
  | contents (bytes : ByteArray)

namespace Settings

/-- The first flaw. -/
def flaw? (s : Settings) : Option SettingsFlaw :=
  let options := s.compiler.options
  if Text.isVoid options.rowNumberAlias then some .emptyRowNumberAlias
  else if Text.isVoid options.wrapperAlias then some .emptyWrapperAlias
  else if options.maxBindings = some 0 then some .noParameters
  else none

/-- Refuses settings with a flaw. -/
def validate (s : Settings) : Except SettingsError Settings :=
  match s.flaw? with
  | some flaw => .error (.invalid flaw)
  | none => .ok s

/-! ## Reading -/

/-- The fields of a compiler in order. -/
def compilerFields : List String :=
  ["dialect", "row_number_alias", "wrapper_alias", "max_parameters"]

/-- Settings from JSON, with a reader for the dialect. -/
def ofJsonWith? (dialect? : Json → Option Dialect) (json : Json) : Option Settings := do
  let root ← json.record? ["compiler"]
  let compiler ← root.fieldD? "compiler" ({} : Compiler) fun json => do
    let record ← json.record? compilerFields
    let dialect ← record.fieldD? "dialect" ({} : Compiler).dialect dialect?
    let options ← Options.ofRecord? record
    return ⟨dialect, options⟩
  return ⟨compiler⟩

/-- Settings from JSON, without a look at their flaws. -/
def ofJson? (json : Json) : Option Settings :=
  ofJsonWith? (Json.kind? Dialect.ofExactName?) json

/-- A dialect in a document: its name, or a table with its name as the only key and nothing in it. -/
def tomlDialect? : Json → Option Dialect
  | .str name => Dialect.ofExactName? name
  | .obj [(name, .obj [])] => Dialect.ofExactName? name
  | .obj [(name, .arr [])] => Dialect.ofExactName? name
  | _ => none

/-- Settings from the entries of a document. A compiler may be written as an array of its fields, and
items behind them are not read. -/
def ofEntries? (entries : Toml.Entries) : Option Settings := do
  let members ← Toml.entriesToJson? (entries.map fun (key, value) =>
    (key, if key = "compiler" then value.takeItems compilerFields.length else value))
  ofJsonWith? tomlDialect? (.obj members)

/-- Settings from the text of a TOML document. -/
def ofToml (text : String) : Except SettingsError Settings :=
  match Toml.parse? text with
  | none => .error .malformed
  | some entries =>
    match ofEntries? entries with
    | none => .error .malformed
    | some settings => settings.validate

/-- Settings from a file. -/
def ofFile (path : String) : SettingsFile → Except SettingsError Settings
  | .missing => .error (.noFile path)
  | .directory => .error .unreadable
  | .contents bytes =>
    match String.fromUTF8? bytes with
    | none => .error .unreadable
    | some text => ofToml text

def toJson (s : Settings) : Json :=
  .obj [("compiler", .obj (("dialect", .str s.compiler.dialect.name) :: s.compiler.options.members))]

end Settings

end QueryCompiler
