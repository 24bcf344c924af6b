-- SUMMARY: TOML values, and tables that keep track of how they were made.
import QueryCompiler.Json.Basic

/-!
# TOML values

A table remembers how it came about, because that decides what may still be
added to it: a table with a header of its own is complete but for tables below
it, a table made on the way to another may still get its header, and a table made
by a dotted key may still get more dotted keys. Inline tables and plain arrays are
complete from the start. Numbers may be written that are out of range: a document
is refused for them only where such a number is read.
-/

namespace QueryCompiler

namespace Toml

/-- How a table came about. -/
inductive Origin where
  /-- It has a header, or it is the whole document. -/
  | header
  /-- It lies on the way to a table with a header. -/
  | parent
  /-- It lies on the way of a dotted key. -/
  | dotted
deriving DecidableEq, Repr

end Toml

inductive Toml where
  | str (s : String)
  | int (n : Int)
  | float (x : Double)
  /-- A number that is no integer of 128 bits and no finite double. -/
  | outOfRange
  | bool (b : Bool)
  | datetime (text : String)
  | arr (items : List Toml)
  | inline (entries : List (String × Toml))
  | table (origin : Toml.Origin) (entries : List (String × Toml))
  /-- An array of tables with headers. -/
  | tables (items : List Toml)

namespace Toml

/-- The entries of a table. -/
abbrev Entries := List (String × Toml)

/-- The entries with another value for a key that is there. -/
def replace (key : String) (value : Toml) : Entries → Entries
  | [] => []
  | (name, old) :: rest =>
    if name = key then (name, value) :: rest else (name, old) :: replace key value rest

/-- Changes the table at a path with `change`, which is told how the table came about. Tables that are
missing on the way are made with the origin `fresh`. A dotted key does not enter a table that has a
header, and nothing enters what is complete. -/
def alter (fresh : Origin) (change : Origin → Entries → Option Entries) :
    List String → Origin → Entries → Option Entries
  | [], origin, entries => change origin entries
  | key :: path, _, entries =>
    match entries.lookup key with
    | none => (alter fresh change path fresh []).map fun sub => entries ++ [(key, .table fresh sub)]
    | some (.table origin sub) =>
      if fresh = .dotted ∧ origin = .header then none
      else (alter fresh change path origin sub).map fun sub => replace key (.table origin sub) entries
    | some (.tables items) =>
      match items.getLast? with
      | some (.table origin sub) =>
        (alter fresh change path origin sub).map fun sub =>
          replace key (.tables (items.dropLast ++ [.table origin sub])) entries
      | _ => none
    | some _ => none

/-- Adds an entry with a new key. -/
def insertNew (key : String) (value : Toml) (entries : Entries) : Option Entries :=
  if (entries.lookup key).isSome then none else some (entries ++ [(key, value)])

/-- The last key of a path, and the keys before it. -/
def splitLast? : List String → Option (List String × String)
  | [] => none
  | [key] => some ([], key)
  | key :: path => (splitLast? path).map fun (before, last) => (key :: before, last)

/-- Adds a value under a dotted key. A table that was not made by dotted keys is not added to by
them. -/
def insertDotted (path : List String) (value : Toml) (origin : Origin) (entries : Entries) :
    Option Entries := do
  let (before, key) ← splitLast? path
  alter .dotted (fun origin entries =>
    if (origin == .dotted) == before.isEmpty then none else insertNew key value entries) before origin
    entries

/-- Opens the table with a header. -/
def openTable (path : List String) (entries : Entries) : Option Entries := do
  let (before, key) ← splitLast? path
  alter .parent (fun _ entries =>
    match entries.lookup key with
    | none => some (entries ++ [(key, .table .header [])])
    | some (.table .parent sub) => some (replace key (.table .header sub) entries)
    | some _ => none) before .header entries

/-- Opens one more table of the array with a header. -/
def openArrayTable (path : List String) (entries : Entries) : Option Entries := do
  let (before, key) ← splitLast? path
  alter .parent (fun _ entries =>
    match entries.lookup key with
    | none => some (entries ++ [(key, .tables [.table .header []])])
    | some (.tables items) => some (replace key (.tables (items ++ [.table .header []])) entries)
    | some _ => none) before .header entries

/-! ## Leading items -/

/-- The value without the items of an array behind the first `n`. -/
def takeItems (n : Nat) : Toml → Toml
  | .arr items => .arr (items.take n)
  | .tables items => .tables (items.take n)
  | value => value

/-! ## As JSON -/

mutual

/-- The JSON value with the same contents, if no number in it is out of range. A date or a time
becomes an object with its text, so that it is taken for no string. -/
def toJson? : Toml → Option Json
  | .str s => some (.str s)
  | .int n => some (.int n)
  | .float x => some (.float x)
  | .outOfRange => none
  | .bool b => some (.bool b)
  | .datetime text => some (.obj [("datetime", .str text)])
  | .arr items => (listToJson? items).map .arr
  | .inline entries => (entriesToJson? entries).map .obj
  | .table _ entries => (entriesToJson? entries).map .obj
  | .tables items => (listToJson? items).map .arr

def listToJson? : List Toml → Option (List Json)
  | [] => some []
  | item :: rest => do
    let item ← item.toJson?
    let rest ← listToJson? rest
    return item :: rest

def entriesToJson? : List (String × Toml) → Option (List (String × Json))
  | [] => some []
  | (key, value) :: rest => do
    let value ← value.toJson?
    let rest ← entriesToJson? rest
    return (key, value) :: rest

end

end Toml

end QueryCompiler
