-- SUMMARY: JSON values, with integers kept apart from other numbers, and the reading of their parts.
import QueryCompiler.Double

/-!
# JSON values

A number without fraction and exponent is an integer as long as it fits 64 bits
with or without a sign; every other number is a double. An object is a list of
members with distinct names.
-/

namespace QueryCompiler

inductive Json where
  | null
  | bool (b : Bool)
  | int (n : Int)
  | float (x : Double)
  | str (s : String)
  | arr (items : List Json)
  | obj (members : List (String × Json))

namespace Json

/-- The member of an object with a given name. -/
def member? (name : String) : Json → Option Json
  | .obj members => members.lookup name
  | _ => none

@[simp] theorem member?_obj (name : String) (members : List (String × Json)) :
    (Json.obj members).member? name = members.lookup name := rfl

/-- Keeps the last of the members with equal names, as when each is written over the one before. -/
def distinct : List (String × Json) → List (String × Json)
  | [] => []
  | (name, value) :: rest =>
    let later := distinct rest
    if (later.lookup name).isSome then later else (name, value) :: later

/-! ## Depth -/

mutual

/-- How deep arrays and objects are nested; a bare value has depth one. -/
def depth : Json → Nat
  | .arr items => depthItems items + 1
  | .obj members => depthMembers members + 1
  | _ => 1

def depthItems : List Json → Nat
  | [] => 0
  | item :: rest => max item.depth (depthItems rest)

def depthMembers : List (String × Json) → Nat
  | [] => 0
  | (_, value) :: rest => max value.depth (depthMembers rest)

end

/-! ## Scalars -/

def bool? : Json → Option Bool
  | .bool b => some b
  | _ => none

def str? : Json → Option String
  | .str s => some s
  | _ => none

/-- An integer of 64 bits with sign. -/
def int64? : Json → Option Int64
  | .int n => if -2 ^ 63 ≤ n ∧ n < 2 ^ 63 then some (Int64.ofInt n) else none
  | _ => none

/-- An integer of 64 bits without sign. -/
def uint64? : Json → Option UInt64
  | .int n => if 0 ≤ n ∧ n < 2 ^ 64 then some (UInt64.ofNat n.toNat) else none
  | _ => none

/-- An integer of eight bits without sign. -/
def uint8? : Json → Option UInt8
  | .int n => if 0 ≤ n ∧ n < 2 ^ 8 then some (UInt8.ofNat n.toNat) else none
  | _ => none

/-- Any number, an integer as the nearest double. -/
def double? : Json → Option Double
  | .int n => some (Double.ofInt n)
  | .float x => some x
  | _ => none

def arr? : Json → Option (List Json)
  | .arr items => some items
  | _ => none

/-- An array of which every item can be read. -/
def list? {α : Type} (read : Json → Option α) : Json → Option (List α)
  | .arr items => items.mapM read
  | _ => none

/-- A value that may be `null`. -/
def nullable? {α : Type} (read : Json → Option α) : Json → Option (Option α)
  | .null => some none
  | json => (read json).map some

/-! ## Members -/

/-- A member that must be there. -/
def field? {α : Type} (json : Json) (name : String) (read : Json → Option α) : Option α :=
  (json.member? name).bind read

/-- A member with a default for when it is left out. -/
def fieldD? {α : Type} (json : Json) (name : String) (default : α) (read : Json → Option α) :
    Option α :=
  match json.member? name with
  | none => some default
  | some value => read value

/-- The members of a record with the fields `names`, which may also be written as an array of its
leading fields in order. -/
def record? (names : List String) : Json → Option Json
  | .obj members => some (.obj members)
  | .arr items => if items.length ≤ names.length then some (.obj (names.zip items)) else none
  | _ => none

@[simp] theorem record?_obj (names : List String) (members : List (String × Json)) :
    (Json.obj members).record? names = some (.obj members) := rfl

/-! ## Sums -/

/-- A case of a sum type: an object whose only member has the name of the case, or, for a case
without contents, that name alone. -/
def case? : Json → Option (String × Json)
  | .str name => some (name, .null)
  | .obj [(name, contents)] => some (name, contents)
  | _ => none

/-- A case without contents. -/
def unitCase? (json : Json) : Option String :=
  match json.case? with
  | some (name, .null) => some name
  | _ => none

@[simp] theorem unitCase?_str (name : String) : (Json.str name).unitCase? = some name := rfl

/-- A case without contents, by its name. -/
def kind? {α : Type} (ofName? : String → Option α) (json : Json) : Option α :=
  json.unitCase?.bind ofName?

/-- The value that may be absent, `null` when it is. -/
def ofOption {α : Type} (write : α → Json) : Option α → Json
  | none => .null
  | some a => write a

end Json

end QueryCompiler
