-- SUMMARY: The writer of JSON text.
import QueryCompiler.Json.Basic
import QueryCompiler.Decimal.Layout

/-!
# Writing JSON text

The text has no blanks outside strings and stays on one line for every reader:
the characters that some readers take for line ends are escaped inside strings.
-/

namespace QueryCompiler.Json

/-- The four hexadecimal digits of a code unit. -/
def hex4 (n : Nat) : List Char :=
  [n / 4096 % 16, n / 256 % 16, n / 16 % 16, n % 16].map Nat.digitChar

/-- A character inside a string. -/
def escaped (c : Char) : List Char :=
  match c with
  | '"' => ['\\', '"']
  | '\\' => ['\\', '\\']
  | '\n' => ['\\', 'n']
  | '\r' => ['\\', 'r']
  | '\t' => ['\\', 't']
  | '\x08' => ['\\', 'b']
  | '\x0c' => ['\\', 'f']
  | _ =>
    let n := c.toNat
    if n < 32 ∨ n = 0x85 ∨ n = 0x2028 ∨ n = 0x2029 then '\\' :: 'u' :: hex4 n else [c]

/-- Appends a string in quotes. -/
def writeString (s : String) (out : String) : String :=
  (s.toList.flatMap escaped).foldl String.push (out.push '"') |>.push '"'

mutual

/-- Appends the text of a value. -/
def write : Json → String → String
  | .null, out => out ++ "null"
  | .bool true, out => out ++ "true"
  | .bool false, out => out ++ "false"
  | .int n, out => out ++ toString n
  | .float x, out => if x.isFinite then out ++ Decimal.literalLayout.write x else out ++ "null"
  | .str s, out => writeString s out
  | .arr items, out => (writeItems items (out.push '[')).push ']'
  | .obj members, out => (writeMembers members (out.push '\x7b')).push '\x7d'

def writeItems : List Json → String → String
  | [], out => out
  | [item], out => item.write out
  | item :: rest, out => writeItems rest ((item.write out).push ',')

def writeMembers : List (String × Json) → String → String
  | [], out => out
  | [(name, value)], out => value.write ((writeString name out).push ':')
  | (name, value) :: rest, out =>
    writeMembers rest ((value.write ((writeString name out).push ':')).push ',')

end

/-- The text of a value. -/
def render (json : Json) : String :=
  json.write ""

end QueryCompiler.Json
