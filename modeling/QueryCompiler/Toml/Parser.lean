-- SUMMARY: The reader of TOML documents.
import QueryCompiler.Toml.Scalar

/-!
# Reading TOML

A document is a sequence of lines: blank ones, key and value, or headers. Headers
say which table the following keys belong to. Values nest at most eighty levels
deep, and a dotted key has at most eighty parts. Fuel stands for the length of the
text, which every step shortens.
-/

namespace QueryCompiler.Toml

/-- How deep values may nest, and how many parts a dotted key may have. -/
def maxDepth : Nat := 80

/-! ## Between tokens -/

def skipSpaces (cs : List Char) : List Char :=
  cs.dropWhile isSpace

/-- The text behind blanks, line ends and comments. -/
def skipLines (inComment : Bool) : List Char → Option (List Char)
  | [] => some []
  | '\r' :: '\n' :: rest => skipLines false rest
  | '\n' :: rest => skipLines false rest
  | c :: rest =>
    if inComment then if isPrintable c then skipLines true rest else none
    else if isSpace c then skipLines false rest
    else if c = '#' then skipLines true rest
    else some (c :: rest)

/-- The text behind the rest of a line on which nothing but a comment follows. -/
def endOfLine (inComment : Bool) : List Char → Option (List Char)
  | [] => some []
  | '\r' :: '\n' :: rest => some rest
  | '\n' :: rest => some rest
  | c :: rest =>
    if inComment then if isPrintable c then endOfLine true rest else none
    else if isSpace c then endOfLine false rest
    else if c = '#' then endOfLine true rest
    else none

/-! ## Keys -/

def isBareKeyChar (c : Char) : Bool :=
  c.isAlphanum || c = '_' || c = '-'

/-- One key, bare or in quotes. -/
def simpleKey? (cs : List Char) : Option (String × List Char) :=
  match cs with
  | '"' :: rest => basicString (rest.length + 1) [] rest
  | '\'' :: rest => literalString [] rest
  | _ =>
    match cs.span isBareKeyChar with
    | ([], _) => none
    | (key, rest) => some (String.ofList key, rest)

/-- Keys with dots between them, `parts` at most, and the text behind the blanks after the last one. -/
def keyPath? (parts : Nat) (cs : List Char) : Option (List String × List Char) :=
  match parts with
  | 0 => none
  | parts + 1 => do
    let (key, rest) ← simpleKey? (skipSpaces cs)
    match skipSpaces rest with
    | '.' :: rest => do
      let (path, rest) ← keyPath? parts rest
      return (key :: path, rest)
    | rest => return ([key], rest)

/-- The keys of an entry of an inline table, and the text from its value on. -/
def inlineKey? (cs : List Char) : Option (List String × List Char) := do
  let (path, rest) ← keyPath? maxDepth cs
  match ← skipLines false rest with
  | '=' :: rest => do
    let rest ← skipLines false rest
    return (path, rest)
  | _ => none

/-! ## Values -/

mutual

/-- A value that nests at most `depth` levels. -/
def value? : Nat → Nat → List Char → Option (Toml × List Char)
  | 0, _, _ => none
  | fuel + 1, depth, cs =>
    match cs with
    | '"' :: _ => (string? cs).map fun (s, rest) => (.str s, rest)
    | '\'' :: _ => (string? cs).map fun (s, rest) => (.str s, rest)
    | '[' :: rest =>
      match depth with
      | 0 => none
      | depth + 1 => items? fuel depth [] rest
    | '\x7b' :: rest =>
      match depth with
      | 0 => none
      | depth + 1 => entries? fuel depth [] rest
    | _ =>
      let (text, rest) := word cs
      (wordValue? text).map fun value => (value, rest)

/-- The items of an array from the next one on. A comma may stand after the last one. -/
def items? : Nat → Nat → List Toml → List Char → Option (Toml × List Char)
  | 0, _, _, _ => none
  | fuel + 1, depth, done, cs =>
    match skipLines false cs with
    | none => none
    | some (']' :: rest) => some (.arr done.reverse, rest)
    | some cs =>
      match value? fuel depth cs with
      | none => none
      | some (item, rest) =>
        match skipLines false rest with
        | some (',' :: rest) => items? fuel depth (item :: done) rest
        | some (']' :: rest) => some (.arr (item :: done).reverse, rest)
        | _ => none

/-- The entries of an inline table from the next one on. A comma may stand after the last one, and line
ends anywhere but around the dots of a key. -/
def entries? : Nat → Nat → Entries → List Char → Option (Toml × List Char)
  | 0, _, _, _ => none
  | fuel + 1, depth, done, cs =>
    match skipLines false cs with
    | none => none
    | some ('\x7d' :: rest) => some (.inline done, rest)
    | some cs =>
      match inlineKey? cs with
      | none => none
      | some (path, rest) =>
        match value? fuel depth rest with
        | none => none
        | some (value, rest) =>
          match insertDotted path value .header done with
          | none => none
          | some done =>
            match skipLines false rest with
            | some (',' :: rest) => entries? fuel depth done rest
            | some ('\x7d' :: rest) => some (.inline done, rest)
            | _ => none

end

/-! ## Documents -/

/-- The keys of a header and the text after its closing brackets. -/
def header? (brackets : List Char) (cs : List Char) : Option (List String × List Char) := do
  let (path, rest) ← keyPath? maxDepth cs
  if rest.take brackets.length = brackets then
    let rest ← endOfLine false (rest.drop brackets.length)
    return (path, rest)
  else none

/-- A key with its value, and the text after their line. -/
def keyValue? (cs : List Char) : Option (List String × Toml × List Char) :=
  match keyPath? maxDepth cs with
  | some (path, '=' :: rest) => do
    let (value, rest) ← value? (2 * rest.length + 2) maxDepth (skipSpaces rest)
    let rest ← endOfLine false rest
    return (path, value, rest)
  | _ => none

/-- The entries of a document from the next line on, where `current` is the path of the table that keys
belong to. -/
def lines? : Nat → List String → Entries → List Char → Option Entries
  | 0, _, _, _ => none
  | fuel + 1, current, entries, cs =>
    match skipLines false cs with
    | none => none
    | some [] => some entries
    | some ('[' :: '[' :: rest) => do
      let (path, rest) ← header? [']', ']'] rest
      let entries ← openArrayTable path entries
      lines? fuel path entries rest
    | some ('[' :: rest) => do
      let (path, rest) ← header? [']'] rest
      let entries ← openTable path entries
      lines? fuel path entries rest
    | some rest => do
      let (path, value, rest) ← keyValue? rest
      let entries ← alter .parent (insertDotted path value) current .header entries
      lines? fuel current entries rest

/-- The text without the mark that some editors put in front. -/
def skipMark : List Char → List Char
  | '\uFEFF' :: rest => rest
  | cs => cs

/-- The entries of a document. -/
def parse? (text : String) : Option Entries :=
  let cs := skipMark text.toList
  lines? (cs.length + 1) [] [] cs

end QueryCompiler.Toml
