-- SUMMARY: The full case mappings of text, with the final sigma.
import QueryCompiler.Text.CaseTable

/-!
# Case mapping

Lower and upper case of whole texts. A character may become several (`ß` has
the capital form `SS`), and a capital sigma at the end of a word becomes the
final sigma `ς`; every other mapping looks at one character alone.
-/

namespace QueryCompiler.Text

/-- The image of a character under the first run that has it, or the character itself. -/
def mapByRuns (runs : List CaseRun) (c : Char) : Char :=
  ((runs.findSome? (·.map? c.toNat)).map Char.ofNat).getD c

/-! ## Lower case -/

/-- The small form of a character outside any word. Only the capital `İ` has two characters. -/
def lowerChar (c : Char) : List Char :=
  if c.toNat = 0x130 then ['i', Char.ofNat 0x307] else [mapByRuns smallLetterRuns c]

/-- Whether the nearest character that is not case-ignorable is a letter with case. -/
def meetsCased : List Char → Bool
  | [] => false
  | c :: rest =>
    if inRanges caseIgnorableRanges c.toNat then meetsCased rest else inRanges casedRanges c.toNat

/-- The small form of a sigma between the text before it, read backwards, and the text after it:
final when a word ends there. -/
def lowerSigma (before after : List Char) : Char :=
  if meetsCased before && !meetsCased after then 'ς' else 'σ'

/-- The small form of `cs`, which follows the text `before`, read backwards. -/
def lowerAfter (before : List Char) : List Char → List Char
  | [] => []
  | c :: rest =>
    (if c = 'Σ' then [lowerSigma before rest] else lowerChar c) ++ lowerAfter (c :: before) rest

/-- A text in lower case. -/
def lower (s : String) : String :=
  String.ofList (lowerAfter [] s.toList)

/-! ## Upper case -/

/-- The capital form of a character. -/
def upperChar (c : Char) : List Char :=
  match capitalSequences.lookup c.toNat with
  | some letters => letters.map Char.ofNat
  | none => [mapByRuns capitalLetterRuns c]

/-- A text in upper case. -/
def upper (s : String) : String :=
  String.ofList (s.toList.flatMap upperChar)

end QueryCompiler.Text
