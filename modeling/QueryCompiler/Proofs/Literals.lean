-- SUMMARY: The inline text is the statement with one complete literal in the place of each placeholder, and each literal is read back as its value.
import QueryCompiler.Proofs.Placeholders

/-!
# Literals in the text

The inline text of a statement has literals where the statement has placeholders.
A string in it may hold any character: single quotes, the quotes of identifiers,
what looks like a placeholder. And an identifier may hold single quotes. A reader
who knows both kinds of quotes, and that a doubled closing quote stands for one,
sees the same pieces in both texts outside the literals. No literal begins inside
another piece or goes on in the next one.
-/

namespace QueryCompiler

/-! ## The reader -/

/-- What a reader of text with identifiers and strings sees. -/
inductive Piece where
  /-- A character outside quotes. -/
  | char (c : Char)
  /-- A complete quoted identifier, by its name. -/
  | name (cs : List Char)
  /-- A complete string, by its characters. -/
  | string (cs : List Char)
deriving DecidableEq, Repr

/-- Characters outside quotes. -/
def Piece.chars (cs : List Char) : List Piece :=
  cs.map .char

/-- The quotes of strings. -/
def apostrophes : QuotePair :=
  ⟨'\'', '\''⟩

/-- What stands in quotes. -/
inductive Enclosed where
  | name
  | string
deriving DecidableEq, Repr

def Enclosed.piece : Enclosed → List Char → Piece
  | .name => .name
  | .string => .string

/-- Where a reader stands, and what it has read between the quotes. -/
inductive Scanning where
  | outside
  | inside (e : Enclosed) (seen : List Char)
  /-- Behind a closing quote, which may be the first of a pair. -/
  | closed (e : Enclosed) (seen : List Char)
deriving DecidableEq, Repr

namespace QuotePair

/-- The quotes of identifiers or of strings. -/
def around (q : QuotePair) : Enclosed → QuotePair
  | .name => q
  | .string => apostrophes

/-- What a character opens. -/
def opens? (q : QuotePair) (c : Char) : Option Enclosed :=
  if c = q.opening then some .name else if c = apostrophes.opening then some .string else none

/-- What is seen of a text from where the reader stands. Nothing when the text ends inside quotes. -/
def scan (q : QuotePair) : Scanning → List Char → Option (List Piece)
  | .outside, [] => some []
  | .outside, c :: rest =>
    match q.opens? c with
    | some e => q.scan (.inside e []) rest
    | none => (q.scan .outside rest).map (.char c :: ·)
  | .inside _ _, [] => none
  | .inside e seen, c :: rest =>
    if c = (q.around e).closing then q.scan (.closed e seen) rest else q.scan (.inside e (seen ++ [c])) rest
  | .closed e seen, [] => some [e.piece seen]
  | .closed e seen, c :: rest =>
    if c = (q.around e).closing then q.scan (.inside e (seen ++ [c])) rest
    else
      (match q.opens? c with
        | some e' => q.scan (.inside e' []) rest
        | none => (q.scan .outside rest).map (.char c :: ·)).map (e.piece seen :: ·)

variable {q : QuotePair} {text name a b rest : List Char} {pieces left right : List Piece} {e : Enclosed}

/-- A text that goes on with no closing quote of either kind. -/
def EndsBefore (q : QuotePair) (rest : List Char) : Prop :=
  ∀ e, rest.head? ≠ some (q.around e).closing

theorem endsBefore_nil : q.EndsBefore [] := by
  intro e
  simp

theorem endsBefore_cons {c : Char} (h : ∀ e, c ≠ (q.around e).closing) : q.EndsBefore (c :: rest) := by
  intro e
  simpa using h e

theorem scan_closed (h : q.EndsBefore rest) (seen : List Char) :
    q.scan (.closed e seen) rest = (q.scan .outside rest).map (e.piece seen :: ·) := by
  cases rest with
  | nil => rfl
  | cons c rest =>
    have hc : c ≠ (q.around e).closing := by simpa using h e
    simp only [scan, if_neg hc]

theorem scan_inside_escape (seen : List Char) :
    q.scan (.inside e seen) ((q.around e).escape name ++ (q.around e).closing :: rest)
      = q.scan (.closed e (seen ++ name)) rest := by
  induction name generalizing seen with
  | nil => simp [scan]
  | cons c name ih =>
    rw [escape_cons]
    by_cases hc : c = (q.around e).closing
    · simp [hc, scan, ih]
    · simp [hc, scan, ih]

/-! ## Spelled pieces -/

/-- The text is read as these pieces, whatever stands behind it, if that does not go on with a closing
quote. -/
def Spells (q : QuotePair) (text : List Char) (pieces : List Piece) : Prop :=
  ∀ rest, q.EndsBefore rest → q.scan .outside (text ++ rest) = (q.scan .outside rest).map (pieces ++ ·)

namespace Spells

theorem scan_eq (h : q.Spells text pieces) : q.scan .outside text = some pieces := by
  have hscan := h [] endsBefore_nil
  rw [List.append_nil] at hscan
  rw [hscan, scan, Option.map_some, List.append_nil]

theorem nil : q.Spells [] [] := by
  intro rest _
  simp

/-- A quoted text in front, whatever characters it has. -/
theorem quote (hopens : q.opens? (q.around e).opening = some e) (name : List Char) :
    q.Spells ((q.around e).quote name) [e.piece name] := by
  intro rest hrest
  have htext : (q.around e).quote name ++ rest
      = (q.around e).opening :: ((q.around e).escape name ++ (q.around e).closing :: rest) := by
    simp [QuotePair.quote]
  rw [htext, scan, hopens]
  exact (scan_inside_escape []).trans (scan_closed hrest name)

/-- A word in front that opens no quotes. -/
theorem chars_append (h : ∀ c ∈ a, q.opens? c = none) (hb : q.Spells b pieces) :
    q.Spells (a ++ b) (Piece.chars a ++ pieces) := by
  induction a with
  | nil => exact hb
  | cons c a ih =>
    rw [List.forall_mem_cons] at h
    intro rest hrest
    rw [List.cons_append, List.cons_append, scan, h.1, ih h.2 rest hrest, Option.map_map]
    rfl

theorem chars (h : ∀ c ∈ a, q.opens? c = none) : q.Spells a (Piece.chars a) := by
  simpa using chars_append h nil

/-- Two parts, of which the second begins with no closing quote. -/
theorem append (ha : q.Spells a left) (hb : q.Spells b right) (hstart : ∀ rest, q.EndsBefore rest → q.EndsBefore (b ++ rest)) :
    q.Spells (a ++ b) (left ++ right) := by
  intro rest hrest
  rw [List.append_assoc, ha _ (hstart rest hrest), hb rest hrest, Option.map_map]
  simp [Function.comp_def]

end Spells

end QuotePair

/-! ## Quotes of dialects -/

namespace Dialect

variable {d : Dialect} {word : String}

/-- Neither kind of quotes is taken for the other. -/
theorem opens?_around (d : Dialect) (e : Enclosed) :
    d.profile.quotes.opens? (d.profile.quotes.around e).opening = some e := by
  cases d <;> cases e <;> decide

/-- No word of the vocabulary has an apostrophe. -/
theorem apostrophe_notMem (h : d.profile.IsVocabulary word) : '\'' ∉ word.toList := by
  cases h with
  | keyword k => exact d.notMem_keyword (by decide) k
  | symbol s => cases s <;> decide
  | space | zero | one | rowNum => decide
  | function hf =>
    cases hf with
    | aggregate a => cases a <;> decide
    | lower | rowNumber => decide
  | allRows hrows => cases d <;> cases hrows <;> decide
  | placeholder i =>
    obtain ⟨number, htext, hnumber, -⟩ := d.profile.exists_number i
    rw [htext, List.mem_append, not_or]
    refine ⟨by cases d <;> decide, fun hmem => ?_⟩
    exact absurd (hnumber _ hmem) (by decide)

theorem opens?_of_notMem {cs : List Char} (hopening : d.profile.quotes.opening ∉ cs) (happostrophe : '\'' ∉ cs) :
    ∀ c ∈ cs, d.profile.quotes.opens? c = none := by
  intro c hc
  rw [QuotePair.opens?, if_neg, if_neg]
  · rintro rfl
    exact happostrophe hc
  · rintro rfl
    exact hopening hc

/-- A test of each character. -/
theorem opens?_of_all {cs : List Char} (h : cs.all (fun c => (d.profile.quotes.opens? c).isNone) = true) :
    ∀ c ∈ cs, d.profile.quotes.opens? c = none := by
  simpa using h

theorem opens?_vocabulary (h : d.profile.IsVocabulary word) :
    ∀ c ∈ word.toList, d.profile.quotes.opens? c = none :=
  opens?_of_notMem (d.quotesApart.opening _ h) (apostrophe_notMem h)

/-- A separator ends what stands in front of it. -/
theorem endsBefore_separator (h : word ∈ separators) (rest : List Char) :
    d.profile.quotes.EndsBefore (word.toList ++ rest) := by
  have hends : ∀ e, (d.profile.quotes.around e).closing ∉ [' ', '.', ',', ')'] := by
    intro e
    cases d <;> cases e <;> decide
  simp only [separators, List.mem_cons, List.not_mem_nil, or_false] at h
  rcases h with rfl | rfl | rfl | rfl <;> exact QuotePair.endsBefore_cons fun e hc => hends e (hc ▸ by decide)

end Dialect

/-! ## Numbers and bytes -/

/-- The characters of numbers. -/
def isNumeral (c : Char) : Bool :=
  c.isDigit || ['.', '-', 'e'].contains c

theorem Dialect.opens?_numeral {d : Dialect} {cs : List Char} (h : ∀ c ∈ cs, isNumeral c = true) :
    ∀ c ∈ cs, d.profile.quotes.opens? c = none := by
  apply opens?_of_notMem
  · intro hopening
    have hnot : isNumeral d.profile.quotes.opening = false := by cases d <;> decide
    exact Bool.false_ne_true (hnot.symm.trans (h _ hopening))
  · intro happostrophe
    have hnot : isNumeral '\'' = false := by decide
    exact Bool.false_ne_true (hnot.symm.trans (h _ happostrophe))

theorem isDigit_toDigits (n : Nat) : ∀ c ∈ Nat.toDigits 10 n, c.isDigit = true :=
  fun _ hc => Nat.isDigit_of_mem_toDigits (by decide) (by decide) hc

theorem isNumeral_toDigits (n : Nat) : ∀ c ∈ Nat.toDigits 10 n, isNumeral c = true := by
  intro c hc
  rw [isNumeral, isDigit_toDigits n c hc, Bool.true_or]

/-- The number that decimal digits stand for. -/
def readNat? (digits : List Char) : Option Nat :=
  if digits ≠ [] ∧ digits.all Char.isDigit = true then some (Nat.ofDigitChars 10 digits 0) else none

/-- The integer that decimal digits, perhaps behind a minus sign, stand for. -/
def readInt? : List Char → Option Int
  | '-' :: digits => (readNat? digits).map fun (n : Nat) => -(n : Int)
  | digits => (readNat? digits).map fun (n : Nat) => (n : Int)

theorem readNat?_toDigits (n : Nat) : readNat? (Nat.toDigits 10 n) = some n := by
  have hdigits := List.all_eq_true.2 (isDigit_toDigits n)
  rw [readNat?, if_pos ⟨Nat.toDigits_ne_nil, hdigits⟩, Nat.ofDigitChars_toDigits (by decide) (by decide)]

/-- An integer is written as digits, behind a minus sign when it is negative. -/
theorem toList_toString_int (n : Int) :
    (toString n).toList = (if n < 0 then ['-'] else []) ++ Nat.toDigits 10 n.natAbs := by
  cases n with
  | ofNat m =>
    have htext : toString (Int.ofNat m) = String.ofList (Nat.toDigits 10 m) := rfl
    have hsign : ¬Int.ofNat m < 0 := Int.not_lt.2 (Int.natCast_nonneg m)
    rw [htext, String.toList_ofList, if_neg hsign]
    rfl
  | negSucc m =>
    have htext : toString (Int.negSucc m) = "-" ++ String.ofList (Nat.toDigits 10 (m + 1)) := rfl
    rw [htext, String.toList_append, if_pos (Int.negSucc_lt_zero m)]
    exact congrArg ('-' :: ·) String.toList_ofList

theorem isNumeral_toString_int (n : Int) : ∀ c ∈ (toString n).toList, isNumeral c = true := by
  have hsign : ∀ c ∈ (if n < 0 then ['-'] else []), isNumeral c = true := by
    apply List.all_eq_true.1
    split <;> decide
  rw [toList_toString_int, List.forall_mem_append]
  exact ⟨hsign, isNumeral_toDigits _⟩

theorem readInt?_toString (n : Int) : readInt? (toString n).toList = some n := by
  rw [toList_toString_int]
  split
  next hneg =>
    rw [List.singleton_append, readInt?, readNat?_toDigits, Option.map_some]
    congr 1
    omega
  next hpos =>
    rw [List.nil_append, readInt?.eq_2, readNat?_toDigits, Option.map_some]
    · congr 1
      omega
    · intro digits hdigits
      have hminus : '-' ∈ Nat.toDigits 10 n.natAbs := by simp [hdigits]
      exact absurd (isDigit_toDigits _ _ hminus) (by decide)

/-- The value of a hexadecimal digit. -/
def hexValue? (c : Char) : Option Nat :=
  if c.isDigit then some (c.toNat - 48)
  else if 'A' ≤ c ∧ c ≤ 'F' then some (c.toNat - 55)
  else none

/-- The bytes that hexadecimal digits stand for, two digits for each. -/
def unhex : List Char → Option (List UInt8)
  | [] => some []
  | [_] => none
  | high :: low :: rest => do
    let high ← hexValue? high
    let low ← hexValue? low
    let bytes ← unhex rest
    return UInt8.ofNat (16 * high + low) :: bytes

theorem hexValue?_hexDigit : ∀ n < 16, hexValue? (Value.hexDigit n) = some n := by
  decide

theorem unhex_hex (bs : List UInt8) : unhex (Value.hex bs).toList = some bs := by
  rw [Value.hex, String.toList_ofList]
  induction bs with
  | nil => rfl
  | cons b bs ih =>
    have hb := b.toNat_lt
    have hhigh := hexValue?_hexDigit (b.toNat / 16) (by omega)
    have hlow := hexValue?_hexDigit (b.toNat % 16) (by omega)
    rw [List.flatMap_cons, List.cons_append, List.singleton_append, unhex, hhigh, hlow, ih]
    change some (UInt8.ofNat (16 * (b.toNat / 16) + b.toNat % 16) :: bs) = some (b :: bs)
    rw [Nat.div_add_mod, UInt8.ofNat_toNat]

namespace Decimal

theorem isNumeral_plain (d : Decimal) : ∀ c ∈ (literalLayout.plain d).toList, isNumeral c = true := by
  have hdigits := isNumeral_toDigits d.digits
  have hzero : isNumeral '0' = true := by decide
  have hpoint : isNumeral '.' = true := by decide
  have hzeros (n : Nat) : ∀ c ∈ List.replicate n '0', isNumeral c = true := by
    intro c hc
    rw [List.eq_of_mem_replicate hc]
    exact hzero
  have hending : ∀ c ∈ literalLayout.wholeEnding.toList, isNumeral c = true :=
    List.all_eq_true.1 (by decide)
  rw [Layout.plain]
  split
  · rw [String.toList_append, String.toList_ofList, List.forall_mem_append, List.forall_mem_append]
    exact ⟨⟨hdigits, hzeros _⟩, hending⟩
  split
  · rw [String.toList_ofList, List.forall_mem_append, List.forall_mem_cons]
    exact ⟨fun c hc => hdigits c (List.mem_of_mem_take hc), hpoint, fun c hc => hdigits c (List.mem_of_mem_drop hc)⟩
  · rw [String.toList_ofList, List.forall_mem_append, List.forall_mem_cons, List.forall_mem_cons]
    exact ⟨⟨hzero, hpoint, hzeros _⟩, hdigits⟩

theorem isNumeral_scientific (d : Decimal) : ∀ c ∈ (Layout.scientific d).toList, isNumeral c = true := by
  have hdigits := isNumeral_toDigits d.digits
  have hpoint : isNumeral '.' = true := by decide
  have hmark : ∀ c ∈ "e".toList, isNumeral c = true := List.all_eq_true.1 (by decide)
  rw [Layout.scientific]
  split
  next first second rest heq =>
    rw [heq, List.forall_mem_cons] at hdigits
    rw [String.toList_append, String.toList_append, String.toList_ofList, List.forall_mem_append,
      List.forall_mem_append, List.forall_mem_cons, List.forall_mem_cons]
    exact ⟨⟨⟨hdigits.1, hpoint, hdigits.2⟩, hmark⟩, isNumeral_toString_int _⟩
  next =>
    rw [String.toList_append, String.toList_append, String.toList_ofList, List.forall_mem_append,
      List.forall_mem_append]
    exact ⟨⟨hdigits, hmark⟩, isNumeral_toString_int _⟩

/-- A finite number is written without quotes. -/
theorem isNumeral_write {x : Double} (h : x.isFinite = true) :
    ∀ c ∈ (literalLayout.write x).toList, isNumeral c = true := by
  have hnan : x.isNaN = false := by
    have hexponent : x.exponentField < 2047 := by simpa [Double.isFinite] using h
    simp [Double.isNaN, Nat.ne_of_lt hexponent]
  have hsign : ∀ c ∈ (if x.isNegative then "-" else "").toList, isNumeral c = true := by
    apply List.all_eq_true.1
    split <;> decide
  have hzero : ∀ c ∈ "0".toList ++ literalLayout.wholeEnding.toList, isNumeral c = true :=
    List.all_eq_true.1 (by decide)
  have hdecimal (d : Decimal) : ∀ c ∈ (literalLayout.decimal d).toList, isNumeral c = true := by
    unfold Layout.decimal
    dsimp only [literalLayout]
    split
    · exact isNumeral_plain d
    · exact isNumeral_scientific d
  rw [Layout.write]
  simp only [hnan, h, Bool.false_eq_true, if_false, Bool.not_true]
  split
  · rw [String.toList_append, String.toList_append, List.append_assoc, List.forall_mem_append]
    exact ⟨hsign, hzero⟩
  · rw [String.toList_append, List.forall_mem_append]
    exact ⟨hsign, hdecimal _⟩

end Decimal

/-! ## Literals of values -/

/-- The literal of bytes with these hexadecimal digits. -/
def Dialect.binary (digits : List Char) : Dialect → List Piece
  | .tsql => Piece.chars ("0x".toList ++ digits)
  | .postgres => [.string ("\\x".toList ++ digits)]
  | .mysql | .sqlite => [.char 'X', .string digits]
  | .oracle => Piece.chars "HEXTORAW(".toList ++ [.string digits, .char ')']

/-- Finite numbers are written with the characters of numbers. -/
def WritesNumerals (write : Double → String) : Prop :=
  ∀ x, x.isFinite = true → ∀ c ∈ (write x).toList, isNumeral c = true

theorem Decimal.writesNumerals_literalLayout : WritesNumerals literalLayout.write :=
  fun _ => isNumeral_write

/-- The pieces are one literal, and it is read back as the value. A finite number is read as it is written. -/
inductive Value.ReadsAs (write : Double → String) (d : Dialect) : Value → List Piece → Prop where
  | null : ReadsAs write d .null (Piece.chars "NULL".toList)
  | bool (b : Bool) : ReadsAs write d (.bool b) (Piece.chars (d.profile.boolLiteral b).toList)
  | int {n : Int64} {digits : List Char} (h : readInt? digits = some n.toInt) :
      ReadsAs write d (.int n) (Piece.chars digits)
  | finite {x : Double} (hx : x.isFinite = true) (h : ∀ c ∈ (write x).toList, isNumeral c = true) :
      ReadsAs write d (.float x) (Piece.chars (write x).toList)
  | nan {x : Double} (hx : x.isNaN = true) : ReadsAs write d (.float x) [.string "NaN".toList]
  | infinite {x : Double} (hx : x.isFinite = false) (hnan : x.isNaN = false) :
      ReadsAs write d (.float x) [.string (if x.isNegative then "-Infinity" else "Infinity").toList]
  /-- The string itself. It is marked only where the dialect wants it and only beyond ASCII. -/
  | string (s : String) :
      ReadsAs write d (.string s)
        ((if d.profile.marksUnicode && s.toList.any (fun c => 128 ≤ c.toNat) then [.char 'N'] else [])
          ++ [.string s.toList])
  | bytes {bs : List UInt8} {digits : List Char} (h : unhex digits = some bs) :
      ReadsAs write d (.bytes bs) (d.binary digits)

namespace Dialect

variable {d : Dialect}

theorem spells_quoted (d : Dialect) (s : String) :
    d.profile.quotes.Spells (Value.quoted s).toList [.string s.toList] := by
  have hquoted : (Value.quoted s).toList = apostrophes.quote s.toList := String.toList_ofList
  rw [hquoted]
  exact .quote (d.opens?_around .string) s.toList

/-- Hexadecimal digits are no quotes. -/
theorem opens?_hex (d : Dialect) (bs : List UInt8) : ∀ c ∈ (Value.hex bs).toList, d.profile.quotes.opens? c = none := by
  have hdigit : ∀ n < 16, d.profile.quotes.opens? (Value.hexDigit n) = none := by
    cases d <;> decide
  intro c hc
  rw [Value.hex, String.toList_ofList, List.mem_flatMap] at hc
  obtain ⟨b, -, hc⟩ := hc
  have hb := b.toNat_lt
  simp only [List.mem_cons, List.not_mem_nil, or_false] at hc
  rcases hc with rfl | rfl
  · exact hdigit _ (by omega)
  · exact hdigit _ (by omega)

theorem spells_bytes (write : Double → String) (d : Dialect) (bs : List UInt8) :
    d.profile.quotes.Spells (Value.literalWith write d.profile (.bytes bs)).toList (d.binary (Value.hex bs).toList) := by
  -- The digits matter only as characters that open no quotes.
  have hhex := d.opens?_hex bs
  have htext : (Value.literalWith write d.profile (.bytes bs)).toList
      = d.profile.bytesOpening.toList ++ (Value.hex bs).toList ++ d.profile.bytesClosing.toList := by
    simp [Value.literalWith]
  rw [htext]
  generalize (Value.hex bs).toList = digits at hhex ⊢
  have hplain : '\'' ∉ digits := fun hmem => by
    have happostrophe := hhex _ hmem
    revert happostrophe
    cases d <;> decide
  have hquote {cs : List Char} (h : '\'' ∉ cs) :
      d.profile.quotes.Spells ('\'' :: cs ++ ['\'']) [.string cs] := by
    have hspells := QuotePair.Spells.quote (d.opens?_around .string) cs
    rwa [QuotePair.quote, QuotePair.escape_eq_self h] at hspells
  have hmark : ∀ c ∈ ['X'], d.profile.quotes.opens? c = none := opens?_of_all (by cases d <;> decide)
  cases d with
  | tsql =>
    have hchars : ∀ c ∈ "0x".toList ++ digits, tsqlProfile.quotes.opens? c = none :=
      List.forall_mem_append.2 ⟨opens?_of_all (d := .tsql) (by decide), hhex⟩
    change tsqlProfile.quotes.Spells ("0x".toList ++ digits ++ []) _
    rw [List.append_nil]
    exact .chars hchars
  | postgres =>
    have hbody : '\'' ∉ "\\x".toList ++ digits := by
      rw [List.mem_append, not_or]
      exact ⟨by decide, hplain⟩
    exact hquote hbody
  | mysql | sqlite => exact .chars_append hmark (hquote hplain)
  | oracle =>
    have hcall : ∀ c ∈ "HEXTORAW(".toList, oracleProfile.quotes.opens? c = none :=
      opens?_of_all (d := .oracle) (by decide)
    have hparen : ∀ c ∈ [')'], oracleProfile.quotes.opens? c = none := opens?_of_all (d := .oracle) (by decide)
    have hclosed (rest : List Char) : oracleProfile.quotes.EndsBefore ([')'] ++ rest) :=
      endsBefore_separator (d := .oracle) (show ")" ∈ separators by decide) rest
    have hbody := (hquote hplain).append (.chars hparen) fun rest _ => hclosed rest
    have hsplit : "HEXTORAW('".toList ++ digits ++ "')".toList
        = "HEXTORAW(".toList ++ (('\'' :: digits ++ ['\'']) ++ [')']) := by simp
    exact hsplit ▸ QuotePair.Spells.chars_append hcall hbody

end Dialect

/-- The literal of a value is read back as the value. -/
theorem Value.exists_pieces {write : Double → String} (hwrite : WritesNumerals write) (d : Dialect) (v : Value) :
    ∃ pieces, v.ReadsAs write d pieces ∧ d.profile.quotes.Spells (v.literalWith write d.profile).toList pieces := by
  cases v with
  | null => exact ⟨_, .null, .chars (d.opens?_vocabulary (.keyword .null))⟩
  | bool b =>
    have hword : ∀ c ∈ (d.profile.boolLiteral b).toList, d.profile.quotes.opens? c = none :=
      Dialect.opens?_of_all (by cases d <;> cases b <;> decide)
    exact ⟨_, .bool b, .chars hword⟩
  | int n =>
    have hnumeral := isNumeral_toString_int n.toInt
    exact ⟨_, .int (readInt?_toString n.toInt), .chars (Dialect.opens?_numeral hnumeral)⟩
  | float x =>
    rw [literalWith, floatLiteralWith]
    split
    next hx => exact ⟨_, .finite hx (hwrite x hx), .chars (Dialect.opens?_numeral (hwrite x hx))⟩
    next hx =>
      have hfinite : x.isFinite = false := by simpa using hx
      split
      next hnan => exact ⟨_, .nan hnan, d.spells_quoted _⟩
      next hnan =>
        have hinfinite : (Value.float x).ReadsAs write d _ := .infinite hfinite (by simpa using hnan)
        split
        next hsign => exact ⟨_, by simpa [hsign] using hinfinite, d.spells_quoted _⟩
        next hsign => exact ⟨_, by simpa [hsign] using hinfinite, d.spells_quoted _⟩
  | string s =>
    refine ⟨_, .string s, ?_⟩
    rw [literalWith, stringLiteral]
    split
    next hmarked =>
      have hmark : ∀ c ∈ ['N'], d.profile.quotes.opens? c = none := Dialect.opens?_of_all (by cases d <;> decide)
      rw [String.toList_append]
      exact .chars_append hmark (d.spells_quoted s)
    next => exact d.spells_quoted s
  | bytes bs => exact ⟨_, .bytes (unhex_hex bs), Dialect.spells_bytes write d bs⟩

/-! ## Pieces of tokens -/

namespace Token

/-- What a reader sees of a token, and `ofParam` of a parameter. Text that is written as it is, is seen as
on its own. -/
def pieces (p : Profile) (ofParam : Nat → List Piece) : Token Nat → List Piece
  | .param i => ofParam i
  | .ident name => [.name name.toList]
  | .raw text => (p.quotes.scan .outside text.toList).getD []
  | t => Piece.chars (t.text p p.placeholder).toList

variable {d : Dialect} {paramText : Nat → String} {ofParam : Nat → List Piece} {t : Token Nat}
  {a b : List (Token Nat)}

/-- The text of the tokens is read as the pieces of each of them. -/
def Scans (d : Dialect) (paramText : Nat → String) (ofParam : Nat → List Piece) (ts : List (Token Nat)) : Prop :=
  d.profile.quotes.Spells (textOf d.profile paramText ts).toList (ts.flatMap (pieces d.profile ofParam))

/-- A token that is a word of the vocabulary, and seen as such. -/
structure IsSeenWord (d : Dialect) (paramText : Nat → String) (ofParam : Nat → List Piece) (t : Token Nat) : Prop where
  vocabulary : d.profile.IsVocabulary (t.text d.profile paramText)
  pieces_eq : t.pieces d.profile ofParam = Piece.chars (t.text d.profile paramText).toList

namespace Scans

theorem nil : Scans d paramText ofParam [] := by
  rw [Scans, toList_textOf]
  exact .nil

theorem single (h : d.profile.quotes.Spells (t.text d.profile paramText).toList (t.pieces d.profile ofParam)) :
    Scans d paramText ofParam [t] := by
  rw [Scans, toList_textOf, List.flatMap_singleton, List.flatMap_singleton]
  exact h

theorem raw {text : String} {pieces : List Piece} (h : d.profile.quotes.Spells text.toList pieces) :
    Scans d paramText ofParam [.raw text] := by
  apply single
  rw [Token.pieces, h.scan_eq]
  exact h

theorem cons (ht : IsSeenWord d paramText ofParam t) (hb : Scans d paramText ofParam b) :
    Scans d paramText ofParam (t :: b) := by
  rw [Scans, toList_textOf] at hb ⊢
  rw [List.flatMap_cons, List.flatMap_cons, ht.pieces_eq]
  exact .chars_append (Dialect.opens?_vocabulary ht.vocabulary) hb

theorem word (ht : IsSeenWord d paramText ofParam t) : Scans d paramText ofParam [t] :=
  cons ht nil

/-- Tokens on both sides of a separator. -/
theorem separated (hseparator : t.text d.profile paramText ∈ separators) (ht : IsSeenWord d paramText ofParam t)
    (ha : Scans d paramText ofParam a) (hb : Scans d paramText ofParam b) : Scans d paramText ofParam (a ++ t :: b) := by
  have hrest := cons ht hb
  rw [Scans, toList_textOf] at ha hrest ⊢
  rw [List.flatMap_append, List.flatMap_append]
  apply ha.append hrest
  intro rest _
  rw [List.flatMap_cons, List.append_assoc]
  exact Dialect.endsBefore_separator hseparator _

theorem parenthesized (ha : Scans d paramText ofParam a) : Scans d paramText ofParam (Token.parenthesized a) :=
  .cons ⟨.symbol .lparen, rfl⟩
    (.separated (by simp [text, Symbol.text, separators]) ⟨.symbol .rparen, rfl⟩ ha .nil)

end Scans

end Token

/-! ## Phrases are read piece by piece -/

section

variable {d : Dialect} {paramText : Nat → String} {ofParam : Nat → List Piece}

theorem Profile.IsWord.scans (hparam : ∀ i, d.profile.quotes.Spells (paramText i).toList (ofParam i))
    {t : Token Value} (h : d.profile.IsWord t) (n : Nat) :
    Token.Scans d paramText ofParam [t.map fun _ => n] := by
  have hname (name : List Char) : d.profile.quotes.Spells (d.profile.quotes.quote name) [.name name] :=
    .quote (d.opens?_around .name) name
  have hword {text : String} (h : d.profile.IsVocabulary text) :
      d.profile.quotes.Spells text.toList (Piece.chars text.toList) :=
    .chars (Dialect.opens?_vocabulary h)
  cases h with
  | ident name =>
    have hspells := hname name.toList
    rw [← String.toList_ofList (l := d.profile.quotes.quote name.toList)] at hspells
    exact .single hspells
  | quoted hquoted =>
    obtain ⟨name, rfl⟩ := QuotePair.exists_quote_of_isQuoted hquoted
    exact .raw (by simpa using hname name)
  | star => exact .word ⟨.symbol .star, rfl⟩
  | comparison op => exact .word ⟨.symbol op.symbol, rfl⟩
  | param v => exact .single (hparam n)
  | zero => exact .word ⟨.zero, rfl⟩
  | one => exact .word ⟨.one, rfl⟩
  | rowNum => exact .raw (hword .rowNum)
  | allRows hrows => exact .raw (hword (.allRows hrows))

theorem Phrase.scans (hparam : ∀ i, d.profile.quotes.Spells (paramText i).toList (ofParam i)) {K : Keyword → Bool}
    {ts : List (Token Value)} (h : Phrase d.profile (fun _ => False) K ts) (n : Nat) :
    Token.Scans d paramText ofParam (Token.renumber n ts) := by
  have hcall {f : String} (hf : IsFunction f) : Token.IsSeenWord d paramText ofParam (.function f) := by
    have hname := Profile.IsVocabulary.function (p := d.profile) hf
    rw [← hf.upper_eq] at hname
    exact ⟨hname, rfl⟩
  -- What ends a part is a separator or a closing parenthesis, which no quoted text can run into.
  induction h generalizing n with
  | word h => exact h.scans hparam n
  | keyword => exact .word ⟨.keyword _, rfl⟩
  | fragment hf => exact hf.elim
  | spaced _ _ iha ihb =>
    rw [Token.renumber_append]
    exact .separated (by simp [separators, Token.map, Token.text]) ⟨.space, rfl⟩ (iha n) (ihb _)
  | dotted _ _ iha ihb =>
    rw [Token.renumber_append]
    exact .separated (by simp [separators, Token.map, Token.text, Symbol.text]) ⟨.symbol .dot, rfl⟩ (iha n) (ihb _)
  | listed _ _ iha ihb =>
    rw [Token.renumber_append]
    exact .separated (by simp [separators, Token.map, Token.text, Symbol.text]) ⟨.symbol .comma, rfl⟩ (iha n)
      (.cons ⟨.space, rfl⟩ (ihb _))
  | enclosed _ ih =>
    rw [Token.renumber_parenthesized]
    exact (ih n).parenthesized
  | call hf => exact .cons (hcall hf) Token.Scans.nil.parenthesized
  | applied hf _ ih =>
    rw [Token.renumber, Token.renumber_parenthesized]
    exact .cons (hcall hf) (ih _).parenthesized

end

/-! ## Compiled texts -/

/-- What is seen of a statement when these are seen of its parameters. A parameter without any keeps its
placeholder. -/
def Compiled.pieces (r : Compiled) (literals : List (List Piece)) : List Piece :=
  r.tokens.flatMap (Token.pieces r.dialect.profile fun i =>
    literals[i]?.getD (Piece.chars (r.dialect.profile.placeholder i).toList))

namespace Compiler

/-- The statement and its inline text are read as the same pieces, but for the parameters. Those are read as
placeholders in the one and as literals in the other, one for each value, and each literal is read back as
its value. -/
theorem scan_inlineSql_compile {write : Double → String} (hwrite : WritesNumerals write) (c : Compiler) (q : Query) (r : Compiled)
    (hq : q.Everywhere fun clause => clause.fragments = []) (h : c.compile q = .ok r) :
    ∃ literals, List.Forall₂ (Value.ReadsAs write r.dialect) r.bindings.toList literals ∧
      Token.params r.tokens = List.range literals.length ∧
      r.dialect.profile.quotes.scan .outside r.sql.toList = some (r.pieces []) ∧
      r.dialect.profile.quotes.scan .outside (r.inlineSqlWith write).toList = some (r.pieces literals) := by
  obtain ⟨tokens, htokens, -, rfl⟩ := compile_eq_ok_iff.1 h
  have hphrase : Phrase c.dialect.profile (fun _ => False) Keyword.any tokens := by
    refine Query.phrase_tokens (hq.mono fun clause hclause => ?_) htokens
    simp [hclause]
  have hplaceholder (i : Nat) : c.dialect.profile.quotes.Spells (c.dialect.profile.placeholder i).toList
      (Piece.chars (c.dialect.profile.placeholder i).toList) :=
    .chars (Dialect.opens?_vocabulary (.placeholder i))
  choose pieces hreads hspells using Value.exists_pieces hwrite c.dialect
  refine ⟨(Token.params tokens).map pieces, ?reads, ?params, ?sql, ?inline⟩
  case reads =>
    rw [List.forall₂_map_right_iff, List.forall₂_same]
    exact fun v _ => hreads v
  case params => rw [Token.params_renumber, List.length_map, List.range_eq_range']
  case sql =>
    have hscan := (hphrase.scans hplaceholder 0).scan_eq
    exact hscan
  case inline =>
    refine (hphrase.scans (fun i => ?_) 0).scan_eq
    rw [List.getElem?_map, List.getElem?_toArray]
    cases (Token.params tokens)[i]? with
    | none => exact hplaceholder i
    | some v => exact hspells v

/-- Names and values that try to be taken for something else. -/
def hostileValues : Query :=
  ⟨[.from (.table "o'clock" none),
    .filter ⟨.and, false, .inValues "a]b'" [.string "x' OR '1'='1", .string "[Ü] @p0", .null, .bool true, .int (-5),
      .float ⟨0xC004000000000000⟩, .bytes [0x0A, 0xFF]]⟩]⟩

theorem scan_inlineSql_compile_hostileValues :
    ∃ r literals, (⟨.tsql, {}⟩ : Compiler).compile hostileValues = .ok r ∧
      r.inlineSql = "SELECT * FROM [o'clock] WHERE [a]]b'] IN ('x'' OR ''1''=''1', N'[Ü] @p0', NULL, 1, -5, -2.5, 0x0AFF)" ∧
      List.Forall₂ (Value.ReadsAs Decimal.literalLayout.write .tsql) r.bindings.toList literals ∧
      Dialect.tsql.profile.quotes.scan .outside r.inlineSql.toList = some (r.pieces literals) := by
  have hvalues : hostileValues.Everywhere fun clause => clause.fragments = [] := by
    refine .mk ?_ (by simp [Clause.nested, Source.nested, Condition.nested, Predicate.nested])
    simp only [List.forall_mem_cons]
    exact ⟨rfl, rfl, by simp⟩
  obtain ⟨literals, hreads, -, -, hscan⟩ := scan_inlineSql_compile Decimal.writesNumerals_literalLayout ⟨.tsql, {}⟩ hostileValues _
    hvalues rfl
  exact ⟨_, literals, rfl, by decide +kernel, hreads, hscan⟩

end Compiler

end QueryCompiler
