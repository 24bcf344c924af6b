-- SUMMARY: Quoting can be undone, and splitting a compound name loses nothing, for every pair of quotes.
import QueryCompiler.Proofs.Quoting

/-!
# Splitting

Quoting and splitting work on any two characters, also on two that are the same,
or on one that is the dot. A text is recognised as quoted exactly when it is one
name in quotes, and the name is told by undoubling what stands inside. The parts
of a compound name are cut out of it at the dots outside quotes, and a part that
was cut out is not cut again.
-/

namespace QueryCompiler

namespace QuotePair

variable {q : QuotePair} {p : Position} {text name part first : List Char} {rest : List (List Char)}

/-! ## Unquoting -/

/-- A text with every doubled closing quote written once. -/
def unescape (q : QuotePair) : List Char → List Char
  | [] => []
  | [c] => [c]
  | c :: d :: rest =>
    if c = q.closing ∧ d = q.closing then c :: q.unescape rest else c :: q.unescape (d :: rest)

theorem unescape_cons {c : Char} (h : c ≠ q.closing) (text : List Char) :
    q.unescape (c :: text) = c :: q.unescape text := by
  cases text with
  | nil => rfl
  | cons d text => exact if_neg fun hdoubled => h hdoubled.1

theorem unescape_escape (q : QuotePair) (name : List Char) : q.unescape (q.escape name) = name := by
  induction name with
  | nil => rfl
  | cons c name ih =>
    simp only [escape_cons]
    split
    next hc =>
      have hdoubled : q.unescape (c :: c :: q.escape name) = c :: q.unescape (q.escape name) := if_pos ⟨hc, hc⟩
      exact hdoubled.trans (congrArg (c :: ·) ih)
    next hc => exact (unescape_cons hc _).trans (congrArg (c :: ·) ih)

theorem inner?_quote (q : QuotePair) (name : List Char) : q.inner? (q.quote name) = some (q.escape name) := by
  have hclosing : (q.escape name ++ [q.closing]).getLast? = some q.closing := List.getLast?_concat
  simp [quote, inner?, hclosing]

/-- The name in quotes, read back. -/
theorem unescape_inner?_quote (q : QuotePair) (name : List Char) :
    (q.inner? (q.quote name)).map q.unescape = some name := by
  simp only [inner?_quote, Option.map_some, unescape_escape]

theorem quote_injective (q : QuotePair) : Function.Injective q.quote := by
  intro name name' h
  have hname := unescape_inner?_quote q name
  simpa only [h, unescape_inner?_quote, Option.some.injEq, eq_comm] using hname

theorem isQuoted_iff : q.isQuoted text = true ↔ ∃ name, text = q.quote name := by
  constructor
  · exact exists_quote_of_isQuoted
  · rintro ⟨name, rfl⟩
    exact isQuoted_quote q name

/-! ## Parts -/

/-- The parts of a text are cut out of it. -/
theorem intercalate_splitFrom (q : QuotePair) (p : Position) (text : List Char) :
    ['.'].intercalate (q.splitFrom p text) = text := by
  induction text generalizing p with
  | nil => rfl
  | cons c text ih =>
    obtain ⟨first, rest, hparts⟩ := List.exists_cons_of_ne_nil (splitFrom_ne_nil q (q.step p c) text)
    have ih := ih (q.step p c)
    rw [hparts] at ih
    rw [splitFrom, hparts]
    split
    next hdot => rw [List.intercalate_cons_cons, ih, hdot.1, List.nil_append, List.singleton_append]
    next =>
      rw [consFirst]
      cases rest with
      | nil => rw [List.intercalate_singleton] at ih ⊢; rw [ih]
      | cons => rw [List.intercalate_cons_cons] at ih ⊢; rw [← ih]; rfl

/-- The parts of a text are not split again. -/
theorem splitFrom_part (h : q.splitFrom p text = first :: rest) :
    q.splitFrom p first = [first] ∧ ∀ part ∈ rest, q.split part = [part] := by
  induction text generalizing p first rest with
  | nil =>
    cases h
    exact ⟨rfl, fun _ hpart => nomatch hpart⟩
  | cons c text ih =>
    obtain ⟨first', rest', hparts⟩ := List.exists_cons_of_ne_nil (splitFrom_ne_nil q (q.step p c) text)
    obtain ⟨hfirst, hrest⟩ := ih hparts
    rw [splitFrom, hparts] at h
    split at h
    next hdot =>
      cases h
      rw [hdot.2] at hfirst
      exact ⟨rfl, List.forall_mem_cons.2 ⟨hfirst, hrest⟩⟩
    next hdot =>
      cases h
      rw [splitFrom, if_neg hdot, hfirst]
      exact ⟨rfl, hrest⟩

theorem split_of_mem_split (h : part ∈ q.split text) : q.split part = [part] := by
  obtain ⟨first, rest, hparts⟩ := List.exists_cons_of_ne_nil (splitFrom_ne_nil q .outside text)
  obtain ⟨hfirst, hrest⟩ := splitFrom_part hparts
  rw [split, hparts] at h
  rcases List.mem_cons.1 h with rfl | h
  · exact hfirst
  · exact hrest part h

/-- Whatever the two quotes are. A text is recognised as quoted exactly when it is a name in quotes; there is only
one such name, and undoubling the inner text gives it. A text is its parts with dots between them. There is always
a part, every dot outside quotes separates the parts of what stands on its two sides, and a part is one part. -/
theorem quote_split (q : QuotePair) (text : List Char) :
    (q.isQuoted text = true ↔ ∃! name, text = q.quote name) ∧
      (∀ name, text = q.quote name → (q.inner? text).map q.unescape = some name) ∧
      ['.'].intercalate (q.split text) = text ∧
      q.split text ≠ [] ∧
      (∀ front behind, text = front ++ '.' :: behind → q.SplitsBehind front →
        q.split text = q.split front ++ q.split behind) ∧
      ∀ part ∈ q.split text, q.split part = [part] := by
  refine ⟨?_, ?_, intercalate_splitFrom q .outside text, splitFrom_ne_nil q .outside text, ?_, ?_⟩
  · rw [isQuoted_iff]
    constructor
    · rintro ⟨name, rfl⟩
      exact ⟨name, rfl, fun name' h => q.quote_injective h.symm⟩
    · exact ExistsUnique.exists
  · rintro name rfl
    exact unescape_inner?_quote q name
  · rintro front behind rfl h
    exact split_append_of_splitsBehind h
  · exact fun part hpart => split_of_mem_split hpart

/-- A name in double quotes that has dots and quotes in it, behind a segment with an umlaut. -/
def schemaAndColumn : List Char :=
  "größe.\"a.\"\"b\"\"\".c".toList

theorem quote_split_schemaAndColumn :
    let q : QuotePair := ⟨'"', '"'⟩
    q.split schemaAndColumn = ["größe".toList, q.quote "a.\"b\"".toList, "c".toList] ∧
      q.split schemaAndColumn = q.split "größe".toList ++ q.split "\"a.\"\"b\"\"\".c".toList ∧
      (q.inner? (q.quote "a.\"b\"".toList)).map q.unescape = some "a.\"b\"".toList ∧
      q.split (q.quote "a.\"b\"".toList) = [q.quote "a.\"b\"".toList] := by
  intro q
  have hparts : q.split schemaAndColumn = ["größe".toList, q.quote "a.\"b\"".toList, "c".toList] := by decide
  obtain ⟨-, -, -, -, hhalves, hpart⟩ := q.quote_split schemaAndColumn
  obtain ⟨-, hunquoted, -⟩ := q.quote_split (q.quote "a.\"b\"".toList)
  exact ⟨hparts, hhalves _ _ (by decide) (by decide), hunquoted _ rfl, hpart _ (by rw [hparts]; simp)⟩

end QuotePair

end QueryCompiler
