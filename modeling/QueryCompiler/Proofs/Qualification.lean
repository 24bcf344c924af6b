-- SUMMARY: The columns whose source and name stay apart in the select list: exactly those whose source opens no quote without closing it.
import QueryCompiler.Proofs.Outcome
import QueryCompiler.Proofs.Separators
import QueryCompiler.Proofs.Validity

/-!
# Qualification

A column with a source is emitted as one name with a dot between the two, and this
name is split again by a reader who keeps track of quotes. When the reader stands
inside quotes at the end of the source, the dot is taken for a part of a segment,
and so the source and the start of the name become one identifier. The main result
is that this is the only way in which they can come together.
-/

namespace QueryCompiler

/-! ## Dots of a segment -/

namespace Text

theorem count_dot_trim (cs : List Char) : (trim cs).count '.' = cs.count '.' := by
  obtain ⟨before, behind, hbefore, hbehind, hcs⟩ := exists_blanks cs
  have hleft : before.count '.' = 0 := List.count_eq_zero.2 (dot_notMem_of_blank hbefore)
  have hright : behind.count '.' = 0 := List.count_eq_zero.2 (dot_notMem_of_blank hbehind)
  conv_rhs => rw [hcs]
  rw [List.count_append, List.count_append, hleft, hright, Nat.zero_add, Nat.add_zero]

end Text

/-! ## Split names -/

namespace QuotePair

variable {q : QuotePair} {a b : List Char}

/-- A dot inside quotes is a part of the segment that it stands in, and what follows is read inside. -/
theorem exists_split_append_dot (hq : q.OfNames) (h : ¬q.Closes a) :
    ∃ front last first rest, q.split a = front ++ [last] ∧ q.splitFrom .inside b = first :: rest ∧
      q.split (a ++ '.' :: b) = front ++ (last ++ '.' :: first) :: rest := by
  obtain ⟨front, last, first, rest, hleft, hright, hparts⟩ := splitFrom_append q .outside a ('.' :: b)
  have hinside : q.after .outside a = .inside := by
    by_contra hne
    exact h hne
  have hdot : q.step .inside '.' = .inside := if_neg (Ne.symm hq.closing_ne_dot)
  rw [hinside, splitFrom, hdot, if_neg (by simp)] at hright
  obtain ⟨part, parts, hb⟩ := List.exists_cons_of_ne_nil (splitFrom_ne_nil q .inside b)
  rw [hb, consFirst, List.cons.injEq] at hright
  obtain ⟨rfl, rfl⟩ := hright
  exact ⟨front, last, part, parts, hleft, hb, hparts⟩

theorem split_ne_nil (q : QuotePair) (name : List Char) : q.split name ≠ [] :=
  splitFrom_ne_nil q .outside name

/-- The last part of a name. -/
def lastPart (q : QuotePair) (name : List Char) : List Char :=
  (q.split name).getLastD []

theorem getLast?_split (q : QuotePair) (name : List Char) : (q.split name).getLast? = some (q.lastPart name) := by
  rw [lastPart, List.getLastD_eq_getLast?, List.getLast?_eq_some_getLast (q.split_ne_nil name), Option.getD_some]

theorem lastPart_congr (h : (q.split a).getLast? = (q.split b).getLast?) : q.lastPart a = q.lastPart b := by
  rwa [getLast?_split, getLast?_split, Option.some.injEq] at h

theorem lastPart_append_dot (hq : q.OfNames) (ha : q.Closes a) : q.lastPart (a ++ '.' :: b) = q.lastPart b := by
  apply lastPart_congr
  rw [split_append_dot hq ha, List.getLast?_append_of_ne_nil _ (q.split_ne_nil b)]

end QuotePair

section

variable {α : Type}

theorem intersperse_append {a b : List α} (s : α) (ha : a ≠ []) (hb : b ≠ []) :
    (a ++ b).intersperse s = a.intersperse s ++ s :: b.intersperse s := by
  induction a with
  | nil => exact absurd rfl ha
  | cons x a ih =>
    cases a with
    | nil =>
      obtain ⟨y, b, rfl⟩ := List.exists_cons_of_ne_nil hb
      rfl
    | cons y a =>
      rw [List.cons_append, List.cons_append, List.intersperse_cons_cons, List.intersperse_cons_cons,
        ← List.cons_append, ih (by simp)]
      rfl

theorem intersperse_injective (s : α) : Function.Injective (List.intersperse s) := by
  intro a b h
  induction a generalizing b with
  | nil =>
    match b with
    | [] => rfl
    | [_] => cases h
    | _ :: _ :: _ => cases h
  | cons x a ih =>
    match a, b with
    | [], [] => cases h
    | [], [_] => exact h
    | [], _ :: _ :: _ => simp [List.intersperse] at h
    | _ :: _, [] => cases h
    | _ :: _, [_] => simp [List.intersperse] at h
    | y :: a, z :: w :: b =>
      rw [List.intersperse_cons_cons, List.intersperse_cons_cons, List.cons.injEq, List.cons.injEq] at h
      rw [h.1, ih h.2.2]

end

/-! ## References -/

namespace Profile

variable {α : Type} {p : Profile}

theorem segmentToken_injective (p : Profile) :
    Function.Injective (p.segmentToken : List Char → Token α) := by
  intro a b h
  unfold segmentToken at h
  split_ifs at h with ha hb
  case pos => rw [ha, hb]
  all_goals
    injection h with htext
    exact String.ofList_injective htext

/-- The tokens of a name without the dots between them. -/
def segmentTokens (p : Profile) (text : List Char) : List (Token α) :=
  (p.quotes.split text).map fun segment => p.segmentToken (Text.trim segment)

theorem baseName_eq (p : Profile) (name : String) :
    p.baseName name = String.ofList (p.quotes.lastPart name.toList) :=
  rfl

theorem segmentTokens_ne_nil (p : Profile) (text : List Char) : (p.segmentTokens text : List (Token α)) ≠ [] := by
  simp [segmentTokens, QuotePair.split_ne_nil]

theorem reference_eq (hp : p.quotes.OfNames) (name : String) :
    (p.reference name : List (Token α)) = (p.segmentTokens name.toList).intersperse (.symbol .dot) := by
  have hmap (parts : List (List Char)) : (parts.map fun segment => p.segmentToken (Text.trim segment))
      = ((parts.map Text.trim).map p.segmentToken : List (Token α)) := by
    rw [List.map_map]
    rfl
  rw [reference, segmentTokens, hmap, hmap, QuotePair.map_trim_split_trim hp]

/-- The segments of two names with a dot between them are those of the one and then those of the other
exactly when the first name closes its quotes. -/
theorem segmentTokens_append_dot_iff (hp : p.quotes.OfNames) {a b : List Char} :
    (p.segmentTokens (a ++ '.' :: b) : List (Token α)) = p.segmentTokens a ++ p.segmentTokens b
      ↔ p.quotes.Closes a := by
  constructor
  case mpr =>
    intro h
    rw [segmentTokens, QuotePair.split_append_dot hp h, List.map_append]
    rfl
  case mp =>
    intro h
    by_contra hcloses
    obtain ⟨front, last, first, rest, hleft, -, hparts⟩ := QuotePair.exists_split_append_dot (b := b) hp hcloses
    obtain ⟨token, tokens, hb⟩ := List.exists_cons_of_ne_nil (p.segmentTokens_ne_nil b : (_ : List (Token α)) ≠ [])
    rw [hb, segmentTokens, segmentTokens, hparts, hleft, List.map_append, List.map_append, List.append_assoc] at h
    have hglued := (List.cons.inj (List.append_cancel_left h)).1
    -- The segment at the seam has a dot more than the last segment of the first name.
    have hdots := congrArg (List.count '.') (p.segmentToken_injective hglued)
    rw [Text.count_dot_trim, Text.count_dot_trim, List.count_append, List.count_cons_self] at hdots
    omega

end Profile

/-! ## Columns -/

/-- A column whose source and name stay apart in the select list. -/
def Column.KeepsApart (p : Profile) (c : Column) (source : String) : Prop :=
  ∀ context, ((Selection.column c).emit p).run context
    = .ok (p.reference source ++ .symbol .dot :: p.reference c.name ++ aliasTokens p c.aliasName, context)

theorem Column.run_emit {p : Profile} {c : Column} (hname : IsName c.name) (context : Context) :
    ((Selection.column c).emit p).run context
      = .ok (p.reference c.qualifiedName ++ aliasTokens p c.aliasName, context) := by
  have hcheck : checkName .select c.name = .ok () := if_neg (by simpa [IsName] using hname)
  rw [Selection.emit, hcheck]
  rfl

theorem Column.keepsApart_iff {p : Profile} (hp : p.quotes.OfNames) {c : Column} {source : String}
    (hsource : c.source = some source) (hname : IsName c.name) :
    c.KeepsApart p source ↔ p.quotes.Closes source.toList := by
  have hqualified : c.qualifiedName.toList = source.toList ++ '.' :: c.name.toList := by
    simp [Column.qualifiedName, hsource]
  have hreference : (p.reference c.qualifiedName ++ aliasTokens p c.aliasName : List (Token Nat))
        = p.reference source ++ .symbol .dot :: p.reference c.name ++ aliasTokens p c.aliasName
      ↔ p.quotes.Closes source.toList := by
    rw [List.append_cancel_right_eq, Profile.reference_eq hp, Profile.reference_eq hp, Profile.reference_eq hp,
      hqualified, ← intersperse_append _ (p.segmentTokens_ne_nil _) (p.segmentTokens_ne_nil _),
      (intersperse_injective _).eq_iff, Profile.segmentTokens_append_dot_iff hp]
  simp only [KeepsApart, Column.run_emit hname, Except.ok.injEq, Prod.mk.injEq, and_true, hreference]
  exact ⟨fun h => h {}, fun h _ => h⟩

namespace Specification

theorem isName_column (source : Option String) {text : List Char} (h : Text.trim text ≠ []) :
    IsName (column source text).name := by
  rw [isName_iff]
  change Text.trim (String.ofList (InlineAlias.split text).1).toList ≠ []
  rw [String.toList_ofList]
  by_cases hsep : InlineAlias.HasSeparator (Text.trim text)
  · obtain ⟨name, sep, aliasName, hhalves, hsplit⟩ := InlineAlias.split_of_hasSeparator hsep
    rw [hsplit, hhalves.trim_name]
    exact hhalves.name_ne_nil
  · rwa [InlineAlias.split_of_not_hasSeparator hsep, Text.trim_trim]

theorem isName_of_expandBlock {spec : String} {source body : List Char} {items : List Item} {c : Column}
    (h : expandBlock spec source body = .ok items) (hmem : .column c ∈ items) : IsName c.name := by
  unfold expandBlock at h
  dsimp only at h
  split at h
  · cases h
  split at h
  · cases h
  obtain ⟨piece, -, hpiece⟩ := exists_of_mem_mapM h hmem
  unfold entry at hpiece
  dsimp only at hpiece
  split at hpiece
  · cases hpiece
  next hempty =>
    cases hpiece
    apply isName_column
    rw [Text.trim_trim]
    simpa using hempty

/-- The columns of a specification have names. -/
theorem isName_of_expand {spec : String} {items : List Item} {c : Column}
    (h : expand spec = .ok items) (hmem : .column c ∈ items) : IsName c.name := by
  unfold expand at h
  split at h
  · cases h
    simp at hmem
  unfold expandTrimmed at h
  split at h
  · cases h
  next hempty =>
    split at h
    · exact isName_of_expandBlock h hmem
    · split at h
      · cases h
      · cases h
        cases List.mem_singleton.1 hmem
        apply isName_column
        rw [Text.trim_trim]
        simpa using hempty

end Specification

/-- The source and the name of a column stay apart exactly when the source opens no quote that it does
not close, whatever quotes the name has. So it is with each column of a shorthand. -/
theorem Dialect.keepsApart_iff_closes (d : Dialect) {c : Column} {source : String}
    (hsource : c.source = some source)
    (hc : IsName c.name ∨ ∃ spec items, Specification.expand spec = .ok items ∧ .column c ∈ items) :
    c.KeepsApart d.profile source ↔ d.profile.quotes.Closes source.toList := by
  apply Column.keepsApart_iff d.quotes_ofNames hsource
  rcases hc with hname | ⟨spec, items, hitems, hmem⟩
  · exact hname
  · exact Specification.isName_of_expand hitems hmem

/-- A stray quote in the source of a column, and one in the name of an entry of a shorthand. -/
theorem Dialect.keepsApart_iff_closes_strayQuotes :
    ¬(⟨some "odd\"name", "id", none⟩ : Column).KeepsApart Dialect.postgres.profile "odd\"name" ∧
      (⟨some "orders", "i\"d", none⟩ : Column).KeepsApart Dialect.postgres.profile "orders" := by
  have hentry : Specification.expand "orders.\x7bi\"d\x7d" = .ok [.column ⟨some "orders", "i\"d", none⟩] := rfl
  constructor
  · intro hapart
    have hcloses := (Dialect.keepsApart_iff_closes .postgres rfl (.inl (by rfl))).1 hapart
    revert hcloses
    decide
  · apply (Dialect.keepsApart_iff_closes .postgres rfl (.inr ⟨_, _, hentry, List.mem_singleton_self _⟩)).2
    decide

/-- Not every source stays apart: this one and the name become one identifier. -/
theorem Dialect.not_keepsApart_strayQuote :
    ¬∀ (d : Dialect) (source name : String), IsName name →
      (⟨some source, name, none⟩ : Column).KeepsApart d.profile source := by
  intro h
  have hapart := h .postgres "odd\"name" "id" rfl
  have hlength := congrArg List.length (congrArg Prod.fst (Except.ok.inj (hapart {})))
  revert hlength
  decide

end QueryCompiler
