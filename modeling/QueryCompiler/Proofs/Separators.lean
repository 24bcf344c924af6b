-- SUMMARY: A name is split from its alias at the first separator, and nothing but the separator is lost.
import QueryCompiler.Column.InlineAlias
import QueryCompiler.Proofs.Patterns
import QueryCompiler.Proofs.Quoting

/-!
# Separators

A separator is the word `as` between two gaps of blanks, and one text may have
many of them, also overlapping ones. The pattern of inline aliases matches such a
text in many ways. The main result says which one is found: the text is split at the
first separator, with all the blanks around it. Both halves keep what else they have,
so a later separator stays in the alias. A scanner for the first separator stands
between the two: it finds what the preferred match has as its groups.
-/

namespace QueryCompiler

/-! ## Trimmed texts -/

namespace Text

/-- A trimmed text ends with no blank. -/
theorem exists_last_of_trim {cs : List Char} (h : trim cs = cs) (hne : cs ≠ []) :
    ∃ d, cs.getLast? = some d ∧ isBlank d = false := by
  have hback : trimStart (trimStart cs).reverse ≠ [] := by
    intro hnil
    rw [trim, trimEnd, hnil] at h
    exact hne h.symm
  refine ⟨(trimStart (trimStart cs).reverse).head hback, ?_, List.head_dropWhile_not isBlank hback⟩
  conv_lhs => rw [← h]
  rw [trim, trimEnd, List.getLast?_reverse, List.head?_eq_some_head hback]

/-- Two trimmed texts with a character between them. -/
theorem trim_append_cons {a b : List Char} (c : Char) (ha : trim a = a) (ha' : a ≠ []) (hb : trim b = b)
    (hb' : b ≠ []) : trim (a ++ c :: b) = a ++ c :: b := by
  obtain ⟨x, rest, rfl⟩ := List.exists_cons_of_ne_nil ha'
  obtain ⟨y, hy, hyb⟩ := exists_last_of_trim hb hb'
  refine trim_eq_self rfl ?_ (notBlank_of_trim_eq_cons ha) hyb
  rw [List.getLast?_append_of_ne_nil _ (List.cons_ne_nil c b), List.getLast?_cons_of_ne_nil hb', hy]

theorem trimStart_append_cons {a b : List Char} {c : Char} (hc : isBlank c = false) :
    trimStart (a ++ c :: b) = trimStart a ++ c :: b := by
  rw [trimStart, trimStart, List.dropWhile_append]
  split
  next hnil => rw [List.isEmpty_iff.1 hnil, List.dropWhile_cons, if_neg (by simp [hc]), List.nil_append]
  next => rfl

/-- A text that does not end with a blank. -/
def EndsNotBlank (cs : List Char) : Prop :=
  ∀ d, cs.getLast? = some d → isBlank d = false

theorem endsNotBlank_of_trim {cs : List Char} (h : trim cs = cs) : EndsNotBlank cs := by
  intro d hd
  have hne : cs ≠ [] := by
    rintro rfl
    cases hd
  obtain ⟨d', hd', hblank⟩ := exists_last_of_trim h hne
  rw [hd', Option.some.injEq] at hd
  rwa [← hd]

theorem EndsNotBlank.of_suffix {cs rest : List Char} (h : EndsNotBlank cs) (hrest : rest <:+ cs) : EndsNotBlank rest := by
  obtain ⟨front, rfl⟩ := hrest
  intro d hd
  exact h d (by rw [List.getLast?_append, hd, Option.some_or])

/-- Such a text is not all blank. -/
theorem EndsNotBlank.trimStart_ne_nil {cs : List Char} (h : EndsNotBlank cs) (hne : cs ≠ []) : trimStart cs ≠ [] := by
  intro hnil
  have hblank := List.dropWhile_eq_nil_iff.1 hnil _ (List.getLast_mem hne)
  rw [h _ (List.getLast?_eq_some_getLast hne)] at hblank
  cases hblank

end Text

/-! ## Separators -/

namespace InlineAlias

/-- Whether a text starts with a blank. -/
def startsBlank : List Char → Bool
  | [] => false
  | c :: _ => Text.isBlank c

/-- One or more blanks. -/
structure IsGap (blanks : List Char) : Prop where
  ne_nil : blanks ≠ []
  isBlank : ∀ c ∈ blanks, Text.isBlank c = true

/-- The word `as` with blanks on both sides. -/
inductive IsSeparator : List Char → Prop where
  | mk {before behind : List Char} {a s : Char} (hbefore : IsGap before) (ha : isLetterA a = true)
      (hs : isLetterS s = true) (hbehind : IsGap behind) : IsSeparator (before ++ a :: s :: behind)

def HasSeparator (text : List Char) : Prop :=
  ∃ sep, IsSeparator sep ∧ sep <:+: text

/-- Nowhere in the text stands the word `as` between blanks. -/
def HasNoSeparator (text : List Char) : Prop :=
  ∀ before a s behind, Text.isBlank before = true → isLetterA a = true → isLetterS s = true →
    Text.isBlank behind = true → ¬[before, a, s, behind] <:+: text

theorem HasNoSeparator.of_infix {text part : List Char} (h : HasNoSeparator text) (hpart : part <:+: text) :
    HasNoSeparator part :=
  fun _ _ _ _ hbefore ha hs hbehind hword => h _ _ _ _ hbefore ha hs hbehind (hword.trans hpart)

theorem hasNoSeparator_of_notBlank {text : List Char} (h : ∀ c ∈ text, Text.isBlank c = false) :
    HasNoSeparator text := by
  intro before a s behind hbefore _ _ _ hword
  rw [h before (hword.subset List.mem_cons_self)] at hbefore
  cases hbefore

theorem hasNoSeparator_iff {text : List Char} : HasNoSeparator text ↔ ¬HasSeparator text := by
  constructor
  · rintro h ⟨_, ⟨hbefore, ha, hs, hbehind⟩, hsep⟩
    -- The word stands between the last blank before it and the first one behind it.
    obtain ⟨front, before, rfl⟩ := List.eq_nil_or_concat _ |>.resolve_left hbefore.ne_nil
    obtain ⟨behind, back, rfl⟩ := List.exists_cons_of_ne_nil hbehind.ne_nil
    refine h before _ _ behind (hbefore.isBlank _ (by simp)) ha hs (hbehind.isBlank _ (by simp)) ?_
    exact List.IsInfix.trans ⟨front, back, by simp⟩ hsep
  · intro h before a s behind hbefore ha hs hbehind hword
    exact h ⟨_, .mk ⟨List.cons_ne_nil before [], by simpa using hbefore⟩ ha hs
      ⟨List.cons_ne_nil behind [], by simpa using hbehind⟩, hword⟩

theorem startsBlank_append {gap rest : List Char} (h : IsGap gap) : startsBlank (gap ++ rest) = true := by
  obtain ⟨c, gap, rfl⟩ := List.exists_cons_of_ne_nil h.ne_nil
  exact h.isBlank c List.mem_cons_self

theorem IsSeparator.startsBlank_append {sep rest : List Char} (h : IsSeparator sep) :
    startsBlank (sep ++ rest) = true := by
  cases h with
  | mk hbefore ha hs hbehind =>
    simpa only [List.append_assoc] using InlineAlias.startsBlank_append hbefore

theorem IsSeparator.ne_nil {sep : List Char} (h : IsSeparator sep) : sep ≠ [] := by
  rintro rfl
  have hstart : startsBlank ([] ++ []) = true := h.startsBlank_append
  cases hstart

/-- A separator with one blank more before it. -/
theorem IsSeparator.cons {sep : List Char} {c : Char} (hc : Text.isBlank c = true) (h : IsSeparator sep) :
    IsSeparator (c :: sep) := by
  cases h with
  | mk hbefore ha hs hbehind =>
    exact .mk ⟨List.cons_ne_nil c _, List.forall_mem_cons.2 ⟨hc, hbefore.isBlank⟩⟩ ha hs hbehind

/-- The blanks at the start of a text. -/
theorem exists_gap {text : List Char} (h : startsBlank text = true) :
    ∃ gap, IsGap gap ∧ text = gap ++ Text.trimStart text := by
  refine ⟨text.takeWhile Text.isBlank, ⟨?_, fun c hc => List.mem_takeWhile_imp hc⟩,
    List.takeWhile_append_dropWhile.symm⟩
  cases text with
  | nil => cases h
  | cons c text =>
    have hc : Text.isBlank c = true := h
    simp [hc]

/-- A blank before the first word of a text. -/
theorem exists_blank_before {text word : List Char} (hstart : startsBlank text = true)
    (h : Text.trimStart text = word) :
    ∃ front blank, Text.isBlank blank = true ∧ text = front ++ blank :: word := by
  obtain ⟨gap, hgap, htext⟩ := exists_gap hstart
  obtain ⟨front, blank, rfl⟩ := List.eq_nil_or_concat gap |>.resolve_left hgap.ne_nil
  exact ⟨front, blank, hgap.isBlank blank (by simp), by simpa [h] using htext⟩

theorem startsBlank_trimStart (text : List Char) : startsBlank (Text.trimStart text) = false := by
  induction text with
  | nil => rfl
  | cons c text ih =>
    by_cases hc : Text.isBlank c = true
    · simpa [Text.trimStart, hc] using ih
    · simp [Text.trimStart, startsBlank, hc]

/-! ## The separator at the start of a text -/

/-- What follows the separator at the start of a text. -/
def afterSeparator? (cs : List Char) : Option (List Char) :=
  if startsBlank cs then
    match Text.trimStart cs with
    | a :: s :: rest =>
      if isLetterA a && isLetterS s && startsBlank rest then some (Text.trimStart rest) else none
    | _ => none
  else none

theorem afterSeparator?_append {sep rest : List Char} (h : IsSeparator sep) :
    afterSeparator? (sep ++ rest) = some (Text.trimStart rest) := by
  have hstart : startsBlank (sep ++ rest) = true := h.startsBlank_append
  cases h with
  | @mk before behind a s hbefore ha hs hbehind =>
    have hletter : Text.isBlank a = false := by
      rcases (by simpa [isLetterA] using ha : a = 'a' ∨ a = 'A') with rfl | rfl <;> decide
    have hword : Text.trimStart ((before ++ a :: s :: behind) ++ rest) = a :: s :: (behind ++ rest) := by
      simp [Text.trimStart, List.dropWhile_append_of_pos hbefore.isBlank, hletter]
    have hback : Text.trimStart (behind ++ rest) = Text.trimStart rest :=
      List.dropWhile_append_of_pos hbehind.isBlank
    rw [afterSeparator?, if_pos hstart, hword]
    simp [ha, hs, startsBlank_append hbehind, hback]

theorem afterSeparator?_eq_some {text aliasName : List Char} (h : afterSeparator? text = some aliasName) :
    ∃ sep, IsSeparator sep ∧ text = sep ++ aliasName ∧ startsBlank aliasName = false := by
  unfold afterSeparator? at h
  split at h
  case isFalse => cases h
  case isTrue hstart =>
    obtain ⟨before, hbefore, htext⟩ := exists_gap hstart
    split at h
    next a s rest hword =>
      split at h
      next hletters =>
        cases h
        simp only [Bool.and_eq_true] at hletters
        obtain ⟨behind, hbehind, hrest⟩ := exists_gap hletters.2
        refine ⟨_, .mk hbefore hletters.1.1 hletters.1.2 hbehind, ?_, startsBlank_trimStart rest⟩
        calc text = before ++ a :: s :: rest := hword ▸ htext
          _ = before ++ a :: s :: (behind ++ Text.trimStart rest) := by rw [← hrest]
          _ = before ++ a :: s :: behind ++ Text.trimStart rest := by simp
      · cases h
    · cases h

/-! ## The first separator -/

/-- The text before and the text after the first separator. -/
def cut? : List Char → Option (List Char × List Char)
  | [] => none
  | c :: rest =>
    match afterSeparator? (c :: rest) with
    | some aliasName => some ([], aliasName)
    | none => (cut? rest).map fun cut => (c :: cut.1, cut.2)

/-- The text is cut at its first separator: none starts before it, and the alias takes no blank from it. -/
structure IsCut (text name sep aliasName : List Char) : Prop where
  text_eq : text = name ++ sep ++ aliasName
  isSeparator : IsSeparator sep
  first : ∀ front sep' behind, IsSeparator sep' → text = front ++ sep' ++ behind → name.length ≤ front.length
  alias_notBlank : startsBlank aliasName = false

@[simp] theorem cut?_nil : cut? [] = none := rfl

/-- Where a separator starts, a text is cut. -/
theorem cut?_cons_of_some {c : Char} {rest aliasName : List Char}
    (h : afterSeparator? (c :: rest) = some aliasName) : cut? (c :: rest) = some ([], aliasName) := by
  conv_lhs => unfold cut?
  rw [h]

/-- Where no separator starts, a text is cut further on. -/
theorem cut?_cons {c : Char} {rest : List Char} (h : afterSeparator? (c :: rest) = none) :
    cut? (c :: rest) = (cut? rest).map fun cut => (c :: cut.1, cut.2) := by
  conv_lhs => unfold cut?
  rw [h]

theorem isCut_of_cut? {text name aliasName : List Char} (h : cut? text = some (name, aliasName)) :
    ∃ sep, IsCut text name sep aliasName := by
  induction text generalizing name with
  | nil => simp at h
  | cons c text ih =>
    cases hstart : afterSeparator? (c :: text) with
    | some found =>
      rw [cut?_cons_of_some hstart] at h
      cases h
      obtain ⟨sep, hsep, htext, hblank⟩ := afterSeparator?_eq_some hstart
      exact ⟨sep, htext, hsep, fun _ _ _ _ _ => Nat.zero_le _, hblank⟩
    | none =>
      rw [cut?_cons hstart, Option.map_eq_some_iff] at h
      obtain ⟨⟨rest, _⟩, hrest, hname⟩ := h
      cases hname
      obtain ⟨sep, hcut⟩ := ih hrest
      refine ⟨sep, by rw [hcut.text_eq]; rfl, hcut.isSeparator, ?_, hcut.alias_notBlank⟩
      intro front sep' behind hsep' htext
      cases front with
      | nil =>
        -- No separator is at the start of the text.
        rw [htext, List.nil_append, afterSeparator?_append hsep'] at hstart
        cases hstart
      | cons d front =>
        have htext := (List.cons_eq_cons.1 htext).2
        exact Nat.succ_le_succ (hcut.first front sep' behind hsep' htext)

theorem isSome_cut? {text : List Char} (h : HasSeparator text) : (cut? text).isSome = true := by
  induction text with
  | nil =>
    obtain ⟨sep, hsep, hinfix⟩ := h
    exact absurd (List.infix_nil.1 hinfix) hsep.ne_nil
  | cons c text ih =>
    cases hstart : afterSeparator? (c :: text) with
    | some found => simp [cut?_cons_of_some hstart]
    | none =>
      simp only [cut?_cons hstart, Option.isSome_map]
      obtain ⟨sep, hsep, hinfix⟩ := h
      rcases List.infix_cons_iff.1 hinfix with ⟨behind, htext⟩ | htail
      · rw [← htext, afterSeparator?_append hsep] at hstart
        cases hstart
      · exact ih ⟨sep, hsep, htail⟩

theorem isSome_cut?_iff {text : List Char} : (cut? text).isSome = true ↔ HasSeparator text := by
  constructor
  · intro h
    obtain ⟨⟨name, aliasName⟩, hcut⟩ := Option.isSome_iff_exists.1 h
    obtain ⟨sep, hcut⟩ := isCut_of_cut? hcut
    exact ⟨sep, hcut.isSeparator, name, aliasName, hcut.text_eq.symm⟩
  · exact isSome_cut?

instance (text : List Char) : Decidable (HasSeparator text) :=
  decidable_of_iff _ isSome_cut?_iff

/-! ## Halves -/

/-- A name and an alias, with the first separator of the text between them. -/
structure IsHalves (text name sep aliasName : List Char) : Prop extends IsCut text name sep aliasName where
  name_ne_nil : name ≠ []
  trim_name : Text.trim name = name
  alias_ne_nil : aliasName ≠ []
  trim_alias : Text.trim aliasName = aliasName
  name_separator : ¬HasSeparator name

section

variable {text name sep aliasName : List Char}

theorem startsBlank_of_trim (h : Text.trim text = text) : startsBlank text = false := by
  cases text with
  | nil => rfl
  | cons c text => exact Text.notBlank_of_trim_eq_cons h

theorem trim_eq_of_ends (hne : text ≠ []) (hstart : startsBlank text = false)
    (hend : ∀ front d, text = front ++ [d] → Text.isBlank d = false) : Text.trim text = text := by
  obtain ⟨c, rest, rfl⟩ := List.exists_cons_of_ne_nil hne
  have hlast := (List.dropLast_concat_getLast hne).symm
  exact Text.trim_eq_self rfl (List.getLast?_eq_some_getLast hne) hstart (hend _ _ hlast)

theorem IsSeparator.getLast (h : IsSeparator sep) : ∃ front d, sep = front ++ [d] ∧ Text.isBlank d = true := by
  cases h with
  | @mk before behind a s hbefore ha hs hbehind =>
    obtain ⟨front, d, rfl⟩ := List.eq_nil_or_concat behind |>.resolve_left hbehind.ne_nil
    exact ⟨before ++ a :: s :: front, d, by simp, hbehind.isBlank d (by simp)⟩

theorem IsCut.not_hasSeparator (h : IsCut text name sep aliasName) : ¬HasSeparator name := by
  rintro ⟨sep', hsep', front, behind, hname⟩
  have hfirst := h.first front sep' (behind ++ sep ++ aliasName) hsep' (by rw [h.text_eq, ← hname]; simp)
  have hlength := congrArg List.length hname
  have hpos := List.length_pos_of_ne_nil hsep'.ne_nil
  simp only [List.length_append] at hlength
  omega

/-- The halves of a trimmed text are trimmed, too. -/
theorem IsCut.isHalves (h : IsCut text name sep aliasName) (htext : Text.trim text = text) :
    IsHalves text name sep aliasName := by
  have hstart : startsBlank text = false := startsBlank_of_trim htext
  have hne : text ≠ [] := by
    rw [h.text_eq]
    simp [h.isSeparator.ne_nil]
  obtain ⟨d, hd, hdb⟩ := Text.exists_last_of_trim htext hne
  have hname : name ≠ [] := by
    rintro rfl
    rw [h.text_eq, List.nil_append, h.isSeparator.startsBlank_append] at hstart
    cases hstart
  have halias : aliasName ≠ [] := by
    rintro rfl
    obtain ⟨front, blank, hsep, hblank⟩ := h.isSeparator.getLast
    rw [h.text_eq, hsep, List.append_nil, ← List.append_assoc, List.getLast?_concat, Option.some.injEq] at hd
    rw [← hd, hblank] at hdb
    cases hdb
  refine { h with
    name_ne_nil := hname, trim_name := ?_, alias_ne_nil := halias, trim_alias := ?_,
    name_separator := h.not_hasSeparator }
  · obtain ⟨c, rest, rfl⟩ := List.exists_cons_of_ne_nil hname
    refine trim_eq_of_ends hname (by rw [h.text_eq] at hstart; exact hstart) fun front blank hend => ?_
    -- A blank at the end of the name would belong to the separator.
    by_contra hblank
    have hsep : IsSeparator (blank :: sep) := h.isSeparator.cons (by simpa using hblank)
    have hfirst := h.first front _ aliasName hsep (by rw [h.text_eq, hend]; simp)
    simp only [hend, List.length_append, List.length_singleton] at hfirst
    omega
  · refine trim_eq_of_ends halias h.alias_notBlank fun front last hend => ?_
    rw [h.text_eq, hend, ← List.append_assoc, List.getLast?_concat, Option.some.injEq] at hd
    rwa [hd]

/-! ## The preferred match -/

/-- What follows a name in the pattern. -/
def separatorPattern : Text.Pattern :=
  [.many 1 true Text.isBlank, .one isLetterA, .one isLetterS, .many 1 true Text.isBlank,
    .group (.many 1 true Text.anyChar), .finish]

theorem one_le_length_gap {text : List Char} :
    1 ≤ (text.takeWhile Text.isBlank).length ↔ startsBlank text = true := by
  cases text with
  | nil => simp [startsBlank]
  | cons c rest => by_cases hc : Text.isBlank c = true <;> simp [startsBlank, hc]

/-- The blanks before an alias take all that they can, since a character that is no blank is left for the alias. -/
theorem first_aliasName (h : Text.EndsNotBlank text) :
    Text.Pattern.first [.many 1 true Text.isBlank, .group (.many 1 true Text.anyChar), .finish] false text
      = if startsBlank text then some [Text.trimStart text] else none := by
  split
  next hstart =>
    have hne : text ≠ [] := by
      rintro rfl
      cases hstart
    exact Text.Pattern.first_greedy_of_some (one_le_length_gap.2 hstart)
      (Text.Pattern.first_all (List.length_pos_of_ne_nil (h.trimStart_ne_nil hne)))
  next hstart =>
    apply Text.Pattern.first_many_eq_none
    rwa [← Nat.not_le, one_le_length_gap]

theorem first_separatorPattern (h : Text.EndsNotBlank text) :
    Text.Pattern.first separatorPattern false text = (afterSeparator? text).map ([·]) := by
  -- A blank is no letter, so the blanks before the word are taken, too.
  have hgap (c : Char) (rest : List Char) (hc : Text.isBlank c = true) :
      Text.Pattern.first separatorPattern.tail false (c :: rest) = none := by
    rw [separatorPattern, List.tail_cons, Text.Pattern.first_one]
    refine if_neg fun ha => ?_
    rcases (by simpa [isLetterA] using ha : c = 'a' ∨ c = 'A') with rfl | rfl <;> cases hc
  have hfirst : Text.Pattern.first separatorPattern false text = _ := Text.Pattern.first_greedy hgap
  simp only [hfirst, one_le_length_gap, afterSeparator?]
  split
  case isFalse => rfl
  case isTrue =>
    have hword : Text.EndsNotBlank (Text.trimStart text) := h.of_suffix (List.dropWhile_suffix _)
    change Text.Pattern.first separatorPattern.tail false (Text.trimStart text) = _
    rw [separatorPattern, List.tail_cons, Text.Pattern.first_one]
    rcases hletters : Text.trimStart text with _ | ⟨a, _ | ⟨s, rest⟩⟩
    · rfl
    · simp [Text.Pattern.first_one]
    · have hrest : Text.EndsNotBlank rest := hword.of_suffix ⟨[a, s], hletters.symm⟩
      simp only [Text.Pattern.first_one, first_aliasName hrest]
      cases isLetterA a <;> cases isLetterS s <;> cases startsBlank rest <;> rfl

theorem before?_separatorPattern (h : Text.EndsNotBlank text) :
    Text.Pattern.before? separatorPattern text = (cut? text).map fun cut => (cut.1, [cut.2]) := by
  induction text with
  | nil => rfl
  | cons c rest ih =>
    have hrest := ih (h.of_suffix (List.suffix_cons c rest))
    rw [Text.Pattern.before?, first_separatorPattern h, hrest]
    cases hstart : afterSeparator? (c :: rest) with
    | some aliasName =>
      rw [cut?_cons_of_some hstart]
      rfl
    | none =>
      rw [cut?_cons hstart]
      simp [Function.comp_def]

/-- The groups of the match are the text before and the text behind the first separator. -/
theorem captures?_pattern (h : Text.trim text = text) :
    pattern.captures? text = (cut? text).map fun cut => [cut.1, cut.2] := by
  cases text with
  | nil => rfl
  | cons c rest =>
    have hstart : afterSeparator? (c :: rest) = none := by
      rw [afterSeparator?, startsBlank_of_trim h, if_neg Bool.false_ne_true]
    have hrest := (Text.endsNotBlank_of_trim h).of_suffix (List.suffix_cons c rest)
    change Text.Pattern.captures? (.start :: .group (.many 1 false Text.anyChar) :: separatorPattern) (c :: rest) = _
    rw [Text.Pattern.captures?_start, Text.Pattern.first_lazy_one, before?_separatorPattern hrest, cut?_cons hstart,
      Option.map_map, Option.map_map]
    rfl

/-- Around the separator of a trimmed text nothing is left to trim. -/
theorem exists_halves_of_cut? {cut : List Char × List Char} (h : cut? (Text.trim text) = some cut) :
    (∃ sep, IsHalves (Text.trim text) cut.1 sep cut.2) ∧ split text = (cut.1, some cut.2) := by
  obtain ⟨sep, hcut⟩ := isCut_of_cut? h
  have hhalves := hcut.isHalves (Text.trim_trim text)
  refine ⟨⟨sep, hhalves⟩, ?_⟩
  simp only [split, captures?_pattern (Text.trim_trim text), h, Option.map_some, hhalves.trim_name, hhalves.trim_alias]

/-- The halves of a text are what the scanner finds. -/
theorem split_eq (text : List Char) :
    split text = match cut? (Text.trim text) with
      | some cut => (cut.1, some cut.2)
      | none => (Text.trim text, none) := by
  cases hcut : cut? (Text.trim text) with
  | some cut => exact (exists_halves_of_cut? hcut).2
  | none => simp only [split, captures?_pattern (Text.trim_trim text), hcut, Option.map_none]

theorem split_of_hasSeparator (h : HasSeparator (Text.trim text)) :
    ∃ name sep aliasName, IsHalves (Text.trim text) name sep aliasName ∧ split text = (name, some aliasName) := by
  obtain ⟨cut, hcut⟩ := Option.isSome_iff_exists.1 (isSome_cut? h)
  obtain ⟨⟨sep, hhalves⟩, hsplit⟩ := exists_halves_of_cut? hcut
  exact ⟨cut.1, sep, cut.2, hhalves, hsplit⟩

theorem split_of_not_hasSeparator (h : ¬HasSeparator (Text.trim text)) : split text = (Text.trim text, none) := by
  have hcut : cut? (Text.trim text) = none := by
    rwa [← isSome_cut?_iff, Option.not_isSome_iff_eq_none] at h
  rw [split_eq, hcut]

end

/-- The trimmed text is split at its first separator, which takes all the blanks around it, and the halves are the
text before it and the text behind it. Both are trimmed and not empty, and the name has no separator. A text without
a separator is a name without an alias. -/
theorem splitText_separator (spec : String) :
    (HasSeparator (Text.trim spec.toList) →
      ∃ name sep aliasName, IsHalves (Text.trim spec.toList) name sep aliasName ∧
        splitText spec = (String.ofList name, some (String.ofList aliasName))) ∧
      (¬HasSeparator (Text.trim spec.toList) → splitText spec = (Text.trimmed spec, none)) := by
  constructor
  · intro h
    obtain ⟨name, sep, aliasName, hhalves, hsplit⟩ := split_of_hasSeparator h
    exact ⟨name, sep, aliasName, hhalves, by rw [splitText, hsplit]; rfl⟩
  · intro h
    simp only [splitText, split_of_not_hasSeparator h, Option.map_none, Text.trimmed]

/-- Separators that overlap and a long `s`, and the word `as` at both ends. -/
theorem splitText_separator_overlapping :
    (∃ name sep aliasName, IsHalves (Text.trim "\u2003as \n as as aſ y ".toList) name sep aliasName ∧
        splitText "\u2003as \n as as aſ y " = (String.ofList name, some (String.ofList aliasName))) ∧
      splitText "\u2003as \n as as aſ y " = ("as", some "as aſ y") ∧
      splitText "\u2003as basic as " = ("as basic as", none) :=
  ⟨(splitText_separator "\u2003as \n as as aſ y ").1 (by decide), by decide,
    (splitText_separator "\u2003as basic as ").2 (by decide)⟩

end InlineAlias

end QueryCompiler
