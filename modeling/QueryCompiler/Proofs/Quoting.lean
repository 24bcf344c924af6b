-- SUMMARY: Quoting a name gives well-formed segments that split again where they were joined, and quoting twice is quoting once.
import Mathlib.Data.List.Forall2
import Mathlib.Data.List.TakeWhile
import QueryCompiler.Dialect.Basic
import QueryCompiler.Identifier.Reference
import QueryCompiler.Proofs.Lexing

/-!
# Quoting

A name is split at its dots by a reader who keeps track of quotes, and the
segments are quoted one by one. The reader can be misled by a quote character in
an unquoted segment, so the segments may not be the ones that were meant. But
what is written is always well formed: a reader of the written name finds the
same segments again, and quoting it once more changes nothing.
-/

namespace QueryCompiler

/-! ## Trimming -/

namespace Text

variable {cs blanks : List Char}

theorem trim_append_left (h : ∀ c ∈ blanks, isBlank c = true) : trim (blanks ++ cs) = trim cs := by
  rw [trim, trimStart, List.dropWhile_append_of_pos h]
  rfl

theorem trim_append_right (h : ∀ c ∈ blanks, isBlank c = true) : trim (cs ++ blanks) = trim cs := by
  rw [trim, trimStart, List.dropWhile_append]
  split
  next hcs =>
    -- There are only blanks, so nothing is left on either side.
    have hrest : blanks.dropWhile isBlank = [] := List.dropWhile_eq_nil_iff.2 h
    rw [hrest, trim, trimStart, List.isEmpty_iff.1 hcs]
  next =>
    rw [trimEnd, List.reverse_append, trimStart,
      List.dropWhile_append_of_pos (by simpa only [List.mem_reverse] using h)]
    rfl

/-- A text is its trimmed text with blanks around it. -/
theorem exists_blanks (cs : List Char) :
    ∃ before behind, (∀ c ∈ before, isBlank c = true) ∧ (∀ c ∈ behind, isBlank c = true) ∧
      cs = before ++ trim cs ++ behind := by
  refine ⟨cs.takeWhile isBlank, ((trimStart cs).reverse.takeWhile isBlank).reverse, ?_, ?_, ?_⟩
  · intro c hc
    exact List.mem_takeWhile_imp hc
  · intro c hc
    exact List.mem_takeWhile_imp (List.mem_reverse.1 hc)
  · have hend : trim cs ++ ((trimStart cs).reverse.takeWhile isBlank).reverse = trimStart cs := by
      have hback : (trimStart cs).reverse.takeWhile isBlank ++ trimStart (trimStart cs).reverse = (trimStart cs).reverse :=
        List.takeWhile_append_dropWhile
      rw [trim, trimEnd, ← List.reverse_append, hback, List.reverse_reverse]
    rw [List.append_assoc, hend]
    exact List.takeWhile_append_dropWhile.symm

theorem dot_notMem_of_blank (h : ∀ c ∈ blanks, isBlank c = true) : '.' ∉ blanks := by
  intro hmem
  have hdot : isBlank '.' = false := by decide
  rw [h _ hmem] at hdot
  cases hdot

/-- A text that starts and ends with no blank is not trimmed. -/
theorem trim_eq_self {c d : Char} (hc : cs.head? = some c) (hd : cs.getLast? = some d)
    (hcb : isBlank c = false) (hdb : isBlank d = false) : trim cs = cs := by
  have hkeep {ds : List Char} {e : Char} (he : ds.head? = some e) (heb : isBlank e = false) :
      trimStart ds = ds := by
    obtain ⟨rest, rfl⟩ := List.head?_eq_some_iff.1 he
    rw [trimStart, List.dropWhile_cons, if_neg (by simp [heb])]
  rw [trim, hkeep hc hcb, trimEnd, hkeep (by rwa [List.head?_reverse]) hdb, List.reverse_reverse]

theorem trim_trim (cs : List Char) : trim (trim cs) = trim cs := by
  obtain ⟨before, behind, hbefore, hbehind, hcs⟩ := exists_blanks cs
  calc trim (trim cs) = trim (before ++ trim cs) := (trim_append_left hbefore).symm
    _ = trim (before ++ trim cs ++ behind) := (trim_append_right hbehind).symm
    _ = trim cs := by rw [← hcs]

theorem length_trim_le (cs : List Char) : (trim cs).length ≤ cs.length := by
  obtain ⟨before, behind, -, -, hcs⟩ := exists_blanks cs
  conv_rhs => rw [hcs]
  rw [List.length_append, List.length_append]
  omega

theorem forall_mem_trimStart {cs : List Char} :
    (∀ c ∈ trimStart cs, isBlank c = true) ↔ ∀ c ∈ cs, isBlank c = true := by
  induction cs with
  | nil => exact Iff.rfl
  | cons c rest ih =>
    unfold trimStart at ih ⊢
    rw [List.dropWhile_cons]
    split
    next hc => rw [ih, List.forall_mem_cons, and_iff_right hc]
    next => exact Iff.rfl

theorem trim_eq_nil_iff {cs : List Char} : trim cs = [] ↔ ∀ c ∈ cs, isBlank c = true := by
  have hend : trim cs = [] ↔ ∀ c ∈ (trimStart cs).reverse, isBlank c = true := by
    simp only [trim, trimEnd, List.reverse_eq_nil_iff, trimStart, List.dropWhile_eq_nil_iff]
  simp only [hend, List.mem_reverse]
  exact forall_mem_trimStart

/-- A trimmed text starts with no blank. -/
theorem notBlank_of_trim_eq_cons {cs rest : List Char} {c : Char} (h : trim cs = c :: rest) :
    isBlank c = false := by
  by_contra hblank
  have hone : ∀ d ∈ [c], isBlank d = true := by simpa using hblank
  -- Trimming what is trimmed would take the blank away.
  have hshorter : c :: rest = trim rest :=
    calc c :: rest = trim (c :: rest) := by rw [← h, trim_trim]
      _ = trim rest := trim_append_left hone
  have hlength := length_trim_le rest
  rw [← hshorter, List.length_cons] at hlength
  omega

end Text

/-! ## Quotes of names -/

/-- Quotes that are not taken for another part of a name. -/
structure QuotePair.OfNames (q : QuotePair) : Prop where
  opening_ne_dot : q.opening ≠ '.'
  closing_ne_dot : q.closing ≠ '.'
  opening_ne_star : q.opening ≠ '*'
  opening_notBlank : Text.isBlank q.opening = false
  closing_notBlank : Text.isBlank q.closing = false

theorem Dialect.quotes_ofNames (d : Dialect) : d.profile.quotes.OfNames := by
  cases d <;> constructor <;> decide

namespace QuotePair

variable {q : QuotePair} {p : Position} {name text a b : List Char}

/-! ## Reading on -/

/-- Where a reader who stands at `p` stands behind a text. -/
def after (q : QuotePair) (p : Position) (text : List Char) : Position :=
  text.foldl q.step p

/-- A text that opens no quote without closing it, as the reader sees it. -/
def Closes (q : QuotePair) (text : List Char) : Prop :=
  q.after .outside text ≠ .inside

instance (text : List Char) : Decidable (q.Closes text) :=
  inferInstanceAs (Decidable (_ ≠ _))

theorem after_cons (c : Char) : q.after p (c :: text) = q.after (q.step p c) text := rfl

theorem after_append : q.after p (a ++ b) = q.after (q.after p a) b :=
  List.foldl_append

/-- Without an opening quote the reader stays outside. -/
theorem after_outside_of_notMem (h : q.opening ∉ text) : q.after .outside text = .outside := by
  induction text with
  | nil => rfl
  | cons c text ih =>
    rw [List.mem_cons, not_or] at h
    rw [after_cons, step, if_neg (Ne.symm h.1), ih h.2]

/-- So every text without quotes closes what it opens. -/
theorem closes_of_notMem (h : q.opening ∉ text) : q.Closes text := by
  rw [Closes, after_outside_of_notMem h]
  simp

theorem after_inside_escape : q.after .inside (q.escape name) = .inside := by
  induction name with
  | nil => rfl
  | cons c name ih =>
    -- A doubled quote takes the reader out of the quotes and in again.
    rw [escape_cons, after_append]
    split
    next hc => simpa [after, step, hc] using ih
    next hc => simpa [after, step, hc] using ih

theorem after_quote : q.after .outside (q.quote name) = .afterClosing := by
  rw [quote, List.cons_append, after_cons, step, if_pos rfl, after_append, after_inside_escape]
  simp [after, step]

/-! ## Splitting -/

/-- The parts of a text of two halves: the last part of the first half goes on in the second half. -/
theorem splitFrom_append (q : QuotePair) (p : Position) (a b : List Char) :
    ∃ front last first rest, q.splitFrom p a = front ++ [last] ∧ q.splitFrom (q.after p a) b = first :: rest ∧
      q.splitFrom p (a ++ b) = front ++ (last ++ first) :: rest := by
  -- The second half is read from where the reader stands behind the first one.
  induction a generalizing p with
  | nil =>
    obtain ⟨first, rest, hparts⟩ := List.exists_cons_of_ne_nil (splitFrom_ne_nil q p b)
    exact ⟨[], [], first, rest, rfl, hparts, hparts⟩
  | cons c a ih =>
    obtain ⟨front, last, first, rest, ha, hb, hab⟩ := ih (q.step p c)
    rw [after_cons, List.cons_append, splitFrom, splitFrom, ha, hab]
    split
    · exact ⟨[] :: front, last, first, rest, rfl, hb, rfl⟩
    · cases front with
      | nil => exact ⟨[], c :: last, first, rest, rfl, hb, rfl⟩
      | cons part front => exact ⟨(c :: part) :: front, last, first, rest, rfl, hb, rfl⟩

/-- Text without dots is one part, wherever the reader stands. -/
theorem splitFrom_of_notMem (h : '.' ∉ text) : q.splitFrom p text = [text] := by
  induction text generalizing p with
  | nil => rfl
  | cons c text ih =>
    rw [List.mem_cons, not_or] at h
    rw [splitFrom, if_neg (fun hdot => h.1 hdot.1.symm), ih h.2]
    rfl

/-- Text inside quotes is one part, together with the closing quote. -/
theorem splitFrom_inside_escape :
    q.splitFrom .inside (q.escape name ++ [q.closing]) = [q.escape name ++ [q.closing]] := by
  induction name with
  | nil => simp [splitFrom, step, consFirst]
  | cons c name ih =>
    rw [escape_cons]
    split
    next hc => simp [splitFrom, step, hc, ih, consFirst]
    next hc => simp [splitFrom, step, hc, ih, consFirst]

/-- A quoted name is one segment, whatever characters the name has. -/
theorem split_quote (q : QuotePair) (name : List Char) : q.split (q.quote name) = [q.quote name] := by
  have hopening : q.step .outside q.opening = .inside := if_pos rfl
  rw [quote, List.cons_append, split, splitFrom, hopening, if_neg (by simp), splitFrom_inside_escape]
  rfl

/-- A dot behind this text is outside quotes. -/
def SplitsBehind (q : QuotePair) (text : List Char) : Prop :=
  q.step (q.after .outside text) '.' = .outside

instance (text : List Char) : Decidable (q.SplitsBehind text) :=
  inferInstanceAs (Decidable (_ = _))

/-- A name is split at every dot outside quotes. -/
theorem split_append_of_splitsBehind (h : q.SplitsBehind a) : q.split (a ++ '.' :: b) = q.split a ++ q.split b := by
  obtain ⟨front, last, first, rest, hleft, hright, hparts⟩ := splitFrom_append q .outside a ('.' :: b)
  rw [splitFrom, h, if_pos ⟨rfl, rfl⟩, List.cons.injEq] at hright
  obtain ⟨rfl, rfl⟩ := hright
  rw [split, split, hparts, hleft]
  simp [split]

theorem Closes.splitsBehind (hq : q.OfNames) (h : q.Closes a) : q.SplitsBehind a := by
  unfold Closes at h
  unfold SplitsBehind
  cases hp : q.after .outside a with
  | outside => exact if_neg (Ne.symm hq.opening_ne_dot)
  | inside => exact absurd hp h
  | afterClosing => rw [step, if_neg (Ne.symm hq.closing_ne_dot), if_neg (Ne.symm hq.opening_ne_dot)]

/-- A name that closes its quotes is split at the dot behind it. -/
theorem split_append_dot (hq : q.OfNames) (ha : q.Closes a) :
    q.split (a ++ '.' :: b) = q.split a ++ q.split b :=
  split_append_of_splitsBehind (ha.splitsBehind hq)

/-- Segments are found again when each is one and closes its quotes. -/
theorem split_intercalate (hq : q.OfNames) {segments : List (List Char)} (hne : segments ≠ [])
    (h : ∀ segment ∈ segments, q.split segment = [segment] ∧ q.Closes segment) :
    q.split (List.intercalate ['.'] segments) = segments := by
  induction segments with
  | nil => exact absurd rfl hne
  | cons segment segments ih =>
    rw [List.forall_mem_cons] at h
    obtain ⟨⟨hsegment, hcloses⟩, hsegments⟩ := h
    cases segments with
    | nil => rw [List.intercalate_singleton, hsegment]
    | cons next segments =>
      rw [List.intercalate_cons_cons, List.append_assoc, List.singleton_append,
        split_append_dot hq hcloses, hsegment, ih (by simp) hsegments]
      rfl

/-! ## Splitting and blanks -/

theorem after_outside_of_blank (hq : q.OfNames) (h : ∀ c ∈ text, Text.isBlank c = true) :
    q.after .outside text = .outside := by
  refine after_outside_of_notMem fun hmem => ?_
  have hopening := h _ hmem
  rw [hq.opening_notBlank] at hopening
  cases hopening

theorem map_trim_split_append_left (hq : q.OfNames) (h : ∀ c ∈ a, Text.isBlank c = true) :
    (q.split (a ++ b)).map Text.trim = (q.split b).map Text.trim := by
  obtain ⟨front, last, first, rest, hleft, hright, hparts⟩ := splitFrom_append q .outside a b
  rw [splitFrom_of_notMem (Text.dot_notMem_of_blank h)] at hleft
  obtain ⟨rfl, hlast⟩ : [] = front ∧ [a] = [last] := List.append_inj' hleft rfl
  obtain rfl : a = last := List.singleton_inj.1 hlast
  rw [after_outside_of_blank hq h] at hright
  rw [split, split, hparts, hright, List.nil_append, List.map_cons, List.map_cons, Text.trim_append_left h]

theorem map_trim_split_append_right (h : ∀ c ∈ b, Text.isBlank c = true) :
    (q.split (a ++ b)).map Text.trim = (q.split a).map Text.trim := by
  obtain ⟨front, last, first, rest, hleft, hright, hparts⟩ := splitFrom_append q .outside a b
  rw [splitFrom_of_notMem (Text.dot_notMem_of_blank h), List.cons.injEq] at hright
  obtain ⟨rfl, rfl⟩ := hright
  rw [split, split, hparts, hleft, List.map_append, List.map_append, List.map_singleton, List.map_singleton,
    Text.trim_append_right h]

/-- Blanks around a name are blanks around its segments. -/
theorem map_trim_split_trim (hq : q.OfNames) (text : List Char) :
    (q.split (Text.trim text)).map Text.trim = (q.split text).map Text.trim := by
  obtain ⟨before, behind, hbefore, hbehind, htext⟩ := Text.exists_blanks text
  calc (q.split (Text.trim text)).map Text.trim
      = (q.split (before ++ Text.trim text)).map Text.trim := (map_trim_split_append_left hq hbefore).symm
    _ = (q.split (before ++ Text.trim text ++ behind)).map Text.trim := (map_trim_split_append_right hbehind).symm
    _ = (q.split text).map Text.trim := by rw [← htext]

/-! ## Written segments -/

theorem allDoubled_escape (q : QuotePair) (name : List Char) : q.allDoubled (q.escape name) = true := by
  induction name with
  | nil => rfl
  | cons c name ih =>
    rw [escape_cons]
    split
    next hc => simp [allDoubled, hc, ih]
    next hc =>
      rw [List.singleton_append]
      cases hrest : q.escape name with
      | nil => simp [allDoubled, hc]
      | cons d rest =>
        rw [hrest] at ih
        rw [allDoubled, if_neg hc, ih]

theorem isQuoted_quote (q : QuotePair) (name : List Char) : q.isQuoted (q.quote name) = true := by
  have hinner : q.inner? (q.quote name) = some (q.escape name) := by
    rw [quote, List.cons_append, inner?, if_pos ⟨rfl, List.getLast?_concat⟩, List.dropLast_concat]
  rw [isQuoted, hinner]
  exact allDoubled_escape q name

theorem quote_ne_star : q.quote name ≠ ['*'] := by
  intro h
  have hlength := congrArg List.length h
  simp [quote] at hlength

/-- What is written for a segment of a name: a star and a quoted identifier as they are, everything
else in quotes. -/
inductive Writes (q : QuotePair) : List Char → List Char → Prop where
  | star : q.Writes ['*'] ['*']
  | quoted (name : List Char) : q.Writes (q.quote name) (q.quote name)
  | plain {segment : List Char} (hstar : segment ≠ ['*']) (h : q.isQuoted segment = false) :
      q.Writes segment (q.quote segment)

namespace Writes

variable {segment written : List Char}

theorem again (h : q.Writes segment written) : q.Writes written written := by
  cases h with
  | star => exact .star
  | quoted name => exact .quoted name
  | plain => exact .quoted segment

theorem split_eq (h : q.Writes segment written) : q.split written = [written] := by
  cases h with
  | star => exact splitFrom_of_notMem (by decide)
  | quoted name => exact split_quote q name
  | plain => exact split_quote q segment

theorem closes (hq : q.OfNames) (h : q.Writes segment written) : q.Closes written := by
  cases h with
  | star => exact closes_of_notMem (by simpa using hq.opening_ne_star)
  | quoted | plain => simp [Closes, after_quote]

theorem trim_eq (hq : q.OfNames) (h : q.Writes segment written) : Text.trim written = written := by
  have hquote (name : List Char) : Text.trim (q.quote name) = q.quote name :=
    Text.trim_eq_self rfl List.getLast?_concat hq.opening_notBlank hq.closing_notBlank
  cases h with
  | star => decide
  | quoted name => exact hquote name
  | plain => exact hquote segment

end Writes

end QuotePair

/-! ## Written names -/

theorem Token.toList_textOf_intersperse {α : Type} (p : Profile) (paramText : α → String) (tokens : List (Token α)) :
    (textOf p paramText (tokens.intersperse (.symbol .dot))).toList
      = List.intercalate ['.'] (tokens.map fun t => (t.text p paramText).toList) := by
  induction tokens with
  | nil => rfl
  | cons t tokens ih =>
    cases tokens with
    | nil => simp [toList_textOf]
    | cons u tokens =>
      rw [toList_textOf] at ih ⊢
      rw [List.intersperse_cons_cons, List.flatMap_cons, List.flatMap_cons, ih]
      simp [List.intercalate_cons_cons, text, Symbol.text]

namespace Profile

variable {p : Profile} {segment written : List Char}

/-- What is written for a segment. -/
def segmentText (p : Profile) (segment : List Char) : List Char :=
  ((p.segmentToken segment : Token Nat).text p p.placeholder).toList

theorem segmentText_eq (h : p.quotes.Writes segment written) : p.segmentText segment = written := by
  unfold segmentText segmentToken
  cases h with
  | star => simp [Token.text, Symbol.text]
  | quoted name =>
    rw [if_neg QuotePair.quote_ne_star, if_pos (QuotePair.isQuoted_quote _ name)]
    exact String.toList_ofList
  | plain hstar hquoted =>
    rw [if_neg hstar, if_neg (by simp [hquoted])]
    simp [Token.text, quoteIdentifier]

theorem writes_segmentText (p : Profile) (segment : List Char) :
    p.quotes.Writes segment (p.segmentText segment) := by
  have hwrites : ∃ written, p.quotes.Writes segment written := by
    by_cases hstar : segment = ['*']
    · rw [hstar]
      exact ⟨_, .star⟩
    · cases hquoted : p.quotes.isQuoted segment with
      | true =>
        obtain ⟨name, rfl⟩ := QuotePair.exists_quote_of_isQuoted hquoted
        exact ⟨_, .quoted name⟩
      | false => exact ⟨_, .plain hstar hquoted⟩
  obtain ⟨written, h⟩ := hwrites
  rwa [segmentText_eq h]

/-- A written name is its written segments with dots between them. -/
theorem toList_quoteName (p : Profile) (name : String) :
    (p.quoteName name).toList = List.intercalate ['.']
      (((p.quotes.split (Text.trim name.toList)).map Text.trim).map p.segmentText) := by
  rw [quoteName, reference, Token.toList_textOf_intersperse, List.map_map, List.map_map]
  rfl

/-- An alias as quoted text. -/
def quoteAlias (p : Profile) (aliasName : String) : String :=
  Token.textOf p p.placeholder [p.aliasToken aliasName]

theorem toList_quoteAlias (p : Profile) (aliasName : String) :
    (p.quoteAlias aliasName).toList = p.segmentText (Text.trim aliasName.toList) := by
  simp [quoteAlias, Token.toList_textOf, segmentText, aliasToken]

/-- Written segments, with dots between them, are written again as they are. -/
theorem toList_quoteName_of_written (hp : p.quotes.OfNames) {segments : List (List Char)} {name : String}
    (h : ∀ segment ∈ segments, p.quotes.Writes segment segment) (hsplit : p.quotes.split name.toList = segments) :
    (p.quoteName name).toList = List.intercalate ['.'] segments := by
  have hagain : ∀ segment ∈ segments, p.segmentText (Text.trim segment) = segment := by
    intro segment hsegment
    rw [(h segment hsegment).trim_eq hp, segmentText_eq (h segment hsegment)]
  rw [toList_quoteName, QuotePair.map_trim_split_trim hp, hsplit, List.map_map]
  congr 1
  exact (List.map_congr_left hagain).trans (List.map_id' segments)

end Profile

/-- Whatever the name, what is written for it are well-formed segments with dots between them, one for
each segment that the name is split into. Splitting the written name gives these segments back, and
quoting it again changes nothing. An alias is one such segment. -/
theorem Dialect.segments_quoteName (d : Dialect) (name : String) :
    ∃ segments, List.Forall₂ d.profile.quotes.Writes
        ((d.profile.quotes.split (Text.trim name.toList)).map Text.trim) segments ∧
      (d.profile.quoteName name).toList = List.intercalate ['.'] segments ∧
      d.profile.quotes.split (d.profile.quoteName name).toList = segments ∧
      d.profile.quoteName (d.profile.quoteName name) = d.profile.quoteName name ∧
      d.profile.quotes.Writes (Text.trim name.toList) (d.profile.quoteAlias name).toList ∧
      d.profile.quoteAlias (d.profile.quoteAlias name) = d.profile.quoteAlias name := by
  have hq := d.quotes_ofNames
  let parts := (d.profile.quotes.split (Text.trim name.toList)).map Text.trim
  have hwritten : ∀ segment ∈ parts.map d.profile.segmentText, d.profile.quotes.Writes segment segment := by
    intro segment hsegment
    obtain ⟨part, -, rfl⟩ := List.mem_map.1 hsegment
    exact (d.profile.writes_segmentText part).again
  -- Each written segment stands for itself. This carries the splitting and the second quoting alike.
  have hsplit : d.profile.quotes.split (d.profile.quoteName name).toList = parts.map d.profile.segmentText := by
    rw [d.profile.toList_quoteName]
    apply QuotePair.split_intercalate hq
    · simp [QuotePair.split, QuotePair.splitFrom_ne_nil]
    · intro segment hsegment
      exact ⟨(hwritten segment hsegment).split_eq, (hwritten segment hsegment).closes hq⟩
  have halias := d.profile.writes_segmentText (Text.trim name.toList)
  refine ⟨parts.map d.profile.segmentText, ?_, d.profile.toList_quoteName name, hsplit, ?_, ?_, ?_⟩
  · rw [List.forall₂_map_right_iff, List.forall₂_same]
    intro part _
    exact d.profile.writes_segmentText part
  · apply String.toList_injective
    rw [Profile.toList_quoteName_of_written hq hwritten hsplit, d.profile.toList_quoteName]
  · rwa [d.profile.toList_quoteAlias]
  · apply String.toList_injective
    rw [d.profile.toList_quoteAlias, d.profile.toList_quoteAlias, halias.trim_eq hq]
    exact Profile.segmentText_eq halias.again

end QueryCompiler
