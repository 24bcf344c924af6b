-- SUMMARY: A raw fragment is written as it is, with placeholders at its markers, and any text can be written by a fragment.
import QueryCompiler.Proofs.Placeholders

/-!
# Verbatim text

A fragment is read with the character behind in view, so that a backslash and the
question mark behind it are taken together. What comes out can be told of each
character from its neighbours alone: a question mark is a marker unless a backslash
stands before it, and the only characters that are not written are the backslashes
before question marks. So a fragment keeps its text, and a text whose question marks
are given backslashes is written as it was.
-/

namespace QueryCompiler.Fragment

/-! ## Characters and their neighbours -/

/-- Whether a character behind `before` is a marker: a question mark without a backslash before it. -/
def isMarker (before : Option Char) (c : Char) : Bool :=
  c == '?' && before != some '\\'

/-- The number of markers in a text behind `before`. -/
def markersBehind (before : Option Char) : List Char → Nat
  | [] => 0
  | c :: rest => (isMarker before c).toNat + markersBehind (some c) rest

/-- The number of markers in a text. -/
def markersIn (text : List Char) : Nat :=
  markersBehind none text

/-- What is written for a text behind `before`: for its markers the placeholders from that of `n` on, for a
backslash before a question mark nothing, and every other character as it is. -/
def writtenBehind (p : Profile) (n : Nat) (before : Option Char) : List Char → List Char
  | [] => []
  | c :: rest =>
    if isMarker before c then (p.placeholder n).toList ++ writtenBehind p (n + 1) (some c) rest
    else if c = '\\' ∧ rest.head? = some '?' then writtenBehind p n (some c) rest
    else c :: writtenBehind p n (some c) rest

/-- What is written for a text, with the placeholders from that of `n` on at its markers. -/
def written (p : Profile) (n : Nat) (text : List Char) : List Char :=
  writtenBehind p n none text

/-- A text with a backslash before each question mark. -/
def escaped (text : String) : String :=
  String.ofList (text.toList.flatMap fun c => if c = '?' then ['\\', '?'] else [c])

/-! ## Marks and neighbours -/

section

variable {text rest : List Char} {before : Option Char} {c : Char}

/-- A reader of marks does not stop between a backslash and a question mark. -/
def IsStop (before : Option Char) (text : List Char) : Prop :=
  before = some '\\' → text.head? ≠ some '?'

theorem isMarker_of_isStop (h : IsStop before ('?' :: rest)) : isMarker before '?' = true := by
  have hbefore : before ≠ some '\\' := fun hb => h hb rfl
  simp [isMarker, hbefore]

theorem isMarker_eq_false (hc : c ≠ '?') : isMarker before c = false := by
  simp [isMarker, hc]

theorem isMarker_escaped : isMarker (some '\\') c = false := by
  simp [isMarker]

theorem isStop_question : IsStop (some '?') rest := by
  simp [IsStop]

/-- Behind a character that is a mark on its own. -/
theorem isStop_single (h : ∀ more, c = '\\' → rest = '?' :: more → False) : IsStop (some c) rest := by
  rintro hc hhead
  obtain ⟨more, rfl⟩ := List.head?_eq_some_iff.1 hhead
  exact h more (Option.some.inj hc) rfl

theorem count_marks (h : IsStop before text) : (marks text).count .marker = markersBehind before text := by
  induction text using marks.induct generalizing before with
  | case1 => rfl
  | case2 rest ih =>
    rw [marks, List.count_cons_self, markersBehind, isMarker_of_isStop h, ih isStop_question]
    exact Nat.add_comm _ 1
  | case3 rest ih =>
    rw [marks, List.count_cons_of_ne (by simp), markersBehind, markersBehind, isMarker_escaped,
      isMarker_eq_false (by decide), ih isStop_question]
    simp
  | case4 c rest hmarker hescape ih =>
    rw [marks, List.count_cons_of_ne (by simp), markersBehind, isMarker_eq_false hmarker,
      ih (isStop_single hescape)]
    · simp
    · exact hmarker
    · exact hescape

theorem spell_marks (p : Profile) (n : Nat) (h : IsStop before text) :
    spell p n (marks text) = writtenBehind p n before text := by
  induction text using marks.induct generalizing n before with
  | case1 => rfl
  | case2 rest ih => rw [marks, spell, writtenBehind, if_pos (isMarker_of_isStop h), ih _ isStop_question]
  | case3 rest ih =>
    rw [marks, spell, writtenBehind, isMarker_eq_false (by decide), if_neg Bool.false_ne_true, if_pos ⟨rfl, rfl⟩,
      writtenBehind, isMarker_escaped, if_neg Bool.false_ne_true, if_neg (by simp), ih _ isStop_question]
  | case4 c rest hmarker hescape ih =>
    have hkept : ¬(c = '\\' ∧ rest.head? = some '?') := by
      rintro ⟨hc, hhead⟩
      exact isStop_single hescape (congrArg some hc) hhead
    rw [marks, spell, writtenBehind, isMarker_eq_false hmarker, if_neg Bool.false_ne_true, if_neg hkept,
      ih _ (isStop_single hescape)]
    · exact hmarker
    · exact hescape

end

/-- With a backslash before each question mark, a text has a mark for each of its characters. -/
theorem marks_escaped (text : String) : marks (escaped text).toList = text.toList.map .char := by
  rw [escaped, String.toList_ofList]
  induction text.toList with
  | nil => rfl
  | cons c rest ih =>
    rw [List.flatMap_cons, List.map_cons, ← ih]
    split
    next hc =>
      rw [hc]
      rfl
    next hc =>
      -- The text that follows begins with no question mark, so nothing is taken together with `c`.
      have hfollows : ∀ more, c = '\\' →
          rest.flatMap (fun c => if c = '?' then ['\\', '?'] else [c]) = '?' :: more → False := by
        intro more _ hmore
        cases rest with
        | nil => cases hmore
        | cons d rest =>
          rw [List.flatMap_cons] at hmore
          split at hmore
          · cases hmore
          next hd => exact hd (List.cons.inj hmore).1
      rw [List.singleton_append, marks]
      · exact hc
      · exact hfollows

theorem spell_chars (p : Profile) (n : Nat) (text : List Char) : spell p n (text.map .char) = text := by
  induction text with
  | nil => rfl
  | cons c rest ih => rw [List.map_cons, spell, ih]

/-! ## Emitted fragments -/

/-- A fragment with a binding for each marker is written mark by mark. -/
theorem emit_of_count (d : Dialect) {f : Fragment} (h : (marks f.text.toList).count .marker = f.bindings.length)
    (c : Context) :
    ∃ ts, f.emit.run c = .ok (ts, c.bindAll f.bindings) ∧
      (Token.placeholderText d.profile ts).toList = spell d.profile c.bindings.size (marks f.text.toList) := by
  have htokens : f.tokens = .ok (fill (Fragment.parts f.text.toList) f.bindings) := if_pos h
  refine ⟨_, ?_, toList_placeholderText_parts h c.bindings.size⟩
  simp only [run_emit, htokens, Functor.map, Except.map, Context.number, params_tokens htokens]

/-- A fragment with as many bindings as markers binds all its values in their order, and its text is written
character by character as the neighbours tell, with the placeholders of these values at the markers. With any
other number of bindings it is refused. Nothing that may be written is beyond fragments: a text whose question
marks have backslashes is written without them, and binds nothing. -/
theorem emit_eq_written (d : Dialect) (f : Fragment) (c : Context) (text : String) :
    (f.emit.run c).map (fun r => ((Token.placeholderText d.profile r.1).toList, r.2)) =
        (if markersIn f.text.toList = f.bindings.length then
          .ok (written d.profile c.bindings.size f.text.toList, c.bindAll f.bindings)
        else .error (.markerMismatch f.text (markersIn f.text.toList) f.bindings.length)) ∧
      ((⟨escaped text, []⟩ : Fragment).emit.run c).map
          (fun r => ((Token.placeholderText d.profile r.1).toList, r.2)) = .ok (text.toList, c) := by
  have hstart : IsStop none f.text.toList := by simp [IsStop]
  constructor
  · rw [markersIn, ← count_marks hstart]
    split
    next hcount =>
      obtain ⟨ts, hrun, htext⟩ := emit_of_count d hcount c
      rw [hrun, Except.map]
      exact congrArg (fun cs => Except.ok (cs, c.bindAll f.bindings)) (htext.trans (spell_marks _ _ hstart))
    next hcount =>
      have hrefused : f.tokens = .error (.markerMismatch f.text f.markerCount f.bindings.length) := if_neg hcount
      rw [run_emit, hrefused]
      rfl
  · have hcount : (marks (escaped text).toList).count .marker = 0 := by
      rw [marks_escaped, List.count_eq_zero]
      simp
    obtain ⟨ts, hrun, htext⟩ := emit_of_count d (f := ⟨escaped text, []⟩) hcount c
    have htext := htext.trans ((congrArg _ (marks_escaped text)).trans (spell_chars ..))
    rw [hrun, Except.map, Context.bindAll_nil]
    exact congrArg (fun cs => Except.ok (cs, c)) htext

/-- Of two backslashes before a question mark only the second one is not written. -/
example : written Dialect.postgres.profile 0 "a \\\\? ??".toList = "a \\? $1$2".toList := by
  decide +kernel

end QueryCompiler.Fragment
