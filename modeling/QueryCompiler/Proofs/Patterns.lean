-- SUMMARY: The match of a pattern that is preferred, part by part: what a greedy and a lazy repetition take.
import QueryCompiler.Text.Pattern

/-!
# Preferred matches

A pattern lists all its matches, and the first one of them counts. It is found part
by part here. A greedy repetition takes all that it accepts, if what follows matches
behind that, or if it cannot match in front of an accepted character. A lazy
repetition takes what stands before the first place where what follows matches.
-/

namespace QueryCompiler.Text

variable {accepts : Char → Bool} {least : Nat} {text : List Char}

/-! ## Repetitions -/

/-- A greedy repetition prefers to take all that it accepts, and it leaves an accepted character in front
whenever it takes less. -/
theorem takings_greedy (h : least ≤ (text.takeWhile accepts).length) :
    ∃ more, takings true accepts least text = (text.takeWhile accepts, text.dropWhile accepts) :: more ∧
      ∀ taking ∈ more, ∃ c rest, taking.2 = c :: rest ∧ accepts c = true := by
  induction text generalizing least with
  | nil =>
    obtain rfl : least = 0 := by simpa using h
    exact ⟨[], rfl, by simp⟩
  | cons c rest ih =>
    by_cases hc : accepts c = true
    · have hrest : least - 1 ≤ (rest.takeWhile accepts).length := by
        rw [List.takeWhile_cons_of_pos hc, List.length_cons] at h
        omega
      obtain ⟨more, hmore, hback⟩ := ih hrest
      refine ⟨more.map (fun taking => (c :: taking.1, taking.2)) ++ if least = 0 then [([], c :: rest)] else [], ?_, ?_⟩
      · simp [takings, hc, hmore]
      · intro taking htaking
        rcases List.mem_append.1 htaking with hmem | hmem
        · obtain ⟨shorter, hshorter, rfl⟩ := List.mem_map.1 hmem
          exact hback shorter hshorter
        · split at hmem
          · obtain rfl := List.mem_singleton.1 hmem
            exact ⟨c, rest, rfl, hc⟩
          · cases hmem
    · obtain rfl : least = 0 := by simpa [hc] using h
      exact ⟨[], by simp [takings, hc], by simp⟩

theorem takings_eq_nil {isGreedy : Bool} (h : (text.takeWhile accepts).length < least) :
    takings isGreedy accepts least text = [] := by
  induction text generalizing least with
  | nil => exact if_neg (Nat.ne_of_gt h)
  | cons c rest ih =>
    have hleast : least ≠ 0 := by omega
    by_cases hc : accepts c = true
    · rw [List.takeWhile_cons_of_pos hc, List.length_cons] at h
      simp [takings, hc, hleast, ih (Nat.lt_sub_of_add_lt h)]
    · simp [takings, hc, hleast]

theorem takeWhile_anyChar (text : List Char) : text.takeWhile anyChar = text := by
  induction text with
  | nil => rfl
  | cons c rest ih => rw [List.takeWhile_cons_of_pos rfl, ih]

theorem dropWhile_anyChar (text : List Char) : text.dropWhile anyChar = [] := by
  induction text with
  | nil => rfl
  | cons c rest ih => rw [List.dropWhile_cons_of_pos rfl, ih]

theorem takings_greedy_cons (c : Char) (rest : List Char) :
    takings true anyChar 0 (c :: rest)
      = (takings true anyChar 0 rest).map (fun taking => (c :: taking.1, taking.2)) ++ [([], c :: rest)] :=
  rfl

theorem takings_lazy_cons (c : Char) (rest : List Char) :
    takings false anyChar 0 (c :: rest)
      = ([], c :: rest) :: (takings false anyChar 0 rest).map fun taking => (c :: taking.1, taking.2) :=
  rfl

namespace Pattern

/-- The groups of the preferred match in front of a text. -/
def first (p : Pattern) (atStart : Bool) (text : List Char) : Option (List (List Char)) :=
  (p.matchesAt atStart text).head?

theorem first_cons (part : Part) (next : Pattern) (atStart : Bool) (text : List Char) :
    first (part :: next) atStart text = (part.ways atStart text).findSome? fun taking =>
      (first next (atStart && taking.1.isEmpty) taking.2).map (part.groups taking.1 ++ ·) := by
  rw [first, matchesAt, List.head?_flatMap]
  simp only [List.head?_map]
  rfl

/-- A pattern with the start of the text in front is matched there or nowhere. -/
theorem captures?_start (next : Pattern) (text : List Char) :
    captures? (.start :: next) text = first next true text := by
  have hnone (text : List Char) : find? (.start :: next) false text = none := by
    induction text with
    | nil => rfl
    | cons c rest ih =>
      rw [find?, ih]
      rfl
  have hstart : (matchesAt true text (.start :: next)).head? = first next true text := by
    change first (.start :: next) true text = _
    simp [first_cons, Part.ways, Part.groups]
  cases text with
  | nil => exact hstart
  | cons c rest => rw [captures?, find?, hnone, Option.or_none, hstart]

/-- A character of a class, and what follows it. -/
theorem first_one (next : Pattern) (atStart : Bool) (text : List Char) :
    first (.one accepts :: next) atStart text = match text with
      | c :: rest => if accepts c then first next false rest else none
      | [] => none := by
  rw [first_cons]
  cases text with
  | nil => rfl
  | cons c rest =>
    by_cases hc : accepts c = true <;> simp [Part.ways, Part.groups, hc]

@[simp] theorem first_finish (text : List Char) :
    first [.finish] false text = if text.isEmpty then some [] else none := by
  cases text <;> rfl

/-! ## Greedy repetitions -/

theorem first_many_eq_none {isGreedy : Bool} {next : Pattern} (atStart : Bool)
    (h : (text.takeWhile accepts).length < least) : first (.many least isGreedy accepts :: next) atStart text = none := by
  rw [first_cons, Part.ways, takings_eq_nil h]
  rfl

/-- A greedy repetition takes all that it accepts when what follows matches behind that. -/
theorem first_greedy_of_some {next : Pattern} {groups : List (List Char)}
    (hleast : least ≤ (text.takeWhile accepts).length) (h : first next false (text.dropWhile accepts) = some groups) :
    first (.many least true accepts :: next) false text = some groups := by
  obtain ⟨more, hmore, -⟩ := takings_greedy hleast
  rw [first_cons, Part.ways, hmore, List.findSome?_cons, Bool.false_and, h]
  rfl

/-- A greedy repetition takes all that it accepts when what follows cannot begin with such a character. -/
theorem first_greedy {next : Pattern} (hnext : ∀ c rest, accepts c = true → first next false (c :: rest) = none) :
    first (.many least true accepts :: next) false text =
      if least ≤ (text.takeWhile accepts).length then first next false (text.dropWhile accepts) else none := by
  split
  next hleast =>
    cases hrest : first next false (text.dropWhile accepts) with
    | some groups => exact first_greedy_of_some hleast hrest
    | none =>
      obtain ⟨more, hmore, hback⟩ := takings_greedy hleast
      rw [first_cons, Part.ways, hmore, List.findSome?_eq_none_iff]
      refine List.forall_mem_cons.2 ⟨by rw [Bool.false_and, hrest]; rfl, fun taking htaking => ?_⟩
      obtain ⟨c, rest, htext, hc⟩ := hback taking htaking
      rw [Bool.false_and, htext, hnext c rest hc]
      rfl
  next hleast => exact first_many_eq_none false (Nat.lt_of_not_le hleast)

/-- A greedy group takes all when nothing has to follow. -/
theorem first_all (hleast : least ≤ text.length) :
    first [.group (.many least true anyChar), .finish] false text = some [text] := by
  rw [← takeWhile_anyChar text] at hleast
  obtain ⟨more, hmore, -⟩ := takings_greedy hleast
  rw [first_cons, Part.ways, Part.ways, hmore, takeWhile_anyChar, dropWhile_anyChar, List.findSome?_cons]
  rfl

/-- A greedy group takes all but a last character that has to follow. -/
theorem first_allBut (atStart : Bool) (text : List Char) :
    first [.group (.many 0 true anyChar), .one accepts, .finish] atStart text =
      if text.getLast?.any accepts then some [text.dropLast] else none := by
  have htakings (front text : List Char) :
      ((takings true anyChar 0 text).findSome? fun taking =>
          (first [.one accepts, .finish] false taking.2).map ([front ++ taking.1] ++ ·))
        = if text.getLast?.any accepts then some [front ++ text.dropLast] else none := by
    induction text generalizing front with
    | nil => rfl
    | cons c rest ih =>
      have hfront := ih (front ++ [c])
      simp only [List.append_assoc, List.singleton_append] at hfront
      simp only [takings_greedy_cons, List.findSome?_append, List.findSome?_map, List.findSome?_singleton,
        Function.comp_def, List.singleton_append, hfront]
      cases rest with
      | nil => by_cases hc : accepts c = true <;> simp [first_one, hc]
      | cons d rest =>
        rw [List.getLast?_cons_cons, List.dropLast_cons_cons]
        split <;> simp [first_one]
  have hstart (taken rest : List Char) : first [.one accepts, .finish] (atStart && taken.isEmpty) rest
      = first [.one accepts, .finish] false rest := by
    rw [first_one, first_one]
  rw [first_cons, Part.ways, Part.ways]
  simp only [hstart]
  exact htakings [] text

/-! ## Lazy repetitions -/

/-- The text before the first place where a pattern matches, and the groups of the match there. -/
def before? (next : Pattern) : List Char → Option (List Char × List (List Char))
  | [] => (first next false []).map ([], ·)
  | c :: rest =>
    match first next false (c :: rest) with
    | some groups => some ([], groups)
    | none => (before? next rest).map fun cut => (c :: cut.1, cut.2)

/-- What follows is matched there. -/
theorem exists_of_before? {next : Pattern} {text : List Char} {cut : List Char × List (List Char)}
    (h : before? next text = some cut) : ∃ rest, text = cut.1 ++ rest ∧ first next false rest = some cut.2 := by
  induction text generalizing cut with
  | nil =>
    obtain ⟨groups, hgroups, rfl⟩ := Option.map_eq_some_iff.1 h
    exact ⟨[], rfl, hgroups⟩
  | cons c rest ih =>
    rw [before?] at h
    split at h
    next groups hgroups =>
      cases h
      exact ⟨c :: rest, rfl, hgroups⟩
    next =>
      obtain ⟨further, hfurther, rfl⟩ := Option.map_eq_some_iff.1 h
      obtain ⟨behind, hbehind, hgroups⟩ := ih hfurther
      exact ⟨behind, by rw [hbehind]; rfl, hgroups⟩

/-- Shorter takings are tried first, so what is taken ends where what follows first matches. -/
theorem findSome?_takings_lazy (next : Pattern) (front text : List Char) :
    ((takings false anyChar 0 text).findSome? fun taking =>
        (first next false taking.2).map ([front ++ taking.1] ++ ·))
      = (before? next text).map fun cut => (front ++ cut.1) :: cut.2 := by
  induction text generalizing front with
  | nil =>
    rw [takings, if_pos rfl, List.findSome?_singleton, before?]
    cases first next false [] <;> simp
  | cons c rest ih =>
    have hfront := ih (front ++ [c])
    simp only [List.append_assoc, List.singleton_append] at hfront
    simp only [takings_lazy_cons, List.findSome?_cons, List.findSome?_map, Function.comp_def,
      List.singleton_append, hfront, before?]
    cases first next false (c :: rest) with
    | some groups => simp
    | none => simp [Function.comp_def]

/-- A lazy group that may take nothing. -/
theorem first_lazy_zero {next : Pattern} (hnext : ∀ text, first next true text = first next false text)
    (atStart : Bool) (text : List Char) :
    first (.group (.many 0 false anyChar) :: next) atStart text
      = (before? next text).map fun cut => cut.1 :: cut.2 := by
  have hstart (taken rest : List Char) : first next (atStart && taken.isEmpty) rest = first next false rest := by
    cases atStart && taken.isEmpty with
    | true => exact hnext rest
    | false => rfl
  rw [first_cons]
  simp only [hstart]
  exact findSome?_takings_lazy next [] text

/-- A lazy group that takes at least one character. -/
theorem first_lazy_one (next : Pattern) (atStart : Bool) (c : Char) (rest : List Char) :
    first (.group (.many 1 false anyChar) :: next) atStart (c :: rest)
      = (before? next rest).map fun cut => (c :: cut.1) :: cut.2 := by
  -- Nothing is the one way that is left out.
  have htakings : takings false anyChar 1 (c :: rest)
      = (takings false anyChar 0 rest).map fun taking => (c :: taking.1, taking.2) := rfl
  rw [first_cons, Part.ways, Part.ways, htakings, List.findSome?_map]
  simp only [Function.comp_def, List.isEmpty_cons, Bool.and_false]
  exact findSome?_takings_lazy next [c] rest

end Pattern

end QueryCompiler.Text
