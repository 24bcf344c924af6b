-- SUMMARY: Reading conditions off their tokens with the precedence of SQL: NOT over AND over OR.
import QueryCompiler.Proofs.Binding
import QueryCompiler.Proofs.Phrase

/-!
# Reading conditions

The reader of this module knows tokens and nothing of what they were made from.
Spaces mean nothing to it. It cuts a text at every `OR` outside parentheses, each
part at every `AND`, and then looks at what is left: a `NOT` in front, a text in
parentheses, or an atom. The `AND` of a `BETWEEN` belongs to its atom, and so does
everything in parentheses that do not enclose a whole factor.
-/

namespace QueryCompiler

/-! ## Words -/

namespace Token

variable {α : Type}

def isSpace : Token α → Bool
  | .space => true
  | _ => false

/-- The tokens that are no spaces. -/
def words (tokens : List (Token α)) : List (Token α) :=
  tokens.filter fun t => !t.isSpace

@[simp] theorem words_nil : words ([] : List (Token α)) = [] := rfl

@[simp] theorem words_append (a b : List (Token α)) : words (a ++ b) = words a ++ words b :=
  List.filter_append ..

@[simp] theorem words_space (tokens : List (Token α)) : words (.space :: tokens) = words tokens := rfl

@[simp] theorem words_keyword (k : Keyword) (tokens : List (Token α)) :
    words (.keyword k :: tokens) = .keyword k :: words tokens := rfl

@[simp] theorem words_symbol (s : Symbol) (tokens : List (Token α)) :
    words (.symbol s :: tokens) = .symbol s :: words tokens := rfl

@[simp] theorem words_value (v : Value) (tokens : List (Token Value)) :
    words (value v :: tokens) = value v :: words tokens := rfl

@[simp] theorem words_raw (text : String) (tokens : List (Token α)) :
    words (.raw text :: tokens) = .raw text :: words tokens := rfl

@[simp] theorem words_function (name : String) (tokens : List (Token α)) :
    words (.function name :: tokens) = .function name :: words tokens := rfl

theorem words_cons {t : Token α} (h : t.isSpace = false) (tokens : List (Token α)) :
    words (t :: tokens) = t :: words tokens := by
  simp [words, h]

@[simp] theorem words_parenthesized (tokens : List (Token α)) :
    words (parenthesized tokens) = parenthesized (words tokens) := by
  simp [parenthesized, words, isSpace]

@[simp] theorem words_spaced (k : Keyword) : words (spaced k : List (Token α)) = [.keyword k] := rfl

theorem length_words_le (tokens : List (Token α)) : (words tokens).length ≤ tokens.length :=
  List.length_filter_le ..

end Token

/-! ### Words of what is emitted -/

/-- The words of what is emitted in a context, with the bound values at their parameters. -/
def Emitter.words (emit : Emitter (List (Token Nat))) (c : Context) : Option (List (Token Value)) :=
  (emit.run c).toOption.map fun (ts, after) => Token.words (after.bindings.restore ts)

theorem Emitter.Writes.words {emit : Emitter (List (Token Nat))} {tokens : Emission} (h : emit.Writes tokens)
    {c : Context} (hc : 0 < c.depth) : emit.words c = tokens.toOption.map Token.words := by
  rw [Emitter.words, h c hc]
  cases tokens with
  | error e => rfl
  | ok ts => exact congrArg (fun ts => some (Token.words ts)) (c.restore_number ts)

/-! ## Cutting -/

/-- Where a reader stands: how deep in parentheses, and whether the `AND` of a `BETWEEN` outside
parentheses is still to come. -/
structure Level where
  depth : Nat := 0
  between : Bool := false
deriving DecidableEq, Repr

namespace Level

/-- One token further. -/
def step (l : Level) : Token Value → Level
  | .symbol .lparen => { l with depth := l.depth + 1 }
  | .symbol .rparen => { l with depth := l.depth - 1 }
  | .keyword .between => if l.depth = 0 then { l with between := true } else l
  | .keyword .and => if l.depth = 0 then { l with between := false } else l
  | _ => l

theorem step_plain {t : Token Value} (h : t.isPlain = true) (l : Level) : l.step t = l := by
  cases t with
  | keyword k => cases h
  | symbol s => cases s <;> first | rfl | cases h
  | _ => rfl

theorem step_keyword {l : Level} (h : 0 < l.depth) (k : Keyword) : l.step (.keyword k) = l := by
  cases k <;> simp [step, Nat.ne_of_gt h]

/-- Whether a keyword stands here outside parentheses, and not as a part of a `BETWEEN`. -/
def meets (k : Keyword) (l : Level) (t : Token Value) : Bool :=
  t = .keyword k && l.depth = 0 && !(k = .and && l.between)

/-- Whether a closing parenthesis stands here that belongs to one before the text. -/
def closes (l : Level) (t : Token Value) : Bool :=
  t = .symbol .rparen && l.depth = 1

end Level

/-- Puts tokens in front of the first part. -/
def prepend (tokens : List (Token Value)) : List (List (Token Value)) → List (List (Token Value))
  | [] => [tokens]
  | part :: parts => (tokens ++ part) :: parts

/-- The parts of a text between the tokens that it is cut at, for a reader who stands at `l`. -/
def cut (at? : Level → Token Value → Bool) (l : Level) : List (Token Value) → List (List (Token Value))
  | [] => [[]]
  | t :: rest =>
    if at? l t then [] :: cut at? (l.step t) rest else prepend [t] (cut at? (l.step t) rest)

/-! ## The reader -/

section

variable (v : List (Token Value) → Option Truth)

/-- The truth of an atom, if it has one. Comparisons of constants speak for themselves. A negation inside
an atom is taken out of it. -/
def readAtom : List (Token Value) → Option Truth
  | [.litInt m, .symbol .eq, .litInt n] => some (if m = n then .yes else .no)
  | tokens =>
    match cut (Level.meets .not) {} tokens, cut (Level.meets .isNotNull) {} tokens with
    | [column, rest], _ => (v (column ++ rest)).map Truth.not
    | _, [column, rest] => (v (column ++ .keyword .isNull :: rest)).map Truth.not
    | _, _ => v tokens

/-- What stands between two parentheses around a whole text. -/
def enclosed? : List (Token Value) → Option (List (Token Value))
  | .symbol .lparen :: rest =>
    match cut Level.closes ⟨1, false⟩ rest with
    | [body, []] => some body
    | _ => none
  | _ => none

/-- The truth of a factor. -/
def readFactor (inner : List (Token Value) → Option Truth) : List (Token Value) → Option Truth
  | [] => none
  | .keyword .not :: rest => (readFactor inner rest).map Truth.not
  | tokens =>
    match enclosed? tokens with
    | some body => inner body
    | none => readAtom v tokens

/-- The truth of factors with `AND` between them. -/
def readRun (inner : List (Token Value) → Option Truth) (tokens : List (Token Value)) : Option Truth :=
  ((cut (Level.meets .and) {} tokens).mapM (readFactor v inner)).map Truth.all

/-- The truth of words whose parentheses are nested less than `n` deep. -/
def readWords : Nat → List (Token Value) → Option Truth
  | 0, _ => none
  | n + 1, tokens => ((cut (Level.meets .or) {} tokens).mapM (readRun v (readWords n))).map Truth.any

/-- The truth of a text whose atoms are read by `v`, if it is well-formed. -/
def readTruth (tokens : List (Token Value)) : Option Truth :=
  readWords v (tokens.length + 1) (Token.words tokens)

end

/-! ## Tokens that a reader passes -/

theorem prepend_ne_nil (tokens : List (Token Value)) (parts : List (List (Token Value))) :
    prepend tokens parts ≠ [] := by
  cases parts <;> simp [prepend]

theorem prepend_append (a b : List (Token Value)) (parts : List (List (Token Value))) :
    prepend (a ++ b) parts = prepend a (prepend b parts) := by
  cases parts <;> simp [prepend]

variable {at? : Level → Token Value → Bool} {l l' l'' : Level} {a b ts : List (Token Value)}

theorem cut_ne_nil (at? : Level → Token Value → Bool) (l : Level) (tokens : List (Token Value)) :
    cut at? l tokens ≠ [] := by
  cases tokens with
  | nil => simp [cut]
  | cons t rest =>
    rw [cut]
    split
    · simp
    · exact prepend_ne_nil _ _

/-- A reader who stands at `l` passes the tokens without a cut and stands at `l'` behind them. -/
def Passes (at? : Level → Token Value → Bool) (l l' : Level) (tokens : List (Token Value)) : Prop :=
  ∀ rest, cut at? l (tokens ++ rest) = prepend tokens (cut at? l' rest)

namespace Passes

theorem nil : Passes at? l l [] := by
  intro rest
  obtain ⟨part, parts, hparts⟩ := List.exists_cons_of_ne_nil (cut_ne_nil at? l rest)
  rw [List.nil_append, hparts]
  rfl

theorem append (ha : Passes at? l l' a) (hb : Passes at? l' l'' b) : Passes at? l l'' (a ++ b) := by
  intro rest
  rw [List.append_assoc, ha, hb, prepend_append]

theorem cons {t : Token Value} (ht : at? l t = false) (hb : Passes at? (l.step t) l' b) :
    Passes at? l l' (t :: b) := by
  intro rest
  have hrest := hb rest
  rw [List.cons_append, cut, ht, if_neg (by simp), hrest, ← prepend_append]
  rfl

theorem token {t : Token Value} (ht : at? l t = false) (hstep : l.step t = l') : Passes at? l l' [t] :=
  .cons ht (hstep ▸ .nil)

theorem parenthesized (hopen : at? l (.symbol .lparen) = false)
    (ha : Passes at? ⟨l.depth + 1, l.between⟩ ⟨l.depth + 1, l.between⟩ a)
    (hclose : at? ⟨l.depth + 1, l.between⟩ (.symbol .rparen) = false) :
    Passes at? l l (Token.parenthesized a) :=
  .cons hopen (ha.append (.token hclose rfl))

/-- The tokens as a whole are one part. -/
theorem cut_eq (h : Passes at? l l' ts) : cut at? l ts = [ts] := by
  have hcut := h []
  simpa [cut, prepend] using hcut

/-- The tokens as the first part, in front of a token that is cut at. -/
theorem cut_append_cons (h : Passes at? l l' a) {t : Token Value} (ht : at? l' t = true)
    (rest : List (Token Value)) : cut at? l (a ++ t :: rest) = a :: cut at? (l'.step t) rest := by
  rw [h, cut, if_pos ht, prepend, List.append_nil]

end Passes

theorem Passes.plain {tokens : List (Token Value)} (hat : ∀ t, t.isPlain = true → at? l t = false)
    (h : ∀ t ∈ tokens, t.isPlain = true) : Passes at? l l (Token.words tokens) := by
  induction tokens with
  | nil => exact .nil
  | cons t rest ih =>
    rw [List.forall_mem_cons] at h
    have hrest := ih h.2
    by_cases hspace : t.isSpace = true
    · simpa [Token.words, hspace] using hrest
    · rw [Token.words_cons (by simpa using hspace)]
      refine .cons (hat t h.1) ?_
      rwa [Level.step_plain h.1]

/-- Of what phrases with keywords in `K` are made of, nothing is cut at from `l` on. -/
structure Calm (at? : Level → Token Value → Bool) (l : Level) (K : Keyword → Bool) : Prop where
  deep : ∀ l' t, l.depth < l'.depth → at? l' t = false
  plain : ∀ t, t.isPlain = true → at? l t = false
  opening : at? l (.symbol .lparen) = false
  keyword : ∀ k, K k = true → at? l (.keyword k) = false ∧ l.step (.keyword k) = l

/-- In parentheses there may be any keyword. -/
theorem Calm.inside {K J : Keyword → Bool} (h : Calm at? l K) : Calm at? ⟨l.depth + 1, l.between⟩ J where
  deep := fun l' t hl => h.deep l' t (Nat.lt_of_succ_lt hl)
  plain := fun t _ => h.deep _ t (Nat.lt_succ_self _)
  opening := h.deep _ _ (Nat.lt_succ_self _)
  keyword := fun k _ => ⟨h.deep _ _ (Nat.lt_succ_self _), Level.step_keyword (Nat.succ_pos _) k⟩

theorem Calm.parenthesized {K J : Keyword → Bool} (h : Calm at? l K)
    (ha : Calm at? ⟨l.depth + 1, l.between⟩ J → Passes at? ⟨l.depth + 1, l.between⟩ ⟨l.depth + 1, l.between⟩ a) :
    Passes at? l l (Token.parenthesized a) :=
  .parenthesized h.opening (ha h.inside) (h.deep _ _ (Nat.lt_succ_self _))

theorem Phrase.passes {p : Profile} {F : Fragment → Prop} {K : Keyword → Bool} (h : Phrase p F K ts)
    (hcalm : Calm at? l K) : Passes at? l l (Token.words ts) := by
  induction h generalizing l with
  | word h => exact .plain hcalm.plain (by simpa using h.isPlain)
  | keyword h => exact .token (hcalm.keyword _ h).1 (hcalm.keyword _ h).2
  | fragment _ h => exact .plain hcalm.plain (Fragment.isPlain_of_mem_tokens h)
  | spaced _ _ iha ihb =>
    rw [Token.words_append, Token.words_space]
    exact (iha hcalm).append (ihb hcalm)
  | dotted _ _ iha ihb =>
    rw [Token.words_append, Token.words_cons rfl]
    exact (iha hcalm).append (.cons (hcalm.plain _ rfl) (ihb hcalm))
  | listed _ _ iha ihb =>
    rw [Token.words_append, Token.words_cons rfl, Token.words_space]
    exact (iha hcalm).append (.cons (hcalm.plain _ rfl) (ihb hcalm))
  | enclosed _ ih =>
    rw [Token.words_parenthesized]
    exact hcalm.parenthesized ih
  | call hf =>
    rw [Token.words_cons rfl, Token.words_parenthesized]
    exact .cons (hcalm.plain _ rfl) (hcalm.parenthesized (J := Keyword.any) fun _ => .nil)
  | applied hf _ ih =>
    rw [Token.words_cons rfl, Token.words_parenthesized]
    exact .cons (hcalm.plain _ rfl) (hcalm.parenthesized ih)

/-- Outside parentheses only keywords are cut at. -/
theorem calm_meets {k : Keyword} {K : Keyword → Bool} {between : Bool}
    (hK : ∀ j, K j = true → j ≠ k ∧ j ≠ .and ∧ j ≠ .between) : Calm (Level.meets k) ⟨0, between⟩ K where
  deep := by
    intro l' t hl
    simp [Level.meets, Nat.ne_of_gt hl]
  plain := by
    intro t ht
    cases t with
    | keyword j => cases ht
    | _ => simp [Level.meets]
  opening := by simp [Level.meets]
  keyword := by
    intro j hj
    obtain ⟨hk, hand, hbetween⟩ := hK j hj
    refine ⟨by simp [Level.meets, hk], ?_⟩
    cases j <;> first | rfl | contradiction

theorem calm_closes {K : Keyword → Bool} {between : Bool} : Calm Level.closes ⟨1, between⟩ K where
  deep := by
    intro l' t hl
    simp [Level.closes, Nat.ne_of_gt hl]
  plain := by
    intro t ht
    cases t with
    | symbol s => cases s <;> first | rfl | cases ht
    | _ => simp [Level.closes]
  opening := by simp [Level.closes]
  keyword := fun k _ => ⟨by simp [Level.closes], Level.step_keyword Nat.one_pos k⟩

/-! ## Connected factors -/

variable {v : List (Token Value) → Option Truth} {x : Truth}

/-- Words that are read as one factor, whatever stands around them. -/
structure ReadsAs (v : List (Token Value) → Option Truth) (tokens : List (Token Value)) (x : Truth) : Prop where
  or : Passes (Level.meets .or) {} {} tokens
  and : Passes (Level.meets .and) {} {} tokens
  factor : ∀ n, tokens.length ≤ n → readFactor v (readWords v n) tokens = some x

/-- The words of a run. -/
def joined (run : List (List (Token Value))) : List (Token Value) :=
  List.intercalate [.keyword .and] (run.map Token.words)

theorem joined_singleton (a : List (Token Value)) : joined [a] = Token.words a := by
  simp [joined, List.intercalate]

theorem joined_cons (a b : List (Token Value)) (run : List (List (Token Value))) :
    joined (a :: b :: run) = Token.words a ++ .keyword .and :: joined (b :: run) := by
  simp [joined, List.intercalate]

theorem words_connect_singleton (c : Connector) (a : List (Token Value)) :
    Token.words (connect [(c, a)]) = Token.words a := by
  simp [connect]

theorem words_connect_cons (c d : Connector) (a b : List (Token Value))
    (rest : List (Connector × List (Token Value))) :
    Token.words (connect ((c, a) :: (d, b) :: rest))
      = Token.words a ++ .keyword d.keyword :: Token.words (connect ((d, b) :: rest)) := by
  simp [connect]

/-- Cutting connected factors at `OR` gives their runs. -/
theorem cut_or_connect {list : List (Connector × List (Token Value))} (hne : list ≠ [])
    (h : ∀ e ∈ list, Passes (Level.meets .or) {} {} (Token.words e.2)) :
    cut (Level.meets .or) {} (Token.words (connect list)) = (runs list).map joined := by
  induction list with
  | nil => exact absurd rfl hne
  | cons e rest ih =>
    obtain ⟨c, a⟩ := e
    rw [List.forall_mem_cons] at h
    have ha : Passes (Level.meets .or) {} {} (Token.words a) := h.1
    match rest with
    | [] =>
      rw [words_connect_singleton, ha.cut_eq, runs, List.map_singleton, joined_singleton]
    | (.or, b) :: rest =>
      have hrest := ih (by simp) h.2
      have hcut := ha.cut_append_cons (t := .keyword .or) rfl (Token.words (connect ((.or, b) :: rest)))
      rw [words_connect_cons, runs, List.map_cons, joined_singleton, ← hrest]
      exact hcut
    | (.and, b) :: rest =>
      have hrest := ih (by simp) h.2
      have hand : Passes (Level.meets .or) {} {} [.keyword .and] := .token rfl rfl
      have hcut := ha.append hand (Token.words (connect ((.and, b) :: rest)))
      obtain ⟨run, more, hruns⟩ := runs_cons .and b rest
      rw [hrest, hruns, List.append_assoc] at hcut
      rw [words_connect_cons, runs, hruns, addToFirst, List.map_cons, joined_cons]
      simpa [prepend, Connector.keyword] using hcut

/-- Cutting a run at `AND` gives its factors. -/
theorem cut_and_joined {run : List (List (Token Value))} (hne : run ≠ [])
    (h : ∀ a ∈ run, Passes (Level.meets .and) {} {} (Token.words a)) :
    cut (Level.meets .and) {} (joined run) = run.map Token.words := by
  induction run with
  | nil => exact absurd rfl hne
  | cons a rest ih =>
    rw [List.forall_mem_cons] at h
    match rest with
    | [] =>
      rw [joined_singleton, h.1.cut_eq, List.map_singleton]
    | b :: rest =>
      have hrest := ih (by simp) h.2
      have hcut := h.1.cut_append_cons (t := .keyword .and) rfl (joined (b :: rest))
      rw [joined_cons, List.map_cons, ← hrest]
      exact hcut

theorem mapM_eq_some {α β : Type} {f : α → Option β} {xs : List α} {ys : List β}
    (h : List.Forall₂ (fun x y => f x = some y) xs ys) : xs.mapM f = some ys := by
  induction h with
  | nil => rfl
  | cons hx _ ih => rw [List.mapM_cons, hx, ih]; rfl

theorem length_words_le_connect {list : List (Connector × List (Token Value))}
    {e : Connector × List (Token Value)} (he : e ∈ list) :
    (Token.words e.2).length ≤ (Token.words (connect list)).length := by
  induction list with
  | nil => cases he
  | cons first rest ih =>
    obtain ⟨c, a⟩ := first
    match rest with
    | [] =>
      have hlength : (Token.words e.2).length = (Token.words (connect [(c, a)])).length := by
        rw [List.mem_singleton.1 he, words_connect_singleton]
      exact Nat.le_of_eq hlength
    | (d, b) :: rest =>
      rw [words_connect_cons, List.length_append, List.length_cons]
      rcases List.mem_cons.1 he with rfl | he
      · exact Nat.le_add_right _ _
      · have hrest := ih he
        omega

/-- A factor of a run and its truth. -/
def IsFactor (v : List (Token Value) → Option Truth) (inner : List (Token Value) → Option Truth)
    (a : List (Token Value)) (x : Truth) : Prop :=
  Passes (Level.meets .and) {} {} (Token.words a) ∧ readFactor v inner (Token.words a) = some x

/-- A run of factors is read as the conjunction of their truth values. -/
theorem readRun_joined {inner : List (Token Value) → Option Truth} {run : List (List (Token Value))}
    {truths : List Truth} (hne : run ≠ []) (h : List.Forall₂ (IsFactor v inner) run truths) :
    readRun v inner (joined run) = some (Truth.all truths) := by
  obtain ⟨hpasses, hfactors⟩ := (List.forall₂_and_left _ _).1 h
  have hread : (run.map Token.words).mapM (readFactor v inner) = some truths :=
    mapM_eq_some (List.forall₂_map_left_iff.2 hfactors)
  rw [readRun, cut_and_joined hne hpasses, hread]
  rfl

/-- Connected factors are read as their truth values are connected. -/
theorem readWords_connect {list : List (Connector × List (Token Value))} {truths : List (Connector × Truth)}
    {n : Nat} (hne : list ≠ []) (hn : (Token.words (connect list)).length ≤ n)
    (h : List.Forall₂ (fun e x => e.1 = x.1 ∧ ReadsAs v (Token.words e.2) x.2) list truths) :
    readWords v (n + 1) (Token.words (connect list)) = some (connected truths) := by
  have hlengths : ∀ e ∈ list, (Token.words e.2).length ≤ n := fun e he =>
    Nat.le_trans (length_words_le_connect he) hn
  have hfactors : List.Forall₂ (fun e x => e.1 = x.1 ∧ IsFactor v (readWords v n) e.2 x.2) list truths := by
    have hboth := (List.forall₂_and_left _ _).2 ⟨hlengths, h⟩
    exact hboth.imp fun e x hex => ⟨hex.2.1, hex.2.2.and, hex.2.2.factor n hex.1⟩
  have hor : ∀ e ∈ list, Passes (Level.meets .or) {} {} (Token.words e.2) := by
    have hpasses : List.Forall₂ (fun e x => Passes (Level.meets .or) {} {} (Token.words e.2) ∧ True)
        list truths := h.imp fun e x hex => ⟨hex.2.or, trivial⟩
    exact ((List.forall₂_and_left _ _).1 hpasses).1
  have hruns : List.Forall₂ (fun run xs => readRun v (readWords v n) (joined run) = some (Truth.all xs))
      (runs list) (runs truths) := by
    have hboth := (List.forall₂_and_left _ _).2 ⟨fun run => ne_nil_of_mem_runs, forall₂_runs hfactors⟩
    exact hboth.imp fun run xs hrun => readRun_joined hrun.1 hrun.2
  have hread : ((runs list).map joined).mapM (readRun v (readWords v n))
      = some ((runs truths).map Truth.all) :=
    mapM_eq_some (List.forall₂_map_left_iff.2 (List.forall₂_map_right_iff.2 hruns))
  rw [readWords, cut_or_connect hne hor, hread]
  rfl

/-! ## Single factors -/

/-- The tokens that an atom may begin with. -/
def Token.leads : Token Value → Bool
  | .keyword .not | .symbol .lparen | .litInt _ => false
  | _ => true

theorem readFactor_of_leads {inner : List (Token Value) → Option Truth} {t : Token Value}
    (h : t.leads = true) (rest : List (Token Value)) :
    readFactor v inner (t :: rest) = readAtom v (t :: rest) := by
  cases t with
  | keyword k => cases k <;> first | rfl | cases h
  | symbol s => cases s <;> first | rfl | cases h
  | litInt n => cases h
  | _ => rfl

theorem readAtom_of_leads {t : Token Value} (h : t.leads = true) (rest : List (Token Value)) :
    readAtom v (t :: rest) =
      match cut (Level.meets .not) {} (t :: rest), cut (Level.meets .isNotNull) {} (t :: rest) with
      | [column, rest], _ => (v (column ++ rest)).map Truth.not
      | _, [column, rest] => (v (column ++ .keyword .isNull :: rest)).map Truth.not
      | _, _ => v (t :: rest) := by
  cases t with
  | litInt n => cases h
  | _ => rfl

/-- Words without a token that anything is cut at. -/
structure Uncut (tokens : List (Token Value)) : Prop where
  or : Passes (Level.meets .or) {} {} tokens
  and : Passes (Level.meets .and) {} {} tokens
  not : Passes (Level.meets .not) {} {} tokens
  isNotNull : Passes (Level.meets .isNotNull) {} {} tokens

namespace Uncut

theorem append (ha : Uncut a) (hb : Uncut b) : Uncut (a ++ b) :=
  ⟨ha.or.append hb.or, ha.and.append hb.and, ha.not.append hb.not, ha.isNotNull.append hb.isNotNull⟩

/-- A keyword between the two sides of an atom. -/
theorem keyword {k : Keyword} (hk : k ∈ [Keyword.in_, .like, .ilike, .isNull, .exists]) :
    Uncut [.keyword k] := by
  simp only [List.mem_cons, List.not_mem_nil, or_false] at hk
  rcases hk with rfl | rfl | rfl | rfl | rfl <;>
    exact ⟨.token rfl rfl, .token rfl rfl, .token rfl rfl, .token rfl rfl⟩

/-- `BETWEEN` and its two bounds. -/
theorem between (low high : Value) :
    Uncut [.keyword .between, .param low, .keyword .and, .param high] := by
  constructor <;> exact .cons rfl (.cons rfl (.cons rfl (.token rfl rfl)))

end Uncut

/-- A phrase without keywords outside parentheses is uncut. -/
theorem Phrase.uncut {p : Profile} {F : Fragment → Prop} (h : Phrase p F (fun _ => false) ts) :
    Uncut (Token.words ts) := by
  have hcalm : ∀ k, Calm (Level.meets k) {} (fun _ => false) := fun k => calm_meets fun _ h => nomatch h
  exact ⟨h.passes (hcalm _), h.passes (hcalm _), h.passes (hcalm _), h.passes (hcalm _)⟩

/-- A keyword in front of such a phrase. -/
theorem Phrase.uncut_spaced {p : Profile} {F : Fragment → Prop} (h : Phrase p F (fun _ => false) ts)
    {k : Keyword} (hk : k ∈ [Keyword.in_, .like, .ilike, .isNull, .exists]) :
    Uncut (Token.words (Token.spaced k ++ ts)) :=
  (Uncut.keyword hk).append h.uncut

/-- Uncut words that an atom may begin with. -/
structure IsSubject (tokens : List (Token Value)) : Prop where
  leads : ∃ t rest, tokens = t :: rest ∧ t.leads = true
  uncut : Uncut tokens

theorem IsSubject.append (ha : IsSubject a) (hb : Uncut b) : IsSubject (a ++ b) := by
  obtain ⟨t, rest, rfl, ht⟩ := ha.leads
  exact ⟨⟨t, rest ++ b, rfl, ht⟩, ha.uncut.append hb⟩

namespace ReadsAs

/-- A plain atom. -/
theorem atom (hs : IsSubject a) (hv : v a = some x) : ReadsAs v a x := by
  refine ⟨hs.uncut.or, hs.uncut.and, fun n _ => ?_⟩
  obtain ⟨t, rest, rfl, hleads⟩ := hs.leads
  rw [readFactor_of_leads hleads, readAtom_of_leads hleads, hs.uncut.not.cut_eq, hs.uncut.isNotNull.cut_eq]
  exact hv

/-- An atom with a negation inside. -/
theorem negatedAtom (ha : IsSubject a) (hb : Uncut b) (hv : v (a ++ b) = some x) :
    ReadsAs v (a ++ .keyword .not :: b) x.not := by
  refine ⟨ha.uncut.or.append (.cons rfl hb.or), ha.uncut.and.append (.cons rfl hb.and), fun n _ => ?_⟩
  have hcut := ha.uncut.not.cut_append_cons (t := .keyword .not) rfl b
  have hrest : cut (Level.meets .not) (Level.step {} (.keyword .not)) b = [b] := hb.not.cut_eq
  obtain ⟨t, rest, rfl, hleads⟩ := ha.leads
  rw [List.cons_append] at hcut ⊢
  rw [readFactor_of_leads hleads, readAtom_of_leads hleads, hcut, hrest]
  exact congrArg (Option.map Truth.not) hv

/-- An atom that ends with a negated test for null. -/
theorem isNotNull (ha : IsSubject a) (hv : v (a ++ [.keyword .isNull]) = some x) :
    ReadsAs v (a ++ [.keyword .isNotNull]) x.not := by
  have hnull : ∀ k ∈ [Keyword.or, .and, .not], Passes (Level.meets k) {} {} [.keyword .isNotNull] := by
    intro k hk
    simp only [List.mem_cons, List.not_mem_nil, or_false] at hk
    rcases hk with rfl | rfl | rfl <;> exact .token rfl rfl
  refine ⟨ha.uncut.or.append (hnull _ (by simp)), ha.uncut.and.append (hnull _ (by simp)), fun n _ => ?_⟩
  have hnot := (ha.uncut.not.append (hnull _ (by simp))).cut_eq
  have hcut := ha.uncut.isNotNull.cut_append_cons (t := .keyword .isNotNull) rfl []
  obtain ⟨t, rest, rfl, hleads⟩ := ha.leads
  rw [List.cons_append] at hnot hcut ⊢
  rw [readFactor_of_leads hleads, readAtom_of_leads hleads, hnot, hcut]
  exact congrArg (Option.map Truth.not) hv

/-- A comparison of constants. -/
theorem constantTest (holds : Bool) :
    ReadsAs v (Token.words (QueryCompiler.constantTest holds)) (if holds then .yes else .no) := by
  have hplain : ∀ t ∈ (QueryCompiler.constantTest holds : List (Token Value)), t.isPlain = true := by
    cases holds <;> simp [QueryCompiler.constantTest, Token.isPlain]
  have hmeets : ∀ k t, t.isPlain = true → Level.meets k {} t = false := fun k =>
    (calm_meets (K := fun _ => false) fun _ h => nomatch h).plain
  refine ⟨.plain (hmeets _) hplain, .plain (hmeets _) hplain, fun n _ => ?_⟩
  cases holds <;> rfl

theorem not (h : ReadsAs v a x) : ReadsAs v (.keyword .not :: a) x.not := by
  refine ⟨.cons rfl h.or, .cons rfl h.and, fun n hn => ?_⟩
  have hfactor := h.factor n (Nat.le_of_succ_le hn)
  rw [readFactor, hfactor]
  rfl

theorem notBefore (negated : Bool) (h : ReadsAs v a x) :
    ReadsAs v (Token.words (Token.notBefore negated) ++ a) (x.negate negated) := by
  cases negated with
  | false => exact h
  | true => exact h.not

/-- One factor on its own. -/
theorem readWords (h : ReadsAs v a x) {n : Nat} (hn : a.length < n) :
    QueryCompiler.readWords v n a = some x := by
  obtain ⟨m, rfl⟩ := Nat.exists_eq_succ_of_ne_zero (Nat.ne_of_gt (Nat.zero_lt_of_lt hn))
  have hfactor := h.factor m (Nat.le_of_lt_succ hn)
  rw [QueryCompiler.readWords, h.or.cut_eq, List.mapM_cons, List.mapM_nil, readRun, h.and.cut_eq,
    List.mapM_cons, List.mapM_nil, hfactor]
  cases x <;> rfl

/-- A text in parentheses. -/
theorem parenthesized {p : Profile} {F : Fragment → Prop} {K : Keyword → Bool} (hphrase : Phrase p F K ts)
    (h : ∀ n, (Token.words ts).length < n → QueryCompiler.readWords v n (Token.words ts) = some x) :
    ReadsAs v (Token.parenthesized (Token.words ts)) x := by
  have houter : Phrase p F (fun _ => false) (Token.parenthesized ts) := .enclosed hphrase
  have huncut := houter.uncut
  rw [Token.words_parenthesized] at huncut
  refine ⟨huncut.or, huncut.and, fun n hn => ?_⟩
  have hclose : cut Level.closes ⟨1, false⟩ (Token.words ts ++ [.symbol .rparen]) = [Token.words ts, []] :=
    (hphrase.passes calm_closes).cut_append_cons rfl []
  have hlength : (Token.words ts).length < n := by
    simp only [Token.parenthesized, List.length_append, List.length_cons, List.length_nil] at hn
    omega
  have henclosed : enclosed? (Token.parenthesized (Token.words ts)) = some (Token.words ts) := by
    simp only [Token.parenthesized, List.cons_append, enclosed?, hclose]
  have hfactor : readFactor v (QueryCompiler.readWords v n) (Token.parenthesized (Token.words ts))
      = match enclosed? (Token.parenthesized (Token.words ts)) with
        | some body => QueryCompiler.readWords v n body
        | none => readAtom v (Token.parenthesized (Token.words ts)) := rfl
  rw [hfactor, henclosed]
  exact h n hlength

end ReadsAs

end QueryCompiler
