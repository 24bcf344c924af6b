-- SUMMARY: Numbering the parameters of tokens in the order of the text, group by group.
import QueryCompiler.Proofs.Outcome
import QueryCompiler.Proofs.Tokens

/-!
# Numbering

`renumber` replaces the values at the parameters of tokens by numbers that count up
in the order of the text. Where the counting begins is all that a part has to know of
what stands before it, and how far it goes is the number of its own parameters. So
the groups that a statement is put together from are numbered one after the other.
-/

namespace QueryCompiler

/-! ## Tokens with other parameters -/

namespace Token

variable {α β : Type}

/-- Replaces what stands at a parameter. -/
def map (f : α → β) : Token α → Token β
  | .keyword k => .keyword k
  | .symbol s => .symbol s
  | .space => .space
  | .ident name => .ident name
  | .litInt n => .litInt n
  | .function name => .function name
  | .param a => .param (f a)
  | .raw text => .raw text

/-- The parameters replaced by the numbers from `n` on, in the order of the text. -/
def renumber (n : Nat) : List (Token α) → List (Token Nat)
  | [] => []
  | t :: rest => t.map (fun _ => n) :: renumber (n + t.param?.toList.length) rest

theorem params_cons (t : Token α) (rest : List (Token α)) :
    params (t :: rest) = t.param?.toList ++ params rest := by
  cases t <;> rfl

theorem param?_map (f : α → β) (t : Token α) : (t.map f).param? = t.param?.map f := by
  cases t <;> rfl

theorem params_renumber (n : Nat) (tokens : List (Token α)) :
    params (renumber n tokens) = List.range' n (params tokens).length := by
  induction tokens generalizing n with
  | nil => rfl
  | cons t rest ih =>
    rw [renumber, params_cons, params_cons, ih, param?_map]
    cases t.param? with
    | none => rfl
    | some a => simp [List.range'_succ]

theorem map_intersperse_dot (f : α → β) (ts : List (Token α)) :
    (ts.intersperse (.symbol .dot)).map (map f) = (ts.map (map f)).intersperse (.symbol .dot) := by
  induction ts with
  | nil => rfl
  | cons t rest ih =>
    cases rest with
    | nil => rfl
    | cons next rest =>
      rw [List.intersperse_cons_cons, List.map_cons, List.map_cons, ih]
      rfl

/-- Tokens without parameters only change their type. -/
theorem renumber_of_params_eq_nil {ts : List (Token α)} (h : params ts = []) (n : Nat) :
    renumber n ts = ts.map (map fun _ => n) := by
  induction ts with
  | nil => rfl
  | cons t rest ih =>
    rw [params_cons, List.append_eq_nil_iff] at h
    rw [renumber, h.1, List.map_cons]
    exact congrArg _ (ih h.2)

/-- The text of tokens, when each parameter is spelled as another one is. -/
theorem textOf_congr {p : Profile} {f g : α → String} {tokens : List (Token α)}
    (h : ∀ a ∈ params tokens, f a = g a) : textOf p f tokens = textOf p g tokens := by
  have htext : ∀ t ∈ tokens, t.text p f = t.text p g := by
    intro t ht
    cases t with
    | param a => exact h a (List.mem_filterMap.2 ⟨_, ht, rfl⟩)
    | _ => rfl
  rw [textOf, textOf, List.map_congr_left htext]

end Token

/-! ## Parameters of groups of tokens -/

namespace Token

variable {α : Type}

@[simp] theorem params_keyword (k : Keyword) (ts : List (Token α)) :
    params (.keyword k :: ts) = params ts :=
  rfl

@[simp] theorem params_symbol (s : Symbol) (ts : List (Token α)) : params (.symbol s :: ts) = params ts :=
  rfl

@[simp] theorem params_space (ts : List (Token α)) : params (.space :: ts) = params ts :=
  rfl

@[simp] theorem params_function (name : String) (ts : List (Token α)) :
    params (.function name :: ts) = params ts :=
  rfl

@[simp] theorem params_litInt (n : Int64) (ts : List (Token α)) : params (.litInt n :: ts) = params ts :=
  rfl

@[simp] theorem params_raw (text : String) (ts : List (Token α)) : params (.raw text :: ts) = params ts :=
  rfl

@[simp] theorem params_param (a : α) (ts : List (Token α)) : params (.param a :: ts) = a :: params ts := rfl

@[simp] theorem params_value (v : Value) (ts : List (Token Value)) :
    params (value v :: ts) = v :: params ts :=
  rfl

@[simp] theorem params_spaced (k : Keyword) : params (spaced k : List (Token α)) = [] :=
  rfl

@[simp] theorem params_parenthesized (ts : List (Token α)) : params (parenthesized ts) = params ts := by
  rw [parenthesized, params_append, params_symbol, params_symbol, params_nil, List.append_nil]

@[simp] theorem params_notBefore (negated : Bool) : params (notBefore negated : List (Token α)) = [] := by
  cases negated <;> rfl

@[simp] theorem params_notAfter (negated : Bool) : params (notAfter negated : List (Token α)) = [] := by
  cases negated <;> rfl

@[simp] theorem params_sectionOf (k : Keyword) (body : List (Token α)) :
    params (sectionOf k body) = params body := by
  unfold sectionOf
  split
  next h => rw [List.isEmpty_iff.1 h]
  next => rw [params_append, params_spaced, List.nil_append]

@[simp] theorem params_flatten (groups : List (List (Token α))) :
    params groups.flatten = groups.flatMap params := by
  induction groups with
  | nil => rfl
  | cons group rest ih => rw [List.flatten_cons, params_append, ih, List.flatMap_cons]

@[simp] theorem params_commaSeparated (groups : List (List (Token α))) :
    params (commaSeparated groups) = groups.flatMap params := by
  induction groups with
  | nil => rfl
  | cons group rest ih =>
    cases rest with
    | nil => simp [commaSeparated, List.intercalate]
    | cons next rest =>
      rw [List.flatMap_cons, ← ih]
      simp [commaSeparated, List.intercalate]

theorem params_intersperse (s : Symbol) (ts : List (Token α)) :
    params (ts.intersperse (.symbol s)) = params ts := by
  induction ts with
  | nil => rfl
  | cons t rest ih =>
    cases rest with
    | nil => rfl
    | cons next rest => rw [List.intersperse_cons_cons, params_cons, params_symbol, ih, ← params_cons]

end Token

/-! ### Names -/

section

variable {α : Type} (p : Profile)

theorem param?_segmentToken (cs : List Char) : (p.segmentToken cs : Token α).param? = none := by
  unfold Profile.segmentToken
  split
  · rfl
  · split <;> rfl

@[simp] theorem params_aliasToken (name : String) (ts : List (Token α)) :
    Token.params (p.aliasToken name :: ts) = Token.params ts := by
  rw [Token.params_cons, Profile.aliasToken, param?_segmentToken]
  rfl

@[simp] theorem params_reference (name : String) :
    Token.params (p.reference name : List (Token α)) = [] := by
  rw [Profile.reference, Token.params_intersperse]
  refine List.filterMap_eq_nil_iff.2 fun t ht => ?_
  obtain ⟨cs, -, rfl⟩ := List.mem_map.1 ht
  exact param?_segmentToken p _

@[simp] theorem params_tableAlias (name : String) :
    Token.params (p.tableAlias name : List (Token α)) = [] := by
  unfold Profile.tableAlias
  split <;> simp

@[simp] theorem params_table (name : String) (aliasName : Option String) :
    Token.params (p.table name aliasName : List (Token α)) = [] := by
  unfold Profile.table
  split
  · simp
  · split <;> simp

@[simp] theorem params_aliasTokens (aliasName : Option String) :
    Token.params (aliasTokens p aliasName : List (Token α)) = [] := by
  cases aliasName <;> simp [aliasTokens]

end

/-! ### Parts of statements -/

section

variable {α : Type}

@[simp] theorem params_nullTest {column : List (Token α)} (isNull : Bool) :
    Token.params (nullTest column isNull) = Token.params column := by
  simp [nullTest]

@[simp] theorem params_constantTest (holds : Bool) : Token.params (constantTest holds : List (Token α)) = [] :=
  rfl

@[simp] theorem params_connect (list : List (Connector × List (Token α))) :
    Token.params (connect list) = list.flatMap fun entry => Token.params entry.2 := by
  cases list with
  | nil => rfl
  | cons first rest =>
    have hrest :
        Token.params (rest.flatMap fun entry => Token.spaced entry.1.keyword ++ entry.2)
        = rest.flatMap fun entry => Token.params entry.2 := by
      rw [List.flatMap_def, Token.params_flatten, List.flatMap_map]
      simp
    rw [connect, Token.params_append, List.flatMap_cons]
    exact congrArg _ hrest

@[simp] theorem params_joinKind (kind : JoinKind) : Token.params (kind.tokens : List (Token α)) = [] := by
  cases kind <;> rfl

@[simp] theorem params_selectAllFrom (inner : List (Token α)) :
    Token.params (selectAllFrom inner) = Token.params inner := by
  simp [selectAllFrom]

end

/-! ## Renumbered groups of tokens -/

namespace Token

variable {α : Type} (n : Nat) (ts : List (Token α))

@[simp] theorem renumber_nil : renumber n ([] : List (Token α)) = [] := rfl

@[simp] theorem renumber_keyword (k : Keyword) :
    renumber n (.keyword k :: ts) = .keyword k :: renumber n ts := rfl

@[simp] theorem renumber_symbol (s : Symbol) : renumber n (.symbol s :: ts) = .symbol s :: renumber n ts := rfl

@[simp] theorem renumber_space : renumber n (.space :: ts) = .space :: renumber n ts := rfl

@[simp] theorem renumber_function (name : String) :
    renumber n (.function name :: ts) = .function name :: renumber n ts := rfl

@[simp] theorem renumber_litInt (m : Int64) : renumber n (.litInt m :: ts) = .litInt m :: renumber n ts := rfl

@[simp] theorem renumber_raw (text : String) : renumber n (.raw text :: ts) = .raw text :: renumber n ts := rfl

@[simp] theorem renumber_param (a : α) : renumber n (.param a :: ts) = .param n :: renumber (n + 1) ts := rfl

@[simp] theorem renumber_value (v : Value) (ts : List (Token Value)) :
    renumber n (value v :: ts) = .param n :: renumber (n + 1) ts := rfl

@[simp] theorem renumber_append (a b : List (Token α)) :
    renumber n (a ++ b) = renumber n a ++ renumber (n + (params a).length) b := by
  induction a generalizing n with
  | nil => rfl
  | cons t rest ih =>
    simp only [List.cons_append, renumber, ih, params_cons, List.length_append, Nat.add_assoc]

@[simp] theorem renumber_parenthesized :
    renumber n (parenthesized ts) = parenthesized (renumber n ts) := by
  simp only [parenthesized, List.cons_append, renumber_symbol, renumber_append, renumber_nil]

@[simp] theorem renumber_spaced (k : Keyword) : renumber n (spaced k : List (Token α)) = spaced k := rfl

@[simp] theorem renumber_notBefore (negated : Bool) :
    renumber n (notBefore negated : List (Token α)) = notBefore negated := by
  cases negated <;> rfl

@[simp] theorem renumber_notAfter (negated : Bool) :
    renumber n (notAfter negated : List (Token α)) = notAfter negated := by
  cases negated <;> rfl

@[simp] theorem isEmpty_renumber : (renumber n ts).isEmpty = ts.isEmpty := by
  cases ts <;> rfl

@[simp] theorem renumber_sectionOf (k : Keyword) :
    renumber n (sectionOf k ts) = sectionOf k (renumber n ts) := by
  unfold sectionOf
  rw [isEmpty_renumber]
  split
  · rfl
  · rw [renumber_append, renumber_spaced]
    rfl

theorem exists_renumber_isInfix {part whole : List (Token α)} (h : part <:+: whole) (m : Nat) :
    ∃ n, renumber n part <:+: renumber m whole := by
  obtain ⟨before, after, rfl⟩ := h
  rw [renumber_append, renumber_append]
  exact ⟨_, _, _, rfl⟩

/-- Several groups, numbered one after the other. -/
def renumberAll (n : Nat) : List (List (Token α)) → List (List (Token Nat))
  | [] => []
  | group :: rest => renumber n group :: renumberAll (n + (params group).length) rest

theorem renumberAll_values (values : List Value) :
    renumberAll n (values.map fun v => [value v]) = (renumber n (values.map .param)).map fun t => [t] := by
  induction values generalizing n with
  | nil => rfl
  | cons v rest ih =>
    rw [List.map_cons, renumberAll, ih]
    rfl

@[simp] theorem renumber_flatten (groups : List (List (Token α))) :
    renumber n groups.flatten = (renumberAll n groups).flatten := by
  induction groups generalizing n with
  | nil => rfl
  | cons group rest ih => rw [List.flatten_cons, renumber_append, ih, renumberAll, List.flatten_cons]

@[simp] theorem renumber_commaSeparated (groups : List (List (Token α))) :
    renumber n (commaSeparated groups) = commaSeparated (renumberAll n groups) := by
  induction groups generalizing n with
  | nil => rfl
  | cons group rest ih =>
    cases rest with
    | nil => simp [commaSeparated, List.intercalate, renumberAll]
    | cons next rest =>
      have hrest := ih (n + (params group).length)
      simp only [commaSeparated, List.intercalate, List.intersperse_cons_cons, List.flatten_cons, renumberAll,
        renumber_append, renumber_symbol, renumber_space, renumber_nil, params_symbol, params_space, params_nil,
        List.length_nil, Nat.add_zero] at hrest ⊢
      rw [hrest]

end Token

/-! ### Names -/

section

variable {α : Type} (p : Profile) (n : Nat)

theorem map_segmentToken (f : α → Nat) (cs : List Char) :
    (p.segmentToken cs : Token α).map f = p.segmentToken cs := by
  unfold Profile.segmentToken
  split
  · rfl
  · split <;> rfl

@[simp] theorem renumber_aliasToken (name : String) (ts : List (Token α)) :
    Token.renumber n (p.aliasToken name :: ts) = p.aliasToken name :: Token.renumber n ts := by
  rw [Token.renumber, Profile.aliasToken, map_segmentToken, param?_segmentToken]
  rfl

@[simp] theorem renumber_reference (name : String) :
    Token.renumber n (p.reference name : List (Token α)) = p.reference name := by
  rw [Token.renumber_of_params_eq_nil (params_reference p name), Profile.reference, Token.map_intersperse_dot,
    List.map_map]
  simp only [Function.comp_def, map_segmentToken]
  rfl

@[simp] theorem renumber_tableAlias (name : String) :
    Token.renumber n (p.tableAlias name : List (Token α)) = p.tableAlias name := by
  unfold Profile.tableAlias
  split <;> simp

@[simp] theorem renumber_table (name : String) (aliasName : Option String) :
    Token.renumber n (p.table name aliasName : List (Token α)) = p.table name aliasName := by
  unfold Profile.table
  split
  · simp
  · split <;> simp

@[simp] theorem renumber_aliasTokens (aliasName : Option String) :
    Token.renumber n (aliasTokens p aliasName : List (Token α)) = aliasTokens p aliasName := by
  cases aliasName <;> simp [aliasTokens]

end

/-! ### Parts of statements -/

section

variable {α : Type} (n : Nat)

@[simp] theorem renumber_nullTest (column : List (Token α)) (isNull : Bool) :
    Token.renumber n (nullTest column isNull) = nullTest (Token.renumber n column) isNull := by
  simp [nullTest]

@[simp] theorem renumber_constantTest (holds : Bool) :
    Token.renumber n (constantTest holds : List (Token α)) = constantTest holds := rfl

@[simp] theorem renumber_joinKind (kind : JoinKind) :
    Token.renumber n (kind.tokens : List (Token α)) = kind.tokens := by
  cases kind <;> rfl

@[simp] theorem renumber_selectAllFrom (inner : List (Token α)) :
    Token.renumber n (selectAllFrom inner) = selectAllFrom (Token.renumber n inner) := by
  simp [selectAllFrom]

/-- Conditions with their connectors, numbered one after the other. -/
def renumberEach (n : Nat) : List (Connector × List (Token α)) → List (Connector × List (Token Nat))
  | [] => []
  | (connector, tokens) :: rest =>
    (connector, Token.renumber n tokens) :: renumberEach (n + (Token.params tokens).length) rest

@[simp] theorem renumber_connect (list : List (Connector × List (Token α))) :
    Token.renumber n (connect list) = connect (renumberEach n list) := by
  have hrest (n : Nat) (rest : List (Connector × List (Token α))) :
      Token.renumber n (rest.flatMap fun entry => Token.spaced entry.1.keyword ++ entry.2)
      = (renumberEach n rest).flatMap fun entry => Token.spaced entry.1.keyword ++ entry.2 := by
    induction rest generalizing n with
    | nil => rfl
    | cons entry rest ih => simp [renumberEach, ih]
  cases list with
  | nil => rfl
  | cons first rest =>
    rw [connect, Token.renumber_append]
    exact congrArg (Token.renumber n first.2 ++ ·) (hrest _ rest)

end

/-! ## Numbering in a context -/

/-- Binds the values of `own` after those of `b`. -/
def Bindings.append (b own : Bindings) : Bindings :=
  ⟨b.values ++ own.values⟩

namespace Context

/-- Binds values. -/
def bindAll (c : Context) (values : List Value) : Context :=
  { c with bindings := ⟨c.bindings.values ++ values.toArray⟩ }

/-- Numbers the parameters of tokens and binds the values at them, after those that are bound already. -/
def number (c : Context) (ts : List (Token Value)) : List (Token Nat) × Context :=
  (Token.renumber c.bindings.size ts, c.bindAll (Token.params ts))

/-- Numbers several groups of tokens, one after the other. -/
def numberAll (c : Context) (groups : List (List (Token Value))) : List (List (Token Nat)) × Context :=
  (Token.renumberAll c.bindings.size groups, c.bindAll (groups.flatMap Token.params))

/-- Numbers conditions with their connectors, one after the other. -/
def numberEach (c : Context) (list : List (Connector × List (Token Value))) :
    List (Connector × List (Token Nat)) × Context :=
  (renumberEach c.bindings.size list, c.bindAll (list.flatMap fun entry => Token.params entry.2))

variable (c : Context)

@[simp] theorem depth_bindAll (values : List Value) : (c.bindAll values).depth = c.depth := by
  rw [bindAll]

@[simp] theorem size_bindAll (values : List Value) :
    (c.bindAll values).bindings.size = c.bindings.size + values.length := by
  simp [bindAll, Bindings.size]

@[simp] theorem bindAll_nil : c.bindAll [] = c := by
  simp [bindAll]

@[simp] theorem bindAll_bindAll (a b : List Value) : (c.bindAll a).bindAll b = c.bindAll (a ++ b) := by
  simp [bindAll]

theorem number_empty (ts : List (Token Value)) :
    ({} : Context).number ts = (Token.renumber 0 ts, { bindings := ⟨(Token.params ts).toArray⟩ }) := by
  simp [number, bindAll, Bindings.size]

/-- A part is numbered after the part before it. -/
theorem number_append (first rest : List (Token Value)) :
    c.number (first ++ rest)
      = ((c.number first).1 ++ ((c.number first).2.number rest).1, ((c.number first).2.number rest).2) := by
  simp only [number, Token.renumber_append, Token.params_append, bindAll_bindAll, size_bindAll]

end Context

/-! ## Values put back -/

/-- The tokens with the bound values put back at their parameters. -/
def Bindings.restore (b : Bindings) (ts : List (Token Nat)) : List (Token Value) :=
  ts.map (Token.map fun i => b.values.getD i .null)

theorem Token.restore_renumber {f : Nat → Value} {n : Nat} {ts : List (Token Value)}
    (h : ∀ (i : Nat) (v : Value), (params ts)[i]? = some v → f (n + i) = v) :
    (renumber n ts).map (Token.map f) = ts := by
  induction ts generalizing n with
  | nil => rfl
  | cons t rest ih =>
    rw [renumber, List.map_cons]
    rw [params_cons] at h
    cases t with
    | param v =>
      have hfirst : f n = v := h 0 v rfl
      have hrest : ∀ (i : Nat) (w : Value), (params rest)[i]? = some w → f (n + 1 + i) = w := by
        intro i w hw
        rw [Nat.add_assoc, Nat.add_comm 1]
        exact h (i + 1) w hw
      exact congrArg₂ _ (congrArg Token.param hfirst) (ih hrest)
    | _ => exact congrArg _ (ih h)

/-- Numbered tokens lead back to their values, since these have been bound. -/
theorem Context.restore_number (c : Context) (ts : List (Token Value)) :
    (c.number ts).2.bindings.restore (c.number ts).1 = ts := by
  refine Token.restore_renumber fun i v hv => ?_
  have hbehind : c.bindings.values.size ≤ c.bindings.values.size + i := Nat.le_add_right ..
  simp [number, bindAll, Bindings.size, Array.getElem?_append_right hbehind, hv]

end QueryCompiler
