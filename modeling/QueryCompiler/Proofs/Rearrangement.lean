-- SUMMARY: Only the order of the clauses within a section matters: queries that agree section by section, at any depth, are compiled alike.
import QueryCompiler.Proofs.Binding
import QueryCompiler.Query.Builder

/-!
# Rearrangement

Clauses accumulate in sections, and of a source, a limit or an offset only the last
one is in effect. Two clause lists that agree on this much may differ in any other
way: clauses of different sections may change places, and a clause that another one
takes the effect from may be left out. `Query.Rearranged` allows such a change in a
query and in the queries nested in it. The main result says that it changes nothing
of what is compiled, and no error either.
-/

namespace QueryCompiler

variable {σ : Type}

/-! ## Sections of a clause list -/

/-- The sections in which the clauses of a level accumulate. -/
inductive SectionKind where
  | items
  | joins
  | filters
  | groups
  | havings
  | orders
  | arms
  | ctes
deriving DecidableEq, Repr

/-- The section of a clause. The other clauses do not accumulate: what counts of them is what is in
effect in the end. -/
def Clause.kind? : Clause σ → Option SectionKind
  | .select _ | .column _ | .rawColumn _ | .aggregate .. | .subqueryColumn .. => some .items
  | .join _ => some .joins
  | .filter _ => some .filters
  | .groupBy _ => some .groups
  | .having _ => some .havings
  | .orderBy .. => some .orders
  | .setOperation .. => some .arms
  | .cte .. => some .ctes
  | .from _ | .limit _ | .offset _ | .distinct => none

namespace Clauses

/-- The clauses of one section in their order. -/
def ofKind (clauses : Clauses σ) (kind : SectionKind) : Clauses σ :=
  clauses.filter fun clause => clause.kind? = some kind

/-- The same clauses in every section, in the same order, and the same clauses in effect. -/
structure SameSections (clauses clauses' : Clauses σ) : Prop where
  ofKind : ∀ kind, clauses.ofKind kind = clauses'.ofKind kind
  source : clauses.source = clauses'.source
  limit : clauses.limit = clauses'.limit
  offset : clauses.offset = clauses'.offset
  isDistinct : clauses.isDistinct = clauses'.isDistinct

/-- A view of one section finds the same in the clauses of the section alone. -/
theorem filterMap_ofKind {α : Type} {view : Clause σ → Option α} {kind : SectionKind} (clauses : Clauses σ)
    (hview : ∀ clause, clause.kind? ≠ some kind → view clause = none) :
    (clauses.ofKind kind).filterMap view = clauses.filterMap view := by
  rw [ofKind, List.filterMap_filter]
  refine List.filterMap_congr fun clause _ => ?_
  by_cases hkind : clause.kind? = some kind
  · simp [hkind]
  · simp [hkind, hview clause hkind]

/-- A clause of another section adds nothing to the select list. -/
theorem ofClause_of_kind?_ne {clause : Clause σ} (h : clause.kind? ≠ some .items) :
    Selection.ofClause clause = .ok [] := by
  cases clause <;> first | rfl | exact absurd rfl h

theorem ofClauses_cons (clause : Clause σ) (rest : Clauses σ) :
    Selection.ofClauses (clause :: rest) = (Selection.ofClause clause >>= fun items =>
      (Selection.ofClauses rest).map (items ++ ·)) := by
  rw [Selection.ofClauses, Selection.ofClauses, List.mapM_cons]
  cases Selection.ofClause clause with
  | error e => rfl
  | ok items => cases rest.mapM Selection.ofClause <;> rfl

theorem ofClauses_ofKind (clauses : Clauses σ) :
    Selection.ofClauses (clauses.ofKind .items) = Selection.ofClauses clauses := by
  induction clauses with
  | nil => rfl
  | cons clause rest ih =>
    rw [ofKind] at ih ⊢
    by_cases hkind : clause.kind? = some .items
    · rw [List.filter_cons_of_pos (by simpa using hkind), ofClauses_cons, ofClauses_cons, ih]
    · rw [List.filter_cons_of_neg (by simpa using hkind), ofClauses_cons, ofClause_of_kind?_ne hkind, ih]
      cases Selection.ofClauses rest <;> rfl

namespace SameSections

variable {clauses clauses' : Clauses σ}

theorem filterMap_eq (h : clauses.SameSections clauses') {α : Type} (view : Clause σ → Option α)
    (kind : SectionKind)
    (hview : ∀ clause, clause.kind? ≠ some kind → view clause = none := by
      intro clause h; cases clause <;> first | rfl | exact absurd rfl h) :
    clauses.filterMap view = clauses'.filterMap view := by
  rw [← filterMap_ofKind clauses hview, h.ofKind, filterMap_ofKind clauses' hview]

theorem ofItems_eq (h : clauses.SameSections clauses') (items : List (Selection σ)) :
    Sections.ofItems items clauses = Sections.ofItems items clauses' := by
  simp only [Sections.ofItems, Clauses.orders, Clauses.page, h.source, h.limit, h.offset, h.isDistinct,
    h.filterMap_eq Clause.cte? .ctes, h.filterMap_eq Clause.join? .joins,
    h.filterMap_eq Clause.filter? .filters, h.filterMap_eq Clause.group? .groups,
    h.filterMap_eq Clause.having? .havings, h.filterMap_eq Clause.order? .orders,
    h.filterMap_eq Arm.ofClause? .arms]

theorem ofClauses_eq (h : clauses.SameSections clauses') :
    Sections.ofClauses clauses = Sections.ofClauses clauses' := by
  have hitems : Selection.ofClauses clauses = Selection.ofClauses clauses' := by
    rw [← ofClauses_ofKind clauses, h.ofKind, ofClauses_ofKind]
  rw [Sections.ofClauses, Sections.ofClauses, hitems]
  exact congrArg (Except.map · _) (funext h.ofItems_eq)

end SameSections

end Clauses

/-! ## Queries -/

namespace Query

theorem isDelimited_of_sameSections {clauses clauses' : Clauses Query} (h : clauses.SameSections clauses') :
    isDelimited ⟨clauses⟩ = isDelimited ⟨clauses'⟩ := by
  rw [isDelimited_eq _ [], isDelimited_eq _ [], h.ofItems_eq]

/-- Queries that become each other when clauses change places with clauses of other sections, or when
clauses without effect come and go, in the query itself or inside it at any depth. -/
inductive Rearranged : Query → Query → Prop where
  | clauses {clauses clauses' : Clauses Query} (h : clauses.SameSections clauses') :
      Rearranged ⟨clauses⟩ ⟨clauses'⟩
  /-- The clauses stay, and the queries nested in them are rearranged. -/
  | inside {ι : Type} {f g : ι → Query} (clauses : Clauses ι) (h : ∀ i, Rearranged (f i) (g i)) :
      Rearranged ⟨clauses.map (Clause.map f)⟩ ⟨clauses.map (Clause.map g)⟩
  | trans {q q' q'' : Query} (h : Rearranged q q') (h' : Rearranged q' q'') : Rearranged q q''

/-- A level with other queries in the places of the nested ones. -/
theorem map_nested_map {ι : Type} (t : Target) (f : ι → Query) (clauses : Clauses ι) :
    (clauses.map (Clause.map f)).map (Clause.map (Query.nested t))
      = clauses.map (Clause.map (Query.nested t ∘ f)) := by
  rw [List.map_map]
  exact List.map_congr_left fun clause _ => Clause.map_map f (Query.nested t) clause

variable {t : Target}

/-- Queries with the same tokens are emitted alike wherever they stand. -/
theorem emission_eq_of_tokensAt {q q' : Query}
    (htokens : ∀ outermost, q.tokensAt t outermost = q'.tokensAt t outermost)
    (hdelimited : q.isDelimited = q'.isDelimited) : q.nested t = q'.nested t ∧ q.tokens t = q'.tokens t := by
  rw [← isDelimited_nested t, ← isDelimited_nested t] at hdelimited
  refine ⟨?_, htokens true⟩
  calc q.nested t = ⟨q.tokensAt t false, (q.nested t).isDelimited⟩ := rfl
    _ = ⟨q'.tokensAt t false, (q'.nested t).isDelimited⟩ := by rw [htokens, hdelimited]

/-- A level is emitted alike when the queries nested in it are. -/
theorem emission_eq_inside {ι : Type} {f g : ι → Query} (clauses : Clauses ι)
    (h : ∀ i, (f i).nested t = (g i).nested t) :
    Query.nested t ⟨clauses.map (Clause.map f)⟩ = Query.nested t ⟨clauses.map (Clause.map g)⟩ ∧
      Query.tokens t ⟨clauses.map (Clause.map f)⟩ = Query.tokens t ⟨clauses.map (Clause.map g)⟩ := by
  have hlevel : Query.nested t ∘ f = Query.nested t ∘ g := funext h
  constructor
  · rw [nested_mk, nested_mk, map_nested_map, map_nested_map, hlevel]
  · rw [Query.tokens, Query.tokens, map_nested_map, map_nested_map, hlevel]

theorem Rearranged.emission_eq {q q' : Query} (h : q.Rearranged q') (t : Target) :
    q.nested t = q'.nested t ∧ q.tokens t = q'.tokens t := by
  induction h with
  | clauses h =>
    refine emission_eq_of_tokensAt (fun outermost => ?_) (isDelimited_of_sameSections h)
    rw [tokensAt_eq, tokensAt_eq, sections, sections, h.ofClauses_eq]
  | inside clauses _ ih => exact emission_eq_inside clauses fun i => (ih i).1
  | trans _ _ ih ih' => exact ⟨ih.1.trans ih'.1, ih.2.trans ih'.2⟩

end Query

namespace Compiler

/-- A rearranged query is compiled to the same tokens with the same bindings, or refused with the same
error. -/
theorem compile_rearranged (c : Compiler) {q q' : Query} (h : q.Rearranged q') :
    c.compile q = c.compile q' := by
  rw [compile_eq, compile_eq, (h.emission_eq c.target).2]

/-- The newest open orders. -/
def newestOpen : Clauses Query :=
  [.from (.table "orders" none), .filter (.eq "status" (.string "open")), .orderBy (.column "placed") .desc,
    .limit 5]

/-- The same orders, with an earlier source and an earlier limit that have no effect. -/
def newestOpen' : Clauses Query :=
  [.limit 0, .orderBy (.column "placed") .desc, .from (.table "drafts" none), .limit 5,
    .from (.table "orders" none), .filter (.eq "status" (.string "open")), .offset (-1)]

/-- The customers of the rows of a query. -/
def customersOf (clauses : Clauses Query) : Query :=
  ⟨[.from (.table "customers" none), .filter ⟨.and, false, .inQuery "id" ⟨clauses⟩⟩, .distinct]⟩

theorem compile_rearranged_newestOpen :
    (customersOf newestOpen).Rearranged (customersOf newestOpen') ∧
      ({} : Compiler).compile (customersOf newestOpen) = ({} : Compiler).compile (customersOf newestOpen') := by
  have hsections : newestOpen.SameSections newestOpen' := by
    refine ⟨fun kind => ?_, rfl, rfl, rfl, rfl⟩
    cases kind <;> rfl
  have h : (customersOf newestOpen).Rearranged (customersOf newestOpen') :=
    .inside (f := fun _ : Unit => ⟨newestOpen⟩) (g := fun _ => ⟨newestOpen'⟩)
      [.from (.table "customers" none), .filter ⟨.and, false, .inQuery "id" ()⟩, .distinct]
      fun _ => .clauses hsections
  exact ⟨h, compile_rearranged {} h⟩

end Compiler

end QueryCompiler
