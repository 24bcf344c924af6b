-- SUMMARY: The binding slots of a query, which no dialect decides, and that the dialects bind the same in them wherever they page alike.
import QueryCompiler.Proofs.Values
import QueryCompiler.Query.Builder

/-!
# Agreement of the bindings

What a query binds hardly depends on the dialect. `Query.slots` lists what it is in the
order of the text, without a profile: a value, or the pattern of a match without regard
to case, which the dialects bind in two forms. A page that is emulated takes the order to
another place and binds row numbers, so the slots tell the bindings where pages are native
or there are none.
-/

namespace QueryCompiler

/-! ## Slots -/

/-- What is bound at one position. -/
inductive Slot where
  | value (v : Value)
  /-- The pattern of a match without regard to case. -/
  | caseless (pattern : String)
deriving DecidableEq, Repr

/-- What a dialect binds in a slot: PostgreSQL matches a pattern as it is given, the others match its
lower-case form. -/
def Slot.valueOn (d : Dialect) : Slot → Value
  | .value v => v
  | .caseless pattern => .string (if d = .postgres then pattern else Text.lower pattern)

/-- The slots of values that are bound as they are. -/
def Slot.ofValues (values : List Value) : List Slot :=
  values.map .value

@[simp] theorem Slot.map_valueOn_ofValues (d : Dialect) (values : List Value) :
    (Slot.ofValues values).map (Slot.valueOn d) = values := by
  rw [ofValues, List.map_map]
  exact List.map_id values

def Operand.slots : Operand (List Slot) → List Slot
  | .value v => [.value v]
  | .column _ => []
  | .query slots => slots
  | .raw fragment => Slot.ofValues fragment.bindings

mutual

def Condition.slots : Condition (List Slot) → List Slot
  | ⟨_, _, predicate⟩ => Predicate.slots predicate

/-- The slots of a predicate. A test for null has none. -/
def Predicate.slots : Predicate (List Slot) (Condition (List Slot)) → List Slot
  | .compare _ op operand =>
    match op.nullTest? operand with
    | some _ => []
    | none => operand.slots
  | .inValues _ values => Slot.ofValues values
  | .inQuery _ slots => slots
  | .between _ low high => [.value low, .value high]
  | .isNull _ => []
  | .like _ pattern caseSensitive => [if caseSensitive then .value (.string pattern) else .caseless pattern]
  | .exists slots => slots
  | .group members => Condition.listSlots members
  | .raw fragment => Slot.ofValues fragment.bindings

def Condition.listSlots : List (Condition (List Slot)) → List Slot
  | [] => []
  | condition :: rest => condition.slots ++ Condition.listSlots rest

end

def Selection.slots : Selection (List Slot) → List Slot
  | .column _ => []
  | .raw fragment => Slot.ofValues fragment.bindings
  | .aggregate .. => []
  | .subquery slots _ => slots

def Source.slots : Source (List Slot) → List Slot
  | .table .. => []
  | .subquery slots _ => slots
  | .raw fragment => Slot.ofValues fragment.bindings

def Join.slots (j : Join (List Slot)) : List Slot :=
  j.source.slots ++ Condition.listSlots j.conditions

/-- The slots of a statement, whose page comes behind its order. -/
def Sections.slots (s : Sections (List Slot)) : List Slot :=
  s.ctes.flatMap Prod.snd
    ++ s.items.flatMap Selection.slots ++ s.source.toList.flatMap Source.slots ++ s.joins.flatMap Join.slots
    ++ Condition.listSlots s.filters ++ Slot.ofValues (s.groups.flatMap Term.values)
    ++ Condition.listSlots s.havings ++ Slot.ofValues (orderValues s.orders)
    ++ Slot.ofValues s.page.limitValues
    ++ s.arms.flatMap Arm.operand

/-- The slots of a query in the order of its text. -/
def Query.slots (q : Query) : List Slot :=
  q.fold fun clauses =>
    match Sections.ofClauses clauses with
    | .ok s => s.slots
    | .error _ => []

theorem Query.slots_eq (q : Query) :
    q.slots = match q.sections with
      | .ok s => (s.map Query.slots).slots
      | .error _ => [] := by
  obtain ⟨clauses⟩ := q
  have hmap := sections_map ⟨clauses⟩ Query.slots
  rw [Query.slots, Query.fold_mk]
  show (match Sections.ofClauses (clauses.map (Clause.map Query.slots)) with
    | .ok s => s.slots
    | .error _ => []) = _
  rw [hmap]
  cases Query.sections ⟨clauses⟩ <;> rfl

/-! ## Values in slots -/

section

variable {σ : Type} {d : Dialect} {v : σ → List Value} {w : σ → List Slot}

theorem boundPattern_eq (pattern : String) (caseSensitive : Bool) :
    boundPattern d.profile pattern caseSensitive
      = Slot.valueOn d (if caseSensitive then .value (.string pattern) else .caseless pattern) := by
  cases caseSensitive with
  | true => rfl
  | false => cases d <;> rfl

theorem Operand.values_eq_slots {operand : Operand σ}
    (hn : ∀ q ∈ operand.nested, v q = (w q).map (Slot.valueOn d)) :
    (operand.map v).values = (operand.map w).slots.map (Slot.valueOn d) := by
  cases operand with
  | value u => rfl
  | column name => rfl
  | query q => exact hn q (List.mem_singleton_self q)
  | raw fragment => exact (Slot.map_valueOn_ofValues d _).symm

mutual

theorem Condition.values_eq_slots {condition : Condition σ}
    (hn : ∀ q ∈ condition.nested, v q = (w q).map (Slot.valueOn d)) :
    (condition.map v).values d.profile = (condition.map w).slots.map (Slot.valueOn d) :=
  match condition with
  | ⟨_, _, _⟩ => Predicate.values_eq_slots hn

theorem Predicate.values_eq_slots {predicate : Predicate σ (Condition σ)}
    (hn : ∀ q ∈ Predicate.nested predicate, v q = (w q).map (Slot.valueOn d)) :
    Predicate.values d.profile (Predicate.map v predicate)
      = (Predicate.slots (Predicate.map w predicate)).map (Slot.valueOn d) := by
  match predicate with
  | .compare column op operand =>
    simp only [Predicate.map, Predicate.values, Predicate.slots, Comparison.nullTest?_map]
    cases op.nullTest? operand with
    | some isNull => rfl
    | none => exact Operand.values_eq_slots hn
  | .inValues column values => exact (Slot.map_valueOn_ofValues d values).symm
  | .inQuery column q => exact hn q (List.mem_singleton_self q)
  | .between column low high => rfl
  | .isNull column => rfl
  | .like column pattern caseSensitive => exact congrArg ([·]) (boundPattern_eq pattern caseSensitive)
  | .exists q => exact hn q (List.mem_singleton_self q)
  | .group members => exact Condition.listValues_eq_slots hn
  | .raw fragment => exact (Slot.map_valueOn_ofValues d _).symm

theorem Condition.listValues_eq_slots {list : List (Condition σ)}
    (hn : ∀ q ∈ Condition.nestedList list, v q = (w q).map (Slot.valueOn d)) :
    Condition.listValues d.profile (Condition.mapList v list)
      = (Condition.listSlots (Condition.mapList w list)).map (Slot.valueOn d) := by
  match list with
  | [] => rfl
  | condition :: rest =>
    rw [Condition.nestedList, List.forall_mem_append] at hn
    rw [Condition.mapList, Condition.mapList, Condition.listValues, Condition.listSlots, List.map_append,
      Condition.values_eq_slots hn.1, Condition.listValues_eq_slots hn.2]

end

theorem Selection.values_eq_slots {item : Selection σ}
    (hn : ∀ q ∈ item.nested, v q = (w q).map (Slot.valueOn d)) :
    (item.map v).values = (item.map w).slots.map (Slot.valueOn d) := by
  cases item with
  | column c => rfl
  | raw fragment => exact (Slot.map_valueOn_ofValues d _).symm
  | aggregate function name aliasName => rfl
  | subquery q aliasName => exact hn q (List.mem_singleton_self q)

theorem Source.values_eq_slots {source : Source σ}
    (hn : ∀ q ∈ source.nested, v q = (w q).map (Slot.valueOn d)) :
    (source.map v).values = (source.map w).slots.map (Slot.valueOn d) := by
  cases source with
  | table name aliasName => rfl
  | subquery q aliasName => exact hn q (List.mem_singleton_self q)
  | raw fragment => exact (Slot.map_valueOn_ofValues d _).symm

theorem Join.values_eq_slots {j : Join σ} (hn : ∀ q ∈ j.nested, v q = (w q).map (Slot.valueOn d)) :
    (j.map v).values d.profile = (j.map w).slots.map (Slot.valueOn d) := by
  rw [Join.nested, List.forall_mem_append] at hn
  rw [Join.values, Join.slots, List.map_append]
  exact congrArg₂ (· ++ ·) (Source.values_eq_slots hn.1) (Condition.listValues_eq_slots hn.2)

/-- The values of parts one after the other are in their slots. -/
theorem flatMap_values_eq_slots {α β γ : Type} {list : List α} {f : α → β} {g : α → γ}
    {values : β → List Value} {slots : γ → List Slot}
    (h : ∀ x ∈ list, values (f x) = (slots (g x)).map (Slot.valueOn d)) :
    (list.map f).flatMap values = ((list.map g).flatMap slots).map (Slot.valueOn d) := by
  rw [List.flatMap_map, List.flatMap_map, List.map_flatMap]
  exact List.flatMap_congr h

/-! ### Pages -/

/-- A dialect has a native page, or there is no page in effect. -/
def Dialect.PagesNatively (d : Dialect) (page : Page) : Prop :=
  d.profile.paging = .limitOffset ∨ page.isPartial = false

theorem Page.limitValues_of_whole {page : Page} (h : page.isPartial = false) : page.limitValues = [] := by
  obtain ⟨hlimit, hoffset⟩ : page.limit = none ∧ page.offset = none := by
    simpa [isPartial] using h
  rw [limitValues, hlimit, hoffset]
  rfl

theorem Dialect.PagesNatively.plan {page : Page} (h : d.PagesNatively page) :
    Plan.ofPage d.profile.paging page = .whole ∧ page.limitValues = [] ∨
      Plan.ofPage d.profile.paging page = .limitOffset page := by
  cases hpartial : page.isPartial with
  | false => exact .inl ⟨by simp [Plan.ofPage, hpartial], Page.limitValues_of_whole hpartial⟩
  | true =>
    have hnative : d.profile.paging = .limitOffset := h.resolve_right (by simp [hpartial])
    exact .inr (by simp [Plan.ofPage, hpartial, hnative])

namespace Sections

/-- The values of a native page come behind all others. -/
theorem pagedValues_native {s : Sections (List Value)} (h : d.PagesNatively s.page) :
    s.pagedValues d.profile = s.selectValues d.profile .plain ++ s.page.limitValues := by
  rcases h.plan with ⟨hplan, hnone⟩ | hplan
  · rw [pagedValues, hplan, hnone, List.append_nil]
  · rw [pagedValues, hplan]

theorem values_eq_slots {s : Sections σ} (hpage : d.PagesNatively s.page)
    (hn : ∀ q ∈ s.nested, v q = (w q).map (Slot.valueOn d)) :
    (s.map v).values d.profile = (s.map w).slots.map (Slot.valueOn d) := by
  obtain ⟨hctes, hselect, harms⟩ := forall_mem_nested.1 hn
  obtain ⟨hitems, hsource, hjoins, hfilters, hhavings⟩ := forall_mem_selectNested.1 hselect
  have hctes : (s.ctes.map (Prod.map id v)).flatMap Prod.snd
      = ((s.ctes.map (Prod.map id w)).flatMap Prod.snd).map (Slot.valueOn d) :=
    flatMap_values_eq_slots hctes
  have hitems := flatMap_values_eq_slots fun item hitem => Selection.values_eq_slots (hitems item hitem)
  have hsource := flatMap_values_eq_slots fun source hmem =>
    Source.values_eq_slots (hsource source (Option.mem_toList.1 hmem))
  have hjoins := flatMap_values_eq_slots fun j hj => Join.values_eq_slots (hjoins j hj)
  have hfilters := Condition.listValues_eq_slots hfilters
  have hhavings := Condition.listValues_eq_slots hhavings
  have harms : (s.arms.map (Arm.map v)).flatMap Arm.operand
      = ((s.arms.map (Arm.map w)).flatMap Arm.operand).map (Slot.valueOn d) :=
    flatMap_values_eq_slots harms
  rw [Sections.values, pagedValues_native hpage]
  simp only [selectValues, slots, map_ctes, map_items, map_source, map_joins, map_filters, map_groups,
    map_havings, map_orders, map_page, map_arms, Shape.topValues, Shape.numberValues, Shape.endValues,
    Option.toList_map, List.map_append, Slot.map_valueOn_ofValues, List.nil_append, List.append_nil,
    List.append_assoc, hctes, hitems, hsource, hjoins, hfilters, hhavings, harms]

end Sections

end

/-! ## Queries -/

namespace Query

/-- What a query binds is told by its slots, where its pages are native or there are none. -/
theorem values_eq_slots {d : Dialect} {q : Query}
    (h : q.AtEveryLevel fun inner => d.PagesNatively (Clauses.page inner.clauses)) :
    q.values d.profile = q.slots.map (Slot.valueOn d) := by
  induction h with
  | @mk q here below ih =>
    cases hs : q.sections with
    | error e => rw [values_sections, slots_eq, hs, List.map_nil]
    | ok s =>
      rw [values_eq hs, slots_eq, hs]
      rw [inside_eq hs] at ih
      rw [← page_of_sections hs] at here
      exact Sections.values_eq_slots here ih

end Query

namespace Compiler

/-- The bindings of a query fill its slots. -/
theorem bindings_eq_slots {c : Compiler} {q : Query} {r : Compiled} (hr : c.compile q = .ok r)
    (h : c.dialect ∈ [.postgres, .mysql, .sqlite] ∨ q.AtEveryLevel fun inner => inner.isPaged = false) :
    r.bindings.toList = q.slots.map (Slot.valueOn c.dialect) := by
  have hpages : q.AtEveryLevel fun inner => c.dialect.PagesNatively (Clauses.page inner.clauses) := by
    rcases h with hdialect | hwhole
    · have hnative : c.dialect.profile.paging = .limitOffset := by
        revert hdialect
        cases c.dialect <;> simp <;> rfl
      exact Query.atEveryLevel_of_forall (fun _ => .inl hnative) q
    · exact hwhole.mono fun _ hinner => .inr hinner
  rw [bindings_compile hr, Query.values_eq_slots hpages]

/-- The bindings of a query on two dialects agree: there is one binding for each slot, and in a slot of a
value it is the same one. The pages are native on both dialects, or there are none in effect. -/
theorem bindings_agree {c c' : Compiler} {q : Query} {r r' : Compiled} (hr : c.compile q = .ok r)
    (hr' : c'.compile q = .ok r')
    (h : (c.dialect ∈ [.postgres, .mysql, .sqlite] ∧ c'.dialect ∈ [.postgres, .mysql, .sqlite]) ∨
      q.AtEveryLevel fun inner => inner.isPaged = false) :
    r.bindings.size = r'.bindings.size ∧ r.bindings.size = q.slots.length ∧
    ∀ (i : Nat) (slot : Slot), q.slots[i]? = some slot →
      r.bindings[i]? = some (slot.valueOn c.dialect) ∧ r'.bindings[i]? = some (slot.valueOn c'.dialect) := by
  have hvalues := bindings_eq_slots hr (h.imp_left And.left)
  have hvalues' := bindings_eq_slots hr' (h.imp_left And.right)
  have hsize : r.bindings.size = q.slots.length := by
    rw [← Array.length_toList, hvalues, List.length_map]
  have hsize' : r'.bindings.size = q.slots.length := by
    rw [← Array.length_toList, hvalues', List.length_map]
  refine ⟨hsize.trans hsize'.symm, hsize, fun i slot hslot => ⟨?_, ?_⟩⟩
  · rw [← Array.getElem?_toList, hvalues, List.getElem?_map, hslot, Option.map_some]
  · rw [← Array.getElem?_toList, hvalues', List.getElem?_map, hslot, Option.map_some]

/-- Customers by a part of the name, from the later rows of the open orders. -/
def namedCustomers : Query :=
  ⟨[.from (.table "customers" none), .filter ⟨.and, false, .like "name" "ÄN%" false⟩,
    .filter ⟨.and, false, .inQuery "id"
      ⟨[.column ⟨none, "customer", none⟩, .from (.table "orders" none), .filter (.eq "status" (.string "open")),
        .filter (.eq "note" .null), .offset 2]⟩⟩,
    .limit 5]⟩

theorem bindings_agree_namedCustomers :
    ∃ r r', (⟨.postgres, {}⟩ : Compiler).compile namedCustomers = .ok r ∧
      (⟨.mysql, {}⟩ : Compiler).compile namedCustomers = .ok r' ∧ r.bindings.size = r'.bindings.size ∧
      r.bindings[0]? = some (.string "ÄN%") ∧ r'.bindings[0]? = some (.string "än%") ∧
      r.bindings[2]? = some (.int 2) ∧ r'.bindings[2]? = some (.int 2) := by
  obtain ⟨r, hr⟩ : ∃ r, (⟨.postgres, {}⟩ : Compiler).compile namedCustomers = .ok r := ⟨_, rfl⟩
  obtain ⟨r', hr'⟩ : ∃ r', (⟨.mysql, {}⟩ : Compiler).compile namedCustomers = .ok r' := ⟨_, rfl⟩
  obtain ⟨hsize, -, hslots⟩ := bindings_agree hr hr' (.inl ⟨by decide, by decide⟩)
  have hpattern := hslots 0 (.caseless "ÄN%") rfl
  have hoffset := hslots 2 (.value (.int 2)) rfl
  exact ⟨r, r', hr, hr', hsize, hpattern.1, hpattern.2, hoffset⟩

end Compiler

end QueryCompiler
