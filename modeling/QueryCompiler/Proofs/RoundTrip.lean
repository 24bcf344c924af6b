-- SUMMARY: A query written as JSON is read back as it was, unless a number in it has no JSON.
import QueryCompiler.Proofs.Abridgement
import QueryCompiler.Proofs.Contents
import QueryCompiler.Query.Writer

/-!
# Round trip

The constants of a part of a query are the values that stand in it, whether they are
bound or not. The only values that cannot be written are numbers that are not finite.
Each part is read back from what is written for it as soon as its constants and its
nested queries are. Conditions are read with a bound on how deep they are nested, and
the depth of the JSON is one.
-/

namespace QueryCompiler

variable {σ : Type}

/-! ## Constants -/

/-- Every value but a number that is not finite. -/
def Value.isFinite : Value → Bool
  | .float x => x.isFinite
  | _ => true

def Operand.constants : Operand σ → List Value
  | .value v => [v]
  | .raw fragment => fragment.bindings
  | _ => []

def Term.constants : Term → List Value
  | .raw fragment => fragment.bindings
  | .column _ => []

def Source.constants : Source σ → List Value
  | .raw fragment => fragment.bindings
  | _ => []

mutual

def Condition.constants : Condition σ → List Value
  | ⟨_, _, predicate⟩ => Predicate.constants predicate

def Predicate.constants : Predicate σ (Condition σ) → List Value
  | .compare _ _ operand => operand.constants
  | .inValues _ values => values
  | .between _ low high => [low, high]
  | .group members => Condition.constantsList members
  | .raw fragment => fragment.bindings
  | _ => []

def Condition.constantsList : List (Condition σ) → List Value
  | [] => []
  | condition :: rest => condition.constants ++ Condition.constantsList rest

end

def Join.constants (j : Join σ) : List Value :=
  j.source.constants ++ Condition.constantsList j.conditions

/-- The values that stand in a clause itself, not in the queries nested in it. -/
def Clause.constants : Clause σ → List Value
  | .rawColumn fragment => fragment.bindings
  | .from source => source.constants
  | .join j => j.constants
  | .filter condition => condition.constants
  | .having condition => condition.constants
  | .groupBy term => term.constants
  | .orderBy term _ => term.constants
  | _ => []

/-! ## Reading what is written -/

namespace Json

variable {α : Type} {read : Json → Option α}

@[simp] theorem field?_cons_self (name : String) (value : Json) (rest : List (String × Json)) :
    (Json.obj ((name, value) :: rest)).field? name read = read value := by
  simp [field?]

@[simp] theorem field?_cons_of_ne {name key : String} (h : name ≠ key) (value : Json)
    (rest : List (String × Json)) :
    (Json.obj ((key, value) :: rest)).field? name read = (Json.obj rest).field? name read := by
  simp [field?, List.lookup_cons, beq_false_of_ne h]

@[simp] theorem fieldD?_cons_self (name : String) (default : α) (value : Json) (rest : List (String × Json)) :
    (Json.obj ((name, value) :: rest)).fieldD? name default read = read value := by
  simp [fieldD?]

@[simp] theorem fieldD?_cons_of_ne {name key : String} (h : name ≠ key) (default : α) (value : Json)
    (rest : List (String × Json)) :
    (Json.obj ((key, value) :: rest)).fieldD? name default read = (Json.obj rest).fieldD? name default read := by
  simp [fieldD?, List.lookup_cons, beq_false_of_ne h]

@[simp] theorem case?_tagged (name : String) (contents : Json) :
    (Json.tagged name contents).case? = some (name, contents) := rfl

@[simp] theorem kind?_str (ofName? : String → Option α) (name : String) :
    (Json.str name).kind? ofName? = ofName? name := rfl

@[simp] theorem nullable?_ofText? (s : Option String) : nullable? str? (ofText? s) = some s := by
  cases s <;> rfl

@[simp] theorem int64?_ofInt64 (n : Int64) : (ofInt64 n).int64? = some n := by
  have hle := n.minValue_le_toInt
  have hlt := n.toInt_lt
  rw [ofInt64, int64?, if_pos (by constructor <;> simpa using by assumption), Int64.ofInt_toInt]

@[simp] theorem uint64?_ofUInt64 (n : UInt64) : (ofUInt64 n).uint64? = some n := by
  have hlt := n.toNat_lt
  rw [ofUInt64, uint64?, if_pos (by omega), Int.toNat_natCast, UInt64.ofNat_toNat]

@[simp] theorem uint8?_toNat (b : UInt8) : (Json.int b.toNat).uint8? = some b := by
  have hlt := b.toNat_lt
  rw [uint8?, if_pos (by omega), Int.toNat_natCast, UInt8.ofNat_toNat]

theorem list?_map {write : α → Json} {list : List α} (h : ∀ a ∈ list, read (write a) = some a) :
    list? read (.arr (list.map write)) = some list := by
  rw [list?]
  induction list with
  | nil => rfl
  | cons a rest ih =>
    obtain ⟨ha, hrest⟩ := List.forall_mem_cons.1 h
    rw [List.map_cons, List.mapM_cons, ha, ih hrest]
    rfl

@[simp] theorem depth_tagged (name : String) (contents : Json) :
    (tagged name contents).depth = contents.depth + 1 := by
  simp [tagged, depth, depthMembers]

end Json

theorem Value.ofJson?_toJson {v : Value} (h : v.isFinite) : Value.ofJson? v.toJson = some v := by
  cases v with
  | null => rfl
  | bool b => rfl
  | int n => exact congrArg (Option.map Value.int) (Json.int64?_ofInt64 n)
  | float x =>
    rw [toJson, if_pos (show x.isFinite = true from h)]
    rfl
  | string s => rfl
  | bytes bs => exact congrArg (Option.map Value.bytes) (Json.list?_map fun b _ => Json.uint8?_toNat b)

theorem Value.list?_toJson (values : List Value) (h : ∀ v ∈ values, v.isFinite) :
    Json.list? Value.ofJson? (.arr (values.map Value.toJson)) = some values :=
  Json.list?_map fun v hv => ofJson?_toJson (h v hv)

theorem Fragment.ofJson?_toJson {fragment : Fragment} (h : ∀ v ∈ fragment.bindings, v.isFinite) :
    Fragment.ofJson? fragment.toJson = some fragment := by
  simp [ofJson?, toJson, Json.str?, Value.list?_toJson fragment.bindings h]

theorem Column.ofJson?_toJson (c : Column) : Column.ofJson? c.toJson = some c := by
  simp [ofJson?, toJson, Json.text?, Json.str?]

theorem Term.ofJson?_toJson {term : Term} (h : ∀ v ∈ term.constants, v.isFinite) :
    Term.ofJson? term.toJson = some term := by
  cases term with
  | column name => rfl
  | raw fragment => simp [ofJson?, toJson, Fragment.ofJson?_toJson h]

/-! ## One level, with nested queries that are read back -/

section

variable {f : σ → Json} {query? : Json → Option σ}

theorem Operand.ofJson?_toJson (operand : Operand σ) (hv : ∀ v ∈ operand.constants, v.isFinite)
    (hq : ∀ q ∈ operand.nested, query? (f q) = some q) :
    Operand.ofJson? query? (operand.map f).toJson = some operand := by
  cases operand with
  | value v => simp [ofJson?, map, toJson, Value.ofJson?_toJson (hv v (List.mem_singleton_self v))]
  | column name => rfl
  | query q => simp [ofJson?, map, toJson, hq q (List.mem_singleton_self q)]
  | raw fragment => simp [ofJson?, map, toJson, Fragment.ofJson?_toJson hv]

theorem Source.ofJson?_toJson (source : Source σ) (hv : ∀ v ∈ source.constants, v.isFinite)
    (hq : ∀ q ∈ source.nested, query? (f q) = some q) :
    Source.ofJson? query? (source.map f).toJson = some source := by
  cases source with
  | table name aliasName => simp [ofJson?, map, toJson, Json.text?, Json.str?]
  | subquery q aliasName => simp [ofJson?, map, toJson, Json.str?, hq q (List.mem_singleton_self q)]
  | raw fragment => simp [ofJson?, map, toJson, Fragment.ofJson?_toJson hv]

mutual

/-- A condition is read back with any bound that the depth of its JSON does not exceed. -/
theorem Condition.ofJson?_toJson (condition : Condition σ) {fuel : Nat}
    (hm : (condition.map f).toJson.depth ≤ fuel) (hv : ∀ v ∈ condition.constants, v.isFinite)
    (hq : ∀ q ∈ condition.nested, query? (f q) = some q) :
    Condition.ofJson? query? fuel (condition.map f).toJson = some condition := by
  obtain ⟨connector, negated, predicate⟩ := condition
  cases fuel with
  | zero => exact absurd (Json.depth_pos _) (Nat.not_lt.2 hm)
  | succ fuel =>
    have hdepth : (Predicate.toJson (Predicate.map f predicate)).depth ≤ fuel := by
      simp only [Condition.map, Condition.toJson, Json.depth, Json.depthMembers] at hm
      omega
    simp [Condition.ofJson?, Condition.map, Condition.toJson, Json.bool?,
      Predicate.ofJson?_toJson predicate hdepth hv hq]

theorem Predicate.ofJson?_toJson (predicate : Predicate σ (Condition σ)) {fuel : Nat}
    (hm : (Predicate.toJson (Predicate.map f predicate)).depth ≤ fuel)
    (hv : ∀ v ∈ Predicate.constants predicate, v.isFinite)
    (hq : ∀ q ∈ Predicate.nested predicate, query? (f q) = some q) :
    Predicate.ofJson? query? (Condition.ofJson? query? fuel) (Predicate.toJson (Predicate.map f predicate))
      = some predicate := by
  match predicate with
  | .compare column op operand =>
    simp [Predicate.ofJson?, Predicate.map, Predicate.toJson, Json.str?, Operand.ofJson?_toJson operand hv hq]
  | .inValues column values =>
    simp [Predicate.ofJson?, Predicate.map, Predicate.toJson, Json.str?, Value.list?_toJson values hv]
  | .inQuery column q =>
    simp [Predicate.ofJson?, Predicate.map, Predicate.toJson, Json.str?, hq q (List.mem_singleton_self q)]
  | .between column low high =>
    have hlow := Value.ofJson?_toJson (hv low (by simp [Predicate.constants]))
    have hhigh := Value.ofJson?_toJson (hv high (by simp [Predicate.constants]))
    simp [Predicate.ofJson?, Predicate.map, Predicate.toJson, Json.str?, hlow, hhigh]
  | .isNull column => simp [Predicate.ofJson?, Predicate.map, Predicate.toJson, Json.str?]
  | .like column pattern caseSensitive =>
    simp [Predicate.ofJson?, Predicate.map, Predicate.toJson, Json.str?, Json.bool?]
  | .exists q => simp [Predicate.ofJson?, Predicate.map, Predicate.toJson, hq q (List.mem_singleton_self q)]
  | .group members =>
    have hdepth : Json.depthItems (Condition.listToJson (Condition.mapList f members)) ≤ fuel := by
      simp only [Predicate.map, Predicate.toJson, Json.depth_tagged, Json.depth] at hm
      omega
    simp [Predicate.ofJson?, Predicate.map, Predicate.toJson, Json.list?,
      Condition.mapM_listToJson members hdepth hv hq]
  | .raw fragment => simp [Predicate.ofJson?, Predicate.map, Predicate.toJson, Fragment.ofJson?_toJson hv]

theorem Condition.mapM_listToJson (list : List (Condition σ)) {fuel : Nat}
    (hm : Json.depthItems (Condition.listToJson (Condition.mapList f list)) ≤ fuel)
    (hv : ∀ v ∈ Condition.constantsList list, v.isFinite)
    (hq : ∀ q ∈ Condition.nestedList list, query? (f q) = some q) :
    (Condition.listToJson (Condition.mapList f list)).mapM (Condition.ofJson? query? fuel) = some list := by
  match list with
  | [] => rfl
  | condition :: rest =>
    obtain ⟨hv, hvrest⟩ := List.forall_mem_append.1 hv
    obtain ⟨hq, hqrest⟩ := List.forall_mem_append.1 hq
    rw [Condition.mapList, Condition.listToJson, Json.depthItems, Nat.max_le] at hm
    simp [Condition.mapList, Condition.listToJson, Condition.ofJson?_toJson condition hm.1 hv hq,
      Condition.mapM_listToJson rest hm.2 hvrest hqrest]

end

theorem Join.ofJson?_toJson (j : Join σ) {fuel : Nat} (hm : (j.map f).toJson.depth ≤ fuel)
    (hv : ∀ v ∈ j.constants, v.isFinite) (hq : ∀ q ∈ j.nested, query? (f q) = some q) :
    Join.ofJson? query? (Condition.ofJson? query? fuel) (j.map f).toJson = some j := by
  obtain ⟨hvsource, hvconditions⟩ := List.forall_mem_append.1 hv
  obtain ⟨hqsource, hqconditions⟩ := List.forall_mem_append.1 hq
  have hdepth : Json.depthItems (Condition.listToJson (Condition.mapList f j.conditions)) ≤ fuel := by
    simp only [map, toJson, Json.depth, Json.depthMembers] at hm
    omega
  simp [ofJson?, map, toJson, Json.list?, Source.ofJson?_toJson j.source hvsource hqsource,
    Condition.mapM_listToJson j.conditions hdepth hvconditions hqconditions]

theorem Clause.ofJson?_toJson {clause : Clause σ} {fuel : Nat} (hm : (clause.map f).toJson.depth ≤ fuel)
    (hv : ∀ v ∈ clause.constants, v.isFinite) (hq : ∀ q ∈ clause.nested, query? (f q) = some q) :
    Clause.ofJson? query? (Condition.ofJson? query? fuel) (clause.map f).toJson = some clause := by
  cases clause with
  | select spec => rfl
  | column c => simp [ofJson?, map, toJson, Column.ofJson?_toJson]
  | rawColumn fragment => simp [ofJson?, map, toJson, Fragment.ofJson?_toJson hv]
  | aggregate function name aliasName => simp [ofJson?, map, toJson, Json.text?, Json.str?]
  | subqueryColumn q aliasName => simp [ofJson?, map, toJson, Json.str?, hq q (List.mem_singleton_self q)]
  | «from» source => simp [ofJson?, map, toJson, Source.ofJson?_toJson source hv hq]
  | join j =>
    rw [map, toJson, Json.depth_tagged] at hm
    simp [ofJson?, map, toJson, Join.ofJson?_toJson j (Nat.le_of_succ_le hm) hv hq]
  | filter condition =>
    rw [map, toJson, Json.depth_tagged] at hm
    simp [ofJson?, map, toJson, Condition.ofJson?_toJson condition (Nat.le_of_succ_le hm) hv hq]
  | groupBy term => simp [ofJson?, map, toJson, Term.ofJson?_toJson hv]
  | having condition =>
    rw [map, toJson, Json.depth_tagged] at hm
    simp [ofJson?, map, toJson, Condition.ofJson?_toJson condition (Nat.le_of_succ_le hm) hv hq]
  | orderBy term direction => simp [ofJson?, map, toJson, Term.ofJson?_toJson hv]
  | limit rows =>
    -- With the number in place, the kernel would count up to the bound that the number is compared with.
    have hlimit (contents : Json) :
        Clause.ofJson? query? (Condition.ofJson? query? fuel) (.tagged "Limit" contents)
          = contents.uint64?.map .limit := by
      simp [ofJson?]
    rw [map, toJson, hlimit, Json.uint64?_ofUInt64, Option.map_some]
  | offset rows => simp [ofJson?, map, toJson]
  | distinct => rfl
  | setOperation operand operator all =>
    simp [ofJson?, map, toJson, Json.bool?, hq operand (List.mem_singleton_self operand)]
  | cte name q => simp [ofJson?, map, toJson, Json.str?, hq q (List.mem_singleton_self q)]

end

/-! ## Queries -/

theorem Operand.depth_le_toJson {operand : Operand Json} {json : Json} (h : json ∈ operand.nested) :
    json.depth ≤ operand.toJson.depth := by
  cases operand with
  | query q =>
    cases List.mem_singleton.1 h
    rw [toJson, Json.depth_tagged]
    exact Nat.le_succ _
  | _ => cases h

theorem Source.depth_le_toJson {source : Source Json} {json : Json} (h : json ∈ source.nested) :
    json.depth ≤ source.toJson.depth := by
  cases source with
  | subquery q aliasName =>
    cases List.mem_singleton.1 h
    simp only [toJson, Json.depth_tagged, Json.depth, Json.depthMembers]
    omega
  | _ => cases h

mutual

theorem Condition.depth_le_toJson (condition : Condition Json) {json : Json} (h : json ∈ condition.nested) :
    json.depth ≤ condition.toJson.depth := by
  obtain ⟨connector, negated, predicate⟩ := condition
  have hpredicate := Predicate.depth_le_toJson predicate h
  simp only [Condition.toJson, Json.depth, Json.depthMembers]
  omega

theorem Predicate.depth_le_toJson (predicate : Predicate Json (Condition Json)) {json : Json}
    (h : json ∈ Predicate.nested predicate) : json.depth ≤ (Predicate.toJson predicate).depth := by
  match predicate with
  | .compare column op operand =>
    have hoperand := operand.depth_le_toJson h
    simp only [Predicate.toJson, Json.depth_tagged, Json.depth, Json.depthMembers]
    omega
  | .inQuery _ q | .exists q =>
    cases List.mem_singleton.1 h
    simp only [Predicate.toJson, Json.depth_tagged, Json.depth, Json.depthMembers]
    omega
  | .group members =>
    have hmembers := Condition.depth_le_listToJson members h
    simp only [Predicate.toJson, Json.depth_tagged, Json.depth]
    omega
  | .inValues .. | .between .. | .isNull .. | .like .. | .raw .. => cases h

theorem Condition.depth_le_listToJson (list : List (Condition Json)) {json : Json}
    (h : json ∈ Condition.nestedList list) : json.depth ≤ Json.depthItems (Condition.listToJson list) := by
  match list with
  | [] => cases h
  | condition :: rest =>
    rw [Condition.listToJson, Json.depthItems]
    rcases List.mem_append.1 h with h | h
    · exact Nat.le_trans (Condition.depth_le_toJson condition h) (Nat.le_max_left _ _)
    · exact Nat.le_trans (Condition.depth_le_listToJson rest h) (Nat.le_max_right _ _)

end

theorem Join.depth_le_toJson {j : Join Json} {json : Json} (h : json ∈ j.nested) :
    json.depth ≤ j.toJson.depth := by
  simp only [toJson, Json.depth, Json.depthMembers]
  rcases List.mem_append.1 h with h | h
  · have hsource := Source.depth_le_toJson h
    omega
  · have hconditions := Condition.depth_le_listToJson j.conditions h
    omega

/-- What is nested in a clause is less deep than the JSON of the clause. -/
theorem Clause.depth_le_toJson {clause : Clause Json} {json : Json} (h : json ∈ clause.nested) :
    json.depth ≤ clause.toJson.depth := by
  cases clause with
  | «from» source =>
    rw [toJson, Json.depth_tagged]
    exact Nat.le_succ_of_le (Source.depth_le_toJson h)
  | join j =>
    rw [toJson, Json.depth_tagged]
    exact Nat.le_succ_of_le (Join.depth_le_toJson h)
  | filter condition | having condition =>
    rw [toJson, Json.depth_tagged]
    exact Nat.le_succ_of_le (Condition.depth_le_toJson condition h)
  | subqueryColumn q | setOperation q | cte _ q =>
    cases List.mem_singleton.1 h
    simp only [toJson, Json.depth_tagged, Json.depth, Json.depthMembers]
    omega
  | _ => cases h

namespace Query

theorem toJson_mk (clauses : List (Clause Query)) :
    toJson ⟨clauses⟩ = .arr (clauses.map fun clause => (clause.map toJson).toJson) := by
  rw [toJson, fold_mk, List.map_map]
  rfl

theorem ofJsonWithin?_toJson {q : Query}
    (hq : q.Everywhere fun clause => ∀ v ∈ clause.constants, v.isFinite) {fuel : Nat}
    (hfuel : q.toJson.depth ≤ fuel) :
    ofJsonWithin? fuel q.toJson = some q := by
  induction hq generalizing fuel with
  | @mk clauses hconstants _ ih =>
    rw [toJson_mk] at hfuel ⊢
    cases fuel with
    | zero => exact absurd (Json.depth_pos _) (Nat.not_lt.2 hfuel)
    | succ fuel =>
      rw [Json.depth, Nat.add_le_add_iff_right] at hfuel
      have hclause (clause : Clause Query) (hmem : clause ∈ clauses) :
          Clause.ofJson? (ofJsonWithin? fuel) (Condition.ofJson? (ofJsonWithin? fuel) fuel) (clause.map toJson).toJson
            = some clause := by
        have hdepth := Nat.le_trans (Json.depth_le_depthItems (List.mem_map_of_mem hmem)) hfuel
        refine Clause.ofJson?_toJson hdepth (hconstants clause hmem) fun q hq => ?_
        have hnested : q.toJson ∈ (clause.map toJson).nested := by
          rw [Clause.nested_map]
          exact List.mem_map_of_mem hq
        exact ih clause hmem q hq (Nat.le_trans (Clause.depth_le_toJson hnested) hdepth)
      show Option.map Query.mk (Json.list? _ _) = _
      rw [Json.list?_map hclause, Option.map_some]

/-- A query that holds no number without JSON is read back from its JSON as it was. Whatever query some
JSON stands for, it stands for the same one when any members with their default are left out. -/
theorem json_restores :
    (∀ q : Query, (q.Everywhere fun clause => ∀ v ∈ clause.constants, v.isFinite) → ofJson? q.toJson = some q) ∧
      ∀ (json short : Json) (q : Query), json.Abridged short → ofJson? json = some q → ofJson? short = some q := by
  refine ⟨fun q hq => ?_, fun json short q hshort hq => ?_⟩
  · rw [ofJson?]
    exact ofJsonWithin?_toJson hq (Nat.le_refl _)
  · exact ofJson?_abridged hshort hq

/-- Orders up to a total. -/
def smallOrders : Query :=
  ⟨[.from (.table "orders" none), .filter ⟨.and, false, .between "total" (.int 0) (.float ⟨0x4000000000000000⟩)⟩]⟩

/-- These as a derived table, in the order of their numbers. -/
def sortedOrders : Query :=
  ⟨[.from (.subquery smallOrders "o"), .orderBy (.column "id") .asc]⟩

/-- The same query, without anything that may be left out. -/
def sortedOrdersJson : Json :=
  .arr [
    .tagged "From" (.tagged "Subquery" (.obj [
      ("query", .arr [
        .tagged "From" (.tagged "Table" (.obj [("name", .str "orders")])),
        .tagged "Where" (.obj [("kind", .tagged "Between" (.obj [
          ("column", .str "total"),
          ("low", .obj [("type", .str "Int"), ("value", .int 0)]),
          ("high", .obj [("type", .str "Float"), ("value", .float ⟨0x4000000000000000⟩)])]))])]),
      ("alias", .str "o")])),
    .tagged "OrderBy" (.obj [("expr", .tagged "Column" (.str "id"))])]

theorem json_restores_sortedOrders :
    ofJson? sortedOrders.toJson = some sortedOrders ∧ ofJson? sortedOrdersJson = some sortedOrders := by
  have hsmall : smallOrders.Everywhere fun clause => ∀ v ∈ clause.constants, v.isFinite := by
    have htotal : (⟨0x4000000000000000⟩ : Double).isFinite = true := by decide
    refine .mk ?_ (by simp [Clause.nested, Source.nested, Condition.nested, Predicate.nested])
    simp [Clause.constants, Source.constants, Condition.constants, Predicate.constants, Value.isFinite, htotal]
  have hsorted : sortedOrders.Everywhere fun clause => ∀ v ∈ clause.constants, v.isFinite :=
    .mk (by simp [Clause.constants, Source.constants, Term.constants])
      (by simpa [Clause.nested, Source.nested] using hsmall)
  have hwhole := json_restores.1 sortedOrders hsorted
  have hshort : sortedOrders.toJson.Abridged sortedOrdersJson := by
    refine .arr (.cons (.obj (.keep (.obj (.keep (.obj (.keep (.arr (.cons ?table (.cons ?total .nil)))
      (.keep (.same _) .nil))) .nil)) .nil)) (.cons (.obj (.keep ?order .nil)) .nil))
    case table => exact .obj (.keep (.obj (.keep (.obj (.keep (.same _) (.drop rfl rfl .nil))) .nil)) .nil)
    case total => exact .obj (.keep (.obj (.drop rfl rfl (.drop rfl rfl (.keep (.same _) .nil)))) .nil)
    case order => exact .obj (.keep (.same _) (.drop rfl rfl .nil))
  exact ⟨hwhole, json_restores.2 sortedOrders.toJson sortedOrdersJson sortedOrders hshort hwhole⟩

end Query

end QueryCompiler
