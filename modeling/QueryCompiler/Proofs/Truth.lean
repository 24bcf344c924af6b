-- SUMMARY: The three-valued meaning of conditions, given what their atomic predicates mean.
import Mathlib.Data.List.Forall2
import QueryCompiler.Query.Fold
import QueryCompiler.Statement.Condition

/-!
# Meaning of conditions

A condition is true, false or unknown. Atomic predicates mean what a valuation
says; everything above them follows. A list of conditions counts without its
empty groups. The connector of the first one that is left connects nothing, the
others tell where the runs of conditions that are joined by `AND` end; the list
holds when one of its runs does.
-/

namespace QueryCompiler

/-! ## Truth values -/

inductive Truth where
  | no
  | unknown
  | yes
deriving DecidableEq, Repr

namespace Truth

def not : Truth → Truth
  | .no => .yes
  | .unknown => .unknown
  | .yes => .no

def and : Truth → Truth → Truth
  | .no, _ => .no
  | _, .no => .no
  | .yes, .yes => .yes
  | _, _ => .unknown

def or : Truth → Truth → Truth
  | .yes, _ => .yes
  | _, .yes => .yes
  | .no, .no => .no
  | _, _ => .unknown

def all (list : List Truth) : Truth :=
  list.foldr and .yes

def any (list : List Truth) : Truth :=
  list.foldr or .no

/-- The negation of a truth value, when negated. -/
def negate (negated : Bool) (x : Truth) : Truth :=
  if negated then x.not else x

@[simp] theorem negate_true (x : Truth) : x.negate true = x.not := rfl

@[simp] theorem negate_false (x : Truth) : x.negate false = x := rfl

theorem not_not (x : Truth) : x.not.not = x := by
  cases x <;> rfl

end Truth

/-! ## Runs -/

/-- Puts an entry in front of the first run. -/
def addToFirst {α : Type} (a : α) : List (List α) → List (List α)
  | [] => [[a]]
  | run :: more => (a :: run) :: more

/-- The longest runs without an `OR` between their entries. The first connector connects nothing. -/
def runs {α : Type} : List (Connector × α) → List (List α)
  | [] => []
  | [(_, a)] => [[a]]
  | (_, a) :: (.or, b) :: rest => [a] :: runs ((.or, b) :: rest)
  | (_, a) :: (.and, b) :: rest => addToFirst a (runs ((.and, b) :: rest))

theorem runs_cons {α : Type} (c : Connector) (a : α) (rest : List (Connector × α)) :
    ∃ run more, runs ((c, a) :: rest) = (a :: run) :: more := by
  match rest with
  | [] => exact ⟨[], [], rfl⟩
  | (.or, b) :: rest => exact ⟨[], runs ((.or, b) :: rest), rfl⟩
  | (.and, b) :: rest =>
    rw [runs]
    cases runs ((Connector.and, b) :: rest) with
    | nil => exact ⟨[], [], rfl⟩
    | cons run more => exact ⟨run, more, rfl⟩

theorem ne_nil_of_mem_runs {α : Type} {list : List (Connector × α)} {run : List α} (h : run ∈ runs list) :
    run ≠ [] := by
  match list with
  | [] => cases h
  | [(_, a)] => simp [List.mem_singleton.1 h]
  | (_, a) :: (.or, b) :: rest =>
    rcases List.mem_cons.1 h with rfl | h
    · simp
    · exact ne_nil_of_mem_runs h
  | (_, a) :: (.and, b) :: rest =>
    obtain ⟨first, more, hruns⟩ := runs_cons .and b rest
    rw [runs, hruns] at h
    rcases List.mem_cons.1 h with rfl | h
    · simp
    · exact ne_nil_of_mem_runs (hruns ▸ List.mem_cons_of_mem _ h)

theorem forall₂_runs {α β : Type} {R : α → β → Prop} {xs : List (Connector × α)}
    {ys : List (Connector × β)} (h : List.Forall₂ (fun x y => x.1 = y.1 ∧ R x.2 y.2) xs ys) :
    List.Forall₂ (List.Forall₂ R) (runs xs) (runs ys) := by
  induction h with
  | nil => exact .nil
  | @cons x y xs ys hxy hrest ih =>
    cases hrest with
    | nil => exact .cons (.cons hxy.2 .nil) .nil
    | @cons x' y' xs ys hnext hrest =>
      obtain ⟨c, a⟩ := x'
      obtain ⟨c', b⟩ := y'
      obtain rfl : c = c' := hnext.1
      cases c with
      | or => exact .cons (.cons hxy.2 .nil) ih
      | and =>
        rw [runs, runs]
        generalize runs ((Connector.and, a) :: xs) = first at ih
        generalize runs ((Connector.and, b) :: ys) = second at ih
        cases ih with
        | nil => exact .cons (.cons hxy.2 .nil) .nil
        | cons hrun hmore => exact .cons (.cons hxy.2 hrun) hmore

/-- The truth of conditions with their connectors. -/
def connected (list : List (Connector × Truth)) : Truth :=
  Truth.any ((runs list).map Truth.all)

/-! ## Conditions -/

variable {σ τ : Type}

mutual

/-- The truth of a condition under a valuation of the atomic predicates. -/
def Condition.truth (w : Predicate σ (Condition σ) → Truth) : Condition σ → Truth
  | ⟨_, negated, predicate⟩ => (Predicate.truth w predicate).negate negated

def Predicate.truth (w : Predicate σ (Condition σ) → Truth) : Predicate σ (Condition σ) → Truth
  | .compare column .eq (.value .null) => w (.isNull column)
  | .compare column .ne (.value .null) => (w (.isNull column)).not
  | .inValues _ [] => .no
  | .group members => connected (Condition.truths w members)
  | atom => w atom

/-- The truth of each condition of a list that is no empty group, with its connector. -/
def Condition.truths (w : Predicate σ (Condition σ) → Truth) : List (Condition σ) → List (Connector × Truth)
  | [] => []
  | condition :: rest =>
    if condition.isVacuous then Condition.truths w rest
    else (condition.connector, condition.truth w) :: Condition.truths w rest

end

/-- The truth of a list of conditions. -/
def Condition.listTruth (w : Predicate σ (Condition σ) → Truth) (list : List (Condition σ)) : Truth :=
  connected (Condition.truths w list)

/-! ## Mapped conditions -/

theorem Comparison.nullTest?_map (f : σ → τ) (op : Comparison) (operand : Operand σ) :
    op.nullTest? (operand.map f) = op.nullTest? operand := by
  cases operand with
  | value u => cases u <;> cases op <;> rfl
  | column | query | raw => cases op <;> rfl

variable (f : σ → τ)

theorem Condition.connector_map (condition : Condition σ) : (condition.map f).connector = condition.connector := by
  obtain ⟨connector, negated, predicate⟩ := condition
  rw [Condition.map]

mutual

theorem Condition.isVacuous_map (condition : Condition σ) :
    (condition.map f).isVacuous = condition.isVacuous := by
  obtain ⟨connector, negated, predicate⟩ := condition
  simp only [Condition.map, Condition.isVacuous, Predicate.isVacuous_map predicate]

theorem Predicate.isVacuous_map (predicate : Predicate σ (Condition σ)) :
    Predicate.isVacuous (Predicate.map f predicate) = Predicate.isVacuous predicate := by
  match predicate with
  | .group members => exact Condition.allVacuous_mapList members
  | .compare .. | .inValues .. | .inQuery .. | .between .. | .isNull .. | .like .. | .exists .. | .raw .. => rfl

theorem Condition.allVacuous_mapList (list : List (Condition σ)) :
    Condition.allVacuous (Condition.mapList f list) = Condition.allVacuous list := by
  match list with
  | [] => rfl
  | condition :: rest =>
    simp only [Condition.mapList, Condition.allVacuous, Condition.isVacuous_map condition,
      Condition.allVacuous_mapList rest]

end

mutual

theorem Condition.truth_map (w : Predicate τ (Condition τ) → Truth) (condition : Condition σ) :
    (condition.map f).truth w = condition.truth fun atom => w (Predicate.map f atom) := by
  obtain ⟨connector, negated, predicate⟩ := condition
  simp only [Condition.map, Condition.truth, Predicate.truth_map w predicate]

theorem Predicate.truth_map (w : Predicate τ (Condition τ) → Truth) (predicate : Predicate σ (Condition σ)) :
    Predicate.truth w (Predicate.map f predicate)
      = Predicate.truth (fun atom => w (Predicate.map f atom)) predicate := by
  match predicate with
  | .compare column op (.value u) => cases u <;> cases op <;> rfl
  | .compare column op (.column _) | .compare column op (.query _) | .compare column op (.raw _) =>
    cases op <;> rfl
  | .inValues column values => cases values <;> rfl
  | .group members => exact congrArg connected (Condition.truths_mapList w members)
  | .inQuery .. | .between .. | .isNull .. | .like .. | .exists .. | .raw .. => rfl

theorem Condition.truths_mapList (w : Predicate τ (Condition τ) → Truth) (list : List (Condition σ)) :
    Condition.truths w (Condition.mapList f list)
      = Condition.truths (fun atom => w (Predicate.map f atom)) list := by
  match list with
  | [] => rfl
  | ⟨connector, negated, predicate⟩ :: rest =>
    have hvacuous := Condition.isVacuous_map f ⟨connector, negated, predicate⟩
    have hfirst := Condition.truth_map w ⟨connector, negated, predicate⟩
    have hrest := Condition.truths_mapList w rest
    rw [Condition.mapList, Condition.truths, Condition.truths, hvacuous, hfirst, hrest]
    rfl

end

theorem Condition.listTruth_mapList (w : Predicate τ (Condition τ) → Truth) (list : List (Condition σ)) :
    Condition.listTruth w (Condition.mapList f list)
      = Condition.listTruth (fun atom => w (Predicate.map f atom)) list :=
  congrArg connected (Condition.truths_mapList f w list)

end QueryCompiler
