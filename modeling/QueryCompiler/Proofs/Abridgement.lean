-- SUMMARY: Members left out of JSON where they have their default, and that the readers make the same of the shorter JSON.
import Mathlib.Data.List.Forall2
import QueryCompiler.Query.Reader

/-!
# Abridgement

Some members of an object may be left out, and then stand for a default.
`Json.Abridged` relates JSON to what is left of it when members with the value that
they would stand for anyway are left out, at any depth. The readers are taken one by
one: what a reader makes of some JSON, it makes of every abridged form. The depth of
the JSON only has to be reached by what is left, so this also says that a reader does
not depend on how much deeper it could go.
-/

namespace QueryCompiler

namespace Json

/-! ## Abridged JSON -/

/-- Whether a member with this name may be left out when it has this value. -/
def isDefault (name : String) (value : Json) : Bool :=
  match name with
  | "alias" | "source" =>
    match value with
    | .null => true
    | _ => false
  | "bindings" | "conditions" =>
    match value with
    | .arr [] => true
    | _ => false
  | "negated" | "all" =>
    match value with
    | .bool false => true
    | _ => false
  | "connector" => value.kind? Connector.ofName? = some .and
  | "direction" => value.kind? Direction.ofName? = some .asc
  | _ => false

/-- Members with related values in place of the others, without some that have their default. -/
inductive Members (R : Json → Json → Prop) : List (String × Json) → List (String × Json) → Prop where
  | nil : Members R [] []
  | keep {name : String} {value value' : Json} {rest rest' : List (String × Json)} (hvalue : R value value')
      (hrest : Members R rest rest') : Members R ((name, value) :: rest) ((name, value') :: rest')
  /-- The name does not occur again, as in every object whose members have distinct names. -/
  | drop {name : String} {value : Json} {rest rest' : List (String × Json)}
      (hdefault : isDefault name value = true) (hname : rest.lookup name = none)
      (hrest : Members R rest rest') : Members R ((name, value) :: rest) rest'

/-- Members that have their default are left out, any of them and at any depth. -/
inductive Abridged : Json → Json → Prop where
  | same (json : Json) : Abridged json json
  | arr {items items' : List Json} (h : List.Forall₂ Abridged items items') : Abridged (.arr items) (.arr items')
  | obj {members members' : List (String × Json)} (h : Members Abridged members members') :
      Abridged (.obj members) (.obj members')

theorem Members.refl {R : Json → Json → Prop} (hR : ∀ json, R json json) (members : List (String × Json)) :
    Members R members members := by
  induction members with
  | nil => exact .nil
  | cons member rest ih => exact .keep (hR member.2) ih

theorem Members.zip {R : Json → Json → Prop} {items items' : List Json} (h : List.Forall₂ R items items')
    (names : List String) : Members R (names.zip items) (names.zip items') := by
  induction h generalizing names with
  | nil =>
    rw [List.zip_nil_right]
    exact .nil
  | cons hitem _ ih =>
    cases names with
    | nil => exact .nil
    | cons name names => exact .keep hitem (ih names)

/-- A member is kept with its new value, or it had its default. -/
theorem Members.lookup {R : Json → Json → Prop} {members members' : List (String × Json)}
    (h : Members R members members') (name : String) :
    (members.lookup name = none ∧ members'.lookup name = none) ∨
      (∃ value value', members.lookup name = some value ∧ members'.lookup name = some value' ∧ R value value') ∨
      ∃ value, members.lookup name = some value ∧ members'.lookup name = none ∧ isDefault name value = true := by
  induction h with
  | nil => exact .inl ⟨rfl, rfl⟩
  | @keep key value value' rest rest' hvalue _ ih =>
    cases hkey : name == key with
    | true =>
      refine .inr (.inl ⟨value, value', ?_, ?_, hvalue⟩) <;>
        simp [List.lookup_cons, hkey]
    | false => simpa [List.lookup_cons, hkey] using ih
  | @drop key value rest rest' hdefault hname _ ih =>
    cases hkey : name == key with
    | false => simpa [List.lookup_cons, hkey] using ih
    | true =>
      obtain rfl : name = key := by simpa using hkey
      have hrest : rest'.lookup name = none := by
        rcases ih with ih | ⟨_, _, ih, -⟩ | ⟨_, ih, -⟩
        · exact ih.2
        · rw [hname] at ih
          cases ih
        · rw [hname] at ih
          cases ih
      exact .inr (.inr ⟨value, by simp, hrest, hdefault⟩)

theorem Abridged.of_arr {items : List Json} {short : Json} (h : (Json.arr items).Abridged short) :
    ∃ items', short = .arr items' ∧ List.Forall₂ Abridged items items' := by
  cases h with
  | same => exact ⟨items, rfl, List.forall₂_same.2 fun item _ => .same item⟩
  | arr h => exact ⟨_, rfl, h⟩

theorem Abridged.of_obj {members : List (String × Json)} {short : Json} (h : (Json.obj members).Abridged short) :
    ∃ members', short = .obj members' ∧ Members Abridged members members' := by
  cases h with
  | same => exact ⟨members, rfl, .refl .same members⟩
  | obj h => exact ⟨_, rfl, h⟩

/-! ## Depth -/

theorem depth_le_depthItems {items : List Json} {item : Json} (h : item ∈ items) :
    item.depth ≤ depthItems items := by
  induction items with
  | nil => cases h
  | cons first rest ih =>
    rw [depthItems]
    rcases List.mem_cons.1 h with rfl | h
    · exact Nat.le_max_left _ _
    · exact Nat.le_trans (ih h) (Nat.le_max_right _ _)

theorem depth_le_depthMembers {members : List (String × Json)} {name : String} {value : Json}
    (h : members.lookup name = some value) : value.depth ≤ depthMembers members := by
  induction members with
  | nil => cases h
  | cons member rest ih =>
    obtain ⟨key, first⟩ := member
    rw [depthMembers]
    rw [List.lookup_cons] at h
    split at h
    · cases h
      exact Nat.le_max_left _ _
    · exact Nat.le_trans (ih h) (Nat.le_max_right _ _)

theorem depthMembers_zip_le (names : List String) (items : List Json) :
    depthMembers (names.zip items) ≤ depthItems items := by
  induction names generalizing items with
  | nil => exact Nat.zero_le _
  | cons name names ih =>
    cases items with
    | nil => exact Nat.zero_le _
    | cons item items =>
      rw [List.zip_cons_cons, depthMembers, depthItems]
      have hrest := ih items
      omega

end Json

/-! ## Readers of abridged JSON -/

/-- Whatever the first reading gives, the second gives too. -/
def Yields {α : Type} (x x' : Option α) : Prop :=
  ∀ a, x = some a → x' = some a

namespace Yields

variable {α β : Type} {x x' : Option α}

theorem refl (x : Option α) : Yields x x :=
  fun _ h => h

theorem none : Yields none x' := by
  intro a h
  cases h

theorem bind {f f' : α → Option β} (hx : Yields x x') (hf : ∀ a, Yields (f a) (f' a)) :
    Yields (x >>= f) (x' >>= f') := by
  intro b h
  obtain ⟨a, ha, h⟩ := Option.bind_eq_some_iff.1 h
  exact Option.bind_eq_some_iff.2 ⟨a, hx a ha, hf a b h⟩

theorem map (f : α → β) (hx : Yields x x') : Yields (x.map f) (x'.map f) := by
  intro b h
  obtain ⟨a, ha, rfl⟩ := Option.map_eq_some_iff.1 h
  rw [hx a ha, Option.map_some]

end Yields

/-- What the first reader makes of some JSON, the second makes of every abridged form of it that is at
most `m` deep. -/
def Carries {α : Type} (m : Nat) (read read' : Json → Option α) : Prop :=
  ∀ json short : Json, json.Abridged short → short.depth ≤ m → Yields (read json) (read' short)

namespace Carries

variable {α β : Type} {m : Nat} {read read' : Json → Option α}

theorem mono {m' : Nat} (h : Carries m read read') (hm : m' ≤ m) : Carries m' read read' :=
  fun json short hshort hdepth => h json short hshort (Nat.le_trans hdepth hm)

theorem map (f : α → β) (h : Carries m read read') :
    Carries m (fun json => (read json).map f) fun json => (read' json).map f :=
  fun json short hshort hdepth => (h json short hshort hdepth).map f

/-- A reader of scalars reads no array and no object. -/
theorem scalar (harr : ∀ items, read (.arr items) = none) (hobj : ∀ members, read (.obj members) = none) :
    Carries m read read := by
  intro json short h _
  cases h with
  | same => exact .refl _
  | arr => exact harr _ ▸ .none
  | obj => exact hobj _ ▸ .none

theorem str : Carries m Json.str? Json.str? :=
  .scalar (fun _ => rfl) fun _ => rfl

theorem bool : Carries m Json.bool? Json.bool? :=
  .scalar (fun _ => rfl) fun _ => rfl

theorem int64 : Carries m Json.int64? Json.int64? :=
  .scalar (fun _ => rfl) fun _ => rfl

theorem uint64 : Carries m Json.uint64? Json.uint64? :=
  .scalar (fun _ => rfl) fun _ => rfl

theorem uint8 : Carries m Json.uint8? Json.uint8? :=
  .scalar (fun _ => rfl) fun _ => rfl

theorem double : Carries m Json.double? Json.double? :=
  .scalar (fun _ => rfl) fun _ => rfl

theorem nullable (h : Carries m read read') : Carries m (Json.nullable? read) (Json.nullable? read') := by
  intro json short hshort hdepth
  have hsome := (h json short hshort hdepth).map some
  cases hshort with
  | same =>
    cases json with
    | null => exact .refl _
    | _ => exact hsome
  | arr | obj => exact hsome

/-- The items of an array are read one by one, and they are less deep than the array. -/
theorem items (h : Carries m read read') : Carries (m + 1) (Json.list? read) (Json.list? read') := by
  intro json short hshort hdepth
  cases json with
  | arr items =>
    obtain ⟨items', rfl, hitems⟩ := hshort.of_arr
    replace hdepth : Json.depthItems items' ≤ m := by simpa [Json.depth] using hdepth
    clear hshort
    show Yields (items.mapM read) (items'.mapM read')
    induction hitems with
    | nil => exact .refl _
    | @cons item item' rest rest' hitem _ ih =>
      rw [Json.depthItems, Nat.max_le] at hdepth
      rw [List.mapM_cons, List.mapM_cons]
      refine .bind (h item item' hitem hdepth.1) fun a => ?_
      exact .bind (ih hdepth.2) fun as => .refl _
  | _ => exact .none

theorem list (h : Carries m read read') : Carries m (Json.list? read) (Json.list? read') :=
  h.items.mono (Nat.le_succ m)

end Carries

/-! ### Members -/

namespace Json

/-- The members of a record and what is left of them, at most `m` deep. -/
structure Fields (m : Nat) (members members' : List (String × Json)) : Prop where
  members : Members Abridged members members'
  depth_le : depthMembers members' ≤ m

variable {α : Type} {m : Nat} {json short : Json} {members members' : List (String × Json)}
  {read read' : Json → Option α} {name : String}

theorem Abridged.fields (h : (Json.obj members).Abridged short) (hm : short.depth ≤ m + 1) :
    ∃ members', short = .obj members' ∧ Fields m members members' := by
  obtain ⟨members', rfl, hmembers⟩ := h.of_obj
  exact ⟨members', rfl, hmembers, by simpa [depth] using hm⟩

namespace Fields

/-- A member that is read cannot have been left out, when it has no default or its reader does not accept
that. -/
theorem field (h : Fields m members members') (hread : Carries m read read')
    (hdefault : ∀ value, isDefault name value = true → read value = none := by intro value h; cases h) :
    Yields ((Json.obj members).field? name read) ((Json.obj members').field? name read') := by
  intro a ha
  obtain ⟨value, hvalue, ha⟩ := Option.bind_eq_some_iff.1 ha
  rcases h.members.lookup name with ⟨hnone, -⟩ | ⟨_, value', heq, hvalue', hshort⟩ | ⟨_, heq, -, hdef⟩
  · exact absurd (hvalue.symm.trans hnone) (by simp)
  · obtain rfl := Option.some.inj (hvalue.symm.trans heq)
    have hdepth := Nat.le_trans (depth_le_depthMembers hvalue') h.depth_le
    exact Option.bind_eq_some_iff.2 ⟨value', hvalue', hread value value' hshort hdepth a ha⟩
  · obtain rfl := Option.some.inj (hvalue.symm.trans heq)
    rw [hdefault value hdef] at ha
    cases ha

/-- A member with a default is read as its default when it was left out. -/
theorem fieldD {default : α} (h : Fields m members members') (hread : Carries m read read')
    (hdefault : ∀ value, isDefault name value = true → ∀ a, read value = some a → a = default) :
    Yields ((Json.obj members).fieldD? name default read) ((Json.obj members').fieldD? name default read') := by
  intro a ha
  rw [fieldD?, member?_obj] at ha ⊢
  rcases h.members.lookup name with
    ⟨hnone, hnone'⟩ | ⟨value, value', heq, hvalue', hshort⟩ | ⟨value, heq, hnone', hdef⟩
  · rw [hnone] at ha
    rw [hnone']
    exact ha
  · rw [heq] at ha
    rw [hvalue']
    exact hread value value' hshort (Nat.le_trans (depth_le_depthMembers hvalue') h.depth_le) a ha
  · rw [heq] at ha
    rw [hnone', hdefault value hdef a ha]

end Fields

/-- A record is read from its members, also where it is written as an array of its fields. -/
theorem Abridged.record {names : List String} {body body' : Json → Option α} (h : json.Abridged short)
    (hm : short.depth ≤ m + 1)
    (hbody : ∀ members members', Fields m members members' → Yields (body (.obj members)) (body' (.obj members'))) :
    Yields (json.record? names >>= body) (short.record? names >>= body') := by
  cases json with
  | obj members =>
    obtain ⟨members', rfl, hfields⟩ := h.fields hm
    exact hbody members members' hfields
  | arr items =>
    obtain ⟨items', rfl, hitems⟩ := h.of_arr
    have hlength := hitems.length_eq
    rw [record?, record?, hlength]
    split
    next =>
      refine hbody _ _ ⟨.zip hitems names, ?_⟩
      have hzip := depthMembers_zip_le names items'
      rw [depth] at hm
      omega
    next => exact .none
  | _ => exact .none

/-- The names of the members that may be left out. No case of a sum is called like this. -/
def defaultNames : List String :=
  ["alias", "source", "bindings", "conditions", "negated", "all", "connector", "direction"]

theorem mem_defaultNames {value : Json} (h : isDefault name value = true) : name ∈ defaultNames := by
  unfold isDefault at h
  split at h <;> first | decide | cases h

/-- A case is read from its contents. -/
theorem Abridged.case {body body' : String × Json → Option α} (h : json.Abridged short) (hm : short.depth ≤ m)
    (hbody : ∀ name contents contents', contents.Abridged contents' → contents'.depth ≤ m →
      Yields (body (name, contents)) (body' (name, contents')))
    (hnames : ∀ name ∈ defaultNames, ∀ contents, body (name, contents) = none := by
      simp [QueryCompiler.Json.defaultNames]) :
    Yields (json.case? >>= body) (short.case? >>= body') := by
  cases json with
  | str name =>
    cases h
    exact hbody name .null .null (.same .null) hm
  | obj members =>
    obtain ⟨members', rfl, hmembers⟩ := h.of_obj
    match members, hmembers with
    | [], _ | _ :: _ :: _, _ => exact .none
    | [(name, contents)], .keep hcontents .nil =>
      refine hbody name contents _ hcontents ?_
      simp only [depth, depthMembers] at hm
      omega
    | [(name, contents)], .drop hdefault _ _ =>
      have hnone := hnames name (mem_defaultNames hdefault) contents
      show Yields (body (name, contents)) _
      exact hnone ▸ .none
  | _ => exact .none

/-- A case without contents is read by its name. -/
theorem Abridged.unitCase {body body' : String → Option α} (h : json.Abridged short)
    (hnames : ∀ name ∈ defaultNames, body name = none) (hbody : ∀ name, Yields (body name) (body' name)) :
    Yields (json.unitCase? >>= body) (short.unitCase? >>= body') := by
  have hcase (json : Json) (body : String → Option α) : json.unitCase? >>= body
      = json.case? >>= fun (name, contents) =>
        match contents with
        | .null => body name
        | _ => none := by
    rw [unitCase?]
    rcases json.case? with _ | ⟨name, contents⟩
    · rfl
    · cases contents <;> rfl
  rw [hcase, hcase]
  refine h.case (Nat.le_refl _) (fun name contents contents' hcontents _ => ?_) ?_
  · cases contents with
    | null =>
      cases hcontents
      exact hbody name
    | _ => exact .none
  · intro name hname contents
    cases contents with
    | null => exact hnames name hname
    | _ => rfl

end Json

theorem Carries.kind {α : Type} {m : Nat} {ofName? : String → Option α}
    (hnames : ∀ name ∈ Json.defaultNames, ofName? name = none) :
    Carries m (Json.kind? ofName?) (Json.kind? ofName?) :=
  fun _ _ h _ => h.unitCase hnames fun _ => .refl _

/-! ## Values, fragments and terms -/

section

variable {m : Nat}

theorem Value.carries_ofKind? (kind : String) : Carries m (Value.ofKind? · kind) (Value.ofKind? · kind) := by
  intro contents contents' h hm
  unfold ofKind?
  split
  next =>
    cases contents with
    | null =>
      cases h
      exact .refl _
    | _ => exact .none
  next => exact (Carries.bool contents contents' h hm).map _
  next => exact (Carries.int64 contents contents' h hm).map _
  next => exact (Carries.double contents contents' h hm).map _
  next => exact (Carries.str contents contents' h hm).map _
  next => exact (Carries.uint8.list contents contents' h hm).map _
  next => exact .none

theorem Value.carries : Carries m Value.ofJson? Value.ofJson? := by
  have hnames (contents : Json) : ∀ name ∈ Json.defaultNames, ofKind? contents name = none := by
    simp [Json.defaultNames, ofKind?]
  intro json short h hm
  cases json with
  | obj members =>
    obtain ⟨members', rfl, hfields⟩ := h.fields (Nat.le_succ_of_le hm)
    obtain ⟨hcontents, hdepth⟩ :
        ((members.lookup "value").getD .null).Abridged ((members'.lookup "value").getD .null) ∧
          ((members'.lookup "value").getD .null).depth ≤ m := by
      rcases hfields.members.lookup "value" with
        ⟨heq, heq'⟩ | ⟨_, value', heq, heq', hvalue⟩ | ⟨_, -, -, hdefault⟩
      · rw [heq, heq']
        exact ⟨.same _, Nat.le_trans (Nat.le_add_left 1 _) hm⟩
      · rw [heq, heq']
        exact ⟨hvalue, Nat.le_trans (Json.depth_le_depthMembers heq') hfields.depth_le⟩
      · cases hdefault
    show Yields ((members.lookup "type").bind Json.unitCase? >>= ofKind? _)
      ((members'.lookup "type").bind Json.unitCase? >>= ofKind? _)
    rcases hfields.members.lookup "type" with ⟨heq, -⟩ | ⟨_, _, heq, heq', hkind⟩ | ⟨_, -, -, hdefault⟩
    · rw [heq]
      exact .none
    · rw [heq, heq']
      exact hkind.unitCase (hnames _) fun name => carries_ofKind? name _ _ hcontents hdepth
    · cases hdefault
  | arr items =>
    obtain ⟨items', rfl, hitems⟩ := h.of_arr
    match items, hitems with
    | [kind, contents], .cons hkind (.cons hcontents .nil) =>
      refine hkind.unitCase (hnames contents) fun name =>
        carries_ofKind? (m := m) name _ _ hcontents ?_
      simp only [Json.depth, Json.depthItems] at hm
      omega
    | [], _ | [_], _ | _ :: _ :: _ :: _, _ => exact .none
  | _ => exact .none

/-! ### Defaults -/

theorem Json.eq_none_of_isDefault {name : String} (hname : name = "alias" ∨ name = "source") {value : Json}
    (h : isDefault name value = true) {s : Option String} (hs : nullable? str? value = some s) : s = none := by
  have hnull : value = .null := by
    rcases hname with rfl | rfl <;>
      cases value with
      | null => rfl
      | _ => cases h
  rw [hnull] at hs
  exact (Option.some.inj hs).symm

theorem Json.eq_nil_of_isDefault {α : Type} {name : String} (hname : name = "bindings" ∨ name = "conditions")
    {value : Json} (h : isDefault name value = true) {read : Json → Option α} {list : List α}
    (hlist : list? read value = some list) : list = [] := by
  have hnil : value = .arr [] := by
    rcases hname with rfl | rfl <;>
      cases value with
      | arr items =>
        cases items with
        | nil => rfl
        | cons => cases h
      | _ => cases h
  rw [hnil] at hlist
  exact (Option.some.inj hlist).symm

theorem Json.eq_false_of_isDefault {name : String} (hname : name = "negated" ∨ name = "all") {value : Json}
    (h : isDefault name value = true) {b : Bool} (hb : bool? value = some b) : b = false := by
  have hfalse : value = .bool false := by
    rcases hname with rfl | rfl <;>
      cases value with
      | bool b =>
        cases b with
        | false => rfl
        | true => cases h
      | _ => cases h
  rw [hfalse] at hb
  exact (Option.some.inj hb).symm

/-- Where an alias has to be there, the default is none. -/
theorem Json.str?_of_isDefault (value : Json) (h : isDefault "alias" value = true) : value.str? = none := by
  cases value with
  | str => cases h
  | _ => rfl

theorem Json.Fields.text {members members' : List (String × Json)} (h : Fields m members members') {name : String}
    (hname : name = "alias" ∨ name = "source") :
    Yields ((Json.obj members).text? name) ((Json.obj members').text? name) :=
  h.fieldD (.nullable .str) fun _ hdefault _ => eq_none_of_isDefault hname hdefault

theorem Fragment.carries : Carries m Fragment.ofJson? Fragment.ofJson? := by
  intro json short h hm
  refine h.record (Nat.le_succ_of_le hm) fun members members' hfields => ?_
  refine .bind (hfields.field .str) fun text => ?_
  exact .bind (hfields.fieldD Value.carries.list fun _ hdefault _ => Json.eq_nil_of_isDefault (.inl rfl) hdefault)
    fun bindings => .refl _

theorem Column.carries : Carries m Column.ofJson? Column.ofJson? := by
  intro json short h hm
  refine h.record (Nat.le_succ_of_le hm) fun members members' hfields => ?_
  refine .bind (hfields.text (.inr rfl)) fun source => ?_
  refine .bind (hfields.field .str) fun name => ?_
  exact .bind (hfields.text (.inl rfl)) fun aliasName => .refl _

theorem Term.carries : Carries m Term.ofJson? Term.ofJson? := by
  intro json short h hm
  refine h.case hm fun name contents contents' hcontents hdepth => ?_
  split
  next heq =>
    cases heq
    exact (Carries.str _ _ hcontents hdepth).map _
  next heq =>
    cases heq
    exact (Fragment.carries _ _ hcontents hdepth).map _
  next => exact .none

end

/-! ## Sources and conditions -/

section

variable {σ κ : Type} {m : Nat} {query? query?' : Json → Option σ}

theorem Operand.carries (hquery : Carries m query? query?') :
    Carries m (Operand.ofJson? query?) (Operand.ofJson? query?') := by
  intro json short h hm
  refine h.case hm fun name contents contents' hcontents hdepth => ?_
  split
  next heq =>
    cases heq
    exact (Value.carries _ _ hcontents hdepth).map _
  next heq =>
    cases heq
    exact (Carries.str _ _ hcontents hdepth).map _
  next heq =>
    cases heq
    exact (hquery _ _ hcontents hdepth).map _
  next heq =>
    cases heq
    exact (Fragment.carries _ _ hcontents hdepth).map _
  next => exact .none

theorem Source.carries (hquery : Carries m query? query?') :
    Carries m (Source.ofJson? query?) (Source.ofJson? query?') := by
  intro json short h hm
  refine h.case hm fun name contents contents' hcontents hdepth => ?_
  split
  next heq =>
    cases heq
    obtain ⟨members', rfl, hfields⟩ := hcontents.fields (Nat.le_succ_of_le hdepth)
    refine .bind (hfields.field .str) fun name => ?_
    exact .bind (hfields.text (.inl rfl)) fun aliasName => .refl _
  next heq =>
    cases heq
    obtain ⟨members', rfl, hfields⟩ := hcontents.fields (Nat.le_succ_of_le hdepth)
    refine .bind (hfields.field hquery) fun q => ?_
    exact .bind (hfields.field .str Json.str?_of_isDefault) fun aliasName => .refl _
  next heq =>
    cases heq
    exact (Fragment.carries _ _ hcontents hdepth).map _
  next => exact .none

theorem Predicate.carries {member? member?' : Json → Option κ} (hquery : Carries m query? query?')
    (hmember : Carries m member? member?') :
    Carries m (Predicate.ofJson? query? member?) (Predicate.ofJson? query?' member?') := by
  have hops : ∀ name ∈ Json.defaultNames, Comparison.ofName? name = none := by
    simp [Json.defaultNames, Comparison.ofName?]
  intro json short h hm
  refine h.case hm fun name contents contents' hcontents hdepth => ?_
  split
  next heq =>
    cases heq
    obtain ⟨members', rfl, hfields⟩ := hcontents.fields (Nat.le_succ_of_le hdepth)
    refine .bind (hfields.field .str) fun column => ?_
    refine .bind (hfields.field (.kind hops)) fun op => ?_
    exact .bind (hfields.field (Operand.carries hquery)) fun operand => .refl _
  next heq =>
    cases heq
    obtain ⟨members', rfl, hfields⟩ := hcontents.fields (Nat.le_succ_of_le hdepth)
    refine .bind (hfields.field .str) fun column => ?_
    exact .bind (hfields.field Value.carries.list) fun values => .refl _
  next heq =>
    cases heq
    obtain ⟨members', rfl, hfields⟩ := hcontents.fields (Nat.le_succ_of_le hdepth)
    refine .bind (hfields.field .str) fun column => ?_
    exact .bind (hfields.field hquery) fun q => .refl _
  next heq =>
    cases heq
    obtain ⟨members', rfl, hfields⟩ := hcontents.fields (Nat.le_succ_of_le hdepth)
    refine .bind (hfields.field .str) fun column => ?_
    refine .bind (hfields.field Value.carries) fun low => ?_
    exact .bind (hfields.field Value.carries) fun high => .refl _
  next heq =>
    cases heq
    obtain ⟨members', rfl, hfields⟩ := hcontents.fields (Nat.le_succ_of_le hdepth)
    exact .bind (hfields.field .str) fun column => .refl _
  next heq =>
    cases heq
    obtain ⟨members', rfl, hfields⟩ := hcontents.fields (Nat.le_succ_of_le hdepth)
    refine .bind (hfields.field .str) fun column => ?_
    refine .bind (hfields.field .str) fun pattern => ?_
    exact .bind (hfields.field .bool) fun caseSensitive => .refl _
  next heq =>
    cases heq
    obtain ⟨members', rfl, hfields⟩ := hcontents.fields (Nat.le_succ_of_le hdepth)
    exact .bind (hfields.field hquery) fun q => .refl _
  next heq =>
    cases heq
    exact (hmember.list _ _ hcontents hdepth).map _
  next heq =>
    cases heq
    exact (Fragment.carries _ _ hcontents hdepth).map _
  next => exact .none

theorem Json.depth_pos (json : Json) : 0 < json.depth := by
  cases json <;> simp [depth]

/-- Groups are nested less deep than the JSON is. -/
theorem Condition.carries (fuel : Nat) {fuel' : Nat} (hquery : Carries fuel' query? query?') :
    Carries fuel' (Condition.ofJson? query? fuel) (Condition.ofJson? query?' fuel') := by
  have hconnectors : ∀ name ∈ Json.defaultNames, Connector.ofName? name = none := by
    simp [Json.defaultNames, Connector.ofName?]
  induction fuel generalizing fuel' with
  | zero => exact fun _ _ _ _ => .none
  | succ fuel ih =>
    intro json short h hm
    cases fuel' with
    | zero => exact absurd short.depth_pos (by omega)
    | succ fuel' =>
      have hquery := hquery.mono (Nat.le_succ fuel')
      refine h.record hm fun members members' hfields => ?_
      refine .bind (hfields.fieldD (.kind hconnectors) ?connector) fun connector => ?_
      case connector =>
        intro value hdefault connector hread
        exact Option.some.inj (hread.symm.trans (of_decide_eq_true hdefault))
      refine .bind (hfields.fieldD .bool fun _ hdefault _ => Json.eq_false_of_isDefault (.inl rfl) hdefault)
        fun negated => ?_
      exact .bind (hfields.field (Predicate.carries hquery (ih hquery)))
        fun predicate => .refl _

theorem Join.carries {condition? condition?' : Json → Option (Condition σ)} (hquery : Carries m query? query?')
    (hcondition : Carries m condition? condition?') :
    Carries m (Join.ofJson? query? condition?) (Join.ofJson? query?' condition?') := by
  have hkinds : ∀ name ∈ Json.defaultNames, JoinKind.ofName? name = none := by
    simp [Json.defaultNames, JoinKind.ofName?]
  intro json short h hm
  refine h.record (Nat.le_succ_of_le hm) fun members members' hfields => ?_
  refine .bind (hfields.field (.kind hkinds)) fun kind => ?_
  refine .bind (hfields.field (Source.carries hquery) ?source) fun source => ?_
  case source =>
    intro value hdefault
    cases value with
    | null => rfl
    | _ => cases hdefault
  exact .bind (hfields.fieldD hcondition.list fun _ hdefault _ => Json.eq_nil_of_isDefault (.inr rfl) hdefault)
    fun conditions => .refl _

/-! ## Clauses and queries -/

theorem Clause.carries {condition? condition?' : Json → Option (Condition σ)} (hquery : Carries m query? query?')
    (hcondition : Carries m condition? condition?') :
    Carries m (Clause.ofJson? query? condition?) (Clause.ofJson? query?' condition?') := by
  have hfunctions : ∀ name ∈ Json.defaultNames, Aggregate.ofName? name = none := by
    simp [Json.defaultNames, Aggregate.ofName?]
  have hdirections : ∀ name ∈ Json.defaultNames, Direction.ofName? name = none := by
    simp [Json.defaultNames, Direction.ofName?]
  have hoperators : ∀ name ∈ Json.defaultNames, SetOperator.ofName? name = none := by
    simp [Json.defaultNames, SetOperator.ofName?]
  intro json short h hm
  refine h.case hm fun name contents contents' hcontents hdepth => ?_
  split
  next heq =>
    cases heq
    exact (Carries.str _ _ hcontents hdepth).map _
  next heq =>
    cases heq
    exact (Column.carries _ _ hcontents hdepth).map _
  next heq =>
    cases heq
    exact (Fragment.carries _ _ hcontents hdepth).map _
  next heq =>
    cases heq
    obtain ⟨members', rfl, hfields⟩ := hcontents.fields (Nat.le_succ_of_le hdepth)
    refine .bind (hfields.field (.kind hfunctions)) fun function => ?_
    refine .bind (hfields.field .str) fun name => ?_
    exact .bind (hfields.text (.inl rfl)) fun aliasName => .refl _
  next heq =>
    cases heq
    obtain ⟨members', rfl, hfields⟩ := hcontents.fields (Nat.le_succ_of_le hdepth)
    refine .bind (hfields.field hquery) fun q => ?_
    exact .bind (hfields.field .str Json.str?_of_isDefault) fun aliasName => .refl _
  next heq =>
    cases heq
    exact (Source.carries hquery _ _ hcontents hdepth).map _
  next heq =>
    cases heq
    exact (Join.carries hquery hcondition _ _ hcontents hdepth).map _
  next heq =>
    cases heq
    exact (hcondition _ _ hcontents hdepth).map _
  next heq =>
    cases heq
    exact (Term.carries _ _ hcontents hdepth).map _
  next heq =>
    cases heq
    exact (hcondition _ _ hcontents hdepth).map _
  next heq =>
    cases heq
    obtain ⟨members', rfl, hfields⟩ := hcontents.fields (Nat.le_succ_of_le hdepth)
    refine .bind (hfields.field Term.carries) fun term => ?_
    refine .bind (hfields.fieldD (.kind hdirections) ?direction) fun direction => .refl _
    case direction =>
      intro value hdefault direction hread
      exact Option.some.inj (hread.symm.trans (of_decide_eq_true hdefault))
  next heq =>
    cases heq
    exact (Carries.uint64 _ _ hcontents hdepth).map _
  next heq =>
    cases heq
    exact (Carries.int64 _ _ hcontents hdepth).map _
  next heq =>
    cases heq
    cases hcontents
    exact .refl _
  next heq =>
    cases heq
    obtain ⟨members', rfl, hfields⟩ := hcontents.fields (Nat.le_succ_of_le hdepth)
    refine .bind (hfields.field hquery) fun operand => ?_
    refine .bind (hfields.field (.kind hoperators)) fun operator => ?_
    exact .bind (hfields.fieldD .bool fun _ hdefault _ => Json.eq_false_of_isDefault (.inr rfl) hdefault)
      fun all => .refl _
  next heq =>
    cases heq
    obtain ⟨members', rfl, hfields⟩ := hcontents.fields (Nat.le_succ_of_le hdepth)
    refine .bind (hfields.field .str) fun name => ?_
    exact .bind (hfields.field hquery) fun q => .refl _
  next => exact .none

end

namespace Query

/-- A query that is read with some bound on its nesting is read with every bound that the depth of its JSON
keeps to. -/
theorem carries_ofJsonWithin? (fuel fuel' : Nat) :
    Carries fuel' (Query.ofJsonWithin? fuel) (Query.ofJsonWithin? fuel') := by
  induction fuel generalizing fuel' with
  | zero => exact fun _ _ _ _ => .none
  | succ fuel ih =>
    intro json short h hm
    cases fuel' with
    | zero => exact absurd short.depth_pos (by omega)
    | succ fuel' =>
      have hclause := Clause.carries (ih fuel') (Condition.carries fuel (ih fuel'))
      exact (hclause.items json short h hm).map Query.mk

/-- Leaving out members that have their default does not change the query that is read. -/
theorem ofJson?_abridged {json short : Json} (h : json.Abridged short) {q : Query} (hq : ofJson? json = some q) :
    ofJson? short = some q :=
  carries_ofJsonWithin? json.depth short.depth json short h (Nat.le_refl _) q hq

end Query

end QueryCompiler
