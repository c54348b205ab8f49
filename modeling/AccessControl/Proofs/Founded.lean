import AccessControl.Policy.Derivation
import AccessControl.Proofs.Traversal

namespace AccessControl

variable {m : Type → Type}

mutual

def Clause.predicates : Clause m → List (Predicate m)
  | .predicate _ p => [p]
  | .negate c | .association _ c => Clause.predicatesAll c
  | .or left right => Clause.predicatesAll left ++ Clause.predicatesAll right
  | .equals _ _ | .isNull _ | .derived _ => []

def Clause.predicatesAll : List (Clause m) → List (Predicate m)
  | [] => []
  | c :: rest => c.predicates ++ Clause.predicatesAll rest

end

theorem Clause.mem_predicatesAll {c : List (Clause m)} {x : Clause m} (hx : x ∈ c)
    {p : Predicate m} (hp : p ∈ x.predicates) : p ∈ Clause.predicatesAll c := by
  induction c with
  | nil => cases hx
  | cons y rest ih =>
    rw [Clause.predicatesAll, List.mem_append]
    rcases List.mem_cons.1 hx with rfl | hx
    · exact .inl hp
    · exact .inr (ih hx)

def Policy.predicates (policy : Policy m) : List (Predicate m) :=
  policy.rules.flatMap fun entry => entry.2.conditions.flatMap Clause.predicatesAll

/-- What a clause names is there: it can be read for records of type `t` without a fault of
definition. Permissions it derives from are in `below`, and its custom tests in `known`. -/
inductive Clause.WellFormed (schema : Schema) (below : Permission → Prop)
    (known : Predicate m → Prop) : ResourceType → Clause m → Prop
  | equals {t field v literal} (coerces : schema.literal t field v = .ok literal) :
      WellFormed schema below known t (.equals field v)
  | isNull {t field type} (declared : schema.fieldType t field = some type) :
      WellFormed schema below known t (.isNull field)
  | negate {t c} (inner : ∀ x ∈ c, WellFormed schema below known t x) :
      WellFormed schema below known t (.negate c)
  | or {t left right} (first : ∀ x ∈ left, WellFormed schema below known t x)
      (second : ∀ x ∈ right, WellFormed schema below known t x) :
      WellFormed schema below known t (.or left right)
  | association {t name c a} (declared : schema.association t name = some a)
      (registered : schema.contains a.related = true)
      (inner : ∀ x ∈ c, WellFormed schema below known a.related x) :
      WellFormed schema below known t (.association name c)
  | derived {t action key} (registered : schema.contains t = true)
      (keyed : schema.primaryKey t = some key) (founded : below ⟨t, action⟩) :
      WellFormed schema below known t (.derived action)
  | predicate {t field p type} (declared : schema.fieldType t field = some type)
      (listed : known p) : WellFormed schema below known t (.predicate field p)

section WellFormed

variable {schema : Schema} {below : Permission → Prop} {known : Predicate m → Prop}

mutual

theorem Clause.wellFormed_of_validate {c : Clause m} {t : ResourceType} {found : List Permission}
    (registered : schema.contains t = true) (valid : c.validate schema t = .ok ())
    (derives : c.derivations schema t = .ok found) (founded : ∀ p ∈ found, below p)
    (listed : ∀ p ∈ c.predicates, known p) : c.WellFormed schema below known t := by
  cases c with
  | equals field v =>
    rw [Clause.validate, discard_eq_ok_iff] at valid
    obtain ⟨_, valid⟩ := valid
    exact .equals valid
  | isNull field =>
    rw [Clause.validate, discard_eq_ok_iff] at valid
    obtain ⟨_, valid⟩ := valid
    exact .isNull (Schema.requireField_eq_ok_iff.1 valid)
  | predicate field p =>
    rw [Clause.validate, discard_eq_ok_iff] at valid
    obtain ⟨_, valid⟩ := valid
    exact .predicate (Schema.requireField_eq_ok_iff.1 valid) (listed p (by simp [Clause.predicates]))
  | negate c =>
    rw [Clause.validate, bind_eq_ok_iff] at valid
    obtain ⟨_, _, valid⟩ := valid
    rw [Clause.derivations] at derives
    rw [Clause.predicates] at listed
    exact .negate (Clause.wellFormed_of_validateAll registered valid derives founded listed)
  | or left right =>
    simp only [Clause.validate, Clause.derivations, bind_eq_ok_iff] at valid derives
    obtain ⟨_, _, _, validLeft, _, _, validRight⟩ := valid
    obtain ⟨first, derivesLeft, second, derivesRight, hfound⟩ := derives
    cases hfound
    rw [Clause.predicates] at listed
    refine .or
      (Clause.wellFormed_of_validateAll registered validLeft derivesLeft (fun p hp => ?_)
        fun p hp => ?_)
      (Clause.wellFormed_of_validateAll registered validRight derivesRight (fun p hp => ?_)
        fun p hp => ?_)
    · exact founded p (List.mem_append_left _ hp)
    · exact listed p (List.mem_append_left _ hp)
    · exact founded p (List.mem_append_right _ hp)
    · exact listed p (List.mem_append_right _ hp)
  | association name c =>
    simp only [Clause.validate, bind_eq_ok_iff, Schema.requireAssociation_eq_ok_iff,
      Schema.requireType_eq_ok_iff] at valid
    obtain ⟨a, declared, _, relatedRegistered, valid⟩ := valid
    simp only [Clause.derivations, declared] at derives
    rw [Clause.predicates] at listed
    exact .association declared relatedRegistered
      (Clause.wellFormed_of_validateAll relatedRegistered valid derives founded listed)
  | derived action =>
    simp only [Clause.derivations, bind_eq_ok_iff, discard_eq_ok_iff,
      Schema.requirePrimaryKey_eq_ok_iff] at derives
    obtain ⟨_, ⟨key, keyed⟩, hfound⟩ := derives
    cases hfound
    exact .derived registered keyed (founded _ (List.mem_singleton_self _))

theorem Clause.wellFormed_of_validateAll {c : List (Clause m)} {t : ResourceType}
    {found : List Permission} (registered : schema.contains t = true)
    (valid : Clause.validateAll schema t c = .ok ())
    (derives : Clause.derivationsAll schema t c = .ok found) (founded : ∀ p ∈ found, below p)
    (listed : ∀ p ∈ Clause.predicatesAll c, known p) :
    ∀ x ∈ c, x.WellFormed schema below known t := by
  cases c with
  | nil => simp
  | cons c rest =>
    simp only [Clause.validateAll, Clause.derivationsAll, bind_eq_ok_iff] at valid derives
    obtain ⟨_, valid, validRest⟩ := valid
    obtain ⟨first, derives, others, derivesRest, hfound⟩ := derives
    cases hfound
    rw [Clause.predicatesAll] at listed
    rw [List.forall_mem_append] at founded listed
    rw [List.forall_mem_cons]
    exact ⟨Clause.wellFormed_of_validate registered valid derives founded.1 listed.1,
      Clause.wellFormed_of_validateAll registered validRest derivesRest founded.2 listed.2⟩

end

end WellFormed

namespace Policy

variable {policy : Policy m} {schema : Schema}

/-- Chains of derivations from `p` on are of well-formed rules and have at most `room`
permissions, `p` included. -/
def Founded (policy : Policy m) (schema : Schema) : Nat → Permission → Prop
  | 0, _ => False
  | room + 1, p => ∃ targets, policy.derivations schema p = .ok targets ∧
      ∀ q ∈ targets, policy.Founded schema room q

theorem Founded.mono {room more : Nat} {p : Permission} (h : policy.Founded schema room p)
    (hle : room ≤ more) : policy.Founded schema more p := by
  induction room generalizing more p with
  | zero => exact h.elim
  | succ room ih =>
    obtain ⟨more, rfl⟩ := Nat.exists_eq_succ_of_ne_zero (by omega : more ≠ 0)
    obtain ⟨targets, derives, founded⟩ := h
    exact ⟨targets, derives, fun q hq => ih (founded q hq) (by omega)⟩

theorem Heights.forall_cons {P : Permission → Nat → Prop} {heights : Heights} {p : Permission}
    {height : Nat} (h : ∀ q other, heights.lookup q = some other → P q other) (hp : P p height) :
    ∀ q other, List.lookup q ((p, height) :: heights) = some other → P q other := by
  intro q other hq
  rw [Keyed.lookup_cons_ite] at hq
  split at hq
  · next heq =>
    cases hq
    exact heq ▸ hp
  · exact h q other hq

/-- The heights noted are of founded permissions. -/
def Heights.Sound (policy : Policy m) (schema : Schema) (heights : Heights) : Prop :=
  ∀ p height, heights.lookup p = some height → policy.Founded schema (height + 1) p

theorem Heights.Sound.cons {heights : Heights} {p : Permission} {height : Nat}
    (h : heights.Sound policy schema) (founded : policy.Founded schema (height + 1) p) :
    Heights.Sound policy schema ((p, height) :: heights) :=
  Heights.forall_cons (P := fun q height => policy.Founded schema (height + 1) q) h founded

theorem founded_of_foldlM {visit : Permission → StateT Heights (Except AuthorizationError) Nat}
    {room : Nat} (step : ∀ q heights below heights', Heights.Sound policy schema heights →
      (visit q).run heights = .ok (below, heights') →
      Heights.Sound policy schema heights' ∧ policy.Founded schema (below + 1) q ∧ below < room)
    (targets : List Permission) {greatest height : Nat} {heights heights' : Heights}
    (sound : Heights.Sound policy schema heights) (hle : greatest ≤ room)
    (h : (targets.foldlM (fun greatest q => do
      let below ← visit q
      pure (max greatest (below + 1))) greatest).run heights = .ok (height, heights')) :
    Heights.Sound policy schema heights' ∧ greatest ≤ height ∧ height ≤ room ∧
      ∀ q ∈ targets, policy.Founded schema height q := by
  induction targets generalizing greatest heights with
  | nil =>
    cases h
    exact ⟨sound, Nat.le_refl _, hle, by simp⟩
  | cons q rest ih =>
    simp only [List.foldlM_cons, StateT.run_bind, bind_eq_ok_iff, StateT.run_pure] at h
    obtain ⟨_, ⟨⟨below, heights₁⟩, hvisit, hpure⟩, hrest⟩ := h
    cases hpure
    obtain ⟨sound₁, founded, hlt⟩ := step q heights below heights₁ sound hvisit
    obtain ⟨sound', hmax, hroom, others⟩ := ih sound₁ (by omega) hrest
    refine ⟨sound', by omega, hroom, ?_⟩
    rw [List.forall_mem_cons]
    exact ⟨founded.mono (by omega), others⟩

theorem founded_of_visit {bound room : Nat} {path : List Permission} {p : Permission}
    {height : Nat} {heights heights' : Heights} (sound : Heights.Sound policy schema heights)
    (h : (policy.visit schema bound room path p).run heights = .ok (height, heights')) :
    Heights.Sound policy schema heights' ∧ policy.Founded schema (height + 1) p ∧
      height < room := by
  induction room generalizing path p height heights heights' with
  | zero => cases h
  | succ room ih =>
    simp only [visit, StateT.run_bind, StateT.run_get, bind_eq_ok_iff] at h
    obtain ⟨_, hget, h⟩ := h
    cases hget
    cases hlookup : heights.lookup p with
    | some known =>
      simp only [hlookup] at h
      split at h
      · cases h
      · cases h
        exact ⟨sound, sound p _ hlookup, by omega⟩
    | none =>
      simp only [hlookup] at h
      split at h
      · cases h
      · simp only [StateT.run_bind, bind_eq_ok_iff, StateT.run_pure, StateT.run_monadLift] at h
        obtain ⟨_, ⟨targets, derives, hpure⟩, ⟨greatest, heights₁⟩, hwalk, _, hmodify, hend⟩ := h
        cases hpure
        cases hmodify
        cases hend
        obtain ⟨sound₁, -, hle, founded⟩ := founded_of_foldlM
          (fun q heights below heights' hsound hvisit => ih hsound hvisit) targets sound
          (Nat.zero_le _) hwalk
        have hp : policy.Founded schema (greatest + 1) p := ⟨targets, derives, founded⟩
        exact ⟨sound₁.cons hp, hp, by omega⟩

theorem founded_of_check {p : Permission} {bound : Nat}
    (h : policy.check schema p bound = .ok ()) : policy.Founded schema (bound + 1) p := by
  rw [check, discard_eq_ok_iff] at h
  obtain ⟨⟨height, heights⟩, hvisit⟩ := h
  obtain ⟨-, founded, hlt⟩ :=
    founded_of_visit (fun _ _ hlookup => by simp at hlookup) hvisit
  exact founded.mono (by omega)

theorem exists_rule_of_mem_conditions {p : Permission} {c : Condition m}
    (h : c ∈ (policy.ruleFor p).conditions) :
    ∃ rule, (p, rule) ∈ policy.rules ∧ c ∈ rule.conditions := by
  unfold ruleFor Rules.rule at h
  cases hlookup : policy.rules.lookup p with
  | none => simp [hlookup, Rule.empty, Rule.conditions] at h
  | some rule =>
    rw [hlookup, Option.getD_some] at h
    exact ⟨rule, Keyed.mem_of_lookup hlookup, h⟩

theorem predicatesAll_subset_predicates {p : Permission} {c : Condition m}
    (h : c ∈ (policy.ruleFor p).conditions) {test : Predicate m}
    (htest : test ∈ Clause.predicatesAll c) : test ∈ policy.predicates := by
  obtain ⟨rule, hrule, hc⟩ := exists_rule_of_mem_conditions h
  rw [predicates, List.mem_flatMap]
  exact ⟨(p, rule), hrule, List.mem_flatMap.2 ⟨c, hc, htest⟩⟩

theorem Founded.wellFormed {known : Predicate m → Prop} {room : Nat} {p : Permission}
    (h : policy.Founded schema (room + 1) p) (listed : ∀ test ∈ policy.predicates, known test)
    {c : Condition m} (hc : c ∈ (policy.ruleFor p).conditions) :
    schema.contains p.resourceType = true ∧
      ∀ x ∈ c, x.WellFormed schema (policy.Founded schema room) known p.resourceType := by
  obtain ⟨targets, derives, founded⟩ := h
  obtain ⟨found, hfound, hflat⟩ := (bind_eq_ok_iff _ _ _).1 derives
  cases hflat
  obtain ⟨ds, hds, hc'⟩ := exists_of_mapM_eq_ok hfound hc
  obtain ⟨_, valid, hds'⟩ := (bind_eq_ok_iff _ _ _).1 hc'
  obtain ⟨_, registered, valid⟩ := (bind_eq_ok_iff _ _ _).1 valid
  have registered := Schema.requireType_eq_ok_iff.1 registered
  refine ⟨registered, Clause.wellFormed_of_validateAll registered valid hds' ?_ ?_⟩
  · exact fun q hq => founded q (List.mem_flatten.2 ⟨ds, hds, hq⟩)
  · exact fun test htest => listed test (predicatesAll_subset_predicates hc htest)

end Policy

end AccessControl
