import AccessControl.Proofs.Chains
import AccessControl.Proofs.Keys

namespace AccessControl

variable {m : Type → Type}

/-- What validation leaves to the checks: that derived permissions have a primary key to go by, and
that they do not nest too deep. -/
inductive AuthorizationError.IsDerivationFault : AuthorizationError → Prop
  | missingPrimaryKey (t : ResourceType) : IsDerivationFault (.missingPrimaryKey t)
  | derivationDepthExceeded (t : ResourceType) (action : Action) (bound : Nat) :
    IsDerivationFault (.derivationDepthExceeded t action bound)

inductive Policy.Assembled : Policy m → Prop
  | empty : Assembled .empty
  | allow {policy : Policy m} (h : Assembled policy) (action : Action) (t : ResourceType)
      (c : Condition m) : Assembled (policy.allow action t c)
  | deny {policy : Policy m} (h : Assembled policy) (action : Action) (t : ResourceType)
      (c : Condition m) : Assembled (policy.deny action t c)
  | attachHook {policy policy' : Policy m} (h : Assembled policy) {hook : Hook m}
      (attached : policy.attachHook hook = .ok policy') : Assembled policy'
  | attachNewHook {policy : Policy m} (h : Assembled policy) (hook : Hook m) :
      Assembled (policy.attachNewHook hook)
  | detachHook {policy : Policy m} (h : Assembled policy) (name : String) (scope : HookScope) :
      Assembled (policy.detachHook name scope)

section Clauses

variable {schema : Schema}

theorem requirePrimaryKey_within (t : ResourceType) :
    Except.Within AuthorizationError.IsDerivationFault (schema.requirePrimaryKey t) := by
  unfold Schema.requirePrimaryKey
  split
  · exact .ok _
  · exact .error (.missingPrimaryKey t)

mutual

theorem Clause.derivations_within (c : Clause m) (t : ResourceType) :
    Except.Within AuthorizationError.IsDerivationFault (c.derivations schema t) := by
  cases c with
  | equals | isNull | predicate =>
    rw [Clause.derivations]
    exact .ok _
  | derived action =>
    rw [Clause.derivations]
    exact (requirePrimaryKey_within t).discard.bind fun _ _ => .ok _
  | negate c =>
    rw [Clause.derivations]
    exact Clause.derivationsAll_within c t
  | or left right =>
    rw [Clause.derivations]
    exact (Clause.derivationsAll_within left t).bind fun _ _ =>
      (Clause.derivationsAll_within right t).bind fun _ _ => .ok _
  | association name c =>
    rw [Clause.derivations]
    cases schema.association t name with
    | none => exact .ok _
    | some a => exact Clause.derivationsAll_within c a.related

theorem Clause.derivationsAll_within (c : List (Clause m)) (t : ResourceType) :
    Except.Within AuthorizationError.IsDerivationFault (Clause.derivationsAll schema t c) := by
  cases c with
  | nil =>
    rw [Clause.derivationsAll]
    exact .ok _
  | cons x rest =>
    rw [Clause.derivationsAll]
    exact (Clause.derivations_within x t).bind fun _ _ =>
      (Clause.derivationsAll_within rest t).bind fun _ _ => .ok _

end

end Clauses

namespace Policy

variable {policy : Policy m} {schema : Schema}

/-- Only grants and revocations change the rules, and they keep what a rule is for. -/
theorem Assembled.rules_induction {motive : Rules m → Prop} (h : policy.Assembled)
    (nil : motive [])
    (update : ∀ rules p change, (∀ r : Rule m, (change r).permission = r.permission) →
      motive rules → motive (rules.update p change)) : motive policy.rules := by
  induction h with
  | empty => exact nil
  | allow _ action t c ih => exact update _ ⟨t, action⟩ _ (fun r => r.permission_addAllow c) ih
  | deny _ action t c ih => exact update _ ⟨t, action⟩ _ (fun r => r.permission_addDeny c) ih
  | attachHook _ attached ih =>
    rw [rules_of_attachHook attached]
    exact ih
  | attachNewHook _ hook ih =>
    rw [rules_attachNewHook]
    exact ih
  | detachHook _ _ _ ih => exact ih

theorem Assembled.filed (h : policy.Assembled) : policy.rules.Filed :=
  h.rules_induction Rules.filed_nil fun _ _ _ keeps filed => filed.update keeps

theorem Assembled.distinct (h : policy.Assembled) : Keyed.Distinct policy.rules :=
  h.rules_induction List.nodup_nil fun _ _ _ _ distinct => distinct.putSorted

theorem ruleFor_of_mem (distinct : Keyed.Distinct policy.rules) {entry : Permission × Rule m}
    (h : entry ∈ policy.rules) : policy.ruleFor entry.1 = entry.2 := by
  rw [ruleFor, Rules.rule, distinct.lookup_eq h]
  rfl

theorem validate_eq_ok_iff : policy.validate schema = .ok () ↔
    (∀ entry ∈ policy.rules, ∀ c ∈ entry.2.conditions,
      Condition.validate schema entry.2.resourceType c = .ok ()) ∧
    ∀ hook ∈ policy.hooks, hook.scope.validate schema = .ok () := by
  simp only [validate, bind_eq_ok_iff, forM_eq_ok_iff, exists_const]

theorem derivations_within {p : Permission}
    (valid : ∀ c ∈ (policy.ruleFor p).conditions,
      Condition.validate schema p.resourceType c = .ok ()) :
    Except.Within AuthorizationError.IsDerivationFault (policy.derivations schema p) := by
  unfold derivations
  refine .bind (.mapM fun c hc => ?_) fun _ _ => .ok _
  rw [valid c hc]
  exact Clause.derivationsAll_within c p.resourceType

/-- Where all conditions are valid, a visit fails with nothing else than faults of derivations. -/
theorem visit_within {bound room : Nat} {path : List Permission} {p : Permission}
    {heights : Heights} (valid : ∀ q, ∀ c ∈ (policy.ruleFor q).conditions,
      Condition.validate schema q.resourceType c = .ok ()) :
    Except.Within AuthorizationError.IsDerivationFault
      ((policy.visit schema bound room path p).run heights) := by
  induction room generalizing path p heights with
  | zero => exact .error (.derivationDepthExceeded _ _ _)
  | succ room ih =>
    rw [visit_run_succ]
    cases heights.lookup p with
    | some height =>
      dsimp only
      split
      · exact .error (.derivationDepthExceeded _ _ _)
      · exact .ok _
    | none =>
      dsimp only
      split
      · exact .error (.derivationDepthExceeded _ _ _)
      · refine (derivations_within (valid p)).bind fun targets _ => ?_
        refine .bind (.foldlM (fun greatest heights q _ => ?_) 0 heights) fun _ _ => .ok _
        rw [visitNext, StateT.run_bind]
        exact ih.bind fun _ _ => .ok _

theorem check_within {p : Permission} {bound : Nat}
    (valid : ∀ q, ∀ c ∈ (policy.ruleFor q).conditions,
      Condition.validate schema q.resourceType c = .ok ()) :
    Except.Within AuthorizationError.IsDerivationFault (policy.check schema p bound) :=
  (visit_within valid).discard

end Policy

/-- Each rule of a policy has the type and the action that it is kept under. So once the policy is
validated, a check fails only where a primary key is missing or derived permissions nest too deep.
Conversely a policy is valid if each of its rules passes its check, under some bound, and hooks are
for types that exist. -/
theorem validation_predicts_checks {policy : Policy m} (assembled : policy.Assembled)
    (schema : Schema) :
    (∀ entry ∈ policy.rules, entry.2.resourceType = entry.1.resourceType ∧
      entry.2.action = entry.1.action) ∧
    (policy.validate schema = .ok () → ∀ p bound, policy.check schema p bound = .ok () ∨
      ∃ e, policy.check schema p bound = .error e ∧ e.IsDerivationFault) ∧
    ((∀ entry ∈ policy.rules, ∃ bound, policy.check schema entry.1 bound = .ok ()) →
      (∀ hook ∈ policy.hooks, ∀ t, hook.scope = .type t → schema.contains t = true) →
      policy.validate schema = .ok ()) := by
  have filed : ∀ entry ∈ policy.rules, entry.2.resourceType = entry.1.resourceType ∧
      entry.2.action = entry.1.action := fun entry hentry => by
    rw [← assembled.filed entry hentry]
    exact ⟨rfl, rfl⟩
  refine ⟨filed, fun validated p bound => ?_, fun checked known => ?_⟩
  · have valid : ∀ q, ∀ c ∈ (policy.ruleFor q).conditions,
        Condition.validate schema q.resourceType c = .ok () := by
      intro q c hc
      obtain ⟨rule, hrule, hc⟩ := Policy.exists_rule_of_mem_conditions hc
      rw [← (filed (q, rule) hrule).1]
      exact (Policy.validate_eq_ok_iff.1 validated).1 (q, rule) hrule c hc
    cases hcheck : policy.check schema p bound with
    | ok u => exact .inl rfl
    | error e => exact .inr ⟨e, rfl, Policy.check_within valid e hcheck⟩
  · refine Policy.validate_eq_ok_iff.2 ⟨fun entry hentry c hc => ?_, fun hook hhook => ?_⟩
    · obtain ⟨bound, hcheck⟩ := checked entry hentry
      obtain ⟨targets, derives, -⟩ := Policy.founded_of_check hcheck
      have valid := (Policy.exists_derivations_iff.1 ⟨targets, derives⟩).1
      rw [Policy.ruleFor_of_mem assembled.distinct hentry, ← (filed entry hentry).1] at valid
      exact valid c hc
    · cases hscope : hook.scope with
      | all => rfl
      | type t => exact Schema.requireType_eq_ok_iff.2 (known hook hhook t hscope)

namespace Forum

def moderated : Policy (Caller Unit) :=
  (((Policy.empty.allow ⟨"read"⟩ ⟨"post"⟩ [.association "thread" [.derived ⟨"read"⟩]]).allow
    ⟨"read"⟩ ⟨"thread"⟩ []).deny ⟨"read"⟩ ⟨"thread"⟩
    [.equals "archived" (.boolean true)]).attachNewHook { keeper with scope := .type ⟨"post"⟩ }

/-- The rules pass their checks under a bound of one, so that the policy is valid. Under a bound of
zero the rule for posts fails, but in the way that is left to it. -/
theorem moderated_predicted :
    moderated.validate registry.schema = .ok () ∧
    moderated.check registry.schema ⟨⟨"post"⟩, ⟨"read"⟩⟩ 0 =
      .error (.derivationDepthExceeded ⟨"thread"⟩ ⟨"read"⟩ 0) ∧
    ∀ p bound, moderated.check registry.schema p bound = .ok () ∨
      ∃ e, moderated.check registry.schema p bound = .error e ∧ e.IsDerivationFault := by
  have assembled : moderated.Assembled :=
    .attachNewHook (.deny (.allow (.allow .empty _ _ _) _ _ _) _ _ _) _
  obtain ⟨-, predicted, validated⟩ := validation_predicts_checks assembled registry.schema
  have valid : moderated.validate registry.schema = .ok () := by
    refine validated ?_ fun hook hhook t ht => ?_
    · exact List.forall_mem_cons.2 ⟨⟨1, rfl⟩, List.forall_mem_cons.2 ⟨⟨1, rfl⟩, nofun⟩⟩
    · obtain rfl : hook = { keeper with scope := .type ⟨"post"⟩ } := List.mem_singleton.1 hhook
      cases ht
      decide
  exact ⟨valid, rfl, predicted valid⟩

end Forum

end AccessControl
