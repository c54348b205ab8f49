import AccessControl.Condition.Validate
import AccessControl.Hook.Basic
import AccessControl.Policy.Rule

namespace AccessControl

def HookScope.validate (schema : Schema) : HookScope → Except AuthorizationError Unit
  | all => pure ()
  | type t => schema.requireType t

abbrev Rules (m : Type → Type) :=
  List (Permission × Rule m)

namespace Rules

variable {m : Type → Type}

/-- Every rule is kept under the permission that it is for. -/
def Filed (rules : Rules m) : Prop :=
  ∀ entry ∈ rules, entry.2.permission = entry.1

def rule (rules : Rules m) (p : Permission) : Rule m :=
  (rules.lookup p).getD (.empty p)

def update (rules : Rules m) (p : Permission) (change : Rule m → Rule m) : Rules m :=
  Keyed.putSorted p (change (rules.rule p)) rules

variable {rules : Rules m} {p : Permission} {change : Rule m → Rule m}

@[simp] theorem filed_nil : Filed ([] : Rules m) :=
  List.forall_mem_nil _

@[simp] theorem filed_cons {r : Rule m} :
    Filed ((p, r) :: rules : Rules m) ↔ r.permission = p ∧ rules.Filed :=
  List.forall_mem_cons

theorem Filed.permission_rule (h : rules.Filed) (p : Permission) :
    (rules.rule p).permission = p := by
  unfold rule
  cases hlookup : rules.lookup p with
  | none => rfl
  | some r => exact h (p, r) (Keyed.mem_of_lookup hlookup)

/-- What a change writes is for the permission that it is written under. -/
theorem Filed.update (h : rules.Filed) (keeps : ∀ r, (change r).permission = r.permission) :
    (rules.update p change).Filed := by
  intro entry hentry
  rcases Keyed.mem_of_mem_putSorted hentry with rfl | hentry
  · exact (keeps _).trans (h.permission_rule p)
  · exact h entry hentry

theorem rule_update (q : Permission) : (rules.update p change).rule q =
    if q = p then change (rules.rule p) else rules.rule q := by
  rw [rule, update, Keyed.lookup_putSorted]
  split <;> rfl

end Rules

/-- Rules that are kept under their permissions, and hooks in the order of their registration. -/
structure Policy (m : Type → Type) where
  rules : Rules m
  hooks : List (Hook m)
  filed : rules.Filed

namespace Policy

variable {m : Type → Type}

def empty : Policy m :=
  ⟨[], [], Rules.filed_nil⟩

def ruleFor (policy : Policy m) (p : Permission) : Rule m :=
  policy.rules.rule p

@[simp] theorem permission_ruleFor (policy : Policy m) (p : Permission) :
    (policy.ruleFor p).permission = p :=
  policy.filed.permission_rule p

@[simp] theorem resourceType_ruleFor (policy : Policy m) (p : Permission) :
    (policy.ruleFor p).resourceType = p.resourceType :=
  congrArg Permission.resourceType (policy.permission_ruleFor p)

def update (policy : Policy m) (p : Permission) (change : Rule m → Rule m)
    (keeps : ∀ r, (change r).permission = r.permission) : Policy m :=
  { policy with
    rules := policy.rules.update p change
    filed := policy.filed.update keeps }

def allow (policy : Policy m) (action : Action) (t : ResourceType) (c : Condition m) : Policy m :=
  policy.update ⟨t, action⟩ (·.addAllow c) (·.permission_addAllow c)

def deny (policy : Policy m) (action : Action) (t : ResourceType) (c : Condition m) : Policy m :=
  policy.update ⟨t, action⟩ (·.addDeny c) (·.permission_addDeny c)

def anyAuthorized (policy : Policy m) (p : Permission) : Bool :=
  (policy.ruleFor p).anyAllowed

def hasHook (policy : Policy m) (name : String) (scope : HookScope) : Bool :=
  policy.hooks.any (·.isRegisteredAs name scope)

def attachNewHook (policy : Policy m) (h : Hook m) : Policy m :=
  if policy.hasHook h.name h.scope then policy else { policy with hooks := policy.hooks ++ [h] }

def attachHook (policy : Policy m) (h : Hook m) : Except AuthorizationError (Policy m) :=
  if policy.hasHook h.name h.scope then .error (.duplicateHook h.name h.scope)
  else .ok { policy with hooks := policy.hooks ++ [h] }

def detachHook (policy : Policy m) (name : String) (scope : HookScope) : Policy m :=
  { policy with hooks := policy.hooks.filter fun h => !h.isRegisteredAs name scope }

/-- Checks all conditions and the types that hooks are for; the first fault is reported. -/
def validate (policy : Policy m) (schema : Schema) : Except AuthorizationError Unit := do
  policy.rules.forM fun entry =>
    entry.2.conditions.forM (Condition.validate schema entry.2.resourceType)
  policy.hooks.forM fun h => h.scope.validate schema

theorem ruleFor_update (policy : Policy m) (p q : Permission) {change : Rule m → Rule m}
    (keeps : ∀ r, (change r).permission = r.permission) :
    (policy.update p change keeps).ruleFor q =
      if q = p then change (policy.ruleFor p) else policy.ruleFor q := by
  simp only [ruleFor, update, Rules.rule_update]

@[simp] theorem rules_attachNewHook (policy : Policy m) (h : Hook m) :
    (policy.attachNewHook h).rules = policy.rules := by
  unfold attachNewHook
  split <;> rfl

theorem rules_of_attachHook {policy policy' : Policy m} {h : Hook m}
    (attached : policy.attachHook h = .ok policy') : policy'.rules = policy.rules := by
  unfold attachHook at attached
  split at attached
  · cases attached
  · cases attached
    rfl

end Policy

structure PolicyBuilder (α : Type) (m : Type → Type) where
  build : Policy m → α → m (Policy m)

def PolicyBuilder.policyFor {α : Type} {m : Type → Type} (b : PolicyBuilder α m) (actor : α) :
    m (Policy m) :=
  b.build .empty actor

end AccessControl
