import AccessControl.Condition.Reading

namespace AccessControl

open Connectives

structure Permission where
  resourceType : ResourceType
  action : Action
  deriving DecidableEq, Inhabited

instance : LT Permission where
  lt p q := p.resourceType.name < q.resourceType.name ∨
    p.resourceType = q.resourceType ∧ p.action.name < q.action.name

instance : DecidableLT Permission := fun _ _ =>
  inferInstanceAs (Decidable (_ ∨ _ ∧ _))

/-- The conditions that grant an action on resources of a type and those that revoke it, most recent
first. A resource is authorized when some granting condition matches and no revoking one does. -/
structure Rule (m : Type → Type) where
  resourceType : ResourceType
  action : Action
  allow : List (Condition m)
  deny : List (Condition m)

namespace Rule

variable {m n : Type → Type} {L : Type}

def permission (r : Rule m) : Permission :=
  ⟨r.resourceType, r.action⟩

def empty (p : Permission) : Rule m :=
  ⟨p.resourceType, p.action, [], []⟩

def anyAllowed (r : Rule m) : Bool :=
  !r.allow.isEmpty

def isBlanketDenied (r : Rule m) : Bool :=
  r.deny.any Condition.isAlways

def addAllow (r : Rule m) (c : Condition m) : Rule m :=
  if r.isBlanketDenied then r else { r with allow := c :: r.allow }

/-- Adds a revoking condition. One that always matches takes the place of all others and makes the
granting conditions so far unreachable, so that they go too. -/
def addDeny (r : Rule m) (c : Condition m) : Rule m :=
  if c.isAlways then { r with allow := [], deny := [c] } else { r with deny := c :: r.deny }

def conditions (r : Rule m) : List (Condition m) :=
  r.allow ++ r.deny

def read [Monad n] [Connectives L] (reading : Reading m n L) (r : Rule m) : n L := do
  let allowed ← anyOf (r.allow.map (Condition.read reading))
  permit allowed (anyOf (r.deny.map (Condition.read reading)))

@[simp] theorem permission_addAllow (r : Rule m) (c : Condition m) :
    (r.addAllow c).permission = r.permission := by
  unfold addAllow
  split <;> rfl

@[simp] theorem permission_addDeny (r : Rule m) (c : Condition m) :
    (r.addDeny c).permission = r.permission := by
  unfold addDeny
  split <;> rfl

end Rule

end AccessControl
