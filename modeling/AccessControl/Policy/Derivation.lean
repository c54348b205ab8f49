import AccessControl.Policy.Basic

namespace AccessControl

variable {m : Type → Type}

mutual

/-- The permissions a clause on records of type `t` derives from, following associations to the
related types. Deriving needs the primary key of the type. -/
def Clause.derivations (schema : Schema) (t : ResourceType) :
    Clause m → Except AuthorizationError (List Permission)
  | .derived action => do
    discard <| schema.requirePrimaryKey t
    pure [⟨t, action⟩]
  | .negate c => Clause.derivationsAll schema t c
  | .or left right => do
    let first ← Clause.derivationsAll schema t left
    let second ← Clause.derivationsAll schema t right
    pure (first ++ second)
  | .association name c =>
    match schema.association t name with
    | some a => Clause.derivationsAll schema a.related c
    | none => pure []
  | .equals _ _ | .isNull _ | .predicate _ _ => pure []

def Clause.derivationsAll (schema : Schema) (t : ResourceType) :
    List (Clause m) → Except AuthorizationError (List Permission)
  | [] => pure []
  | c :: rest => do
    let first ← c.derivations schema t
    let others ← Clause.derivationsAll schema t rest
    pure (first ++ others)

end

namespace Policy

def derivations (policy : Policy m) (schema : Schema) (p : Permission) :
    Except AuthorizationError (List Permission) := do
  let found ← (policy.ruleFor p).conditions.mapM fun c => do
    Condition.validate schema p.resourceType c
    Clause.derivationsAll schema p.resourceType c
  pure found.flatten

/-- The longest chain of derivations below each permission already checked. -/
abbrev Heights := List (Permission × Nat)

/-- Checks what lies below `p` and gives the longest chain of derivations there. `path` holds the
permissions above `p`, and `room` is how many permissions the bound lets a chain from here on
have. What was checked before is not walked again, but its height must fit too. -/
def visit (policy : Policy m) (schema : Schema) (bound : Nat) :
    Nat → List Permission → Permission → StateT Heights (Except AuthorizationError) Nat
  | 0, _, p => throw (.derivationDepthExceeded p.resourceType p.action bound)
  | room + 1, path, p => do
    match (← get).lookup p with
    | some height =>
      if room < height then throw (.derivationDepthExceeded p.resourceType p.action bound)
      else pure height
    | none =>
      if p ∈ path then throw (.derivationDepthExceeded p.resourceType p.action bound)
      else do
        let targets ← policy.derivations schema p
        let height ← targets.foldlM (fun greatest q => do
          let below ← policy.visit schema bound room (p :: path) q
          pure (max greatest (below + 1))) 0
        modify ((p, height) :: ·)
        pure height

/-- Checks the rule for `p` and every rule it derives from, without looking at any record or query.
Derived permissions may nest at most `bound` times. -/
def check (policy : Policy m) (schema : Schema) (p : Permission) (bound : Nat) :
    Except AuthorizationError Unit :=
  discard <| (policy.visit schema bound (bound + 1) [] p).run []

end Policy

end AccessControl
