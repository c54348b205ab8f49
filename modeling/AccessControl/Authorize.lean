import AccessControl.Policy.Derivation
import AccessControl.Record.Loader

namespace AccessControl

structure Context (m : Type → Type) where
  schema : Schema
  policy : Policy m
  bound : Nat

namespace Context

variable {m : Type → Type} [Monad m] [MonadExcept AuthorizationError m]

/-- Clauses as tests of a record, given what a derived permission comes to. Associations are read
from the record and stay on it once they are loaded. -/
def recordReading (ctx : Context m) (loader : Option (Loader m))
    (derived : Action → StateT Record m Bool) : Reading m (StateT Record m) Bool where
  equals field v r := do
    let literal ← MonadExcept.ofExcept (ctx.schema.literal r.resourceType field v)
    pure (Comparison.eq.test (r.get field) literal, r)
  isNull field r := do
    discard <| MonadExcept.ofExcept (ctx.schema.requireField r.resourceType field)
    pure ((r.get field).isNull, r)
  association name test r := do
    discard <| MonadExcept.ofExcept (ctx.schema.requireAssociation r.resourceType name)
    let loaded ← r.demand loader name
    let (passed, loaded') ← loaded.search test
    pure (passed, r.setLoaded name loaded')
  derived := derived
  predicate field p r := do
    discard <| MonadExcept.ofExcept (ctx.schema.requireField r.resourceType field)
    let passed ← p.onRecord r field
    pure (passed, r)

/-- Runs the hooks and then reads the rule for the record that they leave. At the root of a
decision the rule and all it derives from are checked first. -/
def authorizeWith (ctx : Context m) (loader : Option (Loader m))
    (derived : Action → StateT Record m Bool) (atRoot : Bool) (record : Record) (action : Action) :
    m (Option Record) := do
  match ← Hook.runAll ctx.policy.hooks .authorize record.resourceType (.record record) action with
  | some (.record r) =>
    let p : Permission := ⟨r.resourceType, action⟩
    MonadExcept.ofExcept (ctx.schema.requireType r.resourceType)
    if atRoot then MonadExcept.ofExcept (ctx.policy.check ctx.schema p ctx.bound)
    let (granted, r') ← (ctx.policy.ruleFor p).read (ctx.recordReading loader derived) r
    pure (if granted then some r' else none)
  | _ => pure none

/-- Whether a record is authorized for another action, where derived permissions may still nest
`room` times. A record that is not authorized is left as it was. -/
def derivedOnRecord (ctx : Context m) (loader : Option (Loader m)) :
    Nat → Action → StateT Record m Bool
  | 0, action, r =>
    throw (.derivationDepthExceeded r.resourceType action ctx.bound)
  | room + 1, action, r => do
    match ← ctx.authorizeWith loader (ctx.derivedOnRecord loader room) false r action with
    | some r' => pure (true, r')
    | none => pure (false, r)

def authorize (ctx : Context m) (loader : Option (Loader m)) (record : Record) (action : Action)
    (depth : Nat) : m (Option Record) :=
  ctx.authorizeWith loader (ctx.derivedOnRecord loader (ctx.bound - depth)) (depth == 0) record
    action

end Context

end AccessControl
