import AccessControl.Scope

namespace AccessControl

structure Config where
  loadAssociations : Bool := false
  maxDerivationDepth : UInt64 := 16
  deriving DecidableEq

structure Authority where
  schema : Schema
  config : Config := {}

/-- How associations that a record lacks come by, for one call. -/
structure Loading (m : Type → Type) where
  loader : Option (Loader m) := none
  force : Bool := false

inductive Decision where
  | authorized (r : Record)
  | notAuthorized

def Decision.isAuthorized : Decision → Bool
  | authorized _ => true
  | notAuthorized => false

namespace Authority

variable {m : Type → Type} [Monad m] [MonadExcept AuthorizationError m]

def context (a : Authority) (policy : Policy m) : Context m :=
  ⟨a.schema, policy, a.config.maxDerivationDepth.toNat⟩

def authorize (a : Authority) (policy : m (Policy m)) (record : Record) (action : Action)
    (loading : Loading m) : m Decision := do
  let policy ← policy
  let loader := if loading.force || a.config.loadAssociations then loading.loader else none
  match ← (a.context policy).authorize loader record action 0 with
  | some r => pure (.authorized r)
  | none => pure .notAuthorized

/-- Whether a record that carries all that is needed is authorized. -/
def isAuthorized (a : Authority) (policy : m (Policy m)) (record : Record) (action : Action) :
    m Bool :=
  Decision.isAuthorized <$> a.authorize policy record action {}

def anyAuthorized (a : Authority) (policy : m (Policy m)) (query : Query) (action : Action) :
    m Bool := do
  match query.source with
  | .unlabeled name => throw (.unresolvedResourceType name)
  | .type t => do
    MonadExcept.ofExcept (a.schema.requireType t)
    let policy ← policy
    pure (policy.anyAuthorized ⟨t, action⟩)

def scope (a : Authority) (policy : m (Policy m)) (query : Query) (action : Action)
    (preloads : List Preload) : m Query := do
  let policy ← policy
  (a.context policy).scope query action preloads 0

end Authority

end AccessControl
