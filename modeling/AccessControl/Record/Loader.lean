import AccessControl.Error
import AccessControl.Record.Basic

namespace AccessControl

abbrev Loader (m : Type → Type) := Record → String → m (Except LoadError Loaded)

variable {m : Type → Type} [Monad m]

/-- Tests records one after the other until one passes. A test may change its record; the records
behind the one that passes stay as they are. -/
def Record.search (test : StateT Record m Bool) : StateT (List Record) m Bool
  | [] => pure (false, [])
  | r :: rest => do
    let (passed, r') ← test r
    if passed then pure (true, r' :: rest)
    else do
      let (passed, rest') ← Record.search test rest
      pure (passed, r' :: rest')

def Loaded.search (test : StateT Record m Bool) : StateT Loaded m Bool
  | .one none => pure (false, .one none)
  | .one (some r) => do
    let (passed, r') ← test r
    pure (passed, .one (some r'))
  | .many rs => do
    let (passed, rs') ← Record.search test rs
    pure (passed, .many rs')

def Record.demand [MonadExcept AuthorizationError m] (loader : Option (Loader m)) (r : Record)
    (association : String) : m Loaded :=
  match r.loaded? association with
  | some l => pure l
  | none =>
    match loader with
    | none => throw (.notLoaded r.resourceType association)
    | some load => do
      match ← load r association with
      | .ok l => pure l
      | .error e => throw (.load r.resourceType association e.message)

end AccessControl
