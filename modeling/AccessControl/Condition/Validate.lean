import AccessControl.Condition.Basic
import AccessControl.Schema.Require

namespace AccessControl

variable {m : Type → Type}

mutual

def Clause.validate (schema : Schema) (t : ResourceType) :
    Clause m → Except AuthorizationError Unit
  | .equals field v => do
    discard <| schema.literal t field v
  | .isNull field | .predicate field _ => do
    discard <| schema.requireField t field
  | .negate c => do
    schema.requireType t
    Clause.validateAll schema t c
  | .or left right => do
    schema.requireType t
    Clause.validateAll schema t left
    schema.requireType t
    Clause.validateAll schema t right
  | .association name c => do
    let a ← schema.requireAssociation t name
    schema.requireType a.related
    Clause.validateAll schema a.related c
  | .derived _ => pure ()

def Clause.validateAll (schema : Schema) (t : ResourceType) :
    List (Clause m) → Except AuthorizationError Unit
  | [] => pure ()
  | c :: rest => do
    c.validate schema t
    Clause.validateAll schema t rest

end

/-- Checks a condition on records of type `t`; the first fault in the order of its clauses is
reported. -/
def Condition.validate (schema : Schema) (t : ResourceType) (c : Condition m) :
    Except AuthorizationError Unit := do
  schema.requireType t
  Clause.validateAll schema t c

end AccessControl
