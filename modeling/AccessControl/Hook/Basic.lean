import AccessControl.Error
import AccessControl.Query.Basic
import AccessControl.Record.Basic
import AccessControl.Text.Detail

namespace AccessControl

inductive Subject where
  | record (r : Record)
  | query (q : Query)

def Subject.kind : Subject → SubjectKind
  | record _ => .record
  | query _ => .query

inductive Flow where
  | proceed (next : Subject)
  | halt

structure Hook (m : Type → Type) where
  name : String
  scope : HookScope
  run : Stage → Subject → Action → m Flow

namespace Hook

variable {m : Type → Type}

def isRegisteredAs (h : Hook m) (name : String) (scope : HookScope) : Bool :=
  h.name == name && h.scope == scope

/-- The hooks that run for a type: those for all types, then those for this one, each in the order
of registration. -/
def applying (hooks : List (Hook m)) (t : ResourceType) : List (Hook m) :=
  hooks.filter (·.scope == .all) ++ hooks.filter (·.scope == .type t)

/-- Passes the subject through the hooks one after the other; there is none left when one halts.
A hook must return a subject of the stage's kind. -/
def runEach [Monad m] [MonadExcept AuthorizationError m] (stage : Stage) (action : Action) :
    List (Hook m) → Subject → m (Option Subject)
  | [], subject => pure (some subject)
  | h :: rest, subject => do
    match ← h.run stage subject action with
    | .halt => pure none
    | .proceed next =>
      if next.kind = stage.subjectKind then runEach stage action rest next
      else throw (.hookSubject h.name stage next.kind)

def runAll [Monad m] [MonadExcept AuthorizationError m] (hooks : List (Hook m)) (stage : Stage)
    (t : ResourceType) (subject : Subject) (action : Action) : m (Option Subject) :=
  runEach stage action (applying hooks t) subject

end Hook

def HookScope.detail : HookScope → String
  | all => "All"
  | type t => Text.applied "Type" [Text.named "ResourceType" t.name]

/-- The detailed form of a hook, of which the function does not show. -/
def Hook.detail {m : Type → Type} (h : Hook m) : String :=
  Text.braced "Hook" ["name: " ++ Text.literal h.name, "scope: " ++ h.scope.detail, ".."]

end AccessControl
