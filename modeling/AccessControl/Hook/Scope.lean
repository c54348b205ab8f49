import AccessControl.Schema.Basic

namespace AccessControl

inductive Stage where
  | authorize
  | scope
  deriving DecidableEq

inductive HookScope where
  | all
  | type (t : ResourceType)
  deriving DecidableEq

inductive SubjectKind where
  | record
  | query
  deriving DecidableEq

def Stage.text : Stage → String
  | .authorize => "authorize"
  | .scope => "scope"

def HookScope.text : HookScope → String
  | .all => "all resource types"
  | .type t => "resource type \"" ++ t.name ++ "\""

def SubjectKind.text : SubjectKind → String
  | .record => "record"
  | .query => "query"

def Stage.subjectKind : Stage → SubjectKind
  | .authorize => .record
  | .scope => .query

end AccessControl
