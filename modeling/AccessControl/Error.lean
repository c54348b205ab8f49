import AccessControl.Hook.Scope
import AccessControl.Value.Text

namespace AccessControl

/-- Faults in a policy, or in applying it; a denied resource is an answer and not an error. -/
inductive AuthorizationError where
  | duplicateHook (name : String) (scope : HookScope)
  | unknownResourceType (t : ResourceType)
  | unknownField (t : ResourceType) (field : String)
  | unknownAssociation (t : ResourceType) (association : String)
  | missingPrimaryKey (t : ResourceType)
  | derivationDepthExceeded (t : ResourceType) (action : Action) (bound : Nat)
  | predicate (field message : String)
  /-- The source of a query belongs to no resource type. -/
  | unresolvedResourceType (source : String)
  /-- A clause needs an association that is not loaded and may not be. -/
  | notLoaded (t : ResourceType) (association : String)
  | coercion (field : String) (value : Value) (expected : StorageType)
  | hookSubject (hook : String) (stage : Stage) (actual : SubjectKind)
  | load (t : ResourceType) (association message : String)
  deriving BEq

namespace AuthorizationError

def isDefinitionError : AuthorizationError → Bool
  | duplicateHook .. | unknownResourceType .. | unknownField .. | unknownAssociation ..
  | missingPrimaryKey .. | derivationDepthExceeded .. | predicate .. => true
  | unresolvedResourceType .. | notLoaded .. | coercion .. | hookSubject .. | load .. => false

def message : AuthorizationError → String
  | duplicateHook name scope =>
    "Hook \"" ++ name ++ "\" is already attached for " ++ scope.text
  | unknownResourceType t => "Unknown resource type \"" ++ t.name ++ "\""
  | unknownField t field =>
    "Resource type \"" ++ t.name ++ "\" has no field \"" ++ field ++ "\""
  | unknownAssociation t association =>
    "Resource type \"" ++ t.name ++ "\" has no association \"" ++ association ++ "\""
  | missingPrimaryKey t =>
    "Resource type \"" ++ t.name ++ "\" does not declare a primary key"
  | derivationDepthExceeded t action bound =>
    "Derived permission \"" ++ action.name ++ "\" on \"" ++ t.name ++
      "\" exceeded the maximum depth of " ++ toString bound
  | predicate field message =>
    "Predicate on field \"" ++ field ++ "\" failed: " ++ message
  | unresolvedResourceType source =>
    "Cannot determine the resource type of query source \"" ++ source ++ "\""
  | notLoaded t association =>
    "Association \"" ++ association ++ "\" of \"" ++ t.name ++ "\" is not loaded"
  | coercion field value expected =>
    "Cannot coerce " ++ value.detail ++ " into " ++ expected.text ++ " for field \"" ++ field ++
      "\""
  | hookSubject hook stage actual =>
    "Hook \"" ++ hook ++ "\" returned a " ++ actual.text ++ " subject during the " ++ stage.text ++
      " stage"
  | load t association message =>
    "Failed to load \"" ++ association ++ "\" of \"" ++ t.name ++ "\": " ++ message

end AuthorizationError

def TypeMismatch.forField (e : TypeMismatch) (field : String) : AuthorizationError :=
  .coercion field e.actual e.expected

structure LoadError where
  message : String
  deriving DecidableEq

inductive StoreError where
  | unknownTable (name : String)
  deriving DecidableEq

def StoreError.message : StoreError → String
  | unknownTable name => "No table for \"" ++ name ++ "\""

end AccessControl
