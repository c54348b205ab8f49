import AccessControl.Value.Basic

namespace AccessControl

structure ResourceType where
  name : String
  deriving DecidableEq, Inhabited

structure Action where
  name : String
  deriving DecidableEq, Inhabited

inductive Cardinality where
  | one
  | many
  deriving DecidableEq

/-- How an association links an owner to its related records: a related record belongs to an
owner when its field `relatedKey` equals the owner's field `ownerKey`. -/
structure Association where
  related : ResourceType
  ownerKey : String
  relatedKey : String
  cardinality : Cardinality
  deriving DecidableEq

structure Schema where
  contains : ResourceType → Bool
  primaryKey : ResourceType → Option String
  fields : ResourceType → List String
  fieldType : ResourceType → String → Option StorageType
  associations : ResourceType → List String
  association : ResourceType → String → Option Association
  dump : StorageType → Value → Except TypeMismatch Value := StorageType.dump

/-- The same schema, in which every literal keeps its form in every field. -/
def Schema.lenient (schema : Schema) : Schema :=
  { schema with dump := fun _ v => .ok v }

end AccessControl
