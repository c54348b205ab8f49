import AccessControl.Error

namespace AccessControl.Schema

def requireType (schema : Schema) (t : ResourceType) : Except AuthorizationError Unit :=
  if schema.contains t then .ok () else .error (.unknownResourceType t)

def requireField (schema : Schema) (t : ResourceType) (field : String) :
    Except AuthorizationError StorageType :=
  match schema.fieldType t field with
  | some type => .ok type
  | none => .error (.unknownField t field)

def requireAssociation (schema : Schema) (t : ResourceType) (name : String) :
    Except AuthorizationError Association :=
  match schema.association t name with
  | some a => .ok a
  | none => .error (.unknownAssociation t name)

def requirePrimaryKey (schema : Schema) (t : ResourceType) : Except AuthorizationError String :=
  match schema.primaryKey t with
  | some key => .ok key
  | none => .error (.missingPrimaryKey t)

def literal (schema : Schema) (t : ResourceType) (field : String) (v : Value) :
    Except AuthorizationError Value := do
  let type ← schema.requireField t field
  (schema.dump type v).mapError (·.forField field)

variable {schema : Schema} {t : ResourceType}

@[simp] theorem requireType_eq_ok_iff {u : Unit} :
    schema.requireType t = .ok u ↔ schema.contains t = true := by
  unfold requireType
  split <;> simp_all

@[simp] theorem requireField_eq_ok_iff {field : String} {type : StorageType} :
    schema.requireField t field = .ok type ↔ schema.fieldType t field = some type := by
  unfold requireField
  split <;> simp_all

@[simp] theorem requireAssociation_eq_ok_iff {name : String} {a : Association} :
    schema.requireAssociation t name = .ok a ↔ schema.association t name = some a := by
  unfold requireAssociation
  split <;> simp_all

@[simp] theorem requirePrimaryKey_eq_ok_iff {key : String} :
    schema.requirePrimaryKey t = .ok key ↔ schema.primaryKey t = some key := by
  unfold requirePrimaryKey
  split <;> simp_all

end AccessControl.Schema
