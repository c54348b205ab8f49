import AccessControl.Keyed
import AccessControl.Schema.Basic

namespace AccessControl

/-- The description of one resource type. Fields and associations keep the order in which they
were declared. -/
structure Entity where
  name : ResourceType
  primaryKey : Option String
  fields : List (String × StorageType)
  associations : List (String × Association)
  deriving DecidableEq

namespace Entity

def withPrimaryKey (e : Entity) (field : String) (type : StorageType) : Entity :=
  let kept := match e.primaryKey with
    | some previous => Keyed.erase previous e.fields
    | none => e.fields
  { e with primaryKey := some field, fields := Keyed.put field type kept }

/-- Starts the description of a type; its primary key is an integer field `id` until another is
declared. -/
def ofName (name : ResourceType) : Entity :=
  withPrimaryKey ⟨name, none, [], []⟩ "id" .integer

def withField (e : Entity) (field : String) (type : StorageType) : Entity :=
  { e with fields := Keyed.put field type e.fields }

def withAssociation (e : Entity) (name : String) (a : Association) : Entity :=
  { e with associations := Keyed.put name a e.associations }

/-- The owner holds the related record's `id` in its field `foreignKey`. -/
def belongsTo (e : Entity) (name : String) (related : ResourceType) (foreignKey : String) :
    Entity :=
  e.withAssociation name ⟨related, foreignKey, "id", .one⟩

def hasOne (e : Entity) (name : String) (related : ResourceType) (foreignKey : String) : Entity :=
  e.withAssociation name ⟨related, "id", foreignKey, .one⟩

def hasMany (e : Entity) (name : String) (related : ResourceType) (foreignKey : String) : Entity :=
  e.withAssociation name ⟨related, "id", foreignKey, .many⟩

end Entity

structure Registry where
  entities : List (ResourceType × Entity)
  deriving DecidableEq

namespace Registry

def empty : Registry :=
  ⟨[]⟩

def add (r : Registry) (e : Entity) : Registry :=
  ⟨Keyed.put e.name e r.entities⟩

def entity? (r : Registry) (t : ResourceType) : Option Entity :=
  r.entities.lookup t

def resourceTypes (r : Registry) : List ResourceType :=
  r.entities.map Prod.fst

def schema (r : Registry) : Schema where
  contains t := (r.entity? t).isSome
  primaryKey t := (r.entity? t).bind Entity.primaryKey
  fields t := ((r.entity? t).map fun e => e.fields.map Prod.fst).getD []
  fieldType t field := (r.entity? t).bind fun e => e.fields.lookup field
  associations t := ((r.entity? t).map fun e => e.associations.map Prod.fst).getD []
  association t name := (r.entity? t).bind fun e => e.associations.lookup name

theorem entity?_add (r : Registry) (e : Entity) (t : ResourceType) :
    (r.add e).entity? t = if t = e.name then some e else r.entity? t :=
  Keyed.lookup_put e.name t e r.entities

end Registry

end AccessControl
