import AccessControl.Encoding.Value
import AccessControl.Schema.Registry

namespace AccessControl

def Cardinality.toJson : Cardinality → Json
  | one => .string "One"
  | many => .string "Many"

def Cardinality.ofJson? (j : Json) : Option Cardinality :=
  match j.alternative? with
  | some "One" => some one
  | some "Many" => some many
  | _ => none

def Association.toJson (a : Association) : Json :=
  .object [("related", a.related.toJson), ("owner_key", .string a.ownerKey),
    ("related_key", .string a.relatedKey), ("cardinality", a.cardinality.toJson)]

def Association.ofJson? (j : Json) : Option Association := do
  match ← j.fields? ["related", "owner_key", "related_key", "cardinality"] with
  | [some related, some ownerKey, some relatedKey, some cardinality] =>
    pure ⟨← ResourceType.ofJson? related, ← ownerKey.string?, ← relatedKey.string?,
      ← Cardinality.ofJson? cardinality⟩
  | _ => none

def Json.ofKeyed {α : Type} (form : α → Json) (entries : List (String × α)) : Json :=
  .object (entries.map fun e => (e.1, form e.2))

/-- The entries of an object in the order of their keys' arrival. Of a key that occurs more than
once the last value counts. -/
def Json.keyed? {α : Type} (read : Json → Option α) (j : Json) : Option (List (String × α)) := do
  let entries ← j.object?
  let entries ← entries.mapM fun e => (read e.2).map fun v => (e.1, v)
  pure (entries.foldl (fun l e => Keyed.put e.1 e.2 l) [])

def Json.optionalString? : Json → Option (Option String)
  | .null => some none
  | j => j.string?.map some

def Entity.toJson (e : Entity) : Json :=
  .object [("name", e.name.toJson),
    ("primary_key", (e.primaryKey.map Json.string).getD .null),
    ("fields", .ofKeyed StorageType.toJson e.fields),
    ("associations", .ofKeyed Association.toJson e.associations)]

def Entity.ofJson? (j : Json) : Option Entity := do
  match ← j.fields? ["name", "primary_key", "fields", "associations"] with
  | [some name, primaryKey, some fields, some associations] =>
    pure ⟨← ResourceType.ofJson? name, ← (primaryKey.getD .null).optionalString?,
      ← fields.keyed? StorageType.ofJson?, ← associations.keyed? Association.ofJson?⟩
  | _ => none

def Registry.toJson (r : Registry) : Json :=
  .object [("entities", .ofKeyed Entity.toJson (r.entities.map fun e => (e.1.name, e.2)))]

def Registry.ofJson? (j : Json) : Option Registry := do
  match ← j.fields? ["entities"] with
  | [some entities] =>
    let entities ← entities.keyed? Entity.ofJson?
    pure ⟨entities.map fun e => (⟨e.1⟩, e.2)⟩
  | _ => none

theorem Cardinality.ofJson?_toJson (c : Cardinality) : ofJson? c.toJson = some c := by
  cases c <;> rfl

theorem Association.ofJson?_toJson (a : Association) : ofJson? a.toJson = some a := by
  rcases a with ⟨⟨_⟩, _, _, _ | _⟩ <;> rfl

end AccessControl
