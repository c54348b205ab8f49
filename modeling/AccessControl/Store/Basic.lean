import AccessControl.Error
import AccessControl.Record.Basic
import AccessControl.Schema.Registry

namespace AccessControl

/-- Records in the order in which they were inserted, and the description of their types. The
table of a type holds the records of that type. -/
structure Store where
  registry : Registry
  records : List Record

namespace Store

def empty (registry : Registry) : Store :=
  ⟨registry, []⟩

def insert (s : Store) (r : Record) : Store :=
  { s with records := s.records ++ [r] }

def rows (s : Store) (name : String) : List Record :=
  s.records.filter fun r => r.resourceType.name == name

/-- Whether there is a table of a name: some record was put there, or the type is described. -/
def hasTable (s : Store) (name : String) : Bool :=
  s.records.any (fun r => r.resourceType.name == name) || (s.registry.entity? ⟨name⟩).isSome

def table (s : Store) (name : String) : Except StoreError (List Record) :=
  if s.hasTable name then .ok (s.rows name) else .error (.unknownTable name)

def related (s : Store) (t : ResourceType) (relatedKey : String) (key : Value) :
    Except StoreError (List Record) := do
  let rows ← s.table t.name
  pure (rows.filter fun r => Comparison.eq.test (r.get relatedKey) key)

def load (s : Store) (r : Record) (association : String) : Except LoadError Loaded :=
  match s.registry.schema.association r.resourceType association with
  | none =>
    .error ⟨"\"" ++ r.resourceType.name ++ "\" has no association \"" ++ association ++ "\""⟩
  | some a =>
    match s.related a.related a.relatedKey (r.get a.ownerKey) with
    | .error e => .error ⟨e.message⟩
    | .ok rows =>
      match a.cardinality with
      | .one => .ok (.one rows.head?)
      | .many => .ok (.many rows)

end Store

end AccessControl
