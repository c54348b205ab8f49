import AccessControl.Authorize
import AccessControl.Store.Select

namespace AccessControl

open Connectives

variable {m : Type → Type}

namespace Connectives

variable {α : Type}

theorem andAlso_apply (result : Bool) (items : List (ReaderT α Id Bool)) (a : α) :
    andAlso result items a = (result && items.all fun x => x a) := by
  induction items generalizing result with
  | nil => exact (Bool.and_true result).symm
  | cons x rest ih =>
    cases result with
    | false => rfl
    | true => exact ih (x a)

theorem orElse_apply (result : Bool) (items : List (ReaderT α Id Bool)) (a : α) :
    orElse result items a = (result || items.any fun x => x a) := by
  induction items generalizing result with
  | nil => exact (Bool.or_false result).symm
  | cons x rest ih =>
    cases result with
    | false => exact ih (x a)
    | true => rfl

theorem allOf_apply (items : List (ReaderT α Id Bool)) (a : α) :
    allOf items a = items.all fun x => x a :=
  andAlso_apply true items a

theorem anyOf_apply (items : List (ReaderT α Id Bool)) (a : α) :
    anyOf items a = items.any fun x => x a :=
  orElse_apply false items a

theorem permit_apply (allowed denied : ReaderT α Id Bool) (a : α) :
    (allowed >>= fun result => permit result denied) a = (allowed a && !denied a) := by
  change permit (n := ReaderT α Id) (id (α := Bool) (allowed a)) denied a = _
  cases allowed a <;> rfl

end Connectives

def Association.loaded (a : Association) (rows : List Record) : Loaded :=
  match a.cardinality with
  | .one => .one rows.head?
  | .many => .many rows

theorem Association.mem_of_mem_loaded {a : Association} {rows : List Record} {r : Record}
    (h : r ∈ (a.loaded rows).records) : r ∈ rows := by
  unfold Association.loaded at h
  cases hc : a.cardinality <;> simp only [hc] at h
  · exact List.mem_of_mem_head? (Option.mem_toList.1 h)
  · exact h

def Store.relatives (s : Store) (row : Record) (association : String) : List Record :=
  match s.load row association with
  | .ok l => l.records
  | .error _ => []

/-- What is taken for granted when rules are read as facts about the rows of a store: what custom
tests say of rows, and which rows the hooks let through to the rule for a permission. -/
structure Interpretation (m : Type → Type) where
  store : Store
  policy : Policy m
  verdict : Predicate m → String → Record → Bool
  admitted : Permission → Record → Bool

namespace Interpretation

variable (i : Interpretation m)

def schema : Schema :=
  i.store.registry.schema

def context (bound : Nat) : Context m :=
  ⟨i.schema, i.policy, bound⟩

def facts (granted : Action → Record → Bool) : Reading m (ReaderT Record Id) Bool where
  equals field v row :=
    match i.schema.literal row.resourceType field v with
    | .ok literal => Comparison.eq.test (row.get field) literal
    | .error _ => false
  isNull field row := (row.get field).isNull
  association name test row := (i.store.relatives row name).any test
  derived := granted
  predicate field p := i.verdict p field

/-- Whether a row has the primary key of some row of its type that passes. -/
def picks (pass : Record → Bool) (row : Record) : Bool :=
  match i.schema.primaryKey row.resourceType with
  | none => false
  | some key => (i.store.rows row.resourceType.name).any fun other =>
      pass other && Comparison.eq.test (other.get key) (row.get key)

/-- Whether hooks and rules let a row pass for an action, where a chain of derived permissions may
have `room` members. -/
def entitled : Nat → Action → Record → Bool
  | 0, _, _ => false
  | room + 1, action, row =>
    i.admitted ⟨row.resourceType, action⟩ row &&
      Rule.read (i.facts fun derived => i.picks (entitled room derived))
        (i.policy.ruleFor ⟨row.resourceType, action⟩) row

def ruled (room : Nat) (action : Action) (row : Record) : Bool :=
  Rule.read (i.facts fun derived => i.picks (i.entitled room derived))
    (i.policy.ruleFor ⟨row.resourceType, action⟩) row

theorem entitled_succ (room : Nat) (action : Action) (row : Record) :
    i.entitled (room + 1) action row =
      (i.admitted ⟨row.resourceType, action⟩ row && i.ruled room action row) :=
  rfl

theorem read_empty (granted : Action → Record → Bool) (p : Permission) (row : Record) :
    Rule.read (i.facts granted) (Rule.empty p) row = false :=
  rfl

theorem facts_equals {i : Interpretation m} {granted : Action → Record → Bool} {row : Record}
    {field : String} {v literal : Value}
    (coerces : i.schema.literal row.resourceType field v = .ok literal) :
    (i.facts granted).equals field v row = Comparison.eq.test (row.get field) literal := by
  simp only [facts, coerces]

end Interpretation

namespace Store

variable {s : Store} {t : ResourceType} {r : Record}

theorem mem_rows_iff : r ∈ s.rows t.name ↔ r ∈ s.records ∧ r.resourceType = t := by
  cases t
  cases hr : r.resourceType
  simp [rows, hr]

theorem table_of_contains (h : s.registry.schema.contains t = true) :
    s.table t.name = .ok (s.rows t.name) := by
  have htable : s.hasTable t.name = true := by
    rw [hasTable, Bool.or_eq_true]
    exact Or.inr h
  rw [table, if_pos htable]

theorem related_of_contains (h : s.registry.schema.contains t = true) (relatedKey : String)
    (key : Value) : s.related t relatedKey key =
      .ok ((s.rows t.name).filter fun r => Comparison.eq.test (r.get relatedKey) key) := by
  rw [related, table_of_contains h]
  rfl

theorem load_of_declared {row : Record} {name : String} {a : Association}
    (declared : s.registry.schema.association row.resourceType name = some a)
    (registered : s.registry.schema.contains a.related = true) :
    s.load row name = .ok (a.loaded ((s.rows a.related.name).filter fun r =>
      Comparison.eq.test (r.get a.relatedKey) (row.get a.ownerKey))) := by
  simp only [load, declared, related_of_contains registered]
  unfold Association.loaded
  cases a.cardinality <;> rfl

theorem relatives_eq {row : Record} {name : String} {a : Association}
    (declared : s.registry.schema.association row.resourceType name = some a)
    (registered : s.registry.schema.contains a.related = true) :
    s.relatives row name = (a.loaded ((s.rows a.related.name).filter fun r =>
      Comparison.eq.test (r.get a.relatedKey) (row.get a.ownerKey))).records := by
  rw [relatives, load_of_declared declared registered]

theorem mem_relatives {row x : Record} {name : String} {a : Association}
    (declared : s.registry.schema.association row.resourceType name = some a)
    (registered : s.registry.schema.contains a.related = true) (hx : x ∈ s.relatives row name) :
    x ∈ s.rows a.related.name := by
  rw [relatives_eq declared registered] at hx
  exact (List.mem_filter.1 (Association.mem_of_mem_loaded hx)).1

theorem load_congr {row : Record} (type : r.resourceType = row.resourceType)
    (fields : r.fields = row.fields) (name : String) : s.load r name = s.load row name := by
  simp only [load, type, Record.get, fields]

end Store

end AccessControl
