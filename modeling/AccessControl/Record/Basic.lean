import AccessControl.Keyed
import AccessControl.Schema.Basic

namespace AccessControl

mutual

inductive Loaded where
  | one (record : Option Record)
  | many (records : List Record)

/-- A resource. Fields and associations are in the order of their names. An association that is not
there is not loaded, which is not the same as loaded and empty. -/
structure Record where
  resourceType : ResourceType
  fields : List (String × Value)
  associations : List (String × Loaded)

end

mutual

def Loaded.beq : Loaded → Loaded → Bool
  | .one none, .one none => true
  | .one (some a), .one (some b) => a.beq b
  | .many as, .many bs => Record.beqList as bs
  | _, _ => false

def Record.beq : Record → Record → Bool
  | ⟨t, fs, as⟩, ⟨u, gs, bs⟩ => t == u && fs == gs && Loaded.beqEntries as bs

def Record.beqList : List Record → List Record → Bool
  | [], [] => true
  | a :: as, b :: bs => a.beq b && Record.beqList as bs
  | _, _ => false

def Loaded.beqEntries : List (String × Loaded) → List (String × Loaded) → Bool
  | [], [] => true
  | (a, l) :: as, (b, k) :: bs => a == b && l.beq k && Loaded.beqEntries as bs
  | _, _ => false

end

instance : BEq Loaded := ⟨Loaded.beq⟩

instance : BEq Record := ⟨Record.beq⟩

namespace Loaded

def records : Loaded → List Record
  | one record => record.toList
  | many records => records

def size (l : Loaded) : Nat :=
  l.records.length

def isEmpty (l : Loaded) : Bool :=
  l.records.isEmpty

def map (f : Record → Record) : Loaded → Loaded
  | one record => one (record.map f)
  | many records => many (records.map f)

end Loaded

namespace Record

def ofType (t : ResourceType) : Record :=
  ⟨t, [], []⟩

/-- The value of a field; a field that was never set has none. -/
def get (r : Record) (field : String) : Value :=
  (r.fields.lookup field).getD .null

def set (r : Record) (field : String) (v : Value) : Record :=
  { r with fields := Keyed.putSorted field v r.fields }

def loaded? (r : Record) (association : String) : Option Loaded :=
  r.associations.lookup association

def isLoaded (r : Record) (association : String) : Bool :=
  (r.loaded? association).isSome

def setLoaded (r : Record) (association : String) (l : Loaded) : Record :=
  { r with associations := Keyed.putSorted association l r.associations }

def unload (r : Record) (association : String) : Record :=
  { r with associations := Keyed.erase association r.associations }

@[simp] theorem resourceType_setLoaded (r : Record) (association : String) (l : Loaded) :
    (r.setLoaded association l).resourceType = r.resourceType := rfl

@[simp] theorem fields_setLoaded (r : Record) (association : String) (l : Loaded) :
    (r.setLoaded association l).fields = r.fields := rfl

theorem get_set (r : Record) (field other : String) (v : Value) :
    (r.set field v).get other = if other = field then v else r.get other := by
  unfold get set
  rw [Keyed.lookup_putSorted]
  split <;> rfl

theorem loaded?_setLoaded (r : Record) (association other : String) (l : Loaded) :
    (r.setLoaded association l).loaded? other =
      if other = association then some l else r.loaded? other :=
  Keyed.lookup_putSorted association other l r.associations

theorem setLoaded_setLoaded (r : Record) (association : String) (l k : Loaded) :
    (r.setLoaded association l).setLoaded association k = r.setLoaded association k := by
  rw [setLoaded, setLoaded, setLoaded, Keyed.putSorted_putSorted]

theorem setLoaded_eq_self {r : Record} {association : String} {l : Loaded}
    (h : r.loaded? association = some l) : r.setLoaded association l = r := by
  obtain ⟨t, fields, associations⟩ := r
  exact congrArg (mk t fields) (Keyed.putSorted_eq_self h)

end Record

end AccessControl
