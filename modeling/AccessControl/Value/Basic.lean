namespace AccessControl

inductive Value where
  | null
  | boolean (b : Bool)
  | integer (n : Int64)
  | float (x : Float)
  | string (s : String)
  deriving BEq, Inhabited

inductive StorageType where
  | boolean
  | integer
  | float
  | string
  deriving DecidableEq

structure TypeMismatch where
  expected : StorageType
  actual : Value
  deriving BEq

namespace Value

def isNull : Value → Bool
  | null => true
  | _ => false

def storageType? : Value → Option StorageType
  | null => none
  | boolean _ => some .boolean
  | integer _ => some .integer
  | float _ => some .float
  | string _ => some .string

/-- The numeric order of floats: both zeros are equal, and NaN has no order. -/
def compareFloats (x y : Float) : Option Ordering :=
  if x < y then some .lt
  else if x == y then some .eq
  else if y < x then some .gt
  else none

/-- The order of values of compatible types. Integers and floats compare as floats, the absent
value comes before all others, and values of unrelated types have no order. -/
def compare : Value → Value → Option Ordering
  | null, null => some .eq
  | null, _ => some .lt
  | _, null => some .gt
  | boolean a, boolean b => some (Ord.compare a b)
  | integer a, integer b => some (Ord.compare a b)
  | float a, float b => compareFloats a b
  | integer a, float b => compareFloats a.toFloat b
  | float a, integer b => compareFloats a b.toFloat
  | string a, string b => some (Ord.compare a b)
  | _, _ => none

end Value

/-- The form of a value in a storage type: the absent value belongs to every type, integers widen
to floats, and all else must be of the type already. -/
def StorageType.dump : StorageType → Value → Except TypeMismatch Value
  | _, .null => .ok .null
  | .boolean, .boolean b => .ok (.boolean b)
  | .integer, .integer n => .ok (.integer n)
  | .float, .float x => .ok (.float x)
  | .string, .string s => .ok (.string s)
  | .float, .integer n => .ok (.float n.toFloat)
  | expected, actual => .error ⟨expected, actual⟩

inductive Comparison where
  | eq
  | ne
  | lt
  | le
  | gt
  | ge
  deriving DecidableEq

/-- Whether two values stand in the relation. The absent value stands in none, and neither do
values without a mutual order. -/
def Comparison.test (c : Comparison) (left right : Value) : Bool :=
  if left.isNull || right.isNull then false
  else match left.compare right with
    | none => false
    | some o => match c with
      | .eq => o.isEq
      | .ne => o.isNe
      | .lt => o.isLT
      | .le => o.isLE
      | .gt => o.isGT
      | .ge => o.isGE

@[simp] theorem Comparison.test_null_left (c : Comparison) (v : Value) :
    c.test .null v = false := by
  simp [test, Value.isNull]

end AccessControl
