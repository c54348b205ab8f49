import AccessControl.Json.Basic
import AccessControl.Schema.Basic

namespace AccessControl

def Value.toJson : Value → Json
  | null => .null
  | boolean b => .boolean b
  | integer n => .integer n.toInt
  | float x => if x.isFinite then .real x else .null
  | string s => .string s

/-- Numbers that are no 64-bit integers are read as floats. Lists and objects are no values. -/
def Value.ofJson? : Json → Option Value
  | .null => some null
  | .boolean b => some (boolean b)
  | .integer n =>
    if Int64.minValue.toInt ≤ n ∧ n ≤ Int64.maxValue.toInt then some (integer (Int64.ofInt n))
    else some (float (Float.ofInt n))
  | .real x => some (float x)
  | .string s => some (string s)
  | .array _ | .object _ | .unreadable => none

def StorageType.toJson : StorageType → Json
  | boolean => .string "boolean"
  | integer => .string "integer"
  | float => .string "float"
  | string => .string "string"

def StorageType.ofJson? (j : Json) : Option StorageType :=
  match j.alternative? with
  | some "boolean" => some boolean
  | some "integer" => some integer
  | some "float" => some float
  | some "string" => some string
  | _ => none

def ResourceType.toJson (t : ResourceType) : Json :=
  .string t.name

def ResourceType.ofJson? (j : Json) : Option ResourceType :=
  j.string?.map ResourceType.mk

def Action.toJson (a : Action) : Json :=
  .string a.name

def Action.ofJson? (j : Json) : Option Action :=
  j.string?.map Action.mk

theorem StorageType.ofJson?_toJson (t : StorageType) : ofJson? t.toJson = some t := by
  cases t <;> rfl

end AccessControl
