import AccessControl.Decimal.Layout
import AccessControl.Text.Literal
import AccessControl.Value.Basic

namespace AccessControl

open Decimal Text

/-- Floats in rules and queries never have an exponent, and integral ones look like integers. -/
def Value.plainFloat : Layout := ⟨none, false, "", .up⟩

/-- Floats in detailed forms always look like floats, and have an exponent below `10^-4` and from
`10^16` on. -/
def Value.detailedFloat : Layout := ⟨some (-4, 15), true, "", .up⟩

def Value.text : Value → String
  | .null => "null"
  | .boolean b => toString b
  | .integer n => toString n.toInt
  | .float x => plainFloat.write x
  | .string s => literal s

def Value.detail : Value → String
  | .null => "Null"
  | .boolean b => "Boolean(" ++ toString b ++ ")"
  | .integer n => "Integer(" ++ toString n.toInt ++ ")"
  | .float x => "Float(" ++ detailedFloat.write x ++ ")"
  | .string s => "String(" ++ literal s ++ ")"

def StorageType.text : StorageType → String
  | .boolean => "boolean"
  | .integer => "integer"
  | .float => "float"
  | .string => "string"

def Comparison.symbol : Comparison → String
  | .eq => "=="
  | .ne => "!="
  | .lt => "<"
  | .le => "<="
  | .gt => ">"
  | .ge => ">="

def TypeMismatch.message (e : TypeMismatch) : String :=
  "Type mismatch: expected " ++ e.expected.text ++ ", got " ++ e.actual.detail

end AccessControl
