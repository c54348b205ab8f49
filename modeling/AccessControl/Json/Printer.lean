import AccessControl.Decimal.Layout
import AccessControl.Json.Basic

namespace AccessControl.Json

/-- Floats always look like floats, and have an exponent below `10^-5` and from `10^16` on. -/
def floatLayout : Decimal.Layout :=
  ⟨some (-5, 15), true, "+", .even⟩

def hexEscape (c : Char) : String :=
  let ds := Nat.toDigits 16 c.toNat
  String.ofList (['\\', 'u'] ++ List.replicate (4 - ds.length) '0' ++ ds)

def escaped (c : Char) : String :=
  match c with
  | '"' => "\\\""
  | '\\' => "\\\\"
  | '\x08' => "\\b"
  | '\x0c' => "\\f"
  | '\n' => "\\n"
  | '\r' => "\\r"
  | '\t' => "\\t"
  | c => if c.toNat < 0x20 then hexEscape c else c.toString

def quoted (s : String) : String :=
  "\"" ++ String.join (s.toList.map escaped) ++ "\""

mutual

def text : Json → String
  | null | unreadable => "null"
  | boolean b => toString b
  | integer n => toString n
  | real x => floatLayout.write x
  | string s => quoted s
  | array items => "[" ++ ",".intercalate (texts items) ++ "]"
  | object entries => "\x7b" ++ ",".intercalate (entryTexts entries) ++ "\x7d"

def texts : List Json → List String
  | [] => []
  | j :: rest => j.text :: texts rest

def entryTexts : List (String × Json) → List String
  | [] => []
  | (key, j) :: rest => (quoted key ++ ":" ++ j.text) :: entryTexts rest

end

end AccessControl.Json
