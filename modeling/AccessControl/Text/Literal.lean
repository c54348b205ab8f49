import AccessControl.Text.GraphemeExtend
import AccessControl.Text.Unprintable

namespace AccessControl.Text

def inRanges (ranges : List (Nat × Nat)) (n : Nat) : Bool :=
  ranges.any fun r => decide (r.1 ≤ n ∧ n ≤ r.2)

def isVisible (c : Char) : Bool :=
  if c.toNat < 0x80 then decide (0x20 ≤ c.toNat ∧ c.toNat < 0x7f)
  else !inRanges graphemeExtend c.toNat && !inRanges unprintable c.toNat

def hexadecimal (c : Char) : String :=
  String.ofList (Nat.toDigits 16 c.toNat)

/-- The form of a character inside a literal. A single quote stands for itself. -/
def escaped (c : Char) : String :=
  match c with
  | '"' => "\\\""
  | '\\' => "\\\\"
  | '\x00' => "\\0"
  | '\t' => "\\t"
  | '\n' => "\\n"
  | '\r' => "\\r"
  | c => if isVisible c then c.toString else "\\u\x7b" ++ hexadecimal c ++ "\x7d"

def literal (s : String) : String :=
  "\"" ++ String.join (s.toList.map escaped) ++ "\""

end AccessControl.Text
