namespace AccessControl

inductive Json where
  | null
  | boolean (b : Bool)
  | integer (n : Int)
  | real (x : Float)
  | string (s : String)
  | array (items : List Json)
  | object (entries : List (String × Json))
  /-- A value that may be skipped but not read: text with half a surrogate pair, a number beyond
  all floats, or a list or object nested too deep. -/
  | unreadable
  deriving Inhabited

namespace Json

def boolean? : Json → Option Bool
  | boolean b => some b
  | _ => none

def string? : Json → Option String
  | string s => some s
  | _ => none

def word? : Json → Option UInt64
  | integer n => if 0 ≤ n ∧ n < UInt64.size then some (UInt64.ofNat n.toNat) else none
  | _ => none

def object? : Json → Option (List (String × Json))
  | object entries => some entries
  | _ => none

def occurrences (name : String) (entries : List (String × Json)) : Nat :=
  (entries.filter fun e => e.1 == name).length

/-- The fields of a structure in the order of their names, for each its value if it is there.
An object names its fields, each at most once, and may have others. A list has them in order and
may end early. -/
def fields? (names : List String) : Json → Option (List (Option Json))
  | object entries =>
    if names.all fun name => decide (occurrences name entries ≤ 1) then
      some (names.map fun name => entries.lookup name)
    else none
  | array items =>
    if items.length ≤ names.length then
      some (items.map some ++ List.replicate (names.length - items.length) none)
    else none
  | _ => none

def alternative? : Json → Option String
  | string name => some name
  | object [(name, null)] => some name
  | _ => none

end Json

end AccessControl
