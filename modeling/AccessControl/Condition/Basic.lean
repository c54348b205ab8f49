import AccessControl.Query.Basic
import AccessControl.Record.Basic

namespace AccessControl

/-- A custom test in two forms, one for records and one for rows of a query. Both must select the
same resources. Like hooks and loaders it is code of the caller, which runs in any monad. -/
structure Predicate (m : Type → Type) where
  identity : Nat
  onRecord : Record → String → m Bool
  onRow : Binding → String → m Expr

/-- One test of a condition. -/
inductive Clause (m : Type → Type) where
  /-- The field equals the literal, in the form in which the field stores it. -/
  | equals (field : String) (value : Value)
  | isNull (field : String)
  | negate (condition : List (Clause m))
  | or (left right : List (Clause m))
  | association (name : String) (condition : List (Clause m))
  /-- The resource is itself authorized for another action. -/
  | derived (action : Action)
  | predicate (field : String) (predicate : Predicate m)

abbrev Condition (m : Type → Type) := List (Clause m)

variable {m : Type → Type}

mutual

def Clause.beq : Clause m → Clause m → Bool
  | .equals f v, .equals g w => f == g && v == w
  | .isNull f, .isNull g => f == g
  | .negate c, .negate d => Clause.beqList c d
  | .or a b, .or c d => Clause.beqList a c && Clause.beqList b d
  | .association f c, .association g d => f == g && Clause.beqList c d
  | .derived a, .derived b => a == b
  | .predicate f p, .predicate g q => f == g && p.identity == q.identity
  | _, _ => false

def Clause.beqList : List (Clause m) → List (Clause m) → Bool
  | [], [] => true
  | a :: as, b :: bs => a.beq b && Clause.beqList as bs
  | _, _ => false

end

def Clause.isNever : Clause m → Bool
  | .negate [] => true
  | _ => false

namespace Condition

def beq (c d : Condition m) : Bool :=
  Clause.beqList c d

def always : Condition m :=
  []

def never : Condition m :=
  [.negate []]

def isAlways (c : Condition m) : Bool :=
  c.isEmpty

def isNever (c : Condition m) : Bool :=
  c.any Clause.isNever

def and (c d : Condition m) : Condition m :=
  if c.isNever || d.isAlways then c
  else if d.isNever || c.isAlways then d
  else c ++ d

def or (c d : Condition m) : Condition m :=
  if c.isAlways || d.isNever then c
  else if d.isAlways || c.isNever then d
  else [.or c d]

def not : Condition m → Condition m
  | [.negate inner] => inner
  | c => [.negate c]

instance : Connectives (Condition m) where
  always := always
  never := never
  isAlways := isAlways
  isNever := isNever
  and := and
  or := or
  not := not

def clause (c : Condition m) (extra : Clause m) : Condition m :=
  c ++ [extra]

end Condition

end AccessControl
