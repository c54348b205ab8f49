import AccessControl.Condition.Basic

namespace AccessControl

open Connectives

/-- What the clauses of a condition come to: an action in `n` with a result in `L`. -/
structure Reading (m n : Type → Type) (L : Type) where
  equals : String → Value → n L
  isNull : String → n L
  /-- Receives the reading of the condition on the related records. -/
  association : String → n L → n L
  derived : Action → n L
  predicate : String → Predicate m → n L

variable {m n : Type → Type} [Monad n] {L : Type} [Connectives L]

mutual

def Clause.read (r : Reading m n L) : Clause m → n L
  | .equals field v => r.equals field v
  | .isNull field => r.isNull field
  | .negate c => not <$> allOf (Clause.readEach r c)
  | .or left right => anyOf [allOf (Clause.readEach r left), allOf (Clause.readEach r right)]
  | .association name c => r.association name (allOf (Clause.readEach r c))
  | .derived action => r.derived action
  | .predicate field p => r.predicate field p

def Clause.readEach (r : Reading m n L) : List (Clause m) → List (n L)
  | [] => []
  | c :: rest => c.read r :: Clause.readEach r rest

end

def Condition.read (r : Reading m n L) (c : Condition m) : n L :=
  allOf (Clause.readEach r c)

theorem Clause.readEach_eq_map (r : Reading m n L)
    (c : List (Clause m)) : Clause.readEach r c = c.map (Clause.read r) := by
  induction c with
  | nil => rfl
  | cons a rest ih => rw [Clause.readEach, ih, List.map_cons]

end AccessControl
