import AccessControl.Condition.Basic

namespace AccessControl

mutual

inductive Matcher (m : Type → Type) where
  | value (v : Value)
  /-- The field is an association, and its target must match. -/
  | nested (entries : List (WhereEntry m))
  | allows (action : Action)
  | predicate (p : Predicate m)

inductive WhereEntry (m : Type → Type) where
  | field (name : String) (matcher : Matcher m)
  | allows (action : Action)

end

abbrev Where (m : Type → Type) := List (WhereEntry m)

variable {m : Type → Type}

mutual

def Matcher.clause (field : String) : Matcher m → Clause m
  | .value .null => .isNull field
  | .value v => .equals field v
  | .nested entries => .association field (WhereEntry.clauses entries)
  | .allows action => .association field [.derived action]
  | .predicate p => .predicate field p

def WhereEntry.clause : WhereEntry m → Clause m
  | .field name matcher => matcher.clause name
  | .allows action => .derived action

def WhereEntry.clauses : List (WhereEntry m) → List (Clause m)
  | [] => []
  | e :: rest => e.clause :: WhereEntry.clauses rest

end

def Where.condition (w : Where m) : Condition m :=
  WhereEntry.clauses w

namespace Condition

def andWhere (c : Condition m) (w : Where m) : Condition m :=
  c.and w.condition

def andWhereNot (c : Condition m) (w : Where m) : Condition m :=
  c.and w.condition.not

def orWhere (c : Condition m) (w : Where m) : Condition m :=
  c.or w.condition

end Condition

theorem WhereEntry.clauses_eq_map (entries : List (WhereEntry m)) :
    WhereEntry.clauses entries = entries.map WhereEntry.clause := by
  induction entries with
  | nil => rfl
  | cons e rest ih => rw [WhereEntry.clauses, ih, List.map_cons]

end AccessControl
