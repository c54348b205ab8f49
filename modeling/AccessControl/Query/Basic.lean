import AccessControl.Connectives
import AccessControl.Schema.Basic

namespace AccessControl

/-- The name of a row within a query; the rows of the query itself are bound to 0. -/
abbrev Binding := Nat

/-- Bindings are words, so that counting on from one must stay below this. -/
def Binding.limit : Nat :=
  UInt64.size

/-- Binds to `binding` the row that a to-one association relates to the one bound to `parent`. -/
structure Join where
  parent : Binding
  association : String
  binding : Binding
  related : ResourceType
  ownerKey : String
  relatedKey : String
  deriving DecidableEq

/-- Where the rows of a query come from: the records of a type, or a raw source, which belongs to
no type. -/
inductive Source where
  | type (t : ResourceType)
  | unlabeled (name : String)
  deriving DecidableEq

inductive Direction where
  | ascending
  | descending
  deriving DecidableEq

structure Order where
  field : String
  direction : Direction
  deriving DecidableEq

mutual

/-- A predicate on bound rows. -/
inductive Expr where
  | always
  | never
  | compare (binding : Binding) (field : String) (op : Comparison) (value : Value)
  /-- The row is there and its field has no value. -/
  | isNull (binding : Binding) (field : String)
  /-- The row is there. -/
  | present (binding : Binding)
  | and (left right : Expr)
  | or (left right : Expr)
  | not (inner : Expr)
  | someRelated (correlated : Correlated)
  | inQuery (binding : Binding) (field : String) (query : Query)

/-- A search of the rows that a to-many association relates to the one bound to `parent`. The
candidate row is bound to `binding`, and `joins` hang off it; the bindings around the search are
in sight. -/
structure Correlated where
  parent : Binding
  association : String
  binding : Binding
  related : ResourceType
  ownerKey : String
  relatedKey : String
  joins : List Join
  predicate : Expr

structure Query where
  source : Source
  predicate : Expr
  joins : List Join
  orderBy : List Order
  limit : Option Nat
  preloads : List PreloadPlan

structure PreloadPlan where
  association : String
  parent : Binding
  binding : Binding
  related : ResourceType
  ownerKey : String
  relatedKey : String
  cardinality : Cardinality
  joins : List Join
  predicate : Expr
  query : Option Query
  preloads : List PreloadPlan

end

structure Preload where
  association : String
  query : Option Query
  nested : List Preload

namespace Expr

def equals (binding : Binding) (field : String) (v : Value) : Expr :=
  compare binding field .eq v

def isAlways : Expr → Bool
  | always => true
  | _ => false

def isNever : Expr → Bool
  | never => true
  | _ => false

def conj (left right : Expr) : Expr :=
  if left.isNever || right.isNever then never
  else if left.isAlways then right
  else if right.isAlways then left
  else and left right

/-- Disjunction without constants. -/
def disj (left right : Expr) : Expr :=
  if left.isAlways || right.isAlways then always
  else if left.isNever then right
  else if right.isNever then left
  else or left right

def neg : Expr → Expr
  | always => never
  | never => always
  | not inner => inner
  | e => not e

instance : Connectives Expr where
  always := always
  never := never
  isAlways := isAlways
  isNever := isNever
  and := conj
  or := disj
  not := neg

theorem eq_always_of_isAlways {e : Expr} (h : e.isAlways = true) : e = always := by
  cases e <;> simp_all [isAlways]

theorem eq_never_of_isNever {e : Expr} (h : e.isNever = true) : e = never := by
  cases e <;> simp_all [isNever]

end Expr

def Association.join (a : Association) (parent : Binding) (name : String) (binding : Binding) :
    Join :=
  ⟨parent, name, binding, a.related, a.ownerKey, a.relatedKey⟩

namespace Query

def ofSource (source : Source) : Query :=
  ⟨source, .always, [], [], none, []⟩

def ofType (t : ResourceType) : Query :=
  ofSource (.type t)

def unlabeled (name : String) : Query :=
  ofSource (.unlabeled name)

def resourceType? (q : Query) : Option ResourceType :=
  match q.source with
  | .type t => some t
  | .unlabeled _ => none

def filter (q : Query) (e : Expr) : Query :=
  { q with predicate := q.predicate.conj e }

def join (q : Query) (j : Join) : Query :=
  { q with joins := q.joins ++ [j] }

def order (q : Query) (field : String) (direction : Direction) : Query :=
  { q with orderBy := q.orderBy ++ [⟨field, direction⟩] }

def take (q : Query) (limit : Nat) : Query :=
  { q with limit := some limit }

end Query

end AccessControl
