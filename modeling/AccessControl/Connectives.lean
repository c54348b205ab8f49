namespace AccessControl

/-- Results that combine by connectives and whose two constants can be told from the rest.
`and` gives back a constant `never` and drops a constant `always`, and `or` the other way round.
Conditions are folded into booleans and into query predicates by the same folds, so that both decide
in the same order and stop at the same point. -/
class Connectives (L : Type) where
  always : L
  never : L
  isAlways : L → Bool
  isNever : L → Bool
  and : L → L → L
  or : L → L → L
  not : L → L

instance : Connectives Bool where
  always := true
  never := false
  isAlways := id
  isNever := not
  and := and
  or := or
  not := not

namespace Connectives

variable {n : Type → Type} [Monad n] {L : Type} [Connectives L]

/-- Joins the results of the items to `result` by `or`, and asks no further item once the result
always holds. -/
def orElse (result : L) : List (n L) → n L
  | [] => pure result
  | item :: rest =>
    if isAlways result then pure result
    else do
      let next ← item
      orElse (or result next) rest

/-- Joins the results of the items to `result` by `and`, and asks no further item once the result
never holds. -/
def andAlso (result : L) : List (n L) → n L
  | [] => pure result
  | item :: rest =>
    if isNever result then pure result
    else do
      let next ← item
      andAlso (and result next) rest

def anyOf (items : List (n L)) : n L :=
  orElse never items

def allOf (items : List (n L)) : n L :=
  andAlso always items

/-- What is allowed and not denied. Denials are asked for only if something may be allowed. -/
def permit (allowed : L) (denied : n L) : n L :=
  if isNever allowed then pure allowed
  else do
    let d ← denied
    pure (and allowed (not d))

end Connectives

end AccessControl
