import AccessControl.Decimal.Binary64

namespace AccessControl.Decimal

structure Scaled where
  digits : Nat
  exponent : Int
  deriving DecidableEq

inductive Tie where
  | up
  | even
  deriving DecidableEq

/-- On the grid of multiples of `10^exponent`, the point chosen for `r`, if one rounds to it. All
quantities are over the denominator `r.denominator · 10^(-exponent)`. -/
def Rounding.onGrid? (r : Rounding) (tie : Tie) (exponent : Int) : Option Scaled :=
  let finer := Nat.pow 10 (-exponent).toNat
  let step := r.denominator * Nat.pow 10 exponent.toNat
  let fine : Rounding :=
    ⟨r.value * finer, r.lower * finer, r.upper * finer, r.denominator * finer, r.closed⟩
  let floor := fine.value / step
  let low := fine.covers (floor * step)
  let high := fine.covers ((floor + 1) * step)
  let past := 2 * (fine.value - floor * step)
  if low && high then
    if past < step then some ⟨floor, exponent⟩
    else if step < past then some ⟨floor + 1, exponent⟩
    else match tie with
      | .up => some ⟨floor + 1, exponent⟩
      | .even => some ⟨if floor % 2 = 0 then floor else floor + 1, exponent⟩
  else if low then some ⟨floor, exponent⟩
  else if high then some ⟨floor + 1, exponent⟩
  else none

def Rounding.coarsest? (r : Rounding) (tie : Tie) : Nat → Int → Option Scaled
  | 0, exponent => r.onGrid? tie exponent
  | finer + 1, exponent =>
    match r.onGrid? tie exponent with
    | some s => some s
    | none => r.coarsest? tie finer (exponent - 1)

/-- The shortest decimal for the magnitude of `d`. No grid coarser than the number of its integral
digits has a point near it, and `10^-324` is fine enough for every number. -/
def Dyadic.shortest (d : Dyadic) (tie : Tie) : Scaled :=
  if d.significand = 0 then ⟨0, 0⟩
  else
    let r := d.rounding
    let start := (Nat.toDigits 10 (r.value / r.denominator)).length
    (r.coarsest? tie (start + 324) start).getD ⟨0, 0⟩

end AccessControl.Decimal
