namespace AccessControl.Decimal

structure Dyadic where
  negative : Bool
  significand : Nat
  exponent : Int
  deriving DecidableEq

def hiddenBit : Nat :=
  1 <<< 52

def Dyadic.ofBits? (bits : Nat) : Option Dyadic :=
  let negative := bits.testBit 63
  let field : Nat := (bits >>> 52) % 2048
  let fraction := bits % hiddenBit
  if field = 2047 then none
  else if field = 0 then some ⟨negative, fraction, -1074⟩
  else some ⟨negative, hiddenBit + fraction, field - 1075⟩

/-- The significand that starts a binade: the neighbour below is half as far as the one above. -/
def Dyadic.startsBinade (d : Dyadic) : Bool :=
  d.significand == hiddenBit && decide (-1074 < d.exponent)

/-- Positive rationals over one denominator: a value and the ends of the interval that rounds to
it. The ends belong to the interval when `closed`. -/
structure Rounding where
  value : Nat
  lower : Nat
  upper : Nat
  denominator : Nat
  closed : Bool
  deriving DecidableEq

def Dyadic.rounding (d : Dyadic) : Rounding :=
  let quarter := d.exponent - 2
  let scale := Nat.pow 2 quarter.toNat
  let value := 4 * d.significand
  let below := if d.startsBinade then 1 else 2
  ⟨value * scale, (value - below) * scale, (value + 2) * scale, Nat.pow 2 (-quarter).toNat,
    d.significand % 2 == 0⟩

def Rounding.covers (r : Rounding) (n : Nat) : Bool :=
  if r.closed then decide (r.lower ≤ n ∧ n ≤ r.upper) else decide (r.lower < n ∧ n < r.upper)

end AccessControl.Decimal
