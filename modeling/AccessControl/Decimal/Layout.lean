import AccessControl.Decimal.Shortest

namespace AccessControl.Decimal

structure Layout where
  positional : Option (Int × Int)
  fraction : Bool
  plus : String
  tie : Tie

def Scaled.positional (s : Scaled) (fraction : Bool) : String :=
  let ds := Nat.toDigits 10 s.digits
  match s.exponent with
  | .ofNat zeros =>
    String.ofList (ds ++ List.replicate zeros '0') ++ if fraction then ".0" else ""
  | .negSucc n =>
    let places := n + 1
    if places < ds.length then
      String.ofList (ds.take (ds.length - places) ++ '.' :: ds.drop (ds.length - places))
    else
      String.ofList ('0' :: '.' :: List.replicate (places - ds.length) '0' ++ ds)

/-- The exponent of the leading digit. -/
def Scaled.leading (s : Scaled) : Int :=
  s.exponent + (Nat.toDigits 10 s.digits).length - 1

def Scaled.scientific (s : Scaled) (plus : String) : String :=
  let mantissa := match Nat.toDigits 10 s.digits with
    | d :: e :: rest => String.ofList (d :: '.' :: e :: rest)
    | ds => String.ofList ds
  mantissa ++ "e" ++ (if s.leading < 0 then "" else plus) ++ toString s.leading

def Layout.writesPositionally (l : Layout) (s : Scaled) : Bool :=
  match l.positional with
  | none => true
  | some (least, greatest) =>
    s.digits == 0 || decide (least ≤ s.leading ∧ s.leading ≤ greatest)

def Layout.finite (l : Layout) (d : Dyadic) : String :=
  let s := d.shortest l.tie
  let magnitude :=
    if l.writesPositionally s then s.positional l.fraction else s.scientific l.plus
  if d.negative then "-" ++ magnitude else magnitude

def Layout.write (l : Layout) (x : Float) : String :=
  match Dyadic.ofBits? x.toBits.toNat with
  | some d => l.finite d
  | none => if x.isNaN then "NaN" else if x < 0 then "-inf" else "inf"

end AccessControl.Decimal
