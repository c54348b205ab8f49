import AccessControl.Json.Basic

namespace AccessControl.Json

structure Numeral where
  negative : Bool
  whole : List Char
  fraction : Option (List Char)
  exponent : Option (Bool × List Char)

/-- Splits off an exponent; what precedes it must be used up. -/
def Numeral.exponent? : List Char → Option (Option (Bool × List Char))
  | [] => some none
  | e :: rest =>
    if e == 'e' || e == 'E' then
      let (negative, digits) := match rest with
        | '-' :: ds => (true, ds)
        | '+' :: ds => (false, ds)
        | ds => (false, ds)
      if !digits.isEmpty && digits.all Char.isDigit then some (some (negative, digits)) else none
    else none

def Numeral.ofChars? (cs : List Char) : Option Numeral := do
  let (negative, cs) := match cs with
    | '-' :: rest => (true, rest)
    | cs => (false, cs)
  let whole := cs.takeWhile Char.isDigit
  let rest := cs.dropWhile Char.isDigit
  guard (!whole.isEmpty && (whole.head? != some '0' || whole.length == 1))
  match rest with
  | '.' :: rest =>
    let fraction := rest.takeWhile Char.isDigit
    guard !fraction.isEmpty
    let exponent ← exponent? (rest.dropWhile Char.isDigit)
    pure ⟨negative, whole, some fraction, exponent⟩
  | rest =>
    let exponent ← exponent? rest
    pure ⟨negative, whole, none, exponent⟩

def digitValue (c : Char) : Nat :=
  c.toNat - '0'.toNat

def naturalOfDigits (ds : List Char) : Nat :=
  ds.foldl (fun n c => n * 10 + digitValue c) 0

def extend (significand : Nat) : List Char → Nat × Nat
  | [] => (significand, 0)
  | d :: rest =>
    let next := significand * 10 + digitValue d
    if next < UInt64.size then extend next rest else (significand, rest.length + 1)

/-- The float `10^n`. -/
def powerOfTen (n : Nat) : Float :=
  Float.ofScientific 1 false n

def scale? (significand : Nat) (exponent : Int) : Option Float :=
  let x := Float.ofNat significand
  if 308 < exponent then
    if significand = 0 then some x else none
  else if 0 ≤ exponent then
    let y := x * powerOfTen exponent.toNat
    if y.isInf then none else some y
  else if -308 ≤ exponent then some (x / powerOfTen (-exponent).toNat)
  else if -616 ≤ exponent then some (x / powerOfTen 308 / powerOfTen (-(exponent + 308)).toNat)
  else some 0

def greatestExponent : Nat :=
  2147483647

/-- The float a numeral stands for. -/
def Numeral.float? (n : Numeral) : Option Float := do
  let (whole, dropped) := extend 0 n.whole
  let fraction := n.fraction.getD []
  let (significand, unused) := extend whole fraction
  let shift : Int := dropped - (fraction.length - unused : Nat)
  let magnitude ← match n.exponent with
    | none => scale? significand shift
    | some (below, digits) =>
      let e := naturalOfDigits digits
      if greatestExponent < e then
        if significand != 0 && !below then none else some 0
      else scale? significand (if below then shift - e else shift + e)
  pure (if n.negative then -magnitude else magnitude)

def ofNumeral (n : Numeral) : Json :=
  let magnitude := naturalOfDigits n.whole
  let written := n.fraction.isNone && n.exponent.isNone
  if written && !n.negative && decide (magnitude < UInt64.size) then integer magnitude
  else if written && n.negative && magnitude != 0 && decide (Int64.minValue.toInt ≤ -magnitude) then
    integer (-magnitude)
  else match n.float? with
    | some x => real x
    | none => unreadable

end AccessControl.Json
