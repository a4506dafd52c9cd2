import LiveSyntax.Json.Value
import LiveSyntax.Text.Offset

/-!
# Numbers of a JSON text

A numeral is read as a machine word, or as a double. For a double, digits are gathered into one machine word as long as
they fit; the further digits before the point then only raise the exponent, those after it are dropped. The word is
rounded to a double and scaled by one power of ten.
-/

namespace LiveSyntax.Json

/-- Gathers digits before the point; the second number counts those that did not fit. -/
def gatherWhole (gathered : Nat) : List Nat → Nat × Nat
  | [] => (gathered, 0)
  | d :: rest =>
    if gathered * 10 + d ≤ Offset.greatest then gatherWhole (gathered * 10 + d) rest
    else (gathered, rest.length + 1)

/-- Gathers digits after the point; the second number counts those that did fit. -/
def gatherFraction (gathered taken : Nat) : List Nat → Nat × Nat
  | [] => (gathered, taken)
  | d :: rest =>
    if gathered * 10 + d ≤ Offset.greatest then gatherFraction (gathered * 10 + d) (taken + 1) rest
    else (gathered, taken)

def ofDigits (digits : List Nat) : Nat :=
  digits.foldl (fun n d => n * 10 + d) 0

def powerOfTen (n : Nat) : Float :=
  Float.ofScientific 1 false n

def greatestPower : Nat := 308

/-- The greatest exponent that is read as such. -/
def greatestExponent : Nat := 2147483647

/-- Divides by a power of ten, in steps that are doubles. -/
def scaleDown (f : Float) (n : Nat) : Float :=
  if n ≤ greatestPower then f / powerOfTen n
  else if f == 0 then f
  else scaleDown (f / powerOfTen greatestPower) (n - greatestPower)
termination_by n
decreasing_by simp only [greatestPower] at *; omega

/-- A machine word scaled by a power of ten; none beyond the range of doubles. -/
def scale? (gathered : Nat) (exponent : Int) : Option Float :=
  let f := (UInt64.ofNat gathered).toFloat
  match exponent with
  | .ofNat n =>
    if n ≤ greatestPower then
      let scaled := f * powerOfTen n
      if scaled.isInf then none else some scaled
    else if gathered = 0 then some f
    else none
  | .negSucc n => some (scaleDown f (n + 1))

/-- The size of a numeral, its sign left out. -/
def Numeral.magnitude? (n : Numeral) : Option Float :=
  let (gathered, surplus) := gatherWhole 0 n.whole
  let (gathered, taken) := gatherFraction gathered 0 (n.fraction.getD [])
  let shift : Int := (surplus : Int) - (taken : Int)
  match n.exponent with
  | none => scale? gathered shift
  | some (negative, digits) =>
    let exponent := ofDigits digits
    if exponent ≤ greatestExponent then
      scale? gathered (if negative then shift - exponent else shift + exponent)
    else if gathered ≠ 0 ∧ !negative then none
    else some 0

def Numeral.double? (n : Numeral) : Option Float :=
  n.magnitude?.map fun f => if n.negative then -f else f

def Numeral.word? (n : Numeral) : Option Nat :=
  if n.negative ∨ n.fraction.isSome ∨ n.exponent.isSome then none
  else if ofDigits n.whole ≤ Offset.greatest then some (ofDigits n.whole)
  else none

end LiveSyntax.Json
