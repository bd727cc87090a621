/-!
# Numbers with a set number of places

A quotient rounded to the nearest integer, of two nearest ones to the even one, and a binary64 value
written with a set number of decimal places: its exact value, rounded that way.
-/

namespace ImportIndex.Decimal

/-- The quotient rounded to the nearest integer, a tie to the even one. -/
def roundDiv (num den : Nat) : Nat :=
  let q := num / den
  let twice := 2 * (num % den)
  if twice < den then q
  else if den < twice then q + 1
  else if q % 2 = 0 then q else q + 1

/-- Writes `units`, which counts steps of `10 ^ -places`. -/
def withPlaces (units places : Nat) : String :=
  let digits := Nat.toDigits 10 units
  let padded := List.replicate (places + 1 - digits.length) '0' ++ digits
  String.ofList (padded.take (padded.length - places)) ++
    if places = 0 then "" else "." ++ String.ofList (padded.drop (padded.length - places))

/-- The quotient with this number of decimal places. -/
def fixedDiv (num den places : Nat) : String :=
  withPlaces (roundDiv (num * Nat.pow 10 places) den) places

/-- A finite value that is not negative, with this number of decimal places. -/
def fixed (x : Float) (places : Nat) : String :=
  let bits := x.toBits.toNat
  let exponent := bits / Nat.pow 2 52 % Nat.pow 2 11
  let fraction := bits % Nat.pow 2 52
  let significand := if exponent = 0 then fraction else Nat.pow 2 52 + fraction
  -- the value is `significand * 2 ^ (scale - 1075)`
  let scale := if exponent = 0 then 1 else exponent
  fixedDiv (significand * Nat.pow 2 (scale - 1075)) (Nat.pow 2 (1075 - scale)) places

example : fixedDiv 25 100 1 = "0.2" ∧ fixedDiv 35 100 1 = "0.4" ∧ fixedDiv 7 1 2 = "7.00" := by
  decide +kernel

end ImportIndex.Decimal
