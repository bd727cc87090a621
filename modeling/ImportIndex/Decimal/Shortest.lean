import ImportIndex.Decimal.Fixed

/-!
# The shortest decimal of a binary64 value

A binary64 value stands for all numbers that are rounded to it. Of the decimals among them, the
*shortest* is the one with the fewest digits, and of several with as few digits the one nearest to
the value (`shortest`). Numbers from `10 ^ -5` up to `10 ^ 16` are laid out with a point, all others
with an exponent that has a sign (`layOut`).
-/

namespace ImportIndex.Decimal

/-- A value `significand * 2 ^ exponent` that is not zero, among the values next to it. -/
structure Binary where
  /-- The significand. -/
  significand : Nat
  /-- The exponent. -/
  exponent : Int
  /-- Whether the value below is half as far away as the value above. -/
  narrow : Bool

/-- The value that these bits stand for, if the sign is left out. -/
def Binary.ofBits (bits : UInt64) : Binary :=
  let exponent := bits.toNat / Nat.pow 2 52 % Nat.pow 2 11
  let fraction := bits.toNat % Nat.pow 2 52
  if exponent = 0 then ⟨fraction, -1074, false⟩
  else ⟨Nat.pow 2 52 + fraction, exponent - 1075, fraction = 0 && 1 < exponent⟩

/-- A number `digits * 10 ^ exponent`. -/
structure Scaled where
  /-- The digits, read as a natural number. -/
  digits : Nat
  /-- The exponent. -/
  exponent : Int
deriving DecidableEq, Repr

/-- Compares `a * 10 ^ i` with `b * 2 ^ j`. -/
def compareScaled (a : Nat) (i : Int) (b : Nat) (j : Int) : Ordering :=
  compare (a * Nat.pow 10 i.toNat * Nat.pow 2 (-j).toNat)
    (b * Nat.pow 2 j.toNat * Nat.pow 10 (-i).toNat)

namespace Binary

/-- Whether a number is rounded to the value: it lies between the middles to the values next to it,
    or on a middle if the significand is even. -/
def standsFor (x : Binary) (d : Scaled) : Bool :=
  let low := 4 * x.significand - if x.narrow then 1 else 2
  let high := 4 * x.significand + 2
  let closed := x.significand % 2 == 0
  let toLow := compareScaled d.digits d.exponent low (x.exponent - 2)
  let toHigh := compareScaled d.digits d.exponent high (x.exponent - 2)
  (toLow == .gt || (closed && toLow == .eq)) && (toHigh == .lt || (closed && toHigh == .eq))

/-- The value in steps of `10 ^ exponent`, as a fraction. -/
def inSteps (x : Binary) (exponent : Int) : Nat × Nat :=
  (x.significand * Nat.pow 2 x.exponent.toNat * Nat.pow 10 (-exponent).toNat,
    Nat.pow 2 (-x.exponent).toNat * Nat.pow 10 exponent.toNat)

/-- The number nearest to the value among those with this exponent that stand for it. -/
def nearest? (x : Binary) (exponent : Int) : Option Scaled :=
  let (num, den) := x.inSteps exponent
  let near : Scaled := ⟨roundDiv num den, exponent⟩
  let below : Scaled := ⟨num / den, exponent⟩
  let above : Scaled := ⟨num / den + 1, exponent⟩
  [near, below, above].find? x.standsFor

/-- The first exponent, from `exponent` on downwards, with which a number stands for the value. At
    most `n` are tried. -/
def search (x : Binary) : Nat → Int → Scaled
  | 0, exponent => ⟨(x.inSteps exponent).1 / (x.inSteps exponent).2, exponent⟩
  | n + 1, exponent => (x.nearest? exponent).getD (search x n (exponent - 1))

end Binary

/-- The exponent with which every value has one digit at most. -/
def topExponent : Int := 309

/-- The exponents from the top one to the least one of a value. -/
def exponents : Nat := 309 + 324 + 17

/-- Moves zeros at the end of the digits into the exponent, at most `n` of them. -/
def withoutZeros : Nat → Scaled → Scaled
  | 0, d => d
  | n + 1, d =>
    if d.digits % 10 = 0 then withoutZeros n ⟨d.digits / 10, d.exponent + 1⟩ else d

/-- The shortest decimal of the value that these bits stand for, which is not zero. -/
def shortest (bits : UInt64) : Scaled :=
  withoutZeros exponents ((Binary.ofBits bits).search exponents topExponent)

/-- The text of a number. Its digits do not end in a zero. -/
def layOut (d : Scaled) : String :=
  let digits := Nat.toDigits 10 d.digits
  let zeros (n : Int) := List.replicate n.toNat '0'
  -- the number of digits before the point
  let point : Int := digits.length + d.exponent
  String.ofList <|
    if 0 ≤ d.exponent ∧ point ≤ 16 then digits ++ zeros d.exponent ++ ['.', '0']
    else if 0 < point ∧ point ≤ 16 then
      digits.take point.toNat ++ '.' :: digits.drop point.toNat
    else if -5 < point ∧ point ≤ 0 then '0' :: '.' :: zeros (-point) ++ digits
    else
      let fraction := if digits.length = 1 then [] else '.' :: digits.drop 1
      let sign := if 0 < point then ['+'] else []
      digits.take 1 ++ fraction ++ 'e' :: sign ++ (toString (point - 1)).toList

/-- The text of a finite value. -/
def text (x : Float) : String :=
  let negative := x.toBits.toNat / Nat.pow 2 63 = 1
  let size := x.toBits.toNat % Nat.pow 2 63
  (if negative then "-" else "") ++
    if size = 0 then "0.0" else layOut (shortest (UInt64.ofNat size))

example : layOut ⟨1, -1⟩ = "0.1" ∧ layOut ⟨12, 14⟩ = "1200000000000000.0" ∧
    layOut ⟨1, 16⟩ = "1e+16" ∧ layOut ⟨15, -8⟩ = "1.5e-7" := by decide +kernel

end ImportIndex.Decimal
