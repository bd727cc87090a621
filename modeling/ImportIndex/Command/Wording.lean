import ImportIndex.Decimal.Fixed

/-!
# Numbers in words

How reports write counts, sizes and times.
-/

namespace ImportIndex.Command

/-- A count with its noun: `1 source`, `3 sources`. -/
def plural (count : Nat) (noun : String) : String :=
  s!"{count} {noun}" ++ if count = 1 then "" else "s"

/-- The units of sizes, each 1024 times the one before. -/
def sizeUnits : List String := ["KB", "MB", "GB"]

/-- The size `value / 1024 ^ power` with one place, in this unit. -/
def inUnit (value power : Nat) (unit : String) : String :=
  Decimal.fixedDiv value (Nat.pow 1024 power) 1 ++ " " ++ unit

/-- The size `value / 1024 ^ power` in the first of the units that leaves less than 1024 of it, or
    else in the last. -/
def sizeIn (value power : Nat) : List String → String
  | [] => s!"{value} B"
  | [unit] => inUnit value power unit
  | unit :: units =>
    if value < Nat.pow 1024 (power + 1) then inUnit value power unit
    else sizeIn value (power + 1) units

/-- The nearest number that has at most 53 significant bits, as sizes are computed with binary64
    values. -/
def nearestDouble (n : Nat) : Nat :=
  let unit := Nat.pow 2 (n.log2 + 1 - 53)
  Decimal.roundDiv n unit * unit

/-- A number of bytes in the largest fitting unit: `512 B`, `1.5 KB`. -/
def size (bytes : Nat) : String :=
  let value := nearestDouble bytes
  if value < 1024 then s!"{bytes} B" else sizeIn value 1 sizeUnits

/-- A stretch of time. -/
structure Duration where
  /-- Whole seconds. -/
  seconds : Nat
  /-- Nanoseconds beyond them. -/
  nanos : Nat
deriving DecidableEq, Repr

/-- The time of this many seconds and nanoseconds, of which any number may be given. -/
def Duration.ofParts (seconds nanos : Nat) : Duration :=
  ⟨seconds + nanos / 1000000000, nanos % 1000000000⟩

/-- A stretch of time: milliseconds below one second, and otherwise seconds with two places,
    computed with binary64 values. -/
def elapsed (d : Duration) : String :=
  if d.seconds = 0 then s!"{d.nanos / 1000000}ms"
  else
    let seconds := Float.ofScientific d.seconds false 0 + Float.ofScientific d.nanos false 0 / 1e9
    Decimal.fixed seconds 2 ++ "s"

end ImportIndex.Command
