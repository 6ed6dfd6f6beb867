/-!
# The shortest decimal of a floating-point number

A double is a dyadic number `m · 2 ^ q`, and the numbers that round to it form an interval around it, the two ends
included where `m` is even.  Among the decimal grids of step `10 ^ k` there is a coarsest one with a point inside; that
point, the nearer of the two neighbours of the value where both are inside, has the fewest digits that read back.  Of
two equally near the even one is taken.

The layout is positional where the decimal point stands from three places before the first digit to sixteen behind it,
and always shows a digit behind the point; otherwise one digit stands before the point, and an exponent of at least two
digits follows with its sign.
-/
namespace Offside
namespace Decimal

/-- The size of a finite double that is not zero, as `mantissa · 2 ^ exponent`, and whether the next smaller double is
only half as far away as the next larger one. -/
structure Dyadic where
  mantissa : Nat
  exponent : Int
  narrow : Bool

/-- How many values the fraction of a double has: fifty-two bits. -/
def fractionRange : Nat := 0x10000000000000

/-- How many values the exponent field of a double has: eleven bits, above the fraction.  The sign bit is above it. -/
def fieldRange : Nat := 0x800

/-- The dyadic size of a finite double given by its bits, sign aside. -/
def Dyadic.ofBits (bits : Nat) : Dyadic :=
  let fraction : Nat := bits % fractionRange
  let field : Nat := bits / fractionRange
  if field = 0 then ⟨fraction, -1074, false⟩
  else ⟨fractionRange + fraction, (field : Int) - 1075, fraction == 0 && field != 1⟩

/-- A power of a base where the exponent is positive, and one where it is not. -/
def posPow (base : Nat) (e : Int) : Nat :=
  Nat.pow base e.toNat

/-- The point of the grid of step `10 ^ k` that lies among the numbers rounding to the double, if there is one: the
nearer neighbour of the value where both do, the even one of two equally near. -/
def Dyadic.onGrid? (d : Dyadic) (k : Int) : Option Nat :=
  -- everything is counted in quarters of `2 ^ exponent`, and both sides are scaled to integers
  let left := posPow 2 (d.exponent - 2) * posPow 10 (-k)
  let right := posPow 2 (2 - d.exponent) * posPow 10 k
  let value := 4 * d.mantissa * left
  let low := (4 * d.mantissa - if d.narrow then 1 else 2) * left
  let high := (4 * d.mantissa + 2) * left
  let inside (n : Nat) : Bool :=
    if d.mantissa % 2 = 0 then low ≤ n * right && n * right ≤ high
    else low < n * right && n * right < high
  let n := value / right
  let below := inside n
  let above := inside (n + 1)
  if below && above then
    let down := value - n * right
    let up := (n + 1) * right - value
    some (if down < up || down == up && n % 2 == 0 then n else n + 1)
  else if below then some n
  else if above then some (n + 1)
  else none

/-- The shortest decimal, as digits and the power of ten that multiplies them. -/
def Dyadic.shortest (d : Dyadic) : Nat × Int :=
  ((List.range 634).findSome? (fun (i : Nat) =>
    let k : Int := 309 - i
    (d.onGrid? k).map (fun n => (n, k)))).getD (0, 0)

/-- The text of `digits · 10 ^ exponent`. -/
def layout (digits : Nat) (exponent : Int) : String :=
  let ds := (toString digits).toList
  let point := ds.length + exponent
  if -4 < point && point ≤ 16 then
    if point ≤ 0 then "0." ++ String.ofList (List.replicate (-point).toNat '0' ++ ds)
    else if ds.length ≤ point then
      String.ofList (ds ++ List.replicate (point.toNat - ds.length) '0') ++ ".0"
    else String.ofList (ds.take point.toNat) ++ "." ++ String.ofList (ds.drop point.toNat)
  else
    let e := point - 1
    let size := toString e.natAbs
    let lead := String.ofList (ds.take 1) ++ if ds.length ≤ 1 then "" else "." ++ String.ofList (ds.drop 1)
    lead ++ "e" ++ (if e < 0 then "-" else "+") ++ (if size.length < 2 then "0" ++ size else size)

/-- How many steps of `2 ^ -1074`, the size of the smallest double, an integer has. -/
def stepsOfInt (n : Int) : Int :=
  n * posPow 2 1074

/-- How many such steps a floating-point number has.  Every finite double is a whole number of them. -/
def stepsOfReal (x : Float) : Int :=
  let bits : Nat := x.toBits.toNat
  let size : Nat := bits % (fieldRange * fractionRange)
  let d := Dyadic.ofBits size
  let steps : Int := d.mantissa * posPow 2 (d.exponent + 1074)
  if bits = size then steps else -steps

/-- The text of a floating-point number. -/
def shown (x : Float) : String :=
  let bits : Nat := x.toBits.toNat
  let size : Nat := bits % (fieldRange * fractionRange)
  let sign := if bits = size then "" else "-"
  if size / fractionRange = fieldRange - 1 then
    if size % fractionRange = 0 then sign ++ "inf" else "nan"
  else if size = 0 then sign ++ "0.0"
  else
    let (digits, exponent) := (Dyadic.ofBits size).shortest
    sign ++ layout digits exponent

end Decimal
end Offside
