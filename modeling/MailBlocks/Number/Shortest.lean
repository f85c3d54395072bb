import MailBlocks.Number.Decimal

/-!
# Shortest decimal form

The decimal form of a binary magnitude with the fewest digits that round back to it: the largest
power of ten with a multiple in the interval of numbers that round to the magnitude, and of its
multiples there the one nearest to the magnitude.

* `Interval.contains`: the numbers that round to a magnitude, its ends counting for even ones.
* `shortest`: the digits and the exponent.
-/

namespace MailBlocks.Number

/-- The numbers that round to a magnitude, in quarters of a unit. -/
structure Interval where
  low : Nat
  high : Nat
  /-- Whether the two ends round to the magnitude as well. -/
  closed : Bool

/-- The interval around a magnitude. Below a power of two the neighbour is half as far. -/
def Binary64.interval (x : Binary64) : Interval :=
  let s := step x.units
  let below := if x.units = 0x10000000000000 * s ∧ 1 < s then s else 2 * s
  ⟨4 * x.units - below, 4 * x.units + 2 * s, (x.units / s) % 2 = 0⟩

/-- Whether the quotient `num / den`, in quarters of a unit, lies in the interval. -/
def Interval.contains (i : Interval) (num den : Nat) : Bool :=
  if i.closed then i.low * den ≤ num && num ≤ i.high * den
  else i.low * den < num && num < i.high * den

/-- `d * 10 ^ e` in quarters of a unit, as a quotient. -/
def quarters (d : Nat) (e : Int) : Nat × Nat :=
  (d * Nat.pow 10 e.toNat * (4 * Binary64.oneUnits), Nat.pow 10 (-e).toNat)

/-- The multiple of `10 ^ e` in the magnitude's interval that is nearest to the magnitude. -/
def nearestMultiple? (x : Binary64) (e : Int) : Option Nat :=
  let (tenNum, tenDen) := quarters 1 e
  -- the magnitude in units of `10 ^ e`
  let num := 4 * x.units * tenDen
  let d := num / tenNum
  let up := 2 * (num % tenNum)
  let inside (d : Nat) : Bool :=
    let (n, m) := quarters d e
    d ≠ 0 && x.interval.contains n m
  let preferUpper : Bool := tenNum < up || (up == tenNum && d % 2 == 1)
  match inside d, inside (d + 1) with
  | true, true => some (if preferUpper then d + 1 else d)
  | true, false => some d
  | false, true => some (d + 1)
  | false, false => none

/-- **Shortest form**: digits and exponent of the decimal with the fewest digits that rounds to the
magnitude. Exponents are tried from above the overflow bound down to below the smallest unit. -/
def shortest (x : Binary64) : Nat × Int :=
  ((List.range 660).findSome? fun (i : Nat) =>
    let e : Int := 310 - i
    (nearestMultiple? x e).map fun d => (d, e)).getD (0, 0)

/-- How a magnitude is written: positionally with at least one digit on either side of the point
for decimal exponents from -5 to 15, else with an exponent, whose sign is always written. -/
def Binary64.chars (x : Binary64) : List Char :=
  if x.units = 0 then ['0', '.', '0'] else
  let (d, e) := shortest x
  let ds := decimalChars d
  -- the place of the point, counted from the first digit
  let point : Int := ds.length + e
  if 0 ≤ e ∧ point ≤ 16 then ds ++ List.replicate e.toNat '0' ++ ['.', '0']
  else if 0 < point ∧ point ≤ 16 then ds.take point.toNat ++ '.' :: ds.drop point.toNat
  else if -5 < point ∧ point ≤ 0 then '0' :: '.' :: List.replicate (-point).toNat '0' ++ ds
  else
    let lead := if ds.length = 1 then ds else ds.take 1 ++ '.' :: ds.drop 1
    let exponent := point - 1
    lead ++ 'e' :: (if exponent < 0 then '-' else '+') :: decimalChars exponent.natAbs

end MailBlocks.Number
