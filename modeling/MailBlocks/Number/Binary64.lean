/-!
# Binary floating-point magnitudes

Nonnegative numbers of 53 significant bits, with the gradual underflow and the overflow bound of
the 64-bit binary format. A magnitude is a natural number of units, one unit being `2 ^ -1074`, the
smallest magnitude above zero. All arithmetic is exact on naturals and then rounded once, to the
nearest magnitude, a tie going to the even neighbour.

* `round_units_le`, `le_round_units`: a rounded quotient is within one step of the quotient.
* `round_of_dvd`: a whole number of steps is its own rounding.
-/

namespace MailBlocks.Number

/-- **A magnitude**, counted in units of `2 ^ -1074`. -/
structure Binary64 where
  units : Nat
  deriving DecidableEq, Repr

namespace Binary64

/-- The number of units in the number one. -/
def oneUnits : Nat := Nat.pow 2 1074

/-- The distance between neighbouring magnitudes around `q` units: 53 bits of `q` are kept. -/
def step (q : Nat) : Nat := Nat.pow 2 (q.log2 - 52)

/-- **Rounding**: the magnitude nearest to `a / b` units, a tie going to the even neighbour. -/
def round (a b : Nat) : Binary64 :=
  let d := b * step (a / b)
  let q := a / d
  let r := a % d
  ⟨(if 2 * r < d ∨ (2 * r = d ∧ q % 2 = 0) then q else q + 1) * step (a / b)⟩

/-- Magnitudes from this one on are infinite. -/
def infinity : Binary64 := ⟨Nat.pow 2 2098⟩

/-- Whether a magnitude is below the overflow bound. -/
def isFinite (x : Binary64) : Bool := x.units < infinity.units

/-- The magnitude nearest to a quotient of naturals. -/
def ofQuotient (num den : Nat) : Binary64 := round (num * oneUnits) den

/-- The magnitude nearest to a natural number. -/
def ofNat (n : Nat) : Binary64 := ofQuotient n 1

/-- The rounded sum. -/
def add (x y : Binary64) : Binary64 := round (x.units + y.units) 1

/-- The rounded product. -/
def mul (x y : Binary64) : Binary64 := round (x.units * y.units) oneUnits

/-- The rounded quotient. -/
def div (x y : Binary64) : Binary64 := round (x.units * oneUnits) y.units

/-- The magnitude nearest to a power of ten. -/
def powerOfTen (k : Nat) : Binary64 := ofNat (Nat.pow 10 k)

/-- The magnitude nearest to `m * 10 ^ e`. Exponents so far out that every digit string of that
length overflows or vanishes are settled without computing the power. -/
def ofDecimal (m : Nat) (e : Int) : Binary64 :=
  if m = 0 then ⟨0⟩
  else if 400 < e then infinity
  else if e + m.log2 < -400 then ⟨0⟩
  else if 0 ≤ e then ofNat (m * Nat.pow 10 e.toNat)
  else ofQuotient m (Nat.pow 10 (-e).toNat)

/-- The whole part. -/
def floor (x : Binary64) : Nat := x.units / oneUnits

/-- The nearest whole number, a half going up. -/
def nearest (x : Binary64) : Nat := (2 * x.units + oneUnits) / (2 * oneUnits)

theorem step_pos (q : Nat) : 0 < step q := Nat.two_pow_pos _

/-- The rounding exceeds the quotient by at most one step. -/
theorem round_units_le {a b : Nat} (hb : 0 < b) :
    (round a b).units * b ≤ a + b * step (a / b) := by
  have hd : 0 < b * step (a / b) := Nat.mul_pos hb (step_pos _)
  have h := Nat.div_add_mod a (b * step (a / b))
  simp only [round]
  split
  · calc a / (b * step (a / b)) * step (a / b) * b
        = b * step (a / b) * (a / (b * step (a / b))) := by ac_rfl
      _ ≤ a + b * step (a / b) := by omega
  · calc (a / (b * step (a / b)) + 1) * step (a / b) * b
        = b * step (a / b) * (a / (b * step (a / b))) + b * step (a / b) := by
          rw [Nat.add_mul, Nat.one_mul, Nat.add_mul]; ac_rfl
      _ ≤ a + b * step (a / b) := by omega

/-- The rounding falls short of the quotient by at most one step. -/
theorem le_round_units {a b : Nat} (hb : 0 < b) :
    a ≤ (round a b).units * b + b * step (a / b) := by
  have hd : 0 < b * step (a / b) := Nat.mul_pos hb (step_pos _)
  have h := Nat.div_add_mod a (b * step (a / b))
  have hm := Nat.mod_lt a hd
  simp only [round]
  split
  · have : a / (b * step (a / b)) * step (a / b) * b
        = b * step (a / b) * (a / (b * step (a / b))) := by ac_rfl
    omega
  · have : (a / (b * step (a / b)) + 1) * step (a / b) * b
        = b * step (a / b) * (a / (b * step (a / b))) + b * step (a / b) := by
      rw [Nat.add_mul, Nat.one_mul, Nat.add_mul]; ac_rfl
    omega

/-- A whole number of steps is its own rounding. -/
theorem round_of_dvd {a b q : Nat} (hb : 0 < b) (h : a = b * step (a / b) * q) :
    (round a b).units * b = a := by
  have hd : 0 < b * step (a / b) := Nat.mul_pos hb (step_pos _)
  have hmod : a % (b * step (a / b)) = 0 := Nat.mod_eq_zero_of_dvd ⟨q, h⟩
  have hdm := Nat.div_add_mod a (b * step (a / b))
  simp only [round, hmod, Nat.mul_zero]
  rw [if_pos (Or.inl hd)]
  calc a / (b * step (a / b)) * step (a / b) * b
      = b * step (a / b) * (a / (b * step (a / b))) := by ac_rfl
    _ = a := by omega

end Binary64

end MailBlocks.Number
