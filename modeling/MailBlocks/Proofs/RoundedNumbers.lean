import Mathlib.Algebra.Order.Ring.Nat
import Mathlib.Tactic.IntervalCases
import Mathlib.Tactic.Linarith
import Mathlib.Tactic.Ring
import MailBlocks.Proofs.WrittenNumbers

/-!
# Rounded products and quotients

What becomes of the errors of floating point when a result is taken to the nearest whole number:
they stay far from the halves, and the few results that are halves are exact or go up.

* `le_round_of_dvd`, `round_le_of_dvd`: rounding keeps bounds on a coarser grid.
* `nearest_mul_thirteen_tenths`: 1.3 times a number, a half going up.
* `percentOfHalf_bounds`: a percentage is on the right side of each half.
* `nearest_percentOfHalf_le`, `le_nearest_percentOfHalf`: the nearest percentage.
-/

namespace MailBlocks.Number.Binary64

/-! ## Rounding on a grid -/

/-- **A multiple of the step below a quotient** is not above its rounding. -/
theorem le_round_of_dvd {a b t : Nat} (hb : 0 < b) (ht : step (a / b) ∣ t) (h : b * t ≤ a) :
    t ≤ (round a b).units := by
  obtain ⟨s, rfl⟩ := ht
  have hd : 0 < b * step (a / b) := Nat.mul_pos hb (step_pos _)
  have hs : s ≤ a / (b * step (a / b)) := by
    refine (Nat.le_div_iff_mul_le hd).2 ?_
    calc s * (b * step (a / b)) = b * (step (a / b) * s) := by ac_rfl
      _ ≤ a := h
  rw [Nat.mul_comm]
  simp only [round]
  refine Nat.mul_le_mul_right _ ?_
  split
  · exact hs
  · exact Nat.le_succ_of_le hs

/-- **A multiple of the step above a quotient** is not below its rounding. -/
theorem round_le_of_dvd {a b t : Nat} (hb : 0 < b) (ht : step (a / b) ∣ t) (h : a ≤ b * t) :
    (round a b).units ≤ t := by
  obtain ⟨s, rfl⟩ := ht
  have hd : 0 < b * step (a / b) := Nat.mul_pos hb (step_pos _)
  have hle : a ≤ b * step (a / b) * s := by rwa [Nat.mul_assoc]
  have hdm := Nat.div_add_mod a (b * step (a / b))
  rw [Nat.mul_comm (step (a / b)) s]
  simp only [round]
  refine Nat.mul_le_mul_right _ ?_
  split
  · exact Nat.div_le_of_le_mul hle
  · next hup =>
    -- something is left over, so the quotient is below the multiple
    have hrest : 0 < a % (b * step (a / b)) := by
      by_contra hzero
      exact hup (.inl (by omega))
    refine Nat.lt_of_mul_lt_mul_left (a := b * step (a / b)) ?_
    omega

/-- Numbers of 53 bits more than a power of two have a step that divides it. -/
theorem step_dvd_pow {q k : Nat} (h : q < 2 ^ (k + 53)) : step q ∣ 2 ^ k := by
  have hlog : q.log2 < k + 53 := by
    by_cases hz : q = 0
    · rw [hz, Nat.log2_zero]
      omega
    · exact (Nat.log2_lt hz).2 h
  exact Nat.pow_dvd_pow 2 (by omega)

theorem exists_pow_eq_oneUnits : ∃ k, 46 ≤ k ∧ oneUnits = Nat.pow 2 k := by
  refine ⟨_, ?_, by delta oneUnits; exact Eq.refl _⟩
  decide

/-- **A grid inside the number one**: all magnitudes that are not too large for it keep its
multiples. -/
theorem exists_grain : ∃ e, 0 < e ∧ oneUnits = e * 2 ^ 46 ∧
    ∀ j q, q < e * 2 ^ (j + 53) → step q ∣ e * 2 ^ j := by
  obtain ⟨k, hk, hone⟩ := exists_pow_eq_oneUnits
  obtain ⟨n, rfl⟩ := Nat.exists_eq_add_of_le' hk
  refine ⟨2 ^ n, Nat.two_pow_pos n, hone.trans (Nat.pow_add 2 n 46), fun j q h => ?_⟩
  rw [← Nat.pow_add] at h ⊢
  exact step_dvd_pow (by rwa [Nat.add_assoc])

theorem le_nearest_iff {x : Binary64} {k : Nat} :
    k ≤ x.nearest ↔ 2 * k * oneUnits ≤ 2 * x.units + oneUnits := by
  rw [nearest, Nat.le_div_iff_mul_le (Nat.mul_pos Nat.two_pos oneUnits_pos)]
  have hcomm : k * (2 * oneUnits) = 2 * k * oneUnits := by ring
  rw [hcomm]

theorem nearest_lt_iff {x : Binary64} {k : Nat} :
    x.nearest < k ↔ 2 * x.units + oneUnits < 2 * k * oneUnits := by
  rw [← Nat.not_le, le_nearest_iff, Nat.not_le]

/-- Sums of numbers of 53 bits are exact. -/
theorem add_ofNat {m n : Nat} (hm : m < 2 ^ 53) (hn : n < 2 ^ 53) :
    (ofNat m).add (ofNat n) = ofNat (m + n) := by
  rw [add, units_ofNat hm, units_ofNat hn, ← Nat.add_mul]
  rfl

/-- Halves are exact. -/
theorem two_mul_units_half {n : Nat} (hn : n < 2 ^ 53) :
    2 * (ofQuotient n 2).units = n * oneUnits := by
  obtain ⟨k, hk⟩ : ∃ k, oneUnits = 2 * Nat.pow 2 k := by
    obtain ⟨k, hk, hone⟩ := exists_pow_eq_oneUnits
    obtain ⟨k, rfl⟩ := Nat.exists_eq_add_of_le' (Nat.le_trans (by decide) hk : 1 ≤ k)
    exact ⟨k, hone.trans (Nat.pow_succ' (n := k))⟩
  have hdiv : n * oneUnits / 2 = n * Nat.pow 2 k := by
    rw [hk, Nat.mul_left_comm]
    exact Nat.mul_div_cancel_left _ Nat.two_pos
  obtain ⟨q, hq⟩ : step (n * oneUnits / 2) ∣ n * Nat.pow 2 k := by
    rw [hdiv]
    exact step_dvd hn k
  have hround := round_of_dvd (a := n * oneUnits) (q := q) Nat.two_pos
    (by rw [Nat.mul_assoc, ← hq, hk, Nat.mul_left_comm])
  rw [Nat.mul_comm]
  exact hround

/-- **A whole number between two points of the grid** around it is the nearest to the rounding. -/
theorem nearest_round {a b g k : Nat} (hb : 0 < b) (hg : 0 < g) (hone : oneUnits = 16 * g)
    (hstep : step (a / b) ∣ g) (hlow : b * ((16 * k - 8) * g) ≤ a)
    (hhigh : a ≤ b * ((16 * k + 7) * g)) : (round a b).nearest = k := by
  refine Nat.le_antisymm (Nat.le_of_lt_succ ?_) ?_
  · have hle := round_le_of_dvd hb (Dvd.dvd.mul_left hstep _) hhigh
    have hexpand : (16 * k + 7) * g = 16 * (k * g) + 7 * g := by ring
    have hgoal : 2 * (k + 1) * oneUnits = 32 * (k * g) + 32 * g := by rw [hone]; ring
    rw [Nat.succ_eq_add_one, nearest_lt_iff, hgoal]
    omega
  · have hle := le_round_of_dvd hb (Dvd.dvd.mul_left hstep _) hlow
    have hexpand : (16 * k - 8) * g = 16 * (k * g) - 8 * g := by
      rw [Nat.sub_mul, Nat.mul_assoc]
    have hgoal : 2 * k * oneUnits = 32 * (k * g) := by rw [hone]; ring
    rw [le_nearest_iff, hgoal]
    omega

/-! ## A multiple of 1.3 -/

/-- The magnitude of 1.3 is a little above it. -/
theorem thirteen_tenths_bounds :
    13 * oneUnits ≤ 10 * (ofDecimal 13 (-1)).units ∧
    2 ^ 36 * (10 * (ofDecimal 13 (-1)).units) ≤ (2 ^ 36 * 13 + 1) * oneUnits := by
  decide +kernel

/-- A multiple of 1.3 exceeds its exact value by at most 1/40. -/
theorem mul_thirteen_tenths_bounds {n g : Nat} (hn : n < 2 ^ 34) (hone : oneUnits = 16 * g) :
    208 * (n * g) ≤ 10 * (n * (ofDecimal 13 (-1)).units) ∧
    10 * (n * (ofDecimal 13 (-1)).units) ≤ 208 * (n * g) + 4 * g := by
  obtain ⟨hlow, hhigh⟩ := thirteen_tenths_bounds
  generalize (ofDecimal 13 (-1)).units = c at hlow hhigh ⊢
  constructor
  · calc 208 * (n * g) = n * (13 * oneUnits) := by rw [hone]; ring
      _ ≤ n * (10 * c) := Nat.mul_le_mul_left n hlow
      _ = 10 * (n * c) := by ring
  · refine Nat.le_of_mul_le_mul_left (c := 2 ^ 36) ?_ (Nat.two_pow_pos 36)
    calc 2 ^ 36 * (10 * (n * c)) = n * (2 ^ 36 * (10 * c)) := by ring
      _ ≤ n * ((2 ^ 36 * 13 + 1) * oneUnits) := Nat.mul_le_mul_left n hhigh
      _ = 2 ^ 36 * (208 * (n * g)) + n * (16 * g) := by rw [hone]; ring
      _ ≤ 2 ^ 36 * (208 * (n * g)) + 2 ^ 34 * (16 * g) :=
        Nat.add_le_add_left (Nat.mul_le_mul_right _ (Nat.le_of_lt hn)) _
      _ = 2 ^ 36 * (208 * (n * g) + 4 * g) := by ring

/-- **1.3 times a number** of 34 bits is nearest to the same whole number as without rounding. -/
theorem nearest_mul_thirteen_tenths {n : Nat} (hn : n < 2 ^ 34) :
    ((ofNat n).mul (ofDecimal 13 (-1))).nearest = (13 * n + 5) / 10 := by
  obtain ⟨e, he, hone, hgrid⟩ := exists_grain
  obtain ⟨g, hg⟩ : ∃ g, g = e * 2 ^ 42 := ⟨_, rfl⟩
  have hpos : 0 < g := hg ▸ Nat.mul_pos he (Nat.two_pow_pos 42)
  have hsixteen : oneUnits = 16 * g := by rw [hone, hg]; ring
  obtain ⟨hlow, hhigh⟩ := mul_thirteen_tenths_bounds hn hsixteen
  rw [mul, units_ofNat (Nat.lt_trans hn (by decide))]
  generalize (ofDecimal 13 (-1)).units = c at hlow hhigh ⊢
  have hcomm : n * oneUnits * c = oneUnits * (n * c) := by ring
  rw [hcomm]
  have hstep : step (oneUnits * (n * c) / oneUnits) ∣ g := by
    rw [Nat.mul_div_cancel_left _ oneUnits_pos, hg]
    refine hgrid 42 _ ?_
    have hnarrow : n * g ≤ 2 ^ 34 * g := Nat.mul_le_mul_right g (Nat.le_of_lt hn)
    have hwide : e * 2 ^ (42 + 53) = 2 ^ 53 * g := by rw [hg]; ring
    rw [hwide]
    omega
  -- the result in tenths, from both sides
  obtain ⟨k, hk⟩ : ∃ k, k = (13 * n + 5) / 10 := ⟨_, rfl⟩
  have hbelow : 10 * (k * g) ≤ 13 * (n * g) + 5 * g := by
    have hle : 10 * k ≤ 13 * n + 5 := by omega
    calc 10 * (k * g) = 10 * k * g := by ring
      _ ≤ (13 * n + 5) * g := Nat.mul_le_mul_right g hle
      _ = 13 * (n * g) + 5 * g := by ring
  have habove : 13 * (n * g) ≤ 10 * (k * g) + 4 * g := by
    have hle : 13 * n ≤ 10 * k + 4 := by omega
    calc 13 * (n * g) = 13 * n * g := by ring
      _ ≤ (10 * k + 4) * g := Nat.mul_le_mul_right g hle
      _ = 10 * (k * g) + 4 * g := by ring
  rw [← hk]
  refine nearest_round oneUnits_pos hpos hsixteen hstep (Nat.mul_le_mul_left _ ?_)
    (Nat.mul_le_mul_left _ ?_)
  · rw [Nat.sub_mul, Nat.mul_assoc]
    omega
  · rw [Nat.add_mul, Nat.mul_assoc]
    omega

/-! ## Percentages -/

section Percent

variable {r h m : Nat} {radius : Binary64}

/-- The percentage that a radius is of half a height. -/
def percentOfHalf (radius : Binary64) (h : Nat) : Binary64 :=
  (radius.div (ofQuotient h 2)).mul (ofNat 100)

/-- The quotient of a radius and half a height is exact up to one grain. -/
theorem div_half_bounds {e : Nat} (he : 0 < e) (hone : oneUnits = e * 2 ^ 46)
    (hgrid : ∀ q, q < e * 2 ^ 53 → step q ∣ e) (hradius : radius.units = r * oneUnits)
    (hr : r ≤ 50) (hh : 0 < h) (hlt : h < 2 ^ 53) :
    2 * (r * oneUnits) ≤ (radius.div (ofQuotient h 2)).units * h + h * e ∧
    (radius.div (ofQuotient h 2)).units * h ≤ 2 * (r * oneUnits) + h * e := by
  have hhalf := two_mul_units_half hlt
  have hpos := oneUnits_pos
  rw [div, hradius]
  generalize (ofQuotient h 2).units = half at hhalf ⊢
  generalize oneUnits = one at *
  have hhalf0 : 0 < half := by
    have := Nat.mul_pos hh hpos
    omega
  have hstep : step (r * one * one / half) ≤ e := by
    refine Nat.le_of_dvd he (hgrid _ (Nat.div_lt_of_lt_mul ?_))
    refine Nat.lt_of_mul_lt_mul_left (a := 2) ?_
    calc 2 * (r * one * one) = 2 * r * (one * one) := by ring
      _ < 2 ^ 7 * (one * one) := by gcongr; omega
      _ ≤ h * (2 ^ 7 * (one * one)) := Nat.le_mul_of_pos_left _ hh
      _ = h * one * (e * 2 ^ 53) := by rw [hone]; ring
      _ = 2 * (half * (e * 2 ^ 53)) := by rw [← hhalf]; ring
  generalize hd : (round (r * one * one) half).units = d
  constructor
  · refine Nat.le_of_mul_le_mul_right (c := one) ?_ hpos
    have hle := le_round_units (a := r * one * one) hhalf0
    rw [hd] at hle
    calc 2 * (r * one) * one = 2 * (r * one * one) := by ring
      _ ≤ 2 * (d * half + half * e) := by gcongr; exact hle.trans (by gcongr)
      _ = d * (2 * half) + 2 * half * e := by ring
      _ = (d * h + h * e) * one := by rw [hhalf]; ring
  · refine Nat.le_of_mul_le_mul_right (c := one) ?_ hpos
    have hle := round_units_le (a := r * one * one) hhalf0
    rw [hd] at hle
    calc d * h * one = 2 * (d * half) := by rw [Nat.mul_assoc, ← hhalf]; ring
      _ ≤ 2 * (r * one * one + half * e) := by gcongr; exact hle.trans (by gcongr)
      _ = 2 * (r * one * one) + 2 * half * e := by ring
      _ = (2 * (r * one) + h * e) * one := by rw [hhalf]; ring

/-- **A percentage is on the right side of each half** that the exact one does not lie on. -/
theorem percentOfHalf_bounds (hradius : radius.units = r * oneUnits) (hr : r ≤ 50) (hh : 0 < h)
    (hlt : h < 2 ^ 32) (m : Nat) :
    (m * h < 400 * r → m * oneUnits ≤ 2 * (percentOfHalf radius h).units) ∧
    (400 * r < m * h → 2 * (percentOfHalf radius h).units < m * oneUnits) := by
  obtain ⟨e, he, hone, hgrid⟩ := exists_grain
  have hgrid0 : ∀ q, q < e * 2 ^ 53 → step q ∣ e := fun q hq => by
    simpa using hgrid 0 q (by simpa using hq)
  obtain ⟨hlow, hhigh⟩ := div_half_bounds he hone hgrid0 hradius hr hh
    (Nat.lt_trans hlt (by decide))
  rw [percentOfHalf, mul, units_ofNat (by decide)]
  generalize (radius.div (ofQuotient h 2)).units = d at hlow hhigh ⊢
  have hpos := oneUnits_pos
  clear hradius
  generalize oneUnits = one at *
  subst hone
  have hcomm : d * (100 * (e * 2 ^ 46)) = e * 2 ^ 46 * (100 * d) := by ring
  have hdle : d ≤ e * (100 * 2 ^ 46 + 1) := by
    refine Nat.le_of_mul_le_mul_right (c := h) (hhigh.trans ?_) hh
    calc 2 * (r * (e * 2 ^ 46)) + h * e = e * (2 ^ 46 * (2 * r) * 1 + h) := by ring
      _ ≤ e * (2 ^ 46 * 100 * h + h) := by gcongr <;> omega
      _ = e * (100 * 2 ^ 46 + 1) * h := by ring
  have hstep : step (e * 2 ^ 46 * (100 * d) / (e * 2 ^ 46)) ∣ e * 2 ^ 7 := by
    rw [Nat.mul_div_cancel_left _ hpos]
    refine hgrid 7 _ ?_
    calc 100 * d ≤ 100 * (e * (100 * 2 ^ 46 + 1)) := Nat.mul_le_mul_left _ hdle
      _ = e * (10000 * 2 ^ 46 + 100) := by ring
      _ < e * 2 ^ (7 + 53) := by gcongr; decide
  rw [hcomm]
  constructor
  · intro hm
    have hexact : m * 2 ^ 38 * (e * 2 ^ 7) ≤ 100 * d := by
      refine Nat.le_of_mul_le_mul_right (c := h) ?_ hh
      have hpad : 100 * (h * e) ≤ e * 2 ^ 45 := by
        calc 100 * (h * e) = e * (100 * h) := by ring
          _ ≤ e * 2 ^ 45 := by gcongr; omega
      have hgap : m * 2 ^ 38 * (e * 2 ^ 7) * h + e * 2 ^ 45 ≤ 100 * (2 * (r * (e * 2 ^ 46))) := by
        calc m * 2 ^ 38 * (e * 2 ^ 7) * h + e * 2 ^ 45 = (m * h + 1) * (e * 2 ^ 45) := by ring
          _ ≤ 400 * r * (e * 2 ^ 45) := Nat.mul_le_mul_right _ hm
          _ = 100 * (2 * (r * (e * 2 ^ 46))) := by ring
      have hscaled : 100 * (2 * (r * (e * 2 ^ 46))) ≤ 100 * d * h + 100 * (h * e) := by
        calc 100 * (2 * (r * (e * 2 ^ 46))) ≤ 100 * (d * h + h * e) := Nat.mul_le_mul_left _ hlow
          _ = 100 * d * h + 100 * (h * e) := by ring
      omega
    have hle := le_round_of_dvd hpos (Dvd.dvd.mul_left hstep _) (Nat.mul_le_mul_left _ hexact)
    calc m * (e * 2 ^ 46) = 2 * (m * 2 ^ 38 * (e * 2 ^ 7)) := by ring
      _ ≤ _ := Nat.mul_le_mul_left 2 hle
  · intro hm
    have hexact : 100 * d ≤ (m * 2 ^ 38 - 2 ^ 5) * (e * 2 ^ 7) := by
      refine Nat.le_of_mul_le_mul_right (c := h) ?_ hh
      have hpad : 100 * (h * e) + 2 ^ 5 * (e * 2 ^ 7) * h ≤ e * 2 ^ 45 := by
        calc 100 * (h * e) + 2 ^ 5 * (e * 2 ^ 7) * h = e * (4196 * h) := by ring
          _ ≤ e * 2 ^ 45 := by gcongr; omega
      have hgap : 100 * (2 * (r * (e * 2 ^ 46))) + e * 2 ^ 45 ≤ m * 2 ^ 38 * (e * 2 ^ 7) * h := by
        calc 100 * (2 * (r * (e * 2 ^ 46))) + e * 2 ^ 45 = (400 * r + 1) * (e * 2 ^ 45) := by ring
          _ ≤ m * h * (e * 2 ^ 45) := Nat.mul_le_mul_right _ hm
          _ = m * 2 ^ 38 * (e * 2 ^ 7) * h := by ring
      have hscaled : 100 * d * h ≤ 100 * (2 * (r * (e * 2 ^ 46))) + 100 * (h * e) := by
        calc 100 * d * h = 100 * (d * h) := by ring
          _ ≤ 100 * (2 * (r * (e * 2 ^ 46)) + h * e) := Nat.mul_le_mul_left _ hhigh
          _ = 100 * (2 * (r * (e * 2 ^ 46))) + 100 * (h * e) := by ring
      rw [Nat.sub_mul, Nat.sub_mul]
      omega
    have hle := round_le_of_dvd hpos (Dvd.dvd.mul_left hstep _) (Nat.mul_le_mul_left _ hexact)
    have hm0 : 0 < m := by
      by_contra hzero
      obtain rfl : m = 0 := by omega
      omega
    calc 2 * _ ≤ 2 * ((m * 2 ^ 38 - 2 ^ 5) * (e * 2 ^ 7)) := Nat.mul_le_mul_left 2 hle
      _ < 2 * (m * 2 ^ 38 * (e * 2 ^ 7)) := by gcongr; omega
      _ = m * (e * 2 ^ 46) := by ring

/-- **A percentage is not above the exact one**, a half going up. -/
theorem nearest_percentOfHalf_le (hradius : radius.units = r * oneUnits) (hr : r ≤ 50) (hh : 0 < h)
    (hlt : h < 2 ^ 32) : (percentOfHalf radius h).nearest ≤ (400 * r + h) / (2 * h) := by
  obtain ⟨k, hk⟩ : ∃ k, k = (400 * r + h) / (2 * h) := ⟨_, rfl⟩
  have habove : 400 * r < (2 * k + 1) * h := by
    have hmod := Nat.lt_div_mul_add (a := 400 * r + h) (Nat.mul_pos Nat.two_pos hh)
    rw [← hk] at hmod
    have hexpand : (2 * k + 1) * h = k * (2 * h) + h := by ring
    omega
  have hbound := (percentOfHalf_bounds hradius hr hh hlt (2 * k + 1)).2 habove
  rw [← hk]
  refine Nat.le_of_lt_succ (nearest_lt_iff.2 ?_)
  have hexpand : 2 * (k + 1) * oneUnits = (2 * k + 1) * oneUnits + oneUnits := by ring
  rw [Nat.succ_eq_add_one, hexpand]
  exact Nat.add_lt_add_right hbound _

/-- **A percentage is not below the exact one** unless that lies on a half. -/
theorem le_nearest_percentOfHalf (hradius : radius.units = r * oneUnits) (hr : r ≤ 50) (hh : 0 < h)
    (hlt : h < 2 ^ 32) {k : Nat} (hk : 2 * k * h < 400 * r + h) :
    k ≤ (percentOfHalf radius h).nearest := by
  cases k with
  | zero => exact Nat.zero_le _
  | succ k =>
    have hexpand : 2 * (k + 1) * h = (2 * k + 1) * h + h := by ring
    have hbound := (percentOfHalf_bounds hradius hr hh hlt (2 * k + 1)).1 (by omega)
    refine le_nearest_iff.2 ?_
    calc 2 * (k + 1) * oneUnits = (2 * k + 1) * oneUnits + oneUnits := by ring
      _ ≤ _ := Nat.add_le_add_right hbound _

/-- **On a half** a percentage goes up: of the radii of the styles, only a few heights have one. -/
theorem le_nearest_of_half (hradius : radius.units = r * oneUnits) (hr : r ∈ [0, 8, 50])
    (hh : 0 < h) {k : Nat} (hk : k ≤ 50) (hhalf : 2 * k * h = 400 * r + h) :
    k ≤ (percentOfHalf radius h).nearest := by
  have hvalue : radius = ⟨r * oneUnits⟩ := by rw [← hradius]
  subst hvalue
  have hodd : (2 * k - 1) * h = 400 * r := by
    rw [Nat.sub_mul, Nat.one_mul, hhalf, Nat.add_sub_cancel]
  simp only [List.mem_cons, List.not_mem_nil, or_false] at hr
  rcases hr with rfl | rfl | rfl
  · rcases Nat.mul_eq_zero.1 hodd with hzero | hzero
    · omega
    · omega
  · have hcases : k = 1 ∧ h = 3200 ∨ k = 3 ∧ h = 640 ∨ k = 13 ∧ h = 128 := by
      interval_cases k <;> omega
    rcases hcases with ⟨rfl, rfl⟩ | ⟨rfl, rfl⟩ | ⟨rfl, rfl⟩ <;> decide +kernel
  · have hcases : k = 1 ∧ h = 20000 ∨ k = 3 ∧ h = 4000 ∨ k = 13 ∧ h = 800 := by
      interval_cases k <;> omega
    rcases hcases with ⟨rfl, rfl⟩ | ⟨rfl, rfl⟩ | ⟨rfl, rfl⟩ <;> decide +kernel

end Percent

end MailBlocks.Number.Binary64
