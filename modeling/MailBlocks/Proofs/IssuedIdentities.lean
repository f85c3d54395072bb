import Mathlib.Order.Bounds.Basic
import Mathlib.Order.Monotone.Basic
import MailBlocks.Proofs.BlockIdentities

/-!
# Issued identities

The clock that issues identities may stand still, go back and read times before the epoch. Each
identity is the smallest one that is neither below the reading nor issued before, so identities grow
along every history.

* `IdClock.next_isLeast`: what one reading gives.
* `IdClock.draw_lt_draw`: identities grow.
* `IdClock.last_before_le`: how far identities run ahead of the readings.
* `IdClock.issued_increasing`: identities as the texts that are issued.
-/

namespace MailBlocks

namespace IdClock

/-! ## One reading -/

/-- **The next identity** is the smallest that is at least the reading and above the last one. -/
theorem next_isLeast (c : IdClock) (now : Int) :
    IsLeast {n | now ≤ n ∧ c.last < n} (c.next now).1 := by
  refine ⟨⟨le_max_left _ _, c.last_lt_next now⟩, ?_⟩
  rintro n ⟨hnow, hlast⟩
  exact max_le hnow hlast

theorem last_next (c : IdClock) (now : Int) : (c.next now).2.last = (c.next now).1 := rfl

/-! ## Many readings -/

/-- The clock before its `k`-th reading, counted from 0. -/
def before (c : IdClock) (now : Nat → Int) : Nat → IdClock
  | 0 => c
  | k + 1 => (c.draw now k).2

variable (c : IdClock) (now : Nat → Int)

theorem draw_eq_next (k : Nat) : c.draw now k = (c.before now k).next (now k) := by
  cases k <;> rfl

theorem last_before_succ (k : Nat) : (c.before now (k + 1)).last = (c.draw now k).1 := by
  rw [before, draw_eq_next, last_next]

theorem draw_isLeast (k : Nat) :
    IsLeast {n | now k ≤ n ∧ (c.before now k).last < n} (c.draw now k).1 := by
  rw [draw_eq_next]
  exact next_isLeast _ _

theorem draw_lt_draw_succ (k : Nat) : (c.draw now k).1 < (c.draw now (k + 1)).1 := by
  have hlast := (c.draw_isLeast now (k + 1)).1.2
  rwa [last_before_succ] at hlast

/-- **Identities grow**, whatever the clock reads. -/
theorem draw_lt_draw {j k : Nat} (h : j < k) : (c.draw now j).1 < (c.draw now k).1 :=
  strictMono_nat_of_lt_succ (c.draw_lt_draw_succ now) h

theorem last_lt_draw (k : Nat) : c.last < (c.draw now k).1 := by
  have hfirst : c.last < (c.draw now 0).1 := c.last_lt_next (now 0)
  rcases Nat.eq_zero_or_pos k with rfl | hk
  · exact hfirst
  · exact hfirst.trans (c.draw_lt_draw now hk)

/-- **Identities run ahead of the readings** by one for each identity at most. -/
theorem last_before_le {bound : Int} (hc : c.last ≤ bound) {k : Nat}
    (hnow : ∀ j < k, now j ≤ bound) : (c.before now k).last ≤ bound + k := by
  induction k with
  | zero => simpa [before] using hc
  | succ k ih =>
    have hlast := ih fun j hj => hnow j (Nat.lt_succ_of_lt hj)
    have hread := hnow k (Nat.lt_succ_self k)
    rw [last_before_succ]
    refine (c.draw_isLeast now k).2 ⟨?_, ?_⟩ <;> push_cast <;> omega

theorem le_last_before (k : Nat) : c.last ≤ (c.before now k).last := by
  cases k with
  | zero => exact le_rfl
  | succ k =>
    rw [last_before_succ]
    exact (c.last_lt_draw now k).le

/-! ## Issued texts -/

/-- The integer that an identity spells. -/
def spelled (id : String) : Int :=
  Number.ofIntDigits id.toList

theorem spelled_decimalInt (n : Int) : spelled (Number.decimalInt n) = n := by
  rw [spelled, Number.decimalInt, String.toList_ofList, Number.ofIntDigits_decimalIntChars]

theorem decimalInt_injective : Function.Injective Number.decimalInt :=
  Function.LeftInverse.injective spelled_decimalInt

/-- The identity that is issued at the `k`-th reading, as a text. -/
def issued (k : Nat) : String :=
  Number.decimalInt (c.draw now k).1

theorem spelled_issued (k : Nat) : spelled (c.issued now k) = (c.draw now k).1 :=
  spelled_decimalInt _

/-- The readings of a clock whose calendar goes from the first day of the year -262143 to the last
day of the year 262142, in milliseconds from the epoch. -/
def InCalendar (now : Int) : Prop :=
  -8334601228800000 ≤ now ∧ now ≤ 8210266876799999

/-- A signed number of 64 bits. -/
def FitsWord (n : Int) : Prop :=
  -0x8000000000000000 ≤ n ∧ n < 0x8000000000000000

/-- **Identities are issued in growing order**, for every sequence of readings, also of a clock that
stands still, goes back or is before the epoch. They spell positive integers, of which each is the
smallest that is at least its reading and above the one before, the first of them above zero, and no
two identities are the same text. The candidate above the last identity fits 64 bits with a sign for
as many as `2 ^ 62` identities, as long as the readings are in the calendar. -/
theorem issued_increasing (now : Nat → Int) :
    (∀ j k, j < k → spelled (new.issued now j) < spelled (new.issued now k)) ∧
    (∀ k, 0 < spelled (new.issued now k)) ∧
    IsLeast {n | now 0 ≤ n ∧ 0 < n} (spelled (new.issued now 0)) ∧
    (∀ k, IsLeast {n | now (k + 1) ≤ n ∧ spelled (new.issued now k) < n}
      (spelled (new.issued now (k + 1)))) ∧
    Function.Injective (new.issued now) ∧
    ∀ k < 0x4000000000000000, (∀ j < k, InCalendar (now j)) →
      FitsWord ((new.before now k).last + 1) := by
  simp only [spelled_issued]
  refine ⟨fun j k => new.draw_lt_draw now, new.last_lt_draw now, new.draw_isLeast now 0,
    fun k => ?_, ?_, fun k hk hnow => ?_⟩
  · have hleast := new.draw_isLeast now (k + 1)
    rwa [last_before_succ] at hleast
  · exact decimalInt_injective.comp
      (strictMono_nat_of_lt_succ (new.draw_lt_draw_succ now)).injective
  · have hpositive := new.le_last_before now k
    have hle : (new.before now k).last ≤ 8210266876799999 + k :=
      new.last_before_le now (by decide) fun j hj => (hnow j hj).2
    have hnew : new.last = 0 := rfl
    constructor <;> omega

/-- A clock that stands still and goes back behind the epoch. -/
def unsteady : Nat → Int
  | 0 => 1700000000000
  | 1 => 1700000000000
  | _ => -5

theorem issued_increasing_unsteady :
    (∀ j < 3, InCalendar (unsteady j)) ∧ FitsWord ((new.before unsteady 3).last + 1) ∧
      [0, 1, 2].map (new.issued unsteady) = ["1700000000000", "1700000000001", "1700000000002"] := by
  have hread : ∀ j < 3, InCalendar (unsteady j) := by
    simp only [InCalendar]
    decide
  obtain ⟨-, -, -, -, -, hfits⟩ := issued_increasing unsteady
  exact ⟨hread, hfits 3 (by decide) hread, by decide⟩

end IdClock

end MailBlocks
