import Mathlib.Order.Compare
import MailBlocks.Version

/-!
# The order of versions

Two versions that change places are in the opposite order, so that one version is later than another
exactly when the other is earlier. The order is finer than that of precedence, for which build
metadata does not count.

* `compare_swap`: the order of exchanged versions.
* `precedence`, `precedence_eq_iff`: the versions of equal precedence.
* `compare_eq_precedence_then`: build metadata decides where precedence does not.
-/

namespace MailBlocks.Version

theorem compareIdentifiers_swap (a b : String) :
    (compareIdentifiers a b).swap = compareIdentifiers b a := by
  have hnumber (m n : Nat) : (Ord.compare m n).swap = Ord.compare n m := Nat.compare_swap m n
  have htext (s t : String) : (Ord.compare s t).swap = Ord.compare t s :=
    Std.OrientedCmp.eq_swap.symm
  unfold compareIdentifiers
  cases a.toList.all Char.isDigit <;> cases b.toList.all Char.isDigit <;>
    simp [Ordering.swap_then, hnumber, htext]

theorem compareLists_swap (as bs : List String) :
    (compareLists as bs).swap = compareLists bs as := by
  induction as generalizing bs with
  | nil => cases bs <;> rfl
  | cons a as ih =>
    cases bs with
    | nil => rfl
    | cons b bs => rw [compareLists, compareLists, Ordering.swap_then, compareIdentifiers_swap, ih]

theorem comparePre_swap (as bs : List String) : (comparePre as bs).swap = comparePre bs as := by
  cases as with
  | nil => cases bs <;> rfl
  | cons a as =>
    cases bs with
    | nil => rfl
    | cons b bs => exact compareLists_swap (a :: as) (b :: bs)

/-- **Exchanged versions are in the opposite order.** -/
theorem compare_swap (a b : Version) : (a.compare b).swap = b.compare a := by
  simp only [compare, Ordering.swap_then, Nat.compare_swap, comparePre_swap, compareLists_swap]

instance : Std.OrientedCmp compare where
  eq_swap := (compare_swap _ _).symm

/-! ## Precedence -/

/-- Digits of one length that make the same number, each behind a number read before, are the same,
and so are the numbers before. -/
theorem eq_of_ofDigitChars_eq {as bs : List Char} {m n : Nat} (ha : ∀ c ∈ as, c.isDigit)
    (hb : ∀ c ∈ bs, c.isDigit) (hlen : as.length = bs.length)
    (h : Nat.ofDigitChars 10 as m = Nat.ofDigitChars 10 bs n) : m = n ∧ as = bs := by
  induction as generalizing bs m n with
  | nil =>
    rw [List.length_nil, eq_comm, List.length_eq_zero_iff] at hlen
    subst hlen
    exact ⟨h, rfl⟩
  | cons c as ih =>
    obtain ⟨d, bs, rfl⟩ := List.exists_cons_of_length_eq_add_one hlen.symm
    obtain ⟨hc, ha⟩ := List.forall_mem_cons.1 ha
    obtain ⟨hd, hb⟩ := List.forall_mem_cons.1 hb
    rw [Nat.ofDigitChars_cons, Nat.ofDigitChars_cons] at h
    obtain ⟨hnum, rfl⟩ := ih ha hb (Nat.succ.inj hlen) h
    -- the last digits are below ten, so that they and the numbers before them are the same
    have hc' : 48 ≤ c.toNat ∧ c.toNat ≤ 57 := Char.isDigit_iff_toNat.1 hc
    have hd' : 48 ≤ d.toNat ∧ d.toNat ≤ 57 := Char.isDigit_iff_toNat.1 hd
    have hzero : '0'.toNat = 48 := rfl
    rw [hzero] at hnum
    have hcd : c = d := Char.toNat_inj.1 (by omega)
    exact ⟨by omega, by rw [hcd]⟩

theorem compareIdentifiers_eq_iff {a b : String} : compareIdentifiers a b = .eq ↔ a = b := by
  constructor
  · intro h
    unfold compareIdentifiers at h
    split at h
    · next ha hb =>
      rw [Ordering.then_eq_eq, Nat.compare_eq_eq, Nat.compare_eq_eq] at h
      have hchars := eq_of_ofDigitChars_eq (List.all_eq_true.1 ha) (List.all_eq_true.1 hb) h.2 h.1
      exact String.toList_inj.1 hchars.2
    · cases h
    · cases h
    · exact Std.compare_eq_iff_eq.1 h
  · rintro rfl
    unfold compareIdentifiers
    cases a.toList.all Char.isDigit <;> simp

theorem compareLists_eq_iff {as bs : List String} : compareLists as bs = .eq ↔ as = bs := by
  induction as generalizing bs with
  | nil => cases bs <;> simp [compareLists]
  | cons a as ih =>
    cases bs with
    | nil => simp [compareLists]
    | cons b bs =>
      rw [compareLists, Ordering.then_eq_eq, compareIdentifiers_eq_iff, ih, List.cons.injEq]

theorem comparePre_eq_iff {as bs : List String} : comparePre as bs = .eq ↔ as = bs := by
  cases as with
  | nil => cases bs <;> simp [comparePre]
  | cons a as =>
    cases bs with
    | nil => simp [comparePre]
    | cons b bs => exact compareLists_eq_iff

/-- **The order of precedence**, for which build metadata does not count. -/
def precedence (a b : Version) : Ordering :=
  (Ord.compare a.major b.major).then <| (Ord.compare a.minor b.minor).then <|
    (Ord.compare a.patch b.patch).then (comparePre a.pre b.pre)

/-- Build metadata decides where precedence does not. -/
theorem compare_eq_precedence_then (a b : Version) :
    a.compare b = (a.precedence b).then (compareLists a.build b.build) := by
  simp only [compare, precedence, Ordering.then_assoc]

/-- **Versions of equal precedence** have the same three numbers and the same pre-release. -/
theorem precedence_eq_iff {a b : Version} :
    a.precedence b = .eq ↔
      a.major = b.major ∧ a.minor = b.minor ∧ a.patch = b.patch ∧ a.pre = b.pre := by
  simp only [precedence, Ordering.then_eq_eq, Nat.compare_eq_eq, comparePre_eq_iff]

theorem precedence_congr {a b : Version} (h : a.precedence b = .eq) (c : Version) :
    a.precedence c = b.precedence c := by
  obtain ⟨hmajor, hminor, hpatch, hpre⟩ := precedence_eq_iff.1 h
  rw [precedence, precedence, hmajor, hminor, hpatch, hpre]

end MailBlocks.Version
