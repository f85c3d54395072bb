import Mathlib.Algebra.Group.Nat.Defs
import Mathlib.Data.List.TakeWhile
import MailBlocks.Attribute.Scalar
import MailBlocks.Proofs.StyleText
import MailBlocks.Proofs.TagReader

/-!
# Written numbers

A number of 32 bits is written in decimal, with a percent sign behind it or not, and is read as the
same number. The reading goes through binary floating point, which keeps 53 bits.

* `Binary64.units_ofNat`: numbers of 53 bits are kept as they are.
* `Numeral.ofChars?_decimalChars`: the digits of a number are a numeral.
* `number?_decimal`, `number?_percent`: written numbers are read back.
-/

namespace MailBlocks

open MergeField Text

namespace Number

/-- 53 bits of a number are kept, so the last `k` digits are kept if they are zeros. -/
theorem Binary64.step_dvd {n : Nat} (hn : n < 2 ^ 53) (k : Nat) :
    Binary64.step (n * Nat.pow 2 k) ∣ n * Nat.pow 2 k := by
  change Binary64.step (n * 2 ^ k) ∣ n * 2 ^ k
  have hlog : (n * 2 ^ k).log2 ≤ 52 + k := by
    by_cases hz : n * 2 ^ k = 0
    · rw [hz, Nat.log2_zero]
      exact Nat.zero_le _
    · refine Nat.le_of_lt_succ ((Nat.log2_lt hz).2 ?_)
      calc n * 2 ^ k < 2 ^ 53 * 2 ^ k := Nat.mul_lt_mul_of_pos_right hn (Nat.two_pow_pos k)
        _ = 2 ^ (52 + k + 1) := by rw [← Nat.pow_add, Nat.add_right_comm]
  have hle : (n * 2 ^ k).log2 - 52 ≤ k := by omega
  exact Nat.dvd_trans (Nat.pow_dvd_pow 2 hle) (Nat.dvd_mul_left _ n)

theorem Binary64.oneUnits_eq : ∃ k, Binary64.oneUnits = Nat.pow 2 k :=
  Exists.intro _ (by delta Binary64.oneUnits; exact Eq.refl _)

theorem Binary64.oneUnits_pos : 0 < Binary64.oneUnits := by
  obtain ⟨k, hk⟩ := Binary64.oneUnits_eq
  rw [hk]
  exact Nat.two_pow_pos k

/-- A number of at most 53 bits is a magnitude. -/
theorem Binary64.units_ofNat {n : Nat} (hn : n < 2 ^ 53) :
    (Binary64.ofNat n).units = n * Binary64.oneUnits := by
  obtain ⟨q, hq⟩ : Binary64.step (n * Binary64.oneUnits) ∣ n * Binary64.oneUnits := by
    obtain ⟨k, hk⟩ := Binary64.oneUnits_eq
    rw [hk]
    exact Binary64.step_dvd hn k
  have hround := Binary64.round_of_dvd (a := n * Binary64.oneUnits) (q := q) Nat.one_pos
    (by rwa [Nat.one_mul, Nat.div_one])
  rwa [Nat.mul_one] at hround

theorem decimalChars_ne_nil (n : Nat) : decimalChars n ≠ [] := Nat.toDigits_ne_nil

theorem lowerChars_decimalChars (n : Nat) : lowerChars (decimalChars n) = decimalChars n := by
  have hlower : ∀ c ∈ decimalChars n, c.toLower = c := by
    intro c hc
    refine (Markup.toLower_cases c).resolve_right ?_
    rintro ⟨hu, -⟩
    have hd := Char.isDigit_iff_toNat.1 (isDigit_of_mem_decimalChars hc)
    have h57 : c.toNat ≤ 57 := hd.2
    have h65 := (isUpper_iff.1 hu).1
    omega
  rw [lowerChars, List.map_congr_left hlower, List.map_id']

/-- The digits of a number are a numeral without sign, point and exponent. -/
theorem Numeral.ofChars?_decimalChars (n : Nat) :
    Numeral.ofChars? (decimalChars n) = some (.finite false n 0) := by
  have hmem : ∀ {c}, c ∈ decimalChars n → c.isDigit := isDigit_of_mem_decimalChars
  have hsign : Numeral.sign (decimalChars n) = (false, decimalChars n) := by
    unfold Numeral.sign
    split
    · next h => exact absurd (hmem (h ▸ List.mem_cons_self)) (by decide)
    · next h => exact absurd (hmem (h ▸ List.mem_cons_self)) (by decide)
    · rfl
  have hunsigned : Numeral.unsigned? false (decimalChars n) = some (.finite false n 0) := by
    have htake : (decimalChars n).takeWhile Char.isDigit = decimalChars n :=
      List.takeWhile_eq_self_iff.2 fun _ => hmem
    have hdrop : (decimalChars n).dropWhile Char.isDigit = [] :=
      List.dropWhile_eq_nil_iff.2 fun _ => hmem
    simp [Numeral.unsigned?, htake, hdrop, decimalChars_ne_nil, ofDigits_decimalChars]
  -- the words for infinity and for no number begin with letters
  have hword : ∀ {w : String}, String.ofList (lowerChars (decimalChars n)) = w →
      ∀ {c}, w.toList.head? = some c → c.isDigit := by
    intro w hw c hc
    rw [← hw, String.toList_ofList, lowerChars_decimalChars] at hc
    exact hmem (List.mem_of_head? hc)
  unfold Numeral.ofChars?
  rw [hsign]
  dsimp only
  split
  · next h => exact absurd (hword h rfl) (by decide)
  · next h => exact absurd (hword h rfl) (by decide)
  · next h => exact absurd (hword h rfl) (by decide)
  · exact hunsigned

/-- A numeral without exponent has the magnitude of its number. -/
theorem Numeral.signedMagnitude?_finite {n : Nat} (hn : n < 2 ^ 53) :
    ∃ x, (Numeral.finite false n 0).signedMagnitude? = some (false, x) ∧
      x.units = n * Binary64.oneUnits := by
  refine ⟨_, rfl, ?_⟩
  unfold Binary64.ofDecimal
  split
  · next h => rw [h, Nat.zero_mul]
  · rw [if_neg (by decide), if_neg (by omega), if_pos (by decide)]
    have hpow : n * Nat.pow 10 (Int.toNat 0) = n := Nat.mul_one n
    rw [hpow, Binary64.units_ofNat hn]

end Number

open Number

/-- Digits are read as their number, with a percent sign behind them or without. -/
theorem number?_of_chars {s : String} {n : UInt32} {unit : List Char}
    (hu : unit = [] ∨ unit = ['%']) (hs : s.toList = decimalChars n.toNat ++ unit) :
    number? s = some n := by
  have hmem : ∀ c ∈ decimalChars n.toNat, ¬ isBlank c ∧ c ≠ 'x' ∧ c ≠ '%' := by
    intro c hc
    have hd := isDigit_of_mem_decimalChars hc
    refine ⟨not_isBlank_of_isNameChar (isNameChar_iff.2 (.inr (.inr (.inl hd)))), ?_, ?_⟩
    · rintro rfl
      exact absurd hd (by decide)
    · rintro rfl
      exact absurd hd (by decide)
  have htrim : trimBlank (decimalChars n.toNat) = decimalChars n.toNat :=
    Markup.trimBlank_of_forall fun c hc => (hmem c hc).1
  have htrim' : trimBlank s.toList = decimalChars n.toNat ++ unit := by
    rw [hs]
    refine Markup.trimBlank_of_forall fun c hc => ?_
    rcases List.mem_append.1 hc with hc | hc
    · exact (hmem c hc).1
    · rcases hu with rfl | rfl
      · simp at hc
      · obtain rfl := List.mem_singleton.1 hc
        decide
  -- what is left when the unit is dropped
  have hbody : ((dropTail "px".toList (decimalChars n.toNat ++ unit)).or
      (dropTail "%".toList (decimalChars n.toNat ++ unit))).getD (decimalChars n.toNat ++ unit) =
      decimalChars n.toNat := by
    have hpx : dropTail "px".toList (decimalChars n.toNat ++ unit) = none := by
      refine Option.eq_none_iff_forall_ne_some.2 fun r hr => ?_
      have hx : 'x' ∈ decimalChars n.toNat ++ unit := by
        rw [dropTail_eq_some_iff.1 hr]
        simp
      rcases List.mem_append.1 hx with hx | hx
      · exact (hmem _ hx).2.1 rfl
      · rcases hu with rfl | rfl <;> simp at hx
    rw [hpx, Option.none_or]
    rcases hu with rfl | rfl
    · have hnone : dropTail "%".toList (decimalChars n.toNat ++ []) = none := by
        refine Option.eq_none_iff_forall_ne_some.2 fun r hr => ?_
        refine (hmem '%' ?_).2.2 rfl
        rw [← List.append_nil (decimalChars n.toNat), dropTail_eq_some_iff.1 hr]
        simp
      rw [hnone, Option.getD_none, List.append_nil]
    · have hsome : dropTail "%".toList (decimalChars n.toNat ++ ['%']) =
          some (decimalChars n.toNat) := dropTail_eq_some_iff.2 rfl
      rw [hsome, Option.getD_some]
  have hlt : n.toNat < 2 ^ 53 := Nat.lt_trans n.toNat_lt (by decide)
  obtain ⟨x, hx, hunits⟩ := Numeral.signedMagnitude?_finite hlt
  have hle : ¬ 0xFFFFFFFF * Binary64.oneUnits < x.units := by
    rw [hunits, Nat.not_lt]
    exact Nat.mul_le_mul_right _ (Nat.le_of_lt_succ n.toNat_lt)
  have hfloor : x.floor = n.toNat := by
    rw [Binary64.floor, hunits, Nat.mul_div_cancel _ Binary64.oneUnits_pos]
  unfold number?
  simp only [htrim', hbody, htrim, Numeral.ofChars?_decimalChars, Option.bind_some, hx, hfloor,
    decide_eq_false hle]
  simp

theorem number?_decimal (n : UInt32) : number? (Scalar.decimal n) = some n :=
  number?_of_chars (.inl rfl) (by
    rw [Scalar.decimal, Number.decimal, String.toList_ofList, List.append_nil])

theorem number?_percent (n : UInt32) : number? (Scalar.decimal n ++ "%") = some n :=
  number?_of_chars (.inr rfl) (by
    simp [Scalar.decimal, Number.decimal, String.toList_append])

end MailBlocks
