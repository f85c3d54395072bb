import MailBlocks.Proofs.BracketedText
import MailBlocks.Proofs.SpelledLexemes

/-!
# Indented text read back

What the indented form of a value writes is read back as the value with its members in ascending
key order. Numbers have to be whole and of 64 bits, and no more brackets may be open at a time than
a reader allows.

* `Value.Readable`: such values.
* `number_decimalChars`: a number is read up to the end of its digits.
* `readsAs_pretty`: the indented form is read back at any level of indentation.
* `parse_pretty`: as a whole text.
-/

namespace MailBlocks.Json

/-! ## Numbers -/

/-- A number other than zero does not begin with a zero. -/
theorem head?_decimalChars {n : Nat} (h : 0 < n) : (Number.decimalChars n).head? ≠ some '0' := by
  unfold Number.decimalChars
  induction n using Nat.strongRecOn with
  | ind n ih =>
    by_cases hn : n < 10
    · rw [Nat.toDigits_of_lt_base hn, List.head?_cons]
      intro hzero
      have hdigit := Nat.digitChar_eq_zero.1 (Option.some.inj hzero)
      omega
    · obtain ⟨c, t, hc⟩ := List.exists_cons_of_ne_nil (l := Nat.toDigits 10 (n / 10))
        Nat.toDigits_ne_nil
      have hfront := ih (n / 10) (by omega) (by omega)
      rw [Nat.toDigits_of_base_le (by decide) (by omega)]
      rw [hc] at hfront ⊢
      exact hfront

/-- Of the digits of a number, only a single one can be a zero in front. -/
theorem tail_of_decimalChars_zero {n : Nat} {t : List Char}
    (h : Number.decimalChars n = '0' :: t) : t = [] := by
  rcases Nat.eq_zero_or_pos n with rfl | hn
  · exact ((List.cons.inj h).2).symm
  · have hhead := head?_decimalChars hn
    rw [h] at hhead
    exact absurd rfl hhead

/-- What ends a value does not go on a number. -/
theorem EndsValue.endsNumber {r : List Char} (h : EndsValue r) : EndsNumber r := by
  intro c s hr
  rcases h c s hr with rfl | rfl | rfl | hspace
  · decide
  · decide
  · decide
  · simp only [isSpace, Bool.or_eq_true, decide_eq_true_eq] at hspace
    rcases hspace with ((rfl | rfl) | rfl) | rfl <;> decide

theorem isWhole_decimalChars (n : Nat) : IsWhole (Number.decimalChars n) := by
  refine ⟨⟨Nat.toDigits_ne_nil, fun _ => Number.isDigit_of_mem_decimalChars⟩, fun hzero => ?_⟩
  obtain ⟨t, ht⟩ := List.head?_eq_some_iff.1 hzero
  rw [ht, tail_of_decimalChars_zero ht]

/-- **A number is read up to the end of its digits.** -/
theorem number_decimalChars (negative : Bool) {n : Nat} (hn : n ≤ maxNatural) {r : List Char}
    (hr : EndsNumber r) :
    number negative (Number.decimalChars n ++ r) = .ok (wholeNumber negative n, r) := by
  have hvalue : accumulate maxNatural 0 (Number.decimalChars n) = (n, []) := by
    have hof : Nat.ofDigitChars 10 (Number.decimalChars n) 0 = n := Number.ofDigits_decimalChars n
    rw [accumulate_of_le (by rwa [hof]), hof]
  rw [number_append (isWhole_decimalChars n) hr.endsDigits, hvalue]
  exact afterWhole_nil fun c s hs => (hr c s hs).2

/-! ## Values without brackets -/

variable {levels : Nat}

theorem value_of_null {s t : List Char} (h : skipSpace s = "null".toList ++ t) :
    value levels s = .ok (.null, t) := by
  unfold value
  rw [h]
  cases levels <;> rfl

theorem value_of_true {s t : List Char} (h : skipSpace s = "true".toList ++ t) :
    value levels s = .ok (.bool true, t) := by
  unfold value
  rw [h]
  cases levels <;> rfl

theorem value_of_false {s t : List Char} (h : skipSpace s = "false".toList ++ t) :
    value levels s = .ok (.bool false, t) := by
  unfold value
  rw [h]
  cases levels <;> rfl

theorem value_of_minus {s t : List Char} (h : skipSpace s = '-' :: t) :
    value levels s = (number true t).map fun (n, r) => (.number n, r) := by
  unfold value
  rw [h]
  cases levels <;> rfl

theorem value_of_digit {c : Char} (hc : c.isDigit) {s t : List Char} (h : skipSpace s = c :: t) :
    value levels s = (number false (c :: t)).map fun (n, r) => (.number n, r) := by
  unfold value
  rw [h]
  -- no other character that a value can begin with is a digit
  split <;> simp_all

theorem wholeNumber_natAbs {n : Int} (hlow : -(maxNegative : Int) ≤ n) :
    wholeNumber (decide (n < 0)) n.natAbs = .int n := by
  by_cases hn : n < 0
  · have habs : 0 < n.natAbs ∧ n.natAbs ≤ maxNegative := by omega
    have hneg : -(n.natAbs : Int) = n := by omega
    rw [wholeNumber, decide_eq_true hn, if_neg (by decide), if_pos habs, hneg]
  · have hself : (n.natAbs : Int) = n := by omega
    rw [wholeNumber, decide_eq_false hn, if_pos (by decide), hself]

/-- The decimal form of a whole number is a spelling of it. -/
theorem denotesNumber_int {n : Int} (hlow : -(maxNegative : Int) ≤ n) (hhigh : n ≤ maxNatural) :
    DenotesNumber (Number.decimalIntChars n) (.int n) := by
  have hbound : n.natAbs ≤ maxNatural := by
    have hle : maxNegative ≤ maxNatural := by decide
    omega
  have hread : ∀ negative,
      number negative (Number.decimalChars n.natAbs) = .ok (wholeNumber negative n.natAbs, []) := by
    intro negative
    have hnumber := number_decimalChars negative hbound (r := []) nofun
    rwa [List.append_nil] at hnumber
  have hwhole := wholeNumber_natAbs hlow
  have hnumeral : IsNumeral (Number.decimalChars n.natAbs) :=
    ⟨_, [], isWhole_decimalChars n.natAbs, .inl (.inl rfl), (List.append_nil _).symm⟩
  unfold Number.decimalIntChars
  split
  case isTrue hn =>
    rw [decide_eq_true hn] at hwhole
    exact .negative hnumeral (by rw [hread, hwhole])
  case isFalse hn =>
    rw [decide_eq_false hn] at hwhole
    exact .positive hnumeral (by rw [hread, hwhole])

/-- A digit is no blank and no bracket. -/
theorem not_isSpace_of_isDigit {c : Char} (h : c.isDigit) : ¬ isSpace c ∧ c ≠ ']' := by
  constructor
  · intro hspace
    simp only [isSpace, Bool.or_eq_true, decide_eq_true_eq] at hspace
    rcases hspace with ((rfl | rfl) | rfl) | rfl <;> exact absurd h (by decide)
  · rintro rfl
    exact absurd h (by decide)

/-- A spelled number is read up to its end. -/
theorem readsAs_number {s : List Char} {n : Number} (h : DenotesNumber s n) :
    ReadsAs (value levels) s (.number n) := by
  cases h with
  | positive h hread =>
    obtain ⟨c, t, rfl, hc⟩ := h.exists_cons
    refine ⟨⟨c, t, rfl, not_isSpace_of_isDigit hc⟩, fun s r hs hr => ?_⟩
    have hnumber := number_append_of_read hread hr.endsNumber
    rw [List.cons_append] at hs hnumber
    rw [value_of_digit hc hs, hnumber]
    rfl
  | @negative t _ _ hread =>
    refine ⟨⟨'-', t, rfl, by decide, by decide⟩, fun s r hs hr => ?_⟩
    rw [List.cons_append] at hs
    rw [value_of_minus hs, number_append_of_read hread hr.endsNumber]
    rfl

/-- A whole number is read as itself. -/
theorem readsAs_int {n : Int} (hlow : -(maxNegative : Int) ≤ n) (hhigh : n ≤ maxNatural) :
    ReadsAs (value levels) (Number.decimalIntChars n) (.number (.int n)) :=
  readsAs_number (denotesNumber_int hlow hhigh)

/-! ## Values with brackets -/

/-- **Values that are read back** by a reader of so many levels of brackets. -/
inductive Value.Readable : Nat → Value → Prop where
  | null {levels : Nat} : Readable levels .null
  | bool {levels : Nat} (b : Bool) : Readable levels (.bool b)
  | int {levels : Nat} {n : Int} (hlow : -(maxNegative : Int) ≤ n) (hhigh : n ≤ maxNatural) :
      Readable levels (.number (.int n))
  | string {levels : Nat} (x : String) : Readable levels (.string x)
  | array {levels : Nat} {items : List Value} (h : ∀ v ∈ items, Readable levels v) :
      Readable (levels + 1) (.array items)
  | object {levels : Nat} {members : List (String × Value)}
      (h : ∀ m ∈ members, Readable levels m.2) : Readable (levels + 1) (.object members)

theorem Value.sortedItems_eq_map (vs : List Value) : Value.sortedItems vs = vs.map Value.sorted := by
  induction vs with
  | nil => rfl
  | cons v vs ih => rw [Value.sortedItems, ih, List.map_cons]

theorem Value.sortedMembers_eq_map (ms : List (String × Value)) :
    Value.sortedMembers ms = ms.map fun m => (m.1, m.2.sorted) := by
  induction ms with
  | nil => rfl
  | cons m ms ih => rw [Value.sortedMembers, ih, List.map_cons]

theorem value_of_bracket {s t : List Char} (h : skipSpace s = '[' :: t) :
    value (levels + 1) s = (items (value levels) t).map fun (vs, r) => (.array vs, r) := by
  unfold value
  rw [h]
  rfl

theorem value_of_brace {s t : List Char} (h : skipSpace s = '\x7b' :: t) :
    value (levels + 1) s =
      (members (value levels) t).map fun (ms, r) => (.object (Keyed.ofList ms), r) := by
  unfold value
  rw [h]
  rfl

theorem blanks_space : Blanks [' '] := by
  intro c hc
  obtain rfl := List.mem_singleton.1 hc
  decide

theorem blanks_indentation (level : Nat) : Blanks (Value.indentation level) := by
  intro c hc
  rcases List.mem_cons.1 hc with rfl | hc
  · decide
  · obtain rfl := List.eq_of_mem_replicate hc
    decide

theorem prettyItems_cons (level : Nat) (v : Value) (vs : List Value) (close r : List Char) :
    Value.prettyItems level (v :: vs) ++ (close ++ ']' :: r) =
      Value.indentation level ++ (v.prettyChars level ++
        itemsTail (Value.prettyChars level) (Value.indentation level) close vs r) := by
  induction vs generalizing v with
  | nil => simp [Value.prettyItems, itemsTail]
  | cons w ws ih =>
    rw [itemsTail_cons, ← ih, Value.prettyItems]
    simp

theorem prettyMembers_cons (level : Nat) (m : String × Value) (ms : List (String × Value))
    (close r : List Char) :
    Value.prettyMembers level (m :: ms) ++ (close ++ '\x7d' :: r) =
      Value.indentation level ++ (memberForm (Value.prettyChars level) [' '] m ++
        membersTail (Value.prettyChars level) [' '] (Value.indentation level) close ms r) := by
  induction ms generalizing m with
  | nil => simp [Value.prettyMembers, membersTail, memberForm]
  | cons n ns ih =>
    rw [membersTail_cons, ← ih, Value.prettyMembers]
    simp [memberForm]

/-- **The indented form is read back**, at any level of indentation. -/
theorem readsAs_pretty {v : Value} (h : v.Readable levels) (level : Nat) :
    ReadsAs (value levels) (v.prettyChars level) v.sorted := by
  induction h generalizing level with
  | null => exact ⟨⟨'n', _, rfl, by decide, by decide⟩, fun s r hs _ => value_of_null hs⟩
  | bool b =>
    cases b with
    | true => exact ⟨⟨'t', _, rfl, by decide, by decide⟩, fun s r hs _ => value_of_true hs⟩
    | false => exact ⟨⟨'f', _, rfl, by decide, by decide⟩, fun s r hs _ => value_of_false hs⟩
  | int hlow hhigh => exact readsAs_int hlow hhigh
  | string x => exact readsAs_string _ x
  | @array l vs _ ih =>
    cases vs with
    | nil =>
      refine ⟨⟨'[', _, rfl, by decide, by decide⟩, fun s r hs _ => ?_⟩
      rw [value_of_bracket hs]
      rfl
    | cons v vs =>
      refine ⟨⟨'[', _, rfl, by decide, by decide⟩, fun s r hs _ => ?_⟩
      have hitems := items_flatMap (fun w hw => ih w hw (level + 1)) (blanks_indentation (level + 1))
        (blanks_indentation level) r
      rw [← prettyItems_cons] at hitems
      have hbracket : skipSpace s = '[' :: (Value.prettyItems (level + 1) (v :: vs) ++
          (Value.indentation level ++ ']' :: r)) := by
        rw [hs, Value.prettyChars]
        simp
      rw [value_of_bracket hbracket, hitems, Value.sorted, Value.sortedItems_eq_map]
      rfl
  | @object l ms _ ih =>
    cases ms with
    | nil =>
      refine ⟨⟨'\x7b', _, rfl, by decide, by decide⟩, fun s r hs _ => ?_⟩
      rw [value_of_brace hs]
      rfl
    | cons m ms =>
      refine ⟨⟨'\x7b', _, rfl, by decide, by decide⟩, fun s r hs _ => ?_⟩
      have hmembers := members_flatMap (fun x hx => ih x hx (level + 1))
        blanks_space (blanks_indentation (level + 1)) (blanks_indentation level) r
      rw [← prettyMembers_cons] at hmembers
      have hbrace : skipSpace s = '\x7b' :: (Value.prettyMembers (level + 1) (m :: ms) ++
          (Value.indentation level ++ '\x7d' :: r)) := by
        rw [hs, Value.prettyChars]
        simp
      rw [value_of_brace hbrace, hmembers, Value.sorted, Value.sortedMembers_eq_map]
      rfl

/-- **An indented text is read back** as its value with the members in ascending key order. -/
theorem parse_pretty {v : Value} (h : v.Readable maxLevels) : parse v.pretty = .ok v.sorted := by
  refine parse_iff_value.2 ⟨[], ?_, rfl⟩
  rw [Value.pretty, String.toList_ofList]
  exact (readsAs_pretty h 0).read_form

end MailBlocks.Json
