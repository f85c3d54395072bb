import Mathlib.Data.Bool.AllAny
import MailBlocks.Proofs.Addresses
import MailBlocks.Proofs.ConfinedStyles
import MailBlocks.Proofs.Recoveries
import MailBlocks.Proofs.Reports
import MailBlocks.Proofs.SpelledLexemes

/-!
# The lengths of dividers

The width and the thickness of a divider are written into its row as they are stored. The rule on
plain numbers lets a stored length pass if it is read as a number without a unit: digits, perhaps
with a point, a sign in front and an exponent behind. Such a text comes through the escapes of
attributes and style values unchanged.

* `IsNumeralText`, `PlainDigits`: what passes the rule, and what its message asks for.
* `isNumeralText_of_isPlainNumber`: the rule lets nothing else pass.
* `divider_lengths`: what is written of a divider on which the rule reports nothing.
-/

namespace MailBlocks

open Text Markup

/-! ## Texts of numbers -/

/-- **Plain digits**: nothing but digits and at most one point. -/
def PlainDigits (s : List Char) : Prop :=
  (∀ c ∈ s, c.isDigit ∨ c = '.') ∧ s.count '.' ≤ 1

instance (s : List Char) : Decidable (PlainDigits s) :=
  decidable_of_iff ((s.all fun c => c.isDigit ∨ c = '.') ∧ s.count '.' ≤ 1)
    (and_congr_left fun _ => List.all_iff_forall_prop)

/-- **The text of a number**: plain digits with a sign or none in front and an exponent or none
behind. -/
def IsNumeralText (s : List Char) : Prop :=
  ∃ sign digits exponent, s = sign ++ (digits ++ exponent) ∧ Json.IsSign sign ∧
    PlainDigits digits ∧ Json.IsExponent exponent

/-- The characters of such texts. -/
def numeralChars : List Char := "0123456789.+-eE".toList

namespace Number.Numeral

theorem exists_sign (s : List Char) : ∃ sign, Json.IsSign sign ∧ s = sign ++ (Numeral.sign s).2 := by
  unfold Numeral.sign
  split
  · exact ⟨['-'], .inr (.inr rfl), rfl⟩
  · exact ⟨['+'], .inr (.inl rfl), rfl⟩
  · exact ⟨[], .inl rfl, rfl⟩

theorem isScale_of_exponent? {s : List Char} {e : Int} (h : exponent? s = some e) :
    Json.IsScale s := by
  obtain ⟨sign, hsign, hs⟩ := exists_sign s
  unfold exponent? at h
  dsimp only at h
  split at h
  · cases h
  · next hdigits =>
    refine ⟨sign, (Numeral.sign s).2, hsign, ?_, hs⟩
    simpa [Json.IsDigits] using hdigits

theorem count_point_of_isDigit {s : List Char} (h : ∀ c ∈ s, c.isDigit) : s.count '.' = 0 :=
  List.count_eq_zero.2 fun hpoint => absurd (h '.' hpoint) (by decide)

theorem plainDigits_of_isDigit {s : List Char} (h : ∀ c ∈ s, c.isDigit) : PlainDigits s :=
  ⟨fun c hc => .inl (h c hc), by rw [count_point_of_isDigit h]; exact Nat.zero_le 1⟩

theorem plainDigits_point {whole part : List Char} (hwhole : ∀ c ∈ whole, c.isDigit)
    (hpart : ∀ c ∈ part, c.isDigit) : PlainDigits (whole ++ '.' :: part) := by
  constructor
  · intro c hc
    rcases List.mem_append.1 hc with hc | hc
    · exact .inl (hwhole c hc)
    · rcases List.mem_cons.1 hc with rfl | hc
      · exact .inr rfl
      · exact .inl (hpart c hc)
  · rw [List.count_append, List.count_cons_self, count_point_of_isDigit hwhole,
      count_point_of_isDigit hpart]

/-- What is read behind some digits, of which those in `part` stand behind the point: the end or an
exponent. -/
def ofScale? (negative : Bool) (digits : Nat) (part rest : List Char) : Option Numeral :=
  match rest with
  | [] => some (.finite negative digits (-part.length))
  | c :: r =>
    if c = 'e' || c = 'E' then
      (exponent? r).map fun e => .finite negative digits (e - part.length)
    else none

theorem isExponent_of_ofScale? {negative : Bool} {digits : Nat} {part rest : List Char}
    {n : Numeral} (h : ofScale? negative digits part rest = some n) : Json.IsExponent rest := by
  unfold ofScale? at h
  split at h
  · exact .inl rfl
  · next c r =>
    split at h
    · next hc =>
      obtain ⟨e, he, -⟩ := Option.map_eq_some_iff.1 h
      exact .inr ⟨c, r, by simpa using hc, isScale_of_exponent? he, rfl⟩
    · cases h

/-- What is read without a sign is plain digits with an exponent or none. -/
theorem exists_digits_of_unsigned? {negative : Bool} {s : List Char} {n : Numeral}
    (h : unsigned? negative s = some n) :
    ∃ digits exponent, s = digits ++ exponent ∧ PlainDigits digits ∧ Json.IsExponent exponent := by
  have hwhole : ∀ c ∈ s.takeWhile Char.isDigit, c.isDigit := fun _ hc => List.mem_takeWhile_imp hc
  have hs : s = s.takeWhile Char.isDigit ++ s.dropWhile Char.isDigit :=
    List.takeWhile_append_dropWhile.symm
  unfold unsigned? at h
  dsimp only at h
  split at h
  · next r hafter =>
    have hpart : ∀ c ∈ r.takeWhile Char.isDigit, c.isDigit := fun _ hc => List.mem_takeWhile_imp hc
    split at h
    · cases h
    · refine ⟨s.takeWhile Char.isDigit ++ '.' :: r.takeWhile Char.isDigit,
        r.dropWhile Char.isDigit, ?_, plainDigits_point hwhole hpart, isExponent_of_ofScale? h⟩
      rw [List.append_assoc, List.cons_append, List.takeWhile_append_dropWhile, ← hafter, ← hs]
  · split at h
    · cases h
    · exact ⟨_, _, hs, plainDigits_of_isDigit hwhole, isExponent_of_ofScale? h⟩

/-- What is read as a number is the text of one. -/
theorem isNumeralText_of_ofChars? {s : List Char} {negative : Bool} {digits : Nat} {exponent : Int}
    (h : ofChars? s = some (.finite negative digits exponent)) : IsNumeralText s := by
  obtain ⟨sign, hsign, hs⟩ := exists_sign s
  unfold ofChars? at h
  dsimp only at h
  split at h
  · cases h
  · cases h
  · cases h
  · obtain ⟨digits, exponent, hbody, hdigits, hexponent⟩ := exists_digits_of_unsigned? h
    exact ⟨sign, digits, exponent, by rw [← hbody, ← hs], hsign, hdigits, hexponent⟩

end Number.Numeral

/-- **The rule lets only texts of numbers pass.** -/
theorem isNumeralText_of_isPlainNumber {s : String} (h : Lint.isPlainNumber s) :
    IsNumeralText (trimBlank s.toList) := by
  unfold Lint.isPlainNumber at h
  simp only [Bool.and_eq_true, Option.isNone_iff_eq_none] at h
  obtain ⟨⟨hnumber, hpercent⟩, hpx⟩ := h
  obtain ⟨n, hn⟩ := Option.isSome_iff_exists.1 hnumber
  unfold number? at hn
  dsimp only at hn
  rw [hpercent, hpx, Option.or_none, Option.getD_none, trimBlank_trimBlank] at hn
  cases hread : Number.Numeral.ofChars? (trimBlank s.toList) with
  | none =>
    rw [hread] at hn
    cases hn
  | some numeral =>
    rw [hread] at hn
    cases numeral with
    | finite negative digits exponent => exact Number.Numeral.isNumeralText_of_ofChars? hread
    | infinite negative =>
      -- infinity is out of range
      have hlarge : 0xFFFFFFFF * Number.Binary64.oneUnits < Number.Binary64.infinity.units := by
        decide +kernel
      have hmagnitude : (some (Number.Numeral.infinite negative)).bind
          Number.Numeral.signedMagnitude? = some (negative, .infinity) := rfl
      rw [hmagnitude] at hn
      dsimp only at hn
      rw [if_pos (by simp [hlarge])] at hn
      cases hn
    | nan => cases hn

/-! ## Characters of numbers -/

theorem mem_numeralChars_of_isDigit {c : Char} (h : c.isDigit) : c ∈ numeralChars := by
  have hrange : 48 ≤ c.toNat ∧ c.toNat ≤ 57 := by
    simpa [Char.isDigit, UInt32.le_iff_toNat_le] using h
  have hdigits : ∀ k < 10, Char.ofNat (48 + k) ∈ numeralChars := by decide
  have hmem := hdigits (c.toNat - 48) (by omega)
  rwa [Nat.add_sub_cancel' hrange.1, Char.ofNat_toNat] at hmem

theorem mem_numeralChars_of_isSign {s : List Char} (h : Json.IsSign s) :
    ∀ c ∈ s, c ∈ numeralChars := by
  rcases h with rfl | rfl | rfl
  · nofun
  · exact List.forall_mem_singleton.2 (by decide)
  · exact List.forall_mem_singleton.2 (by decide)

/-- The text of a number has no other characters. -/
theorem IsNumeralText.mem_numeralChars {s : List Char} (h : IsNumeralText s) :
    ∀ c ∈ s, c ∈ numeralChars := by
  obtain ⟨sign, digits, exponent, rfl, hsign, ⟨hdigits, -⟩, hexponent⟩ := h
  refine List.forall_mem_append.2 ⟨mem_numeralChars_of_isSign hsign,
    List.forall_mem_append.2 ⟨fun c hc => ?_, ?_⟩⟩
  · rcases hdigits c hc with hdigit | rfl
    · exact mem_numeralChars_of_isDigit hdigit
    · decide
  · rcases hexponent with rfl | ⟨e, _, he, ⟨sign, digits, hsign, ⟨-, hdigits⟩, rfl⟩, rfl⟩
    · nofun
    · refine List.forall_mem_cons.2 ⟨?_, List.forall_mem_append.2
        ⟨mem_numeralChars_of_isSign hsign, fun c hc => mem_numeralChars_of_isDigit (hdigits c hc)⟩⟩
      rcases he with rfl | rfl <;> decide

/-- **The text of a number is plain digits** if and only if it has neither a sign nor an exponent. -/
theorem IsNumeralText.plainDigits_iff {s : List Char} (h : IsNumeralText s) :
    PlainDigits s ↔ ∀ c ∈ s, c ∉ ['+', '-', 'e', 'E'] := by
  obtain ⟨sign, digits, exponent, rfl, hsign, hdigits, hexponent⟩ := h
  constructor
  · rintro ⟨hchars, -⟩ c hc hother
    rcases hchars c hc with hdigit | rfl
    · have hnone : ∀ d ∈ ['+', '-', 'e', 'E'], ¬ d.isDigit :=
        List.all_iff_forall_prop.1 (by decide)
      exact hnone c hother hdigit
    · exact absurd hother (by decide)
  · intro hnone
    have hno : sign = [] := by
      rcases hsign with rfl | rfl | rfl
      · rfl
      · exact absurd (hnone '+' (by simp)) (by decide)
      · exact absurd (hnone '-' (by simp)) (by decide)
    have hend : exponent = [] := by
      rcases hexponent with rfl | ⟨e, scale, rfl | rfl, -, rfl⟩
      · rfl
      · exact absurd (hnone 'e' (by simp)) (by decide)
      · exact absurd (hnone 'E' (by simp)) (by decide)
    rw [hno, hend, List.nil_append, List.append_nil]
    exact hdigits

/-! ## Escapes -/

variable {s : List Char}

theorem mapPlain_eq_self {f : Char → List Char} (hf : ∀ c ∈ numeralChars, f c = [c])
    (h : ∀ c ∈ s, c ∈ numeralChars) : MergeField.mapPlain f s = s := by
  have hbrace : '\x7b' ∉ s := fun hc => absurd (h _ hc) (by decide)
  rw [MergeField.mapPlain_of_not_mem hbrace, MergeField.flatMap_eq_self fun c hc => hf c (h c hc)]

/-- The text of a number is written into attributes as it is. -/
theorem attributeValue_eq_self {s : String} (h : ∀ c ∈ s.toList, c ∈ numeralChars) :
    attributeValue s = s := by
  rw [attributeValue, mapPlain_eq_self (List.all_iff_forall_prop.1 (by decide)) h, String.ofList_toList]

/-- The text of a number is written into styles without the blanks around it. -/
theorem styleValue_eq_trim {s : String} (h : ∀ c ∈ s.toList, c ∈ numeralChars) :
    styleValue s = trim s := by
  have hblocked : ¬ isBlockedStyle s.toList := by
    intro hblocked
    obtain ⟨p, hp, hoccurs⟩ := List.any_eq_true.1 hblocked
    -- each blocked word has a mark that is in no number
    have hmark : ∀ p ∈ blockedStyles, '(' ∈ p.toList ∨ ':' ∈ p.toList := by decide
    have hlower : ∀ c ∈ numeralChars, c.toLower ≠ '(' ∧ c.toLower ≠ ':' :=
      List.all_iff_forall_prop.1 (by decide)
    have hrun := occurs_iff.1 hoccurs
    rcases hmark p hp with hmem | hmem
    · obtain ⟨c, hc, hcl⟩ := List.mem_map.1 (hrun.subset hmem)
      exact (hlower c (h c hc)).1 hcl
    · obtain ⟨c, hc, hcl⟩ := List.mem_map.1 (hrun.subset hmem)
      exact (hlower c (h c hc)).2 hcl
  have htrim : ∀ c ∈ trimBlank s.toList, c ∈ numeralChars := fun c hc => h c (mem_of_mem_trimBlank hc)
  have hchars := toList_styleValue_of_not_blocked hblocked
  rw [mapPlain_eq_self (List.all_iff_forall_prop.1 (by decide)) htrim, trimBlank_trimBlank] at hchars
  rw [trim, ← hchars, String.ofList_toList]

/-! ## Written lengths -/

/-- The values that some tokens give to an attribute, in order. -/
def plainValues (name : String) (ts : List Token) : List String :=
  ts.flatMap fun t => t.attributes.filterMap fun
    | .plain n v => if n = name then some v else none
    | .style _ => none

/-- The values that the styles of some tokens give to a property, in order. -/
def declaredValues (property : String) (ts : List Token) : List String :=
  ts.flatMap fun t => t.attributes.flatMap fun
    | .plain _ _ => []
    | .style ds => ds.filterMap fun d => if d.1 = property then some d.2 else none

theorem lengths_dividerRow (b : DividerBlock) :
    plainValues "width" (Email.dividerRow b) = [attributeValue (trim b.width) ++ "%"] ∧
    plainValues "height" (Email.dividerRow b) = [attributeValue (trim b.thickness)] ∧
    declaredValues "border-top" (Email.dividerRow b) =
      [styleValue (trim b.thickness) ++ "px solid " ++ styleValue b.color] := by
  refine ⟨?_, ?_, ?_⟩ <;>
    simp [plainValues, declaredValues, Email.dividerRow, row, element, Token.newline,
      Token.attributes]

theorem Bag.read_text (b : Bag) (key fallback : String) :
    b.read .text key fallback = (b.get? key).getD fallback := by
  unfold Bag.read
  cases b.get? key <;> rfl

/-- The texts of a divider as they are stored, or those of a new one. -/
theorem DividerBlock.texts_read (b : Bag) :
    (slots.read b .new).width = (b.get? "width").getD "100" ∧
    (slots.read b .new).thickness = (b.get? "thickness").getD "1" ∧
    (slots.read b .new).color = b.read .token "color" "#dddddd" := by
  rw [read_slots]
  exact ⟨b.read_text _ _, b.read_text _ _, rfl⟩

theorem trim_trim (s : String) : trim (trim s) = trim s := by
  rw [trim, trim, String.toList_ofList, trimBlank_trimBlank]

namespace Lint

variable {p : Project} {c : Component}

theorem numericAttribute_mem_named :
    (numericAttribute, "numeric_attribute", .warning) ∈ named.tail := by
  simp [named]

/-- A stored length of a divider on which the rule reports nothing is the text of a number, and so
is the default of one that is not stored. -/
theorem isNumeralText_of_unflagged (hkind : c.kind? = some .divider)
    (h : ∀ v, v ∉ numericAttribute [c]) {key : String} (hkey : key ∈ ["width", "thickness"])
    {default : String} (hdefault : isPlainNumber default) :
    IsNumeralText (trim ((c.data.get? key).getD default)).toList := by
  rw [trim, String.toList_ofList]
  refine isNumeralText_of_isPlainNumber ?_
  cases hstored : c.data.get? key with
  | none => exact hdefault
  | some s =>
    by_contra hflag
    exact h _ (mem_numericAttribute_iff.2 ⟨c, List.mem_singleton_self c, hkind, key, hkey, s,
      hstored, Bool.eq_false_iff.2 hflag, rfl⟩)

/-- **What is written of a divider** on which the rule on plain numbers reports nothing: its width,
with a percent sign, and its thickness, as an attribute and in pixels, as they are stored, without
the blanks around them. They are the texts of numbers, and plain digits if and only if they have
neither a sign nor an exponent. -/
theorem divider_lengths (mode : Mode) (fresh : FreshIds) (theme : Email.Theme) (p : Project)
    (c : Component) (hc : c ∈ p.components) (hkind : c.kind? = some .divider)
    (hunflagged : ∀ v ∈ (check mode p).violations, v.IsOf c → v.rule ≠ "numeric_attribute") :
    let rows := Email.rowsOf theme (Block.ofComponent fresh c).content
    let width := trim ((c.data.get? "width").getD "100")
    let thickness := trim ((c.data.get? "thickness").getD "1")
    plainValues "width" rows = [width ++ "%"] ∧
    plainValues "height" rows = [thickness] ∧
    declaredValues "border-top" rows =
      [thickness ++ "px solid " ++ styleValue (c.data.read .token "color" "#dddddd")] ∧
    ∀ s ∈ [width, thickness], IsNumeralText s.toList ∧
      (PlainDigits s.toList ↔ ∀ d ∈ s.toList, d ∉ ['+', '-', 'e', 'E']) := by
  intro rows width thickness
  have hnone := not_mem_singleton_of_check mode numericAttribute_mem_named hc hunflagged
  have hwidth : IsNumeralText width.toList :=
    isNumeralText_of_unflagged hkind hnone (by decide) (by decide +kernel)
  have hthickness : IsNumeralText thickness.toList :=
    isNumeralText_of_unflagged hkind hnone (by decide) (by decide +kernel)
  have hrows : rows = Email.dividerRow (DividerBlock.slots.read c.data .new) := by
    change Email.rowsOf theme (Block.ofComponent fresh c).content = _
    rw [content_of_kind?_eq_some hkind]
    rfl
  obtain ⟨hw, hh, hb⟩ := lengths_dividerRow (DividerBlock.slots.read c.data .new)
  obtain ⟨hreadWidth, hreadThickness, hcolor⟩ := DividerBlock.texts_read c.data
  have htrim : trim thickness = thickness := trim_trim _
  rw [← hrows, hreadWidth, attributeValue_eq_self hwidth.mem_numeralChars] at hw
  rw [← hrows, hreadThickness, attributeValue_eq_self hthickness.mem_numeralChars] at hh
  rw [← hrows, hreadThickness, styleValue_eq_trim hthickness.mem_numeralChars, htrim, hcolor] at hb
  refine ⟨hw, hh, hb, ?_⟩
  intro s hs
  rcases List.mem_pair.1 hs with rfl | rfl
  · exact ⟨hwidth, hwidth.plainDigits_iff⟩
  · exact ⟨hthickness, hthickness.plainDigits_iff⟩

/-- A divider with the given lengths. -/
def dividerOf (width thickness : String) : Component :=
  ⟨"1", "divider", .ofList [("width", width), ("thickness", thickness)]⟩

/-- The project of that divider alone. -/
def dividerProject (width thickness : String) : Project :=
  ⟨"2.0.0", .standard, [dividerOf width thickness]⟩

theorem divider_lengths_plain :
    (check .warn (dividerProject " 80" "2")).violations = [] ∧
    plainValues "width" (Email.rowsOf (.ofSettings .standard)
      (Block.ofComponent (fun _ => default) (dividerOf " 80" "2")).content) = ["80%"] ∧
    PlainDigits "80".toList := by
  have hreport : (check .warn (dividerProject " 80" "2")).violations = [] := by decide +kernel
  obtain ⟨hwidth, -, -, htexts⟩ := divider_lengths .warn (fun _ => default) (.ofSettings .standard)
    (dividerProject " 80" "2") (dividerOf " 80" "2") List.mem_cons_self (by decide)
    (by rw [hreport]; nofun)
  have htrim : trim (((dividerOf " 80" "2").data.get? "width").getD "100") = "80" := by decide
  rw [htrim] at hwidth htexts
  exact ⟨hreport, hwidth, (htexts "80" List.mem_cons_self).2.2
    (List.all_iff_forall_prop.1 (by decide))⟩

/-- **A length with an exponent passes**: a width of `1e2` is reported by no rule and written as it
is stored, and it is no plain digits. -/
theorem divider_length_not_plain :
    ¬ ∀ (mode : Mode) (p : Project) (c : Component), c ∈ p.components →
      c.kind? = some .divider →
      (∀ v ∈ (check mode p).violations, v.IsOf c → v.rule ≠ "numeric_attribute") →
      ∀ key ∈ ["width", "thickness"], ∀ s, c.data.get? key = some s →
        PlainDigits (trim s).toList := by
  intro h
  have hreport : (check .warn (dividerProject "1e2" "1")).violations = [] := by decide +kernel
  have hplain := h .warn (dividerProject "1e2" "1") (dividerOf "1e2" "1") List.mem_cons_self
    (by decide) (by rw [hreport]; nofun) "width" List.mem_cons_self "1e2" (by decide)
  exact absurd hplain (by decide)

end Lint

end MailBlocks
