import Mathlib.Data.List.Basic
import MailBlocks.Markup.StyleValue
import MailBlocks.Proofs.Reference

/-!
# What style values can hold

A style value is the authored text without the characters that could end the declaration, its
ampersands written as references. It reads as text that neither ends its declaration nor the
attribute. Dropping characters can join what stood apart, so a blocked word can come about that the
authored text did not contain.

* `contained_styleValue`: a style value stays within its declaration.
* `blocked_infix_cleaned_iff`: the blocked words of a value that is not dropped.
* `styleValue_free_iff`: the values from which all blocked words are kept out.
-/

namespace MailBlocks.Markup

open MergeField Text

/-! ## Staying within the declaration -/

/-- How one character of a style value is written. -/
def ampersandChar (c : Char) : List Char :=
  if c = '&' then "&amp;".toList else [c]

/-- **Text that stays within its declaration**: with its references read it has no semicolon, and no
character of it could end the attribute or the tag. -/
def Contained (s : String) : Prop :=
  ∃ w : List Char, s.toList = w.flatMap ampersandChar ∧ ∀ c ∈ w, ¬ isDelimiter c ∧ c ≠ ';'

theorem readsBack_ampersandChar : ReadsBack ampersandChar := by
  intro c s
  by_cases h : c = '&'
  · subst h
    rfl
  · rw [ampersandChar, if_neg h, List.singleton_append, decode_cons h]

theorem ampersandChar_of_ne {c : Char} (h : c ≠ '&') : ampersandChar c = [c] := if_neg h

theorem Contained.append {s t : String} (hs : Contained s) (ht : Contained t) :
    Contained (s ++ t) := by
  obtain ⟨v, hv, hv'⟩ := hs
  obtain ⟨w, hw, hw'⟩ := ht
  refine ⟨v ++ w, by rw [String.toList_append, hv, hw, List.flatMap_append], fun c hc => ?_⟩
  rcases List.mem_append.1 hc with hc | hc
  · exact hv' c hc
  · exact hw' c hc

/-- A text of harmless characters is contained. -/
theorem contained_of_forall {s : String}
    (h : ∀ c ∈ s.toList, ¬ isDelimiter c ∧ c ≠ ';' ∧ c ≠ '&') : Contained s := by
  refine ⟨s.toList, ?_, fun c hc => ⟨(h c hc).1, (h c hc).2.1⟩⟩
  exact (flatMap_eq_self fun c hc => ampersandChar_of_ne (h c hc).2.2).symm

theorem Contained.inert {s : String} (hs : Contained s) : Inert s := by
  obtain ⟨w, hw, hw'⟩ := hs
  intro d hd
  rw [hw] at hd
  obtain ⟨c, hc, hdc⟩ := List.mem_flatMap.1 hd
  by_cases h : c = '&'
  · have hinert : Inert "&amp;" := by decide
    rw [ampersandChar, if_pos h] at hdc
    exact hinert d hdc
  · rw [ampersandChar_of_ne h, List.mem_singleton] at hdc
    rw [hdc]
    exact (hw' c hc).1

/-! ## Cleaning -/

/-- The characters that style values keep. -/
def keptInStyle (c : Char) : Bool := !(isStyleBreaker c || isControl c)

theorem styleChar_of_not_kept {c : Char} (h : ¬ keptInStyle c) : styleChar c = [] := by
  rw [keptInStyle, Bool.not_eq_true, Bool.not_eq_false'] at h
  rw [styleChar, if_pos h]

theorem styleChar_of_kept {c : Char} (h : keptInStyle c) : styleChar c = ampersandChar c := by
  rw [keptInStyle, Bool.not_eq_true'] at h
  rw [styleChar, if_neg (by rw [h]; decide), ampersandChar]

/-- What is left of a part of a text, before ampersands are written. -/
def cleanPart : Part → List Char
  | .plain c => if keptInStyle c then [c] else []
  | .field t => t

/-- A part of a style value. -/
def stylePart : Part → List Char
  | .plain c => styleChar c
  | .field t => t

theorem mapPlain_styleChar_eq (s : List Char) :
    mapPlain styleChar s = (parts s).flatMap stylePart := by
  rw [mapPlain]
  exact List.flatMap_congr fun p _ => by cases p <;> rfl

theorem isField_of_mem_parts {s t : List Char} (h : Part.field t ∈ parts s) : IsField t := by
  refine isField_of_mem_fields (s := s) ?_
  exact List.mem_filterMap.2 ⟨_, h, rfl⟩

theorem IsField.ampersand_not_mem {t : List Char} (ht : IsField t) : '&' ∉ t := fun h =>
  absurd (ht.isFieldChar _ h) (by decide)

theorem stylePart_eq {p : Part} (hp : ∀ t, p = .field t → IsField t) :
    stylePart p = (cleanPart p).flatMap ampersandChar := by
  cases p with
  | field t =>
    refine (flatMap_eq_self fun c hc => ampersandChar_of_ne ?_).symm
    rintro rfl
    exact IsField.ampersand_not_mem (hp t rfl) hc
  | plain c =>
    by_cases h : keptInStyle c
    · rw [stylePart, styleChar_of_kept h, cleanPart, if_pos h, List.flatMap_singleton]
    · rw [stylePart, styleChar_of_not_kept h, cleanPart, if_neg h, List.flatMap_nil]

theorem not_delimiter_of_kept {c : Char} (h : keptInStyle c) : ¬ isDelimiter c ∧ c ≠ ';' := by
  refine ⟨not_isDelimiter_of (by decide) h, ?_⟩
  rintro rfl
  exact absurd h (by decide)

theorem not_delimiter_of_isFieldChar {c : Char} (h : isFieldChar c) :
    ¬ isDelimiter c ∧ c ≠ ';' := by
  refine ⟨not_isDelimiter_of (by decide) h, ?_⟩
  rintro rfl
  exact absurd h (by decide)

/-- A cleaned text is made of characters that style values keep, and of fields. -/
theorem kept_or_isFieldChar {s : List Char} {c : Char} (h : c ∈ (parts s).flatMap cleanPart) :
    keptInStyle c ∨ isFieldChar c := by
  obtain ⟨p, hp, hc⟩ := List.mem_flatMap.1 h
  cases p with
  | field t => exact .inr ((isField_of_mem_parts hp).isFieldChar c hc)
  | plain d =>
    by_cases hd : keptInStyle d
    · rw [cleanPart, if_pos hd, List.mem_singleton] at hc
      exact .inl (hc ▸ hd)
    · rw [cleanPart, if_neg hd] at hc
      simp at hc

/-- A cleaned text, its fields included, has neither delimiters nor semicolons. -/
theorem mem_flatMap_cleanPart {s : List Char} {c : Char}
    (h : c ∈ (parts s).flatMap cleanPart) : ¬ isDelimiter c ∧ c ≠ ';' := by
  rcases kept_or_isFieldChar h with h | h
  · exact not_delimiter_of_kept h
  · exact not_delimiter_of_isFieldChar h

theorem mapPlain_styleChar (s : List Char) :
    mapPlain styleChar s = ((parts s).flatMap cleanPart).flatMap ampersandChar := by
  rw [mapPlain_styleChar_eq, List.flatMap_assoc]
  exact List.flatMap_congr fun p hp => stylePart_eq fun t ht => isField_of_mem_parts (ht ▸ hp)

theorem dropWhile_flatMap {f : Char → List Char} (hb : ∀ c, isBlank c → f c = [c])
    (hn : ∀ c, ¬ isBlank c → ∃ d v, f c = d :: v ∧ ¬ isBlank d) (w : List Char) :
    (w.flatMap f).dropWhile isBlank = (w.dropWhile isBlank).flatMap f := by
  induction w with
  | nil => rfl
  | cons c w ih =>
    by_cases hc : isBlank c
    · rw [List.flatMap_cons, hb c hc, List.singleton_append, List.dropWhile_cons_of_pos hc,
        List.dropWhile_cons_of_pos hc, ih]
    · obtain ⟨d, v, hd, hdb⟩ := hn c hc
      rw [List.dropWhile_cons_of_neg hc, List.flatMap_cons, hd, List.cons_append,
        List.dropWhile_cons_of_neg hdb]

/-- Trimming goes by before ampersands are written. -/
theorem trimBlank_flatMap_ampersandChar (w : List Char) :
    trimBlank (w.flatMap ampersandChar) = (trimBlank w).flatMap ampersandChar := by
  have hb : ∀ c, isBlank c → ampersandChar c = [c] := by
    intro c hc
    refine ampersandChar_of_ne ?_
    rintro rfl
    exact absurd hc (by decide)
  have hn : ∀ c, ¬ isBlank c → ∃ d v, ampersandChar c = d :: v ∧ ¬ isBlank d := by
    intro c hc
    by_cases h : c = '&'
    · exact ⟨'&', "amp;".toList, by rw [h]; rfl, by decide⟩
    · exact ⟨c, [], ampersandChar_of_ne h, hc⟩
  -- trimming the end is trimming the start of the reverse, where references are read backwards
  have hb' : ∀ c, isBlank c → (List.reverse ∘ ampersandChar) c = [c] := by
    intro c hc
    rw [Function.comp, hb c hc]
    rfl
  have hn' : ∀ c, ¬ isBlank c →
      ∃ d v, (List.reverse ∘ ampersandChar) c = d :: v ∧ ¬ isBlank d := by
    intro c hc
    by_cases h : c = '&'
    · exact ⟨';', "pma&".toList, by rw [h]; rfl, by decide⟩
    · exact ⟨c, [], by rw [Function.comp, ampersandChar_of_ne h]; rfl, hc⟩
  rw [trimBlank, trimBlank, dropWhile_flatMap hb hn, List.reverse_flatMap,
    dropWhile_flatMap hb' hn', List.reverse_flatMap]
  congr 1
  funext c
  exact List.reverse_reverse _

theorem mem_of_mem_trimBlank {s : List Char} {c : Char} (h : c ∈ trimBlank s) : c ∈ s := by
  obtain ⟨b, e, hs, -, -⟩ := trimBlank_append s
  rw [hs]
  simp [h]

/-- The authored text of a style value, cleaned and trimmed. -/
def cleaned (s : List Char) : List Char :=
  trimBlank ((parts (trimBlank s)).flatMap cleanPart)

/-- A value that contains a blocked word is dropped. -/
def isBlockedStyle (s : List Char) : Bool :=
  blockedStyles.any fun p => occurs p.toList (lowerChars s)

theorem toList_styleValue (s : String) :
    (styleValue s).toList =
      if isBlockedStyle s.toList then [] else (cleaned s.toList).flatMap ampersandChar := by
  have h : styleValue s = if isBlockedStyle s.toList then "" else
      String.ofList (trimBlank (mapPlain styleChar (trimBlank s.toList))) := rfl
  rw [h]
  split
  · rfl
  · rw [String.toList_ofList, mapPlain_styleChar, trimBlank_flatMap_ampersandChar, cleaned]

/-- **A style value stays within its declaration**, whatever it was made from. -/
theorem contained_styleValue (s : String) : Contained (styleValue s) := by
  rw [Contained, toList_styleValue]
  split
  · exact ⟨[], rfl, by simp⟩
  · exact ⟨_, rfl, fun c hc => mem_flatMap_cleanPart (mem_of_mem_trimBlank hc)⟩

/-! ## Blocked words -/

/-- **A text spells a word**: the characters that style values keep of a run of plain characters
are the word, whatever the case of its letters. -/
def Spells (s p : List Char) : Prop :=
  ∃ run : List Char, run.map Part.plain <:+: parts s ∧ lowerChars (run.filter keptInStyle) = p

/-- Characters at the front of a style value stand in its first plain characters. -/
theorem prefix_flatMap_stylePart {w : List Char} (hb : '\x7b' ∉ w) (ha : '&' ∉ w)
    {ps : List Part} (hps : ∀ t, .field t ∈ ps → IsField t) (h : w <+: ps.flatMap stylePart) :
    ∃ run : List Char, run.map Part.plain <+: ps ∧ run.filter keptInStyle = w := by
  induction ps generalizing w with
  | nil => exact ⟨[], List.nil_prefix, (List.prefix_nil.1 h).symm⟩
  | cons p ps ih =>
    have hps' : ∀ t, .field t ∈ ps → IsField t := fun t ht => hps t (List.mem_cons_of_mem _ ht)
    cases w with
    | nil => exact ⟨[], List.nil_prefix, rfl⟩
    | cons a w =>
      rw [List.flatMap_cons] at h
      cases p with
      | field t =>
        -- a field begins with a brace, and `w` has none
        obtain ⟨m, hm, -⟩ := (hps t List.mem_cons_self).inner
        rw [stylePart, hm, List.cons_append, List.cons_prefix_cons] at h
        exact absurd (h.1 ▸ List.mem_cons_self) hb
      | plain c =>
        by_cases hc : keptInStyle c
        · by_cases hca : c = '&'
          · rw [stylePart, styleChar_of_kept hc, hca] at h
            have : a = '&' := (List.cons_prefix_cons.1 h).1
            exact absurd (this ▸ List.mem_cons_self) ha
          · rw [stylePart, styleChar_of_kept hc, ampersandChar_of_ne hca, List.singleton_append,
              List.cons_prefix_cons] at h
            obtain ⟨rfl, h⟩ := h
            obtain ⟨run, hr, rfl⟩ := ih (fun hm => hb (List.mem_cons_of_mem _ hm))
              (fun hm => ha (List.mem_cons_of_mem _ hm)) hps' h
            exact ⟨a :: run, List.cons_prefix_cons.2 ⟨rfl, hr⟩, List.filter_cons_of_pos hc⟩
        -- a character that is left out joins the run without a trace
        · rw [stylePart, styleChar_of_not_kept hc, List.nil_append] at h
          obtain ⟨run, hr, hw⟩ := ih hb ha hps' h
          exact ⟨c :: run, List.cons_prefix_cons.2 ⟨rfl, hr⟩,
            (List.filter_cons_of_neg hc).trans hw⟩

theorem infix_append_cases {w x y : List Char} (h : w <:+: x ++ y) :
    (∃ x', x' ≠ [] ∧ x' <:+ x ∧ w <+: x' ++ y) ∨ w <:+: y := by
  induction x with
  | nil => exact .inr h
  | cons c x ih =>
    rcases List.infix_cons_iff.1 h with h | h
    · exact .inl ⟨c :: x, by simp, List.suffix_refl _, h⟩
    · rcases ih h with ⟨x', hne, hs, hp⟩ | h
      · exact .inl ⟨x', hne, hs.trans (List.suffix_cons c x), hp⟩
      · exact .inr h

/-- A run cannot begin with the end of a text that has none of the run's last characters, and whose
own last character the run has not. -/
theorem not_prefix_append {w x y : List Char} {e z : Char} (hxz : x.getLast? = some z)
    (hzw : z ∉ w) (hew : e ∈ w) (hex : e ∉ x) : ¬ w <+: x ++ y := by
  intro h
  rcases List.prefix_or_prefix_of_prefix h (List.prefix_append x y) with h | h
  · exact hex (h.subset hew)
  · exact hzw (h.subset (List.mem_of_getLast? hxz))

theorem getLast?_of_suffix {x y : List Char} (hs : x <:+ y) (hne : x ≠ []) :
    x.getLast? = y.getLast? := by
  obtain ⟨z, rfl⟩ := hs
  obtain ⟨c, hc⟩ := Option.isSome_iff_exists.1 (List.getLast?_isSome.2 hne)
  rw [List.getLast?_append, hc, Option.some_or]

/-- The characters of a blocked word, in either case: no brace, no ampersand, no semicolon. -/
def isWordChar (c : Char) : Bool :=
  c ≠ '\x7b' && c ≠ '\x7d' && c ≠ '&' && c ≠ ';' && !isBlank c

/-- The marks that end a blocked word. -/
def isOpening (c : Char) : Bool := c = '(' || c = ':'

theorem ne_of_isWordChar {c : Char} (h : isWordChar c) :
    c ≠ '\x7b' ∧ c ≠ '\x7d' ∧ c ≠ '&' ∧ c ≠ ';' := by
  simp only [isWordChar, Bool.and_eq_true, decide_eq_true_eq] at h
  exact ⟨h.1.1.1.1, h.1.1.1.2, h.1.1.2, h.1.2⟩

theorem not_isBlank_of_isWordChar {c : Char} (h : isWordChar c) : ¬ isBlank c := by
  simp only [isWordChar, Bool.and_eq_true, Bool.not_eq_true'] at h
  rw [h.2]
  decide

theorem not_isFieldChar_of_isOpening {c : Char} (h : isOpening c) : ¬ isFieldChar c := by
  simp only [isOpening, Bool.or_eq_true, decide_eq_true_eq] at h
  rcases h with rfl | rfl <;> decide

/-- A word with an opening mark that begins within a part begins with it: fields and references
end in characters that the word does not have, before its mark. -/
theorem eq_stylePart_of_prefix {w : List Char} {e : Char} (hw : ∀ c ∈ w, isWordChar c)
    (hew : e ∈ w) (he : isOpening e) {p : Part} (hp : ∀ t, p = .field t → IsField t)
    {x y : List Char} (hne : x ≠ []) (hx : x <:+ stylePart p) (h : w <+: x ++ y) :
    x = stylePart p := by
  cases p with
  | field t =>
    have ht := hp t rfl
    have hlast := (getLast?_of_suffix hx hne).trans ht.getLast?
    have hclose : '\x7d' ∉ w := fun hm => (ne_of_isWordChar (hw _ hm)).2.1 rfl
    have hex : e ∉ x := fun hm =>
      not_isFieldChar_of_isOpening he (ht.isFieldChar e (hx.subset hm))
    exact absurd h (not_prefix_append hlast hclose hew hex)
  | plain c =>
    by_cases hk : keptInStyle c
    · by_cases hc : c = '&'
      · have hx' : x <:+ "&amp;".toList := by
          rwa [stylePart, styleChar_of_kept hk, hc] at hx
        have hlast := (getLast?_of_suffix hx' hne).trans (by decide : _ = some ';')
        have hsemi : ';' ∉ w := fun hm => (ne_of_isWordChar (hw _ hm)).2.2.2 rfl
        have hex : e ∉ x := by
          intro hm
          have hall : "&amp;".toList.all fun d => !isOpening d := by decide
          have hnot := List.all_eq_true.1 hall e (hx'.subset hm)
          rw [he] at hnot
          exact absurd hnot (by decide)
        exact absurd h (not_prefix_append hlast hsemi hew hex)
      · rw [stylePart, styleChar_of_kept hk, ampersandChar_of_ne hc] at hx ⊢
        exact (List.suffix_cons_iff.1 hx).resolve_right fun hs => hne (List.suffix_nil.1 hs)
    · rw [stylePart, styleChar_of_not_kept hk] at hx
      exact absurd (List.suffix_nil.1 hx) hne

/-- A word with an opening mark stands in a style value only where the value's plain characters
spell it. -/
theorem infix_flatMap_stylePart {w : List Char} {e : Char} (hw : ∀ c ∈ w, isWordChar c)
    (hew : e ∈ w) (he : isOpening e) {ps : List Part} (hps : ∀ t, .field t ∈ ps → IsField t)
    (h : w <:+: ps.flatMap stylePart) :
    ∃ run : List Char, run.map Part.plain <:+: ps ∧ run.filter keptInStyle = w := by
  have hb : '\x7b' ∉ w := fun hm => (ne_of_isWordChar (hw _ hm)).1 rfl
  have ha : '&' ∉ w := fun hm => (ne_of_isWordChar (hw _ hm)).2.2.1 rfl
  induction ps with
  | nil =>
    rw [List.infix_nil.1 h] at hew
    simp at hew
  | cons p ps ih =>
    rw [List.flatMap_cons] at h
    rcases infix_append_cases h with ⟨x, hne, hx, hp⟩ | h
    · obtain rfl := eq_stylePart_of_prefix hw hew he
        (fun t ht => hps t (ht ▸ List.mem_cons_self)) hne hx hp
      rw [← List.flatMap_cons] at hp
      obtain ⟨run, hr, hf⟩ := prefix_flatMap_stylePart hb ha hps hp
      exact ⟨run, hr.isInfix, hf⟩
    · obtain ⟨run, hr, hf⟩ := ih (fun t ht => hps t (List.mem_cons_of_mem _ ht)) h
      exact ⟨run, List.infix_cons hr, hf⟩

/-- What plain characters spell stands in the style value, if it holds no ampersand. -/
theorem infix_of_run {run : List Char} (ha : '&' ∉ run.filter keptInStyle) {ps : List Part}
    (h : run.map Part.plain <:+: ps) : run.filter keptInStyle <:+: ps.flatMap stylePart := by
  have hrun : (run.map Part.plain).flatMap stylePart = run.filter keptInStyle := by
    clear h
    induction run with
    | nil => rfl
    | cons c run ih =>
      rw [List.map_cons, List.flatMap_cons]
      by_cases hc : keptInStyle c
      · rw [List.filter_cons_of_pos hc, List.mem_cons, not_or] at ha
        rw [List.filter_cons_of_pos hc, ih ha.2, stylePart, styleChar_of_kept hc,
          ampersandChar_of_ne (Ne.symm ha.1), List.singleton_append]
      · rw [List.filter_cons_of_neg hc] at ha ⊢
        rw [ih ha, stylePart, styleChar_of_not_kept hc, List.nil_append]
  obtain ⟨a, b, rfl⟩ := h
  rw [List.flatMap_append, List.flatMap_append, hrun]
  exact List.infix_append _ _ _

/-! ## Words in any case -/

theorem toLower_cases (c : Char) : c.toLower = c ∨ c.isUpper ∧ c.toLower.isLower := by
  unfold Char.toLower
  split
  · next h =>
    have h1 : 65 ≤ c.toNat := UInt32.le_iff_toNat_le.1 h.1
    have h2 : c.toNat ≤ 90 := UInt32.le_iff_toNat_le.1 h.2
    refine .inr ⟨isUpper_iff.2 ⟨h1, h2⟩, isLower_iff.2 ?_⟩
    change 97 ≤ (c.toNat + 32) % 4294967296 ∧ (c.toNat + 32) % 4294967296 ≤ 122
    omega
  · exact .inl rfl

/-- What a blocked word is made of: small letters and, at the end, an opening mark. -/
theorem blockedStyles_chars : ∀ p ∈ blockedStyles,
    (∃ e ∈ p.toList, isOpening e) ∧ ∀ c ∈ p.toList, c.isLower ∨ isOpening c := by
  have hall : blockedStyles.all fun p =>
      p.toList.any isOpening && p.toList.all fun c => c.isLower || isOpening c := by
    decide
  simpa only [List.all_eq_true, Bool.and_eq_true, List.any_eq_true, Bool.or_eq_true] using hall

theorem not_isBlank_of_toLower {c : Char} (h : c.toLower.isLower ∨ isOpening c.toLower) :
    ¬ isBlank c := by
  have hname : c.isLower ∨ c.isUpper → ¬ isBlank c := by
    intro hc
    refine not_isBlank_of_isNameChar (isNameChar_iff.2 ?_)
    exact hc.symm.imp_right .inl
  rcases toLower_cases c with hc | ⟨hc, -⟩
  · rw [hc] at h
    rcases h with h | h
    · exact hname (.inl h)
    · simp only [isOpening, Bool.or_eq_true, decide_eq_true_eq] at h
      rcases h with rfl | rfl <;> decide
  · exact hname (.inr hc)

theorem isWordChar_of_toLower {c : Char} (h : c.toLower.isLower ∨ isOpening c.toLower) :
    isWordChar c := by
  have hne : ['\x7b', '\x7d', '&', ';'].all fun d => !(d.toLower.isLower || isOpening d.toLower) := by
    decide
  have hc : ∀ d ∈ ['\x7b', '\x7d', '&', ';'], c ≠ d := by
    rintro d hd rfl
    have hd' := List.all_eq_true.1 hne c hd
    rw [Bool.not_eq_true', Bool.or_eq_false_iff] at hd'
    rcases h with h | h
    · exact absurd h (by rw [hd'.1]; decide)
    · exact absurd h (by rw [hd'.2]; decide)
  simp [isWordChar, hc, not_isBlank_of_toLower h]

theorem isOpening_of_toLower {c : Char} (h : isOpening c.toLower) : isOpening c := by
  rcases toLower_cases c with hc | ⟨-, hc⟩
  · rwa [hc] at h
  · simp only [isOpening, Bool.or_eq_true, decide_eq_true_eq] at h
    rcases h with h | h <;> exact absurd (h ▸ hc) (by decide)

/-- The characters of a blocked word in any case. -/
theorem word_of_lowerChars {w : List Char} {p : String} (hp : p ∈ blockedStyles)
    (h : lowerChars w = p.toList) :
    (∃ e ∈ w, isOpening e) ∧ ∀ c ∈ w, isWordChar c := by
  obtain ⟨⟨e, he, hopen⟩, hall⟩ := blockedStyles_chars p hp
  rw [← h] at he hall
  constructor
  · obtain ⟨c, hc, rfl⟩ := List.mem_map.1 he
    exact ⟨c, hc, isOpening_of_toLower hopen⟩
  · exact fun c hc => isWordChar_of_toLower (hall _ (List.mem_map.2 ⟨c, hc, rfl⟩))

/-- Trimming keeps the runs without blanks. -/
theorem infix_dropWhile {w s : List Char} (hw : ∀ c ∈ w, ¬ isBlank c) (h : w <:+: s) :
    w <:+: s.dropWhile isBlank := by
  induction s with
  | nil => exact h
  | cons c s ih =>
    by_cases hc : isBlank c
    · rw [List.dropWhile_cons_of_pos hc]
      rcases List.infix_cons_iff.1 h with h | h
      · cases w with
        | nil => exact List.nil_infix
        | cons a w =>
          have ha := (List.cons_prefix_cons.1 h).1
          exact absurd (ha ▸ hc) (hw a List.mem_cons_self)
      · exact ih h
    · rwa [List.dropWhile_cons_of_neg hc]

theorem infix_trimBlank_iff {w s : List Char} (hw : ∀ c ∈ w, ¬ isBlank c) :
    w <:+: trimBlank s ↔ w <:+: s := by
  constructor
  · intro h
    obtain ⟨b, e, hs, -, -⟩ := trimBlank_append s
    rw [hs]
    exact h.trans (List.infix_append' _ _ _)
  · intro h
    have hr : ∀ c ∈ w.reverse, ¬ isBlank c := fun c hc => hw c (List.mem_reverse.1 hc)
    have h1 := infix_dropWhile hr (List.reverse_infix.2 (infix_dropWhile hw h))
    have h2 := List.reverse_infix.2 h1
    rwa [List.reverse_reverse] at h2

/-- **The blocked words of a value that is not dropped** are those that its text spells. -/
theorem blocked_infix_cleaned_iff {p : String} (hp : p ∈ blockedStyles) (s : List Char) :
    p.toList <:+: lowerChars ((cleaned s).flatMap ampersandChar) ↔
      Spells (trimBlank s) p.toList := by
  have htrim : (cleaned s).flatMap ampersandChar =
      trimBlank ((parts (trimBlank s)).flatMap stylePart) := by
    rw [cleaned, ← trimBlank_flatMap_ampersandChar, ← mapPlain_styleChar, mapPlain_styleChar_eq]
  rw [htrim, lowerChars, List.infix_map_iff]
  constructor
  · rintro ⟨w, hw, hpw⟩
    obtain ⟨⟨e, hew, he⟩, hchars⟩ := word_of_lowerChars hp hpw.symm
    have hblank : ∀ c ∈ w, ¬ isBlank c := fun c hc => not_isBlank_of_isWordChar (hchars c hc)
    obtain ⟨run, hr, hf⟩ := infix_flatMap_stylePart hchars hew he
      (fun t ht => isField_of_mem_parts ht) ((infix_trimBlank_iff hblank).1 hw)
    exact ⟨run, hr, hf ▸ hpw.symm⟩
  · rintro ⟨run, hr, hpw⟩
    obtain ⟨-, hchars⟩ := word_of_lowerChars hp hpw
    have hblank : ∀ c ∈ run.filter keptInStyle, ¬ isBlank c :=
      fun c hc => not_isBlank_of_isWordChar (hchars c hc)
    have ha : '&' ∉ run.filter keptInStyle := fun hm => (ne_of_isWordChar (hchars _ hm)).2.2.1 rfl
    exact ⟨_, (infix_trimBlank_iff hblank).2 (infix_of_run ha hr), hpw.symm⟩

/-- **Which style values hold no blocked word**: those made from a text that contains one, which are
dropped, and those made from a text that spells none. -/
theorem styleValue_free_iff (s : String) :
    (∀ p ∈ blockedStyles, ¬ p.toList <:+: lowerChars (styleValue s).toList) ↔
      (∃ p ∈ blockedStyles, p.toList <:+: lowerChars s.toList) ∨
        ∀ p ∈ blockedStyles, ¬ Spells (trimBlank s.toList) p.toList := by
  have hblocked : isBlockedStyle s.toList ↔
      ∃ p ∈ blockedStyles, p.toList <:+: lowerChars s.toList := by
    simp only [isBlockedStyle, List.any_eq_true, occurs_iff]
  rw [toList_styleValue, ← hblocked]
  split
  · next h =>
    have hnil : ∀ p ∈ blockedStyles, ¬ p.toList <:+: lowerChars [] := by decide
    exact ⟨fun _ => .inl h, fun _ => hnil⟩
  · next h =>
    constructor
    · exact fun hall => .inr fun p hp hs => hall p hp ((blocked_infix_cleaned_iff hp _).2 hs)
    · rintro (h' | hall)
      · exact absurd h' h
      · exact fun p hp hs => hall p hp ((blocked_infix_cleaned_iff hp _).1 hs)

/-- A semicolon keeps the word apart in the authored text and is gone from the value. -/
theorem styleValue_not_free :
    ¬ ∀ p ∈ blockedStyles, ¬ p.toList <:+: lowerChars (styleValue "u;rl(x)").toList := by
  intro h
  have hmem : "url(" ∈ blockedStyles := by decide
  have hurl : "url(".toList <:+: lowerChars (styleValue "u;rl(x)").toList := by decide +kernel
  exact h "url(" hmem hurl

end MailBlocks.Markup
