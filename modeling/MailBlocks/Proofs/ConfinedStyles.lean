import MailBlocks.Proofs.FieldGaps
import MailBlocks.Proofs.StyleText

/-!
# Style values stay in their declarations

A style value has no character that ends its attribute or its tag. Its only semicolons end the
references that are written for ampersands, so that its reader finds none. Cleaning takes all braces
and control characters out of the gaps between merge fields, and none out of the fields: the cleaned
gaps can neither make up a field nor break one.

* `Confined`: a value that cannot leave its declaration.
* `remainder_mapPlain`, `fields_mapPlain`: the gaps and the fields of a text with its gaps rewritten.
* `styleValue_confined`: every style value is confined and has the merge fields of its text.
-/

namespace MailBlocks.MergeField

/-! ## Rewriting the gaps -/

section

variable {f : Char → List Char}

/-- Characters that bring in no opening brace are rewritten in the gaps. -/
theorem remainder_mapPlain (hf : ∀ c, '\x7b' ∉ f c) (s : List Char) :
    remainder (mapPlain f s) = (remainder s).flatMap f := by
  induction s using parts_induction with
  | nil => rfl
  | field t r ht ih => rw [mapPlain_field f ht, ht.remainder, ht.remainder, ih]
  | plain c s h ih =>
    rw [mapPlain_plain f h, remainder_append_of_not_mem (hf c), ih, remainder_plain h,
      List.flatMap_cons]

/-- No field is made up or broken by that. -/
theorem fields_mapPlain (hf : ∀ c, '\x7b' ∉ f c) (s : List Char) :
    fields (mapPlain f s) = fields s := by
  induction s using parts_induction with
  | nil => rfl
  | field t r ht ih => rw [mapPlain_field f ht, ht.fields, ht.fields, ih]
  | plain c s h ih => rw [mapPlain_plain f h, fields_append_of_not_mem (hf c), ih, fields_plain h]

end

end MailBlocks.MergeField

namespace MailBlocks.Markup

open MergeField Text

/-! ## The references of a contained text -/

/-- What is written for a character holds that character, or is a reference. -/
theorem ampersandChar_eq_append {x c : Char} {p q : List Char}
    (h : ampersandChar x = p ++ c :: q) : x = c ∨ "&amp;".toList = p ++ c :: q := by
  by_cases hx : x = '&'
  · rw [ampersandChar, if_pos hx] at h
    exact .inr h
  · have hc : c ∈ ampersandChar x := h ▸ List.mem_append_right p List.mem_cons_self
    rw [ampersandChar_of_ne hx, List.mem_singleton] at hc
    exact .inl hc.symm

namespace Contained

variable {t : String}

/-- Wherever an ampersand stands, a reference begins. -/
theorem prefix_of_ampersand (ht : Contained t) {r : List Char} (h : '&' :: r <:+ t.toList) :
    "&amp;".toList <+: '&' :: r := by
  obtain ⟨w, hw, -⟩ := ht
  obtain ⟨front, hfront⟩ := h
  obtain ⟨_, x, _, p, q, -, hx, -, hr⟩ := flatMap_eq_append_cons (hw ▸ hfront.symm)
  have hwhole : [] ++ '&' :: "amp;".toList = p ++ '&' :: q := by
    rcases ampersandChar_eq_append hx with rfl | hreference
    · exact hx
    · exact hreference
  obtain ⟨-, -, rfl⟩ := (List.append_cons_inj_of_notMem (by decide) (by decide)).1 hwhole
  rw [hr, ← List.cons_append]
  exact List.prefix_append _ _

/-- Wherever a semicolon stands, a reference ends. -/
theorem suffix_of_semicolon (ht : Contained t) {p : List Char} (h : p ++ [';'] <+: t.toList) :
    "&amp;".toList <:+ p ++ [';'] := by
  obtain ⟨w, hw, hwchars⟩ := ht
  obtain ⟨back, hback⟩ := h
  rw [List.append_assoc, List.singleton_append] at hback
  obtain ⟨_, x, _, a, q, hsplit, hx, hp, -⟩ := flatMap_eq_append_cons (hw ▸ hback.symm)
  have hsemi : x ≠ ';' := (hwchars x (hsplit ▸ List.mem_append_right _ List.mem_cons_self)).2
  have hwhole : "&amp".toList ++ ';' :: [] = a ++ ';' :: q :=
    (ampersandChar_eq_append hx).resolve_left hsemi
  obtain ⟨rfl, -, -⟩ := (List.append_cons_inj_of_notMem (by decide) (by decide)).1 hwhole
  rw [hp, List.append_assoc]
  exact List.suffix_append _ _

/-- Read back, the text has no semicolon. -/
theorem semicolon_not_mem_decode (ht : Contained t) : ';' ∉ decode t.toList := by
  obtain ⟨w, hw, hwchars⟩ := ht
  rw [hw, readsBack_ampersandChar.decode_flatMap]
  exact fun h => (hwchars _ h).2 rfl

end Contained

/-! ## The characters of a style value -/

/-- What a character is written as in a style value: characters that are kept, or a reference. -/
theorem mem_styleChar {c d : Char} (h : d ∈ styleChar c) : d ∈ "&amp;".toList ∨ keptInStyle d := by
  by_cases hk : keptInStyle c
  · rw [styleChar_of_kept hk, ampersandChar] at h
    split at h
    · exact .inl h
    · exact .inr (List.mem_singleton.1 h ▸ hk)
  · rw [styleChar_of_not_kept hk] at h
    cases h

theorem not_isControl_of_mem {c : Char} (h : c ∈ "&amp;".toList ∨ keptInStyle c) :
    ¬ isControl c := by
  intro hc
  rcases h with h | h
  · have hreference : "&amp;".toList.all fun d => !isControl d := by decide
    have hnot := List.all_eq_true.1 hreference c h
    rw [hc] at hnot
    exact absurd hnot (by decide)
  · rw [keptInStyle, hc, Bool.or_true] at h
    exact absurd h (by decide)

theorem brace_not_mem_styleChar (c : Char) : '\x7b' ∉ styleChar c := by
  intro h
  exact absurd (mem_styleChar h) (by decide)

/-- What stands in a style value is kept in style values, belongs to a field or to a reference. -/
theorem mem_styleValue {s : String} {c : Char} (h : c ∈ (styleValue s).toList) :
    c ∈ "&amp;".toList ∨ keptInStyle c ∨ isFieldChar c := by
  rw [toList_styleValue] at h
  split at h
  · cases h
  · obtain ⟨d, hd, hc⟩ := List.mem_flatMap.1 h
    unfold ampersandChar at hc
    split at hc
    · exact .inl hc
    · rw [List.mem_singleton.1 hc]
      exact .inr (kept_or_isFieldChar (mem_of_mem_trimBlank hd))

theorem toList_styleValue_of_not_blocked {s : String} (h : ¬ isBlockedStyle s.toList) :
    (styleValue s).toList = trimBlank (mapPlain styleChar (trimBlank s.toList)) := by
  rw [toList_styleValue, if_neg h, mapPlain_styleChar, trimBlank_flatMap_ampersandChar, cleaned]

/-- **Outside of merge fields** a style value has no brace and no control character. -/
theorem mem_remainder_styleValue {s : String} {c : Char}
    (h : c ∈ remainder (styleValue s).toList) : c ∈ "&amp;".toList ∨ keptInStyle c := by
  by_cases hb : isBlockedStyle s.toList
  · rw [toList_styleValue, if_pos hb] at h
    cases h
  · rw [toList_styleValue_of_not_blocked hb] at h
    -- trimming leaves a part of what the fields leave
    obtain ⟨b, e, hs, -, -⟩ := remainder_trimBlank (mapPlain styleChar (trimBlank s.toList))
    have hmem : c ∈ remainder (mapPlain styleChar (trimBlank s.toList)) := by
      rw [hs]
      exact List.mem_append_right b (List.mem_append_left e h)
    rw [remainder_mapPlain brace_not_mem_styleChar] at hmem
    obtain ⟨d, -, hd⟩ := List.mem_flatMap.1 hmem
    exact mem_styleChar hd

/-- A style value that is not dropped has the merge fields of its text. -/
theorem tokens_styleValue {s : String} (h : ¬ isBlockedStyle s.toList) :
    tokens (styleValue s) = tokens s := by
  rw [tokens_eq_map_fields, tokens_eq_map_fields, toList_styleValue_of_not_blocked h,
    fields_trimBlank, fields_mapPlain brace_not_mem_styleChar, fields_trimBlank]

/-! ## Confined values -/

/-- **A value that cannot leave its declaration.** -/
structure Confined (t : String) : Prop where
  /-- None of its characters ends a tag or a value or begins an escape. -/
  inert : ∀ c ∈ t.toList, c ≠ '<' ∧ c ≠ '>' ∧ c ≠ '"' ∧ c ≠ '\\'
  /-- Wherever an ampersand stands, a reference begins. -/
  ampersand : ∀ r, '&' :: r <:+ t.toList → "&amp;".toList <+: '&' :: r
  /-- Wherever a semicolon stands, a reference ends. -/
  semicolon : ∀ p, p ++ [';'] <+: t.toList → "&amp;".toList <:+ p ++ [';']
  /-- Read back, it has no semicolon that could end the declaration. -/
  decoded : ';' ∉ decode t.toList
  /-- The gaps between its merge fields have no braces and no control characters. -/
  gaps : ∀ g ∈ gaps t.toList, ∀ c ∈ g, c ≠ '\x7b' ∧ c ≠ '\x7d' ∧ ¬ isControl c

theorem confined_styleValue (s : String) : Confined (styleValue s) where
  inert := by
    intro c hc
    have hchar := mem_styleValue hc
    refine ⟨?_, ?_, ?_, ?_⟩ <;>
    · rintro rfl
      exact absurd hchar (by decide)
  ampersand _ := (contained_styleValue s).prefix_of_ampersand
  semicolon _ := (contained_styleValue s).suffix_of_semicolon
  decoded := (contained_styleValue s).semicolon_not_mem_decode
  gaps := by
    intro g hg c hc
    have hmem : c ∈ remainder (styleValue s).toList := by
      rw [← flatten_gaps]
      exact List.mem_flatten.2 ⟨g, hg, hc⟩
    have hchar := mem_remainder_styleValue hmem
    refine ⟨?_, ?_, not_isControl_of_mem hchar⟩ <;>
    · rintro rfl
      exact absurd hchar (by decide)

/-- **Every style value stays in its declaration.** It is empty if its text contains a blocked word,
and else has the merge fields of its text. -/
theorem styleValue_confined (s : String) :
    Confined (styleValue s) ∧
      ((∃ p ∈ blockedStyles, p.toList <:+: lowerChars s.toList) → styleValue s = "") ∧
      ((∀ p ∈ blockedStyles, ¬ p.toList <:+: lowerChars s.toList) →
        tokens (styleValue s) = tokens s) := by
  have hblocked : isBlockedStyle s.toList ↔
      ∃ p ∈ blockedStyles, p.toList <:+: lowerChars s.toList := by
    simp only [isBlockedStyle, List.any_eq_true, occurs_iff]
  refine ⟨confined_styleValue s, fun h => ?_, fun h => ?_⟩
  · rw [← String.toList_eq_nil_iff, toList_styleValue, if_pos (hblocked.2 h)]
  · refine tokens_styleValue fun hb => ?_
    obtain ⟨p, hp, hin⟩ := hblocked.1 hb
    exact h p hp hin

/-- A list of fonts with a merge field among what cleaning takes out and rewrites. -/
def authoredFonts : String :=
  " \"A&B\" \x7b;\x7b\x7bfont\x7d\x7d\x7d"

theorem styleValue_confined_authoredFonts :
    (Confined (styleValue authoredFonts) ∧ tokens (styleValue authoredFonts) = tokens authoredFonts) ∧
      styleValue "URL(a)" = "" := by
  obtain ⟨hconfined, -, htokens⟩ := styleValue_confined authoredFonts
  obtain ⟨-, hempty, -⟩ := styleValue_confined "URL(a)"
  exact ⟨⟨hconfined, htokens (by decide +kernel)⟩, hempty (by decide +kernel)⟩

end MailBlocks.Markup
