import MailBlocks.Proofs.AuthoredText
import MailBlocks.Proofs.FieldGaps
import MailBlocks.Proofs.Reports
import MailBlocks.Proofs.SettledBlocks

/-!
# Braces left over from merge fields

A text with unbalanced braces has double braces that belong to no merge field. The rule on merge
fields looks at every attribute but the stored list of additional offers, and so at every text that
a block shows except those of additional offers.

* `MergeField.unbalanced_trim`: blanks around a text do not matter.
* `Content.freeTexts`: the texts of a block with their keys.
* `Content.freeTexts_ofKind`: where they come from.
* `check_freeTexts`: leftover braces that are reported, and the list that is not looked at.
-/

namespace MailBlocks

section

variable {α : Type} {p b s e : List α}

/-- A run is not found in what it has no element of. -/
theorem infix_append_left_iff (h : ∀ x ∈ p, x ∉ b) : p <:+: b ++ s ↔ p <:+: s := by
  refine ⟨fun hp => ?_, List.infix_append_of_infix_right⟩
  -- a run that is not all behind begins in what is in front
  rcases List.infix_append_iff.1 hp with hb | hs | ⟨l, r, rfl, hl, hr⟩
  · cases p with
    | nil => exact List.nil_infix
    | cons x p => exact absurd (hb.subset List.mem_cons_self) (h x List.mem_cons_self)
  · exact hs
  · cases l with
    | nil => exact hr.isInfix
    | cons x l => exact absurd (hl.subset List.mem_cons_self) (h x List.mem_cons_self)

theorem infix_append_right_iff (h : ∀ x ∈ p, x ∉ e) : p <:+: s ++ e ↔ p <:+: s := by
  rw [← List.reverse_infix, List.reverse_append, infix_append_left_iff, List.reverse_infix]
  intro x hx he
  exact h x (List.mem_reverse.1 hx) (List.mem_reverse.1 he)

end

namespace MergeField

open Text

/-! ## Unbalanced braces -/

/-- Without braces there are none to be left over. -/
theorem unbalanced_of_not_mem {s : String} (hopen : '\x7b' ∉ s.toList)
    (hclose : '\x7d' ∉ s.toList) : unbalanced s = false := by
  rw [Bool.eq_false_iff, Ne, unbalanced_iff, remainder_of_not_mem_close hclose]
  rintro (h | h)
  · exact hopen (h.subset List.mem_cons_self)
  · exact hclose (h.subset List.mem_cons_self)

/-- **Blanks around a text do not matter** to whether its braces are balanced. -/
theorem unbalanced_trim (s : String) : unbalanced (trim s) = unbalanced s := by
  obtain ⟨b, e, hs, hb, he⟩ := remainder_trimBlank s.toList
  -- a pair that is not of blanks is found without them if it is found with them
  have hinfix : ∀ c, isBlank c = false →
      ([c, c] <:+: remainder s.toList ↔ [c, c] <:+: remainder (trimBlank s.toList)) := by
    intro c hc
    have hout : ∀ l : List Char, (∀ x ∈ l, isBlank x) → ∀ x ∈ [c, c], x ∉ l := by
      intro l hl x hx hmem
      have hxc : x = c := by simpa using hx
      rw [← hxc, hl x hmem] at hc
      exact absurd hc (by decide)
    rw [hs, infix_append_left_iff (hout b hb), infix_append_right_iff (hout e he)]
  rw [Bool.eq_iff_iff, unbalanced_iff, unbalanced_iff, trim, String.toList_ofList,
    hinfix _ (by decide), hinfix _ (by decide)]

end MergeField

/-! ## The texts of blocks -/

/-- **The free texts of a block** with the keys that they have in bags: what it shows as text, texts
in place of images, and the lengths of dividers, which are written as they were given. -/
def Content.freeTexts : Content → List (String × String)
  | header t | textBlock t => [("text", t.text)]
  | image i => [("alt", i.alt)]
  | button b => [("text", b.text)]
  | divider d => [("width", d.width), ("thickness", d.thickness)]
  | serviceOffer o =>
    [("imageAlt", o.imageAlt), ("title", o.title.text), ("couponText", o.coupon.text),
      ("details", o.details.text), ("disclaimer", o.disclaimer.text), ("buttonText", o.button.text)]
  | salesOffer o =>
    [("imageAlt", o.imageAlt), ("vehicle", o.vehicle.text), ("offer", o.offer.text),
      ("details", o.details.text), ("stockVinValue", o.number.text), ("mileage", o.mileage.text),
      ("disclaimer", o.disclaimer.text), ("buttonText", o.button.text)]
  | _ => []

/-- The texts of the additional offers of a block. -/
def Content.additionalTexts : Content → List String
  | salesOffer o => o.additional.flatMap fun a => a.lines.map (·.text)
  | _ => []

/-- The texts in the rows of a block are free texts and those of additional offers. -/
theorem Content.mem_freeTexts {c : Content} {text : String}
    (h : text ∈ c.multilineTexts ++ c.lineTexts) :
    text ∈ c.freeTexts.map Prod.snd ∨ text ∈ c.additionalTexts := by
  cases c with
  | salesOffer o =>
    simp only [multilineTexts, lineTexts, List.append_assoc, List.mem_append] at h
    rcases h with h | h | h
    · simp only [List.mem_cons, List.not_mem_nil, or_false] at h
      rcases h with rfl | rfl | rfl | rfl | rfl <;> simp [freeTexts]
    · exact .inr h
    · simp only [List.mem_cons, List.not_mem_nil, or_false] at h
      rcases h with rfl | rfl <;> simp [freeTexts]
  | serviceOffer o =>
    simp only [multilineTexts, lineTexts, List.mem_append, List.mem_cons, List.not_mem_nil,
      or_false] at h
    rcases h with (rfl | rfl | rfl) | rfl | rfl <;> simp [freeTexts]
  | header t | textBlock t | button b =>
    exact .inl h
  | image | divider | spacer | unknown => cases h

/-- **Where free texts come from**: each is the text that the bag has under its key, or that of new
content. -/
theorem Content.freeTexts_ofKind (fresh : FreshIds) (b : Bag) (k : Kind) :
    (ofKind fresh b k).freeTexts =
      (new k).freeTexts.map fun t => (t.1, (b.get? t.1).getD t.2) := by
  have hread : ∀ key fallback, b.read .text key fallback = (b.get? key).getD fallback := by
    intro key fallback
    unfold Bag.read
    cases b.get? key <;> rfl
  simp only [← hread]
  cases k with
  | header | textBlock =>
    rw [ofKind, TextBlock.read_slots]
    rfl
  | image =>
    rw [ofKind, ImageBlock.read_slots]
    rfl
  | button =>
    rw [ofKind, ButtonBlock.read_slots]
    rfl
  | divider =>
    rw [ofKind, DividerBlock.read_slots]
    rfl
  | spacer => rfl
  | serviceOffer =>
    rw [ofKind, ServiceOffer.read_slots, ServiceLine.read_slots, ServiceLine.read_slots,
      ServiceLine.read_slots, Coupon.read_slots, OfferButton.read_slots]
    rfl
  | salesOffer =>
    rw [ofKind, SalesOffer.read_slots]
    simp only [OfferLine.read_slots, OfferButton.read_slots]
    rfl

/-- There are no braces in new content. -/
theorem Content.not_unbalanced_of_mem_new {k : Kind} {t : String × String}
    (h : t ∈ (new k).freeTexts) : MergeField.unbalanced t.2 = false := by
  have hall : ∀ k ∈ Kind.all, ∀ t ∈ (new k).freeTexts,
      '\x7b' ∉ t.2.toList ∧ '\x7d' ∉ t.2.toList := by
    decide +kernel
  obtain ⟨hopen, hclose⟩ := hall k (by cases k <;> decide) t h
  exact MergeField.unbalanced_of_not_mem hopen hclose

/-- **A free text with unbalanced braces is stored** in the bag that it was read from. -/
theorem Content.get?_of_unbalanced {fresh : FreshIds} {type : String} {b : Bag}
    {t : String × String} (ht : t ∈ (ofBag fresh type b).freeTexts)
    (h : MergeField.unbalanced t.2 = true) : b.get? t.1 = some t.2 := by
  unfold ofBag at ht
  cases hk : Kind.ofName? type with
  | none => simp [hk, freeTexts] at ht
  | some k =>
    rw [hk] at ht
    change t ∈ (ofKind fresh b k).freeTexts at ht
    rw [freeTexts_ofKind] at ht
    obtain ⟨new, hnew, rfl⟩ := List.mem_map.1 ht
    cases hstored : b.get? new.1 with
    | some text => rfl
    | none =>
      -- the text would be that of new content
      rw [hstored, Option.getD_none, not_unbalanced_of_mem_new hnew] at h
      cases h

theorem Content.key_ne_of_mem_freeTexts {c : Content} {t : String × String} (h : t ∈ c.freeTexts) :
    t.1 ≠ "additionalOffers" := by
  have hkeys : ∀ key ∈ c.freeTexts.map Prod.fst, key ≠ "additionalOffers" := by
    cases c <;> simp [freeTexts]
  exact hkeys t.1 (List.mem_map_of_mem h)

/-! ## Reports -/

namespace Lint

/-- The stored list of additional offers is not looked at. -/
theorem mergeField_set_additionalOffers (c : Component) (stored : String) :
    mergeField [c.set "additionalOffers" stored] = mergeField [c] := by
  rw [mergeField, mergeField, List.flatMap_singleton, List.flatMap_singleton]
  exact Keyed.filterMap_insert (fun _ => rfl) stored c.data.entries

/-- **A stored text with unbalanced braces is reported**, under any key but that of the list of
additional offers. -/
theorem exists_mergeField_of_unbalanced (mode : Mode) {p : Project} {c : Component}
    (hc : c ∈ p.components) {key text : String} (hstored : c.data.get? key = some text)
    (hkey : key ≠ "additionalOffers") (h : MergeField.unbalanced text = true) :
    ∃ v ∈ (check mode p).violations, v.rule = "merge_field" ∧ v.IsOf c ∧
      v.message = key ++ " contains an incomplete merge field" ∧ v.actual = some text := by
  obtain ⟨v, hv⟩ : ∃ v : Violation, v = ⟨"merge_field", .info,
      key ++ " contains an incomplete merge field", some c.id, some text,
      ["Merge fields look like \x7b\x7brecipient.first_name\x7d\x7d"]⟩ := ⟨_, rfl⟩
  have hsingle : v ∈ mergeField [c] := mem_mergeField_iff.2
    ⟨c, List.mem_singleton_self c, key, text, Keyed.mem_of_get? hstored, hkey, h, hv⟩
  have hrule : mergeField ∈ rules.tail := by simp [rules]
  have hall : v ∈ mergeField p.components :=
    (mem_iff_exists_singleton hrule).2 ⟨c, hc, hsingle⟩
  obtain ⟨hreport, hname⟩ :=
    (mem_check_and_rule mode (List.mem_of_mem_tail mergeField_mem_named)).2 hall
  exact ⟨v, hreport, hname, ⟨mergeField, hrule, hsingle⟩, by rw [hv], by rw [hv]⟩

end Lint

/-- **Leftover braces are reported.** For each free text of a component that has unbalanced braces,
with or without the blanks around it, the report has a violation of that component which names the
text and its key. The free texts are all texts in the rows of a block but those of additional
offers, whose stored list the rule does not look at. -/
theorem check_freeTexts (mode : Lint.Mode) (p : Project) (fresh : FreshIds) :
    (∀ c ∈ p.components, ∀ t ∈ (Block.ofComponent fresh c).content.freeTexts,
      MergeField.unbalanced t.2 = true ∨ MergeField.unbalanced (Text.trim t.2) = true →
        ∃ v ∈ (Lint.check mode p).violations, v.rule = "merge_field" ∧ v.IsOf c ∧
          v.component = some c.id ∧
          v.message = t.1 ++ " contains an incomplete merge field" ∧ v.actual = some t.2) ∧
    (∀ c : Content, ∀ text ∈ c.multilineTexts ++ c.lineTexts,
      text ∈ c.freeTexts.map Prod.snd ∨ text ∈ c.additionalTexts) ∧
    ∀ c stored, Lint.mergeField [c.set "additionalOffers" stored] = Lint.mergeField [c] := by
  refine ⟨fun c hc t ht h => ?_, fun c text => Content.mem_freeTexts,
    Lint.mergeField_set_additionalOffers⟩
  rw [MergeField.unbalanced_trim, or_self] at h
  have hstored := Content.get?_of_unbalanced ht h
  have hkey := Content.key_ne_of_mem_freeTexts ht
  obtain ⟨v, hv, hrule, hof, hmessage⟩ :=
    Lint.exists_mergeField_of_unbalanced mode hc hstored hkey h
  exact ⟨v, hv, hrule, hof, hof.component, hmessage⟩

/-- A text block with braces left over. -/
def unclosedText : Component :=
  ⟨"1", "text_block", .ofList [("text", " Hi \x7b\x7bname\x7d")]⟩

/-- A sales offer with braces left over in an additional offer. -/
def unclosedOffer : Component :=
  ⟨"2", "sales_offer", .ofList [("additionalOffers", "[\x7b\"offer\":\"\x7b\x7ba\"\x7d]")]⟩

/-- A project of the two. -/
def unclosedFields : Project :=
  .new .standard [unclosedText, unclosedOffer]

/-- The text block is reported, and the text of the additional offer is no free text. -/
theorem check_freeTexts_unclosedFields :
    (∃ v ∈ (Lint.check .warn unclosedFields).violations, v.rule = "merge_field" ∧
      v.IsOf unclosedText ∧ v.message = "text contains an incomplete merge field") ∧
    "\x7b\x7ba" ∈ (Block.ofComponent (fun _ => default) unclosedOffer).content.additionalTexts := by
  obtain ⟨hreported, hshown, -⟩ := check_freeTexts .warn unclosedFields fun _ => default
  obtain ⟨v, hv, hrule, hof, -, hmessage, -⟩ :=
    hreported unclosedText List.mem_cons_self ("text", " Hi \x7b\x7bname\x7d") (by decide +kernel)
      (.inl (by decide))
  have hadditional :=
    hshown (Block.ofComponent (fun _ => default) unclosedOffer).content "\x7b\x7ba"
      (by decide +kernel)
  exact ⟨⟨v, hv, hrule, hof, hmessage⟩, hadditional.resolve_left (by decide +kernel)⟩

/-- The text of an additional offer is in the rows of its block, and no rule looks at its braces. -/
theorem additional_braces_unreported :
    ¬ ∀ (mode : Lint.Mode) (p : Project) (fresh : FreshIds), ∀ c ∈ p.components,
      ∀ text ∈ (Block.ofComponent fresh c).content.multilineTexts ++
          (Block.ofComponent fresh c).content.lineTexts,
        MergeField.unbalanced text = true →
          ∃ v ∈ (Lint.check mode p).violations, v.rule = "merge_field" ∧
            v.component = some c.id := by
  intro h
  have hquiet : ∀ v ∈ (Lint.check .warn unclosedFields).violations,
      v.rule = "merge_field" → v.component ≠ some "2" := by
    decide +kernel
  have hoffer : unclosedOffer ∈ unclosedFields.components := by decide
  obtain ⟨v, hv, hrule, hid⟩ :=
    h .warn unclosedFields (fun _ => default) unclosedOffer hoffer "\x7b\x7ba" (by decide +kernel)
      (by decide)
  exact hquiet v hv hrule hid

end MailBlocks
