import MailBlocks.Email.Render
import MailBlocks.Proofs.LineBreaks

/-!
# Merge fields of authored text in the email

What a block shows as text stands in its row as it was escaped, all of it and in one piece. So the
merge fields of a text of one line come through, and of a text of several lines those without a line
feed.

* `infix_rowsOf_of_mem_multilineTexts`: the texts of several lines in the rows of a block.
* `tokens_multilineContent_eq_iff`: when content with line breaks keeps the merge fields.
* `multiline_fields_rendered`: the merge fields that stand in the email.
-/

namespace MailBlocks

/-- The texts that a block shows on as many lines as they have. -/
def Content.multilineTexts : Content → List String
  | header t | textBlock t => [t.text]
  | serviceOffer o => [o.title.text, o.details.text, o.disclaimer.text]
  | salesOffer o =>
    [o.vehicle.text, o.offer.text, o.details.text, o.mileage.text, o.disclaimer.text] ++
      o.additional.flatMap fun a => a.lines.map (·.text)
  | _ => []

/-- The texts that a block shows on one line. -/
def Content.lineTexts : Content → List String
  | button b => [b.text]
  | serviceOffer o => [o.coupon.text, o.button.text]
  | salesOffer o => [o.number.text, o.button.text]
  | _ => []

namespace Email

open Markup MergeField Text

/-! ## Tokens within tokens -/

theorem infix_flatMap {α β : Type} (f : α → List β) {x : α} {l : List α} (h : x ∈ l) :
    f x <:+: l.flatMap f := by
  rw [List.flatMap_def]
  exact List.infix_of_mem_flatten (List.mem_map_of_mem h)

section

variable {w content : List Token}

theorem infix_element (name : String) (attributes : List Attribute) (h : w <:+: content) :
    w <:+: element name attributes content := by
  unfold element
  rw [List.cons_append]
  exact List.infix_cons (List.infix_append_of_infix_left h)

theorem infix_row (attributes : List Attribute) (h : w <:+: content) :
    w <:+: row attributes content := by
  unfold row
  exact List.infix_append_of_infix_left (List.infix_append_of_infix_right h)

theorem infix_innerRow (attributes : List Attribute) (h : w <:+: content) :
    w <:+: innerRow attributes content :=
  infix_element _ _ (infix_element _ _ h)

theorem infix_layoutTable (attributes extra : List Attribute) (h : w <:+: content) :
    w <:+: layoutTable attributes extra content :=
  infix_element _ _ h

theorem infix_offerTable (h : w <:+: content) : w <:+: offerTable content :=
  infix_layoutTable _ _ h

theorem infix_offerRow (background : String) (h : w <:+: content) :
    w <:+: offerRow background content :=
  infix_row _ h

end

theorem infix_tableButton {theme : Theme} {b : TableButton} {v : String} (h : b.text = v) :
    line v <:+: tableButton theme b := by
  unfold tableButton
  rw [h]
  refine infix_layoutTable _ _ (infix_element _ _ (infix_element _ _ (infix_element _ _ ?_)))
  exact List.infix_refl _

theorem infix_dualButton (theme : Theme) (b : OfferButton) :
    line b.text <:+: dualButton theme b := by
  unfold dualButton
  refine List.infix_append_of_infix_left (List.infix_append_of_infix_right ?_)
  exact infix_element _ _ (List.infix_refl _)

/-! ## The parts of an offer -/

/-- What stands in the table of a service offer. -/
def serviceParts (theme : Theme) (o : ServiceOffer) : List (List Token) :=
  [serviceImage o, serviceLine theme "h2" "20px 20px 10px 20px" "bold" o.title,
    couponLine theme o.coupon, serviceLine theme "p" "10px 20px" "normal" o.details,
    serviceLine theme "p" "5px 20px 10px 20px" "normal" o.disclaimer, serviceButton theme o.button]

theorem serviceOfferRow_eq (theme : Theme) (o : ServiceOffer) :
    serviceOfferRow theme o =
      offerRow o.background (offerTable (serviceParts theme o).flatten) := by
  simp [serviceOfferRow, serviceParts]

/-- What stands in the table of the lines of a sales offer. -/
def salesParts (theme : Theme) (o : SalesOffer) : List (List Token) :=
  [salesLine theme o.vehicle, salesLine theme o.offer, salesLine theme o.details,
    o.additional.flatMap (additionalLines theme), numberLine theme o, salesLine theme o.mileage,
    salesLine theme o.disclaimer, salesButton theme o.button]

theorem salesLines_eq (theme : Theme) (o : SalesOffer) :
    salesLines theme o = offerTable (salesParts theme o).flatten := by
  simp [salesLines, salesParts]

theorem infix_serviceOfferRow {theme : Theme} {o : ServiceOffer} {p : List Token}
    (h : p ∈ serviceParts theme o) : p <:+: serviceOfferRow theme o := by
  rw [serviceOfferRow_eq]
  exact infix_offerRow _ (infix_offerTable (List.infix_of_mem_flatten h))

/-- The lines of a sales offer are in its row wherever its image stands. -/
theorem infix_salesLines (theme : Theme) (o : SalesOffer) :
    salesLines theme o <:+: salesOfferRow theme o := by
  have hside : salesLines theme o <:+: sideLines theme o := infix_element _ _ (List.infix_refl _)
  unfold salesOfferRow
  refine infix_offerRow _ ?_
  -- no image, or an image above, to the left or to the right
  split
  · exact List.infix_refl _
  · split
    · exact infix_offerTable (List.infix_append_of_infix_right
        (infix_innerRow _ (List.infix_refl _)))
    · exact infix_offerTable (infix_element _ _ (List.infix_append_of_infix_right hside))
    · exact infix_offerTable (infix_element _ _ (List.infix_append_of_infix_left hside))

theorem infix_salesOfferRow {theme : Theme} {o : SalesOffer} {p : List Token}
    (h : p ∈ salesParts theme o) : p <:+: salesOfferRow theme o := by
  refine List.IsInfix.trans ?_ (infix_salesLines theme o)
  rw [salesLines_eq]
  exact infix_offerTable (List.infix_of_mem_flatten h)

/-! ## The texts of a block -/

theorem infix_textRow {theme : Theme} {tag : String} {b : TextBlock} (h : ¬ blank b.text) :
    lines b.text <:+: textRow theme tag b := by
  unfold textRow
  rw [if_neg h]
  exact infix_row _ (infix_element _ _ (List.infix_refl _))

theorem infix_serviceLine {theme : Theme} {tag padding weight : String} {l : ServiceLine}
    (h : ¬ blank l.text) : lines l.text <:+: serviceLine theme tag padding weight l := by
  unfold serviceLine
  rw [if_neg h]
  exact infix_innerRow _ (infix_element _ _ (List.infix_refl _))

/-- A line of a service offer is in its row. -/
theorem infix_of_serviceLine_mem {theme : Theme} {tag padding weight : String} {o : ServiceOffer}
    {l : ServiceLine} (hl : serviceLine theme tag padding weight l ∈ serviceParts theme o)
    (h : ¬ blank l.text) : lines l.text <:+: serviceOfferRow theme o :=
  (infix_serviceLine h).trans (infix_serviceOfferRow hl)

theorem infix_salesLine {theme : Theme} {l : OfferLine} (h : ¬ blank l.text) :
    lines l.text <:+: salesLine theme l := by
  unfold salesLine
  rw [if_neg h]
  exact infix_innerRow _ (List.infix_refl _)

theorem infix_additionalLines {theme : Theme} {a : AdditionalOffer} {l : OfferLine}
    (h : l ∈ a.lines) : lines l.text <:+: additionalLines theme a := by
  have hline : lines l.text <:+: styledLine theme l.style (lines l.text) :=
    infix_innerRow _ (List.infix_refl _)
  have hmem := infix_flatMap (fun l => styledLine theme l.style (lines l.text)) h
  exact List.IsInfix.trans hline hmem

/-- **A text of several lines is in the row of its block**, unless it is blank. -/
theorem infix_rowsOf_of_mem_multilineTexts (theme : Theme) {c : Content} {v : String}
    (hv : v ∈ c.multilineTexts) (h : ¬ blank v) : lines v <:+: rowsOf theme c := by
  cases c with
  | header t =>
    obtain rfl := List.mem_singleton.1 hv
    exact infix_textRow h
  | textBlock t =>
    obtain rfl := List.mem_singleton.1 hv
    exact infix_textRow h
  | serviceOffer o =>
    change lines v <:+: serviceOfferRow theme o
    simp only [Content.multilineTexts, List.mem_cons, List.not_mem_nil, or_false] at hv
    obtain rfl | rfl | rfl := hv
    · exact infix_of_serviceLine_mem (.tail _ (.head _)) h
    · exact infix_of_serviceLine_mem (.tail _ (.tail _ (.tail _ (.head _)))) h
    · exact infix_of_serviceLine_mem (.tail _ (.tail _ (.tail _ (.tail _ (.head _))))) h
  | salesOffer o =>
    change lines v <:+: salesOfferRow theme o
    -- the five lines first, then those of the additional offers
    have hline : ∀ l, salesLine theme l ∈ salesParts theme o → ¬ blank l.text →
        lines l.text <:+: salesOfferRow theme o :=
      fun l hl hb => (infix_salesLine hb).trans (infix_salesOfferRow hl)
    rcases List.mem_append.1 hv with hv | hv
    · simp only [List.mem_cons, List.not_mem_nil, or_false] at hv
      obtain rfl | rfl | rfl | rfl | rfl := hv <;>
        exact hline _ (by simp [salesParts]) h
    · obtain ⟨a, ha, hv⟩ := List.mem_flatMap.1 hv
      obtain ⟨l, hl, rfl⟩ := List.mem_map.1 hv
      have hrow : o.additional.flatMap (additionalLines theme) <:+: salesOfferRow theme o :=
        infix_salesOfferRow (by simp [salesParts])
      exact ((infix_additionalLines hl).trans (infix_flatMap _ ha)).trans hrow
  | image _ | button _ | divider _ | spacer _ | unknown _ => simp [Content.multilineTexts] at hv

/-- **A text of one line is in the row of its block**, unless it is blank; the number of a vehicle is
there without the blanks around it. -/
theorem infix_rowsOf_of_mem_lineTexts (theme : Theme) {c : Content} {v : String}
    (hv : v ∈ c.lineTexts) (h : ¬ blank v) :
    ∃ w, (w = v ∨ w = trim v) ∧ line w <:+: rowsOf theme c := by
  cases c with
  | button b =>
    obtain rfl := List.mem_singleton.1 hv
    refine ⟨b.text, .inl rfl, ?_⟩
    change line b.text <:+: buttonRow theme b
    unfold buttonRow
    rw [if_neg h]
    exact infix_row _ (infix_tableButton rfl)
  | serviceOffer o =>
    simp only [Content.lineTexts, List.mem_cons, List.not_mem_nil, or_false] at hv
    obtain rfl | rfl := hv
    · refine ⟨o.coupon.text, .inl rfl, List.IsInfix.trans ?_
        (infix_serviceOfferRow (.tail _ (.tail _ (.head _))))⟩
      unfold couponLine
      rw [if_neg h]
      exact infix_innerRow _ (infix_layoutTable _ _ (infix_innerRow _ (List.infix_refl _)))
    · refine ⟨o.button.text, .inl rfl, List.IsInfix.trans ?_
        (infix_serviceOfferRow (by simp [serviceParts] : serviceButton theme o.button ∈ _))⟩
      unfold serviceButton
      rw [if_neg h]
      exact infix_innerRow _ (List.infix_append_of_infix_left
        (List.infix_cons (infix_dualButton _ _)))
  | salesOffer o =>
    simp only [Content.lineTexts, List.mem_cons, List.not_mem_nil, or_false] at hv
    obtain rfl | rfl := hv
    · refine ⟨trim o.number.text, .inr rfl, List.IsInfix.trans ?_
        (infix_salesOfferRow (by simp [salesParts] : numberLine theme o ∈ _))⟩
      unfold numberLine
      rw [if_neg h]
      exact infix_innerRow _ (List.infix_cons (List.infix_refl _))
    · refine ⟨o.button.text, .inl rfl, List.IsInfix.trans ?_
        (infix_salesOfferRow (by simp [salesParts] : salesButton theme o.button ∈ _))⟩
      unfold salesButton
      rw [if_neg h]
      exact infix_innerRow _ (infix_tableButton rfl)
  | header _ | textBlock _ | image _ | divider _ | spacer _ | unknown _ =>
    simp [Content.lineTexts] at hv

/-! ## The email -/

theorem infix_printAll {w ts : List Token} (h : w <:+: ts) :
    (printAll w).toList <:+: (printAll ts).toList := by
  obtain ⟨a, b, rfl⟩ := h
  rw [toList_printAll, toList_printAll, List.flatMap_append, List.flatMap_append]
  exact List.infix_append _ _ _

/-- What the row of a block shows is in the email. -/
theorem infix_render {d : Document} {s : DesignSettings} {b : Block} (hb : b ∈ d.blocks)
    {w : List Token} (hne : w ≠ []) (h : w <:+: rowsOf (Theme.ofSettings s) b.content) :
    (printAll w).toList <:+: (render d s).toList := by
  have hrows := h.trans (infix_flatMap (fun b => rowsOf (Theme.ofSettings s) b.content) hb)
  -- so the rows are shown, and not the one for empty documents
  have hempty : (d.blocks.flatMap fun b => rowsOf (Theme.ofSettings s) b.content) ≠ [] := by
    intro he
    rw [he] at hrows
    exact hne (List.infix_nil.1 hrows)
  refine infix_printAll ?_
  change w <:+: shell (Theme.ofSettings s) _
  unfold shell
  rw [if_neg (by rwa [List.isEmpty_iff])]
  exact List.infix_append_of_infix_left (List.infix_append_of_infix_right hrows)

theorem lines_ne_nil (v : String) : lines v ≠ [] := by
  unfold lines
  have h := splitAt_ne_nil '\n' (mapPlain contentChar (unixLines v.toList))
  obtain ⟨x, xs, hx⟩ := List.exists_cons_of_ne_nil h
  rw [hx]
  cases xs <;> simp

/-- A merge field is a run of the text. -/
theorem infix_of_mem_tokens {v t : String} (h : t ∈ MergeField.tokens v) :
    t.toList <:+: v.toList := by
  rw [tokens_eq_map_fields] at h
  obtain ⟨f, hf, rfl⟩ := List.mem_map.1 h
  obtain ⟨p, hp, he⟩ := List.mem_filterMap.1 hf
  cases p with
  | plain c => simp at he
  | field x =>
    obtain rfl : x = f := by simpa using he
    have hx := infix_flatMap Part.chars hp
    rw [flatMap_chars_parts] at hx
    rwa [String.toList_ofList]

/-- A text with a merge field is not blank. -/
theorem not_blank_of_mem_tokens {v t : String} (h : t ∈ MergeField.tokens v) : ¬ blank v := by
  intro hb
  rw [tokens_eq_map_fields] at h
  obtain ⟨f, hf, rfl⟩ := List.mem_map.1 h
  have hclose : '\x7d' ∉ v.toList := fun hm => by
    have := List.all_eq_true.1 hb _ hm
    exact absurd this (by decide)
  rw [fields_of_not_mem_close hclose] at hf
  simp at hf

theorem tokens_trim (v : String) : MergeField.tokens (trim v) = MergeField.tokens v := by
  rw [tokens_eq_map_fields, tokens_eq_map_fields, trim, String.toList_ofList, fields_trimBlank]

/-- **When content with line breaks keeps the merge fields** of its text. -/
theorem tokens_multilineContent_eq_iff (v : String) :
    MergeField.tokens (multilineContent v) = MergeField.tokens v ↔
      ∀ t ∈ MergeField.tokens v, '\n' ∉ t.toList := by
  rw [tokens_multilineContent, List.filter_eq_self]
  simp

/-- **The merge fields that come through**: content with line breaks keeps all of them exactly if
none has a line feed, and in the email stand those without one, and all those of the texts of one
line. -/
theorem multiline_fields_rendered (v : String) (d : Document) (s : DesignSettings) :
    (MergeField.tokens (multilineContent v) = MergeField.tokens v ↔
      ∀ t ∈ MergeField.tokens v, '\n' ∉ t.toList) ∧
    ∀ b ∈ d.blocks,
      (∀ text ∈ b.content.multilineTexts, ∀ t ∈ MergeField.tokens text, '\n' ∉ t.toList →
        t.toList <:+: (render d s).toList) ∧
      ∀ text ∈ b.content.lineTexts, ∀ t ∈ MergeField.tokens text,
        t.toList <:+: (render d s).toList := by
  refine ⟨tokens_multilineContent_eq_iff v, fun b hb => ⟨?_, ?_⟩⟩
  · intro text htext t ht hn
    have hin := infix_rowsOf_of_mem_multilineTexts (Theme.ofSettings s) htext
      (not_blank_of_mem_tokens ht)
    have hmem : t ∈ MergeField.tokens (multilineContent text) := by
      rw [tokens_multilineContent]
      exact List.mem_filter.2 ⟨ht, decide_eq_true hn⟩
    have hout := infix_render hb (lines_ne_nil text) hin
    rw [printAll_lines] at hout
    exact (infix_of_mem_tokens hmem).trans hout
  · intro text htext t ht
    obtain ⟨w, hw, hin⟩ := infix_rowsOf_of_mem_lineTexts (Theme.ofSettings s) htext
      (not_blank_of_mem_tokens ht)
    have hmem : t ∈ MergeField.tokens (elementContent w) := by
      rw [tokens_elementContent]
      rcases hw with rfl | rfl
      · exact ht
      · rwa [tokens_trim]
    have hout := infix_render hb (by simp [line]) hin
    have hline : printAll (line w) = elementContent w := by simp [printAll, line, Token.print]
    rw [hline] at hout
    exact (infix_of_mem_tokens hmem).trans hout

/-- A line feed in a merge field becomes an element, and the field is gone. -/
theorem multiline_field_lost :
    ¬ ∀ v, MergeField.tokens (multilineContent v) = MergeField.tokens v := by
  intro h
  exact absurd (h "\x7b\x7b\na\x7d\x7d") (by decide)

end Email

end MailBlocks
