import MailBlocks.Proofs.SeenButtons

/-!
# What is seen of rows

Every row of an email shows what was authored, in the order in which it was authored. All engines
see the same texts and the same links, but for the buttons of service offers.

* `Content.visibleText`: the text that a block shows.
* `Content.sight`: all that an engine sees of a block.
* `seesRow_rowsOf`: the row of a block shows that sight.
-/

namespace MailBlocks

open Email Markup Text

/-! ## What is expected -/

/-- The characters of a text that is shown unless it is blank. -/
def shown (s : String) : List Char :=
  if blank s then [] else s.toList

/-- The text of a service offer: title, coupon, details, disclaimer and button. -/
def ServiceOffer.visibleText (o : ServiceOffer) : List Char :=
  shown o.title.text ++ shown o.coupon.text ++ shown o.details.text ++ shown o.disclaimer.text ++
    shown o.button.text

/-- The text of an additional offer, whose lines are all shown. -/
def AdditionalOffer.visibleText (a : AdditionalOffer) : List Char :=
  a.separator.text.toList ++ a.offer.text.toList ++ a.details.text.toList ++
    a.disclaimer.text.toList

/-- The number of the vehicle behind its label. -/
def SalesOffer.visibleNumber (o : SalesOffer) : List Char :=
  if blank o.number.text then []
  else
    (match o.numberKind with
      | .stock => "Stock #: "
      | .vin => "VIN: ").toList ++ (trim o.number.text).toList

/-- The text of a sales offer: its lines, those of its additional offers among them, and its
button. -/
def SalesOffer.visibleText (o : SalesOffer) : List Char :=
  shown o.vehicle.text ++ shown o.offer.text ++ shown o.details.text ++
    o.additional.flatMap AdditionalOffer.visibleText ++ o.visibleNumber ++ shown o.mileage.text ++
    shown o.disclaimer.text ++ shown o.button.text

namespace Content

/-- **The text that a block shows.** Dividers and spacers show a blank that does not break. -/
def visibleText : Content → List Char
  | header t | textBlock t => shown t.text
  | button b => shown b.text
  | divider _ | spacer _ => ['\u00a0']
  | serviceOffer o => o.visibleText
  | salesOffer o => o.visibleText
  | image _ | unknown _ => []

/-- Whether a block is a button that is shown. -/
def isButton : Content → Bool
  | button b => !blank b.text
  | _ => false

/-- Whether a block is a sales offer with a button that is shown. -/
def hasSalesButton : Content → Bool
  | salesOffer o => !blank o.button.text
  | _ => false

/-- Whether a block is a service offer with a button that is shown. -/
def hasServiceButton : Content → Bool
  | serviceOffer o => !blank o.button.text
  | _ => false

/-- Whether a block shows an image with a link. -/
def hasLinkedImage : Content → Bool
  | image i => !blank i.source && !blank i.link
  | salesOffer o => o.showImage && !blank o.imageUrl && !blank o.imageLink
  | _ => false

/-- The faces of the buttons in two forms that a block shows. -/
def faces (theme : Theme) : Content → List Face
  | serviceOffer o => if blank o.button.text then [] else [buttonFace theme o.button]
  | _ => []

/-- **What an engine sees of a block.** -/
def sight (e : Engine) (theme : Theme) (c : Content) : Sight :=
  let plain := c.isButton.toNat + c.hasSalesButton.toNat + c.hasLinkedImage.toNat
  match e with
  | .standard =>
    ⟨unbroken c.visibleText, plain + c.hasServiceButton.toNat, c.faces theme, []⟩
  | .legacy => ⟨unbroken c.visibleText, plain, [], (c.faces theme).map some⟩

end Content

namespace Email

variable {e : Engine} {theme : Theme}

/-- **A row of the content table that shows a sight**, or no row and nothing to see. -/
def SeesRow (e : Engine) (ts : List Token) (x : Sight) : Prop :=
  (ts = [] ∧ x = .none) ∨
    ∃ attributes content, ts = row attributes content ∧ Sees e content x

/-- What is left out if a text is blank shows the text. -/
theorem sees_unless_blank {s : String} {ts : List Token} (h : Sees e ts (.ofText s.toList)) :
    Sees e (if blank s then [] else ts) (.ofText (shown s)) := by
  unfold shown
  split
  · exact Sees.nil
  · exact h

theorem seesRow_unless_blank {s : String} {x : Sight} {attributes : List Attribute}
    {content : List Token} (h : Sees e content x) :
    SeesRow e (if blank s then [] else row attributes content) (if blank s then .none else x) := by
  by_cases hb : blank s
  · rw [if_pos hb, if_pos hb]
    exact .inl ⟨rfl, rfl⟩
  · rw [if_neg hb, if_neg hb]
    exact .inr ⟨_, _, rfl, h⟩

theorem ofText_shown (s : String) :
    Sight.ofText (shown s) = if blank s then .none else .ofText s.toList := by
  unfold shown
  split <;> rfl

/-! ## Texts, images, dividers and spacers -/

theorem seesRow_textRow {tag : String} (htag : tag ≠ "a" ∧ tag ≠ "v:roundrect") (b : TextBlock) :
    SeesRow e (textRow theme tag b) (.ofText (shown b.text)) := by
  rw [ofText_shown]
  exact seesRow_unless_blank ((Sees.lines b.text).element _ htag)

theorem seesRow_imageRow (b : ImageBlock) :
    SeesRow e (imageRow b) ⟨[], (!blank b.source && !blank b.link).toNat, [], []⟩ := by
  have hsight : (⟨[], (!blank b.source && !blank b.link).toNat, [], []⟩ : Sight) =
      if blank b.source then .none else ⟨[], (!blank b.link).toNat, [], []⟩ := by
    cases blank b.source <;> rfl
  rw [hsight]
  exact seesRow_unless_blank (sees_linked b.link (Sees.empty "img" _ (by decide)))

/-- The blank of dividers and spacers. -/
theorem sees_nbsp : Sees e [.text "&nbsp;"] (.ofText ['\u00a0']) :=
  Sees.text fun _ => rfl

theorem seesRow_dividerRow (b : DividerBlock) :
    SeesRow e (dividerRow b) (.ofText ['\u00a0']) :=
  .inr ⟨_, _, rfl, ((sees_nbsp.element _ (by decide)).element _ (by decide)).element _
    (by decide)⟩

theorem seesRow_spacerRow (b : SpacerBlock) : SeesRow e (spacerRow b) (.ofText ['\u00a0']) :=
  .inr ⟨_, _, rfl, sees_nbsp⟩

theorem seesRow_buttonRow (b : ButtonBlock) :
    SeesRow e (buttonRow theme b) ⟨unbroken (shown b.text), (!blank b.text).toNat, [], []⟩ := by
  have hsight : (⟨unbroken (shown b.text), (!blank b.text).toNat, [], []⟩ : Sight) =
      if blank b.text then .none else ⟨unbroken b.text.toList, 1, [], []⟩ := by
    unfold shown
    cases blank b.text <;> rfl
  rw [hsight]
  exact seesRow_unless_blank (sees_tableButton _)

/-! ## Service offers -/

theorem sees_innerRow {content : List Token} {x : Sight} (h : Sees e content x)
    (attributes : List Attribute) : Sees e (innerRow attributes content) x :=
  (h.element attributes (by decide)).element [] (by decide)

theorem sees_offerTable {content : List Token} {x : Sight} (h : Sees e content x) :
    Sees e (offerTable content) x :=
  h.element _ (by decide)

theorem sees_offerImage (url alt : String) (width : Nat) :
    Sees e [offerImage url alt width] .none :=
  Sees.empty "img" _ (by decide)

theorem sees_serviceLine {tag : String} (htag : tag ≠ "a" ∧ tag ≠ "v:roundrect")
    (padding weight : String) (l : ServiceLine) :
    Sees e (serviceLine theme tag padding weight l) (.ofText (shown l.text)) :=
  sees_unless_blank (sees_innerRow ((Sees.lines l.text).element _ htag) _)

theorem sees_couponLine (c : Coupon) : Sees e (couponLine theme c) (.ofText (shown c.text)) :=
  sees_unless_blank
    (sees_innerRow ((sees_innerRow (Sees.line c.text) _).element _ (by decide)) _)

theorem sees_serviceImage (o : ServiceOffer) : Sees e (serviceImage o) (.ofText []) := by
  unfold serviceImage
  split
  · exact sees_innerRow (sees_offerImage _ _ _) _
  · exact Sees.nil

/-- The button of a service offer has a form for each engine. -/
theorem sees_serviceButton (b : OfferButton) :
    Sees e (serviceButton theme b)
      (if blank b.text then .none
        else dualSight e (buttonFace theme b) (unbroken b.text.toList)) := by
  unfold serviceButton
  by_cases hb : blank b.text
  · rw [if_pos hb, if_pos hb]
    exact Sees.nil
  · rw [if_neg hb, if_neg hb]
    have hbutton : Sees e (dualButton theme b) _ := sees_dualButton b
    have hall := (Sees.newline.append hbutton).append Sees.newline
    rw [Sight.none_append, Sight.append_none] at hall
    exact sees_innerRow hall _

/-- **The row of a service offer is seen** as its lines and its button. -/
theorem seesRow_serviceOfferRow (o : ServiceOffer) :
    SeesRow e (serviceOfferRow theme o) ((Content.serviceOffer o).sight e theme) := by
  have hlines : Sees e
      (serviceImage o ++ serviceLine theme "h2" "20px 20px 10px 20px" "bold" o.title ++
        couponLine theme o.coupon ++ serviceLine theme "p" "10px 20px" "normal" o.details ++
        serviceLine theme "p" "5px 20px 10px 20px" "normal" o.disclaimer)
      (.ofText ([] ++ shown o.title.text ++ shown o.coupon.text ++ shown o.details.text ++
        shown o.disclaimer.text)) :=
    ((((sees_serviceImage o).append_text (sees_serviceLine (by decide) _ _ _)).append_text
      (sees_couponLine _)).append_text (sees_serviceLine (by decide) _ _ _)).append_text
      (sees_serviceLine (by decide) _ _ _)
  have hbutton : Sees e (serviceButton theme o.button) _ := sees_serviceButton o.button
  have hsight : (Content.serviceOffer o).sight e theme =
      .ofText ([] ++ shown o.title.text ++ shown o.coupon.text ++ shown o.details.text ++
        shown o.disclaimer.text) ++ if blank o.button.text then .none
          else dualSight e (buttonFace theme o.button) (unbroken o.button.text.toList) := by
    by_cases hb : blank o.button.text <;> cases e <;>
      simp [Content.sight, Content.visibleText, ServiceOffer.visibleText, Content.isButton,
        Content.hasSalesButton, Content.hasLinkedImage, Content.hasServiceButton, Content.faces,
        Sight.append_def, Sight.ofText, Sight.none, dualSight, shown, unbroken_append, hb]
  rw [hsight]
  exact .inr ⟨_, _, rfl, sees_offerTable (hlines.append hbutton)⟩

/-! ## Sales offers -/

theorem sees_styledLine {content : List Token} {x : Sight} (h : Sees e content x) (s : LineStyle) :
    Sees e (styledLine theme s content) x :=
  sees_innerRow h _

theorem sees_salesLine (l : OfferLine) : Sees e (salesLine theme l) (.ofText (shown l.text)) :=
  sees_unless_blank (sees_styledLine (Sees.lines l.text) l.style)

/-- All lines of an additional offer are seen. -/
theorem sees_additionalLines (a : AdditionalOffer) :
    Sees e (additionalLines theme a) (.ofText a.visibleText) := by
  have hlines : Sees e (additionalLines theme a)
      (.ofText (a.lines.flatMap fun l => l.text.toList)) :=
    Sees.flatMap fun l _ => sees_styledLine (Sees.lines l.text) l.style
  have htext : a.lines.flatMap (fun l => l.text.toList) = a.visibleText := by
    simp [AdditionalOffer.lines, AdditionalOffer.visibleText]
  rw [htext] at hlines
  exact hlines

/-- The number of the vehicle is seen behind its label, without the blanks around it. -/
theorem sees_numberLine (o : SalesOffer) :
    Sees e (numberLine theme o) (.ofText o.visibleNumber) := by
  have hlabel : Sees e [.text (o.numberKind.label ++ " ")]
      (.ofText (o.numberKind.label ++ " ").toList) := by
    refine Sees.plainText ?_
    cases o.numberKind <;> decide
  have hnumber := hlabel.append_text (Sees.line (trim o.number.text))
  have hwritten : (match o.numberKind with
      | .stock => "Stock #: "
      | .vin => "VIN: ") = o.numberKind.label ++ " " := by
    cases o.numberKind <;> rfl
  unfold numberLine SalesOffer.visibleNumber
  rw [hwritten]
  split
  · exact Sees.nil
  · exact sees_styledLine hnumber _

theorem sees_salesButton (b : OfferButton) :
    Sees e (salesButton theme b) ⟨unbroken (shown b.text), (!blank b.text).toNat, [], []⟩ := by
  unfold salesButton shown
  by_cases hb : blank b.text
  · rw [if_pos hb, if_pos hb, hb]
    exact Sees.nil
  · rw [if_neg hb, if_neg hb, Bool.eq_false_iff.2 hb]
    exact sees_innerRow (sees_tableButton _) _

/-- The lines of a sales offer are seen in their order. -/
theorem sees_salesLines (o : SalesOffer) :
    Sees e (salesLines theme o)
      ⟨unbroken o.visibleText, (!blank o.button.text).toNat, [], []⟩ := by
  have hlines : Sees e
      (salesLine theme o.vehicle ++ salesLine theme o.offer ++ salesLine theme o.details ++
        o.additional.flatMap (additionalLines theme) ++ numberLine theme o ++
        salesLine theme o.mileage ++ salesLine theme o.disclaimer)
      (.ofText (shown o.vehicle.text ++ shown o.offer.text ++ shown o.details.text ++
        o.additional.flatMap AdditionalOffer.visibleText ++ o.visibleNumber ++
        shown o.mileage.text ++ shown o.disclaimer.text)) :=
    ((((((sees_salesLine _).append_text (sees_salesLine _)).append_text
      (sees_salesLine _)).append_text (Sees.flatMap fun a _ => sees_additionalLines a)).append_text
      (sees_numberLine o)).append_text (sees_salesLine _)).append_text (sees_salesLine _)
  have hbutton : Sees e (salesButton theme o.button) _ := sees_salesButton o.button
  have hall := hlines.append hbutton
  rw [Sight.append_def] at hall
  simp only [Sight.ofText, ← unbroken_append, Nat.zero_add, List.append_nil] at hall
  exact sees_offerTable hall

theorem sees_salesImage (o : SalesOffer) (width : Nat) :
    Sees e (salesImage o width) ⟨[], (!blank o.imageLink).toNat, [], []⟩ :=
  sees_linked o.imageLink (sees_offerImage _ _ _)

/-- **The row of a sales offer is seen** alike in all its layouts. -/
theorem seesRow_salesOfferRow (o : SalesOffer) :
    SeesRow e (salesOfferRow theme o) ((Content.salesOffer o).sight e theme) := by
  obtain ⟨text, htext⟩ : ∃ text, text = unbroken o.visibleText := ⟨_, rfl⟩
  have hlines : Sees e (salesLines theme o) ⟨text, (!blank o.button.text).toNat, [], []⟩ := by
    rw [htext]
    exact sees_salesLines o
  have hsight : ∀ n, (o.showImage && !blank o.imageUrl && !blank o.imageLink).toNat = n →
      (Content.salesOffer o).sight e theme =
        ⟨text, (!blank o.button.text).toNat + n, [], []⟩ := by
    rintro n rfl
    rw [htext]
    cases e <;> simp [Content.sight, Content.visibleText, Content.isButton,
      Content.hasSalesButton, Content.hasLinkedImage, Content.hasServiceButton, Content.faces]
  refine .inr ⟨_, _, rfl, ?_⟩
  split
  case isTrue himage =>
    have hn : (o.showImage && !blank o.imageUrl && !blank o.imageLink).toNat = 0 := by
      cases hs : o.showImage <;> simp_all
    rw [hsight 0 hn]
    exact hlines
  case isFalse himage =>
    have hn : (o.showImage && !blank o.imageUrl && !blank o.imageLink).toNat =
        (!blank o.imageLink).toNat := by
      simp_all
    rw [hsight _ hn]
    have hseen : ∀ width, Sees e (salesImage o width) _ := sees_salesImage o
    cases o.imagePlace with
    | center =>
      have habove := sees_innerRow (hseen (contentWidth - 40))
        [.plain "align" "center", .style [("padding", "20px 20px 0 20px")]]
      have hbelow := sees_innerRow hlines [.style [("padding", "0")]]
      have hrows := habove.links_append hbelow
      exact sees_offerTable hrows
    | left =>
      have himage : Sees e (sideImage o) _ := (hseen _).element _ (by decide)
      have hside : Sees e (sideLines theme o) _ := hlines.element _ (by decide)
      have hcells : Sees e (element "tr" [] (sideImage o ++ sideLines theme o)) _ :=
        (himage.links_append hside).element [] (by decide)
      exact sees_offerTable hcells
    | right =>
      have himage : Sees e (sideImage o) _ := (hseen _).element _ (by decide)
      have hside : Sees e (sideLines theme o) _ := hlines.element _ (by decide)
      have hcells : Sees e (element "tr" [] (sideLines theme o ++ sideImage o)) _ :=
        (hside.append_links himage).element [] (by decide)
      exact sees_offerTable hcells

/-! ## All blocks -/

/-- **The row of a block shows what the block is to show.** -/
theorem seesRow_rowsOf (e : Engine) (theme : Theme) (c : Content) :
    SeesRow e (rowsOf theme c) (c.sight e theme) := by
  cases c with
  | header t =>
    have hsight : (Content.header t).sight e theme = .ofText (shown t.text) := by
      cases e <;> rfl
    rw [hsight]
    exact seesRow_textRow (by decide) t
  | textBlock t =>
    have hsight : (Content.textBlock t).sight e theme = .ofText (shown t.text) := by
      cases e <;> rfl
    rw [hsight]
    exact seesRow_textRow (by decide) t
  | image i =>
    have hsight : (Content.image i).sight e theme =
        ⟨[], (!blank i.source && !blank i.link).toNat, [], []⟩ := by
      cases e <;> simp [Content.sight, Content.visibleText, Content.isButton, unbroken,
        Content.hasSalesButton, Content.hasLinkedImage, Content.hasServiceButton, Content.faces]
    rw [hsight]
    exact seesRow_imageRow i
  | button b =>
    have hsight : (Content.button b).sight e theme =
        ⟨unbroken (shown b.text), (!blank b.text).toNat, [], []⟩ := by
      cases e <;> simp [Content.sight, Content.visibleText, Content.isButton,
        Content.hasSalesButton, Content.hasLinkedImage, Content.hasServiceButton, Content.faces]
    rw [hsight]
    exact seesRow_buttonRow b
  | divider d =>
    have hsight : (Content.divider d).sight e theme = .ofText ['\u00a0'] := by
      cases e <;> rfl
    rw [hsight]
    exact seesRow_dividerRow d
  | spacer s =>
    have hsight : (Content.spacer s).sight e theme = .ofText ['\u00a0'] := by
      cases e <;> rfl
    rw [hsight]
    exact seesRow_spacerRow s
  | serviceOffer o => exact seesRow_serviceOfferRow o
  | salesOffer o => exact seesRow_salesOfferRow o
  | unknown name =>
    have hsight : (Content.unknown name).sight e theme = .none := by
      cases e <;> rfl
    rw [hsight]
    exact .inl ⟨rfl, rfl⟩

end Email

end MailBlocks
