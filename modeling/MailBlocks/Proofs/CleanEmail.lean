import MailBlocks.Email.Render
import MailBlocks.Proofs.TagReader

/-!
# The tokens of an email are clean

Every value and every text of an email is fixed, made of digits, or escaped in the way that its
place asks for. So the tokens of all rows are clean, whatever was authored.

* `allClean_rowsOf`: the rows of a block.
* `allClean_tokens`: a whole email.
-/

namespace MailBlocks.Email

open Markup MergeField Text

/-! ## Values -/

/-- Harmless text: each character stands for itself wherever values and texts stand. -/
def Harmless (s : String) : Prop := ∀ c ∈ s.toList, ¬ isDelimiter c ∧ c ≠ ';' ∧ c ≠ '&'

theorem all_iff_harmless (s : String) :
    (s.toList.all fun c => !isDelimiter c && c ≠ ';' && c ≠ '&') ↔ Harmless s := by
  simp [Harmless, and_assoc]

instance (s : String) : Decidable (Harmless s) :=
  decidable_of_iff _ (all_iff_harmless s)

theorem Harmless.contained {s : String} (h : Harmless s) : Contained s :=
  contained_of_forall h

theorem Harmless.inert {s : String} (h : Harmless s) : Inert s :=
  h.contained.inert

theorem Harmless.append {s t : String} (hs : Harmless s) (ht : Harmless t) : Harmless (s ++ t) := by
  intro c hc
  rw [String.toList_append] at hc
  rcases List.mem_append.1 hc with hc | hc
  · exact hs c hc
  · exact ht c hc

theorem harmless_decimal (n : Nat) : Harmless (Number.decimal n) := by
  intro c hc
  rw [Number.decimal, String.toList_ofList] at hc
  have hd := Number.isDigit_of_mem_decimalChars hc
  refine ⟨not_isDelimiter_of (by decide) hd, ?_, ?_⟩
  · rintro rfl
    exact absurd hd (by decide)
  · rintro rfl
    exact absurd hd (by decide)

theorem harmless_pxNat (n : Nat) : Harmless (pxNat n) :=
  (harmless_decimal n).append (by decide)

theorem harmless_px (n : UInt32) : Harmless (px n) :=
  harmless_pxNat n.toNat

theorem harmless_paddingOf (top bottom : UInt32) {sides : String} (h : Harmless sides) :
    Harmless (paddingOf top sides bottom) := by
  have hblank : Harmless " " := by decide
  unfold paddingOf
  exact ((((((harmless_px top).append hblank).append h).append hblank).append
    (harmless_px bottom)).append hblank).append h

theorem harmless_css (p : Padding) : Harmless p.css := by
  have hpx : Harmless "px " := by decide
  unfold Padding.css Scalar.decimal
  exact (((((((harmless_decimal _).append hpx).append (harmless_decimal _)).append hpx).append
    (harmless_decimal _)).append hpx).append (harmless_decimal _)).append (by decide)

theorem harmless_align (a : Align) : Harmless a.name := by
  cases a <;> decide

theorem harmless_marginOf (a : Align) : Harmless (marginOf a) := by
  cases a <;> decide

theorem harmless_radius (s : ButtonStyle) : Harmless s.radius := by
  cases s <;> decide

theorem inert_attributeValue (s : String) : Inert (attributeValue s) := by
  rw [attributeValue_eq_elementContent]
  exact inert_elementContent s

theorem inert_urlAttribute (s : String) : Inert (urlAttribute s) := by
  have hcases : urlAttribute s = "#" ∨ urlAttribute s = attributeValue (trim s) := by
    unfold urlAttribute
    by_cases h : isBlockedUrl (trim s)
    · exact .inl (if_pos h)
    · exact .inr (if_neg h)
  rcases hcases with h | h
  · rw [h]
    decide
  · rw [h]
    exact inert_attributeValue _

attribute [simp] contained_styleValue harmless_decimal harmless_pxNat harmless_px harmless_css
  harmless_align harmless_marginOf harmless_radius harmless_paddingOf inert_attributeValue
  inert_urlAttribute inert_elementContent

/-! ## Attributes -/

@[simp]
theorem clean_plain (n v : String) :
    (Attribute.plain n v).Clean ↔ AttributeName n ∧ Inert v := Iff.rfl

@[simp]
theorem clean_style_nil : (Attribute.style []).Clean := by
  simp [Attribute.Clean]

@[simp]
theorem clean_style_cons (p v : String) (ds : List (String × String)) :
    (Attribute.style ((p, v) :: ds)).Clean ↔
      PropertyName p ∧ Contained v ∧ (Attribute.style ds).Clean := by
  simp only [Attribute.Clean, List.forall_mem_cons, and_assoc]

@[simp]
theorem clean_style_append (ds es : List (String × String)) :
    (Attribute.style (ds ++ es)).Clean ↔
      (Attribute.style ds).Clean ∧ (Attribute.style es).Clean := by
  simp only [Attribute.Clean, List.forall_mem_append]

/-- All of some attributes are clean. -/
def CleanAttributes (as : List Attribute) : Prop := ∀ a ∈ as, a.Clean

@[simp]
theorem cleanAttributes_nil : CleanAttributes [] := by simp [CleanAttributes]

@[simp]
theorem cleanAttributes_cons {a : Attribute} {as : List Attribute} :
    CleanAttributes (a :: as) ↔ a.Clean ∧ CleanAttributes as :=
  List.forall_mem_cons

@[simp]
theorem cleanAttributes_append {as bs : List Attribute} :
    CleanAttributes (as ++ bs) ↔ CleanAttributes as ∧ CleanAttributes bs :=
  List.forall_mem_append

/-! ## Tokens -/

/-- All of some tokens are clean. -/
def AllClean (ts : List Token) : Prop := ∀ t ∈ ts, t.Clean

@[simp]
theorem allClean_nil : AllClean [] := by simp [AllClean]

@[simp]
theorem allClean_cons {t : Token} {ts : List Token} : AllClean (t :: ts) ↔ t.Clean ∧ AllClean ts :=
  List.forall_mem_cons

@[simp]
theorem allClean_append {xs ys : List Token} :
    AllClean (xs ++ ys) ↔ AllClean xs ∧ AllClean ys :=
  List.forall_mem_append

theorem allClean_flatMap {α : Type} {f : α → List Token} {l : List α}
    (h : ∀ x ∈ l, AllClean (f x)) : AllClean (l.flatMap f) := by
  intro t ht
  obtain ⟨x, hx, ht⟩ := List.mem_flatMap.1 ht
  exact h x hx t ht

section

variable (name : String) (attributes : List Attribute)

@[simp]
theorem clean_start :
    (Token.start name attributes).Clean ↔ TagName name ∧ CleanAttributes attributes := Iff.rfl

@[simp]
theorem clean_empty :
    (Token.empty name attributes).Clean ↔ TagName name ∧ CleanAttributes attributes := Iff.rfl

@[simp]
theorem clean_stop : (Token.stop name).Clean ↔ TagName name := Iff.rfl

theorem clean_doctype_iff (d : String) :
    (Token.doctype d).Clean ↔ '>' ∉ d.toList ∧ quotedAfter false d.toList = false ∧
      ∀ n ∈ addressNames, ¬ occurs (n ++ "=\"").toList d.toList := Iff.rfl

@[simp]
theorem clean_text (s : String) : (Token.text s).Clean ↔ Inert s := Iff.rfl

@[simp]
theorem clean_newline : Token.newline.Clean := by
  rw [Token.newline, clean_text]
  decide

@[simp]
theorem clean_lineBreak : Token.lineBreak.Clean := trivial

@[simp]
theorem clean_mark {t : Token}
    (h : t ∈ [.legacyStart, .legacyStop, .modernStart, .modernStop]) : t.Clean := by
  simp only [List.mem_cons, List.not_mem_nil, or_false] at h
  rcases h with rfl | rfl | rfl | rfl <;> trivial

variable (content : List Token)

@[simp]
theorem allClean_element :
    AllClean (element name attributes content) ↔
      TagName name ∧ CleanAttributes attributes ∧ AllClean content := by
  unfold element
  rw [List.cons_append, allClean_cons, allClean_append, allClean_cons, clean_start, clean_stop]
  constructor
  · rintro ⟨⟨hn, ha⟩, hc, -⟩
    exact ⟨hn, ha, hc⟩
  · rintro ⟨hn, ha, hc⟩
    exact ⟨⟨hn, ha⟩, hc, hn, allClean_nil⟩

@[simp]
theorem allClean_row :
    AllClean (row attributes content) ↔ CleanAttributes attributes ∧ AllClean content := by
  have htr : TagName "tr" := by decide
  have htd : TagName "td" := by decide
  simp [row, htr, htd]

@[simp]
theorem allClean_innerRow :
    AllClean (innerRow attributes content) ↔
      CleanAttributes attributes ∧ AllClean content := by
  have htr : TagName "tr" := by decide
  have htd : TagName "td" := by decide
  simp [innerRow, htr, htd]

@[simp]
theorem allClean_layoutTable (extra : List Attribute) :
    AllClean (layoutTable attributes extra content) ↔
      CleanAttributes attributes ∧ CleanAttributes extra ∧ AllClean content := by
  simp +decide [layoutTable, and_assoc]

@[simp]
theorem allClean_offerTable : AllClean (offerTable content) ↔ AllClean content := by
  simp +decide [offerTable]

@[simp]
theorem allClean_offerRow (background : String) :
    AllClean (offerRow background content) ↔ AllClean content := by
  simp +decide [offerRow, Harmless.contained]

end

@[simp]
theorem allClean_line (s : String) : AllClean (line s) := by
  simp [line]

@[simp]
theorem allClean_lines (s : String) : AllClean (lines s) := by
  intro t ht
  rcases mem_lines ht with rfl | ⟨e, rfl, he⟩
  · exact clean_lineBreak
  · exact he

/-! ## Rows -/

attribute [simp] Harmless.contained Harmless.inert

theorem allClean_linked (link : String) {content : List Token} (hc : AllClean content) :
    AllClean (linked link content) := by
  unfold linked
  split
  · exact hc
  · simp +decide [hc]

theorem clean_imageDeclarations (width : Nat) :
    (Attribute.style (imageDeclarations width)).Clean := by
  simp +decide [imageDeclarations]

theorem harmless_percent (n : Nat) : Harmless (Number.decimal n ++ "%") :=
  (harmless_decimal n).append (by decide)

variable {theme : Theme}

theorem allClean_textRow (hf : Contained theme.font) {tag : String} (htag : TagName tag)
    (b : TextBlock) : AllClean (textRow theme tag b) := by
  unfold textRow
  split
  · exact allClean_nil
  · simp +decide [htag, hf]

theorem allClean_imageRow (b : ImageBlock) : AllClean (imageRow b) := by
  have hpercent : Harmless (Scalar.decimal (imagePercent b) ++ "%") := harmless_percent _
  unfold imageRow
  split
  · exact allClean_nil
  · rw [allClean_row]
    refine ⟨?_, allClean_linked _ ?_⟩
    · simp +decide
    · simp +decide [clean_imageDeclarations, hpercent]

theorem allClean_dividerRow (b : DividerBlock) : AllClean (dividerRow b) := by
  have hwidth : Inert (attributeValue (trim b.width) ++ "%") :=
    (inert_attributeValue _).append (by decide)
  have hborder : Contained (styleValue (trim b.thickness) ++ "px solid " ++ styleValue b.color) := by
    have hsolid : Contained "px solid " := Harmless.contained (by decide)
    exact ((contained_styleValue _).append hsolid).append (contained_styleValue _)
  simp +decide [dividerRow, hwidth, hborder]

theorem allClean_spacerRow (b : SpacerBlock) : AllClean (spacerRow b) := by
  have hheight : Harmless (Scalar.decimal b.height) := harmless_decimal _
  have hcolor : Contained (if b.matchBackground then "transparent" else styleValue b.background) := by
    split
    · exact Harmless.contained (by decide)
    · exact contained_styleValue _
  simp +decide [spacerRow, hheight, hcolor]

/-! ## Buttons -/

/-- The values of a paint can stand in style declarations. -/
structure Paint.Clean (p : Paint) : Prop where
  radius : Harmless p.radius
  fill : Contained p.fill
  background : Contained p.background
  textColor : Contained p.textColor

theorem Paint.clean_of (theme : Theme) (fill textColor : String) :
    (Paint.of theme fill textColor).Clean := by
  have htransparent : Contained "transparent" := Harmless.contained (by decide)
  unfold Paint.of
  split
  · exact ⟨harmless_radius _, contained_styleValue _, htransparent, contained_styleValue _⟩
  · exact ⟨harmless_radius _, contained_styleValue _, contained_styleValue _,
      contained_styleValue _⟩

theorem Paint.Clean.border {p : Paint} (h : p.Clean) : (Attribute.style p.border).Clean := by
  have hsolid : Contained ("2px solid " ++ p.fill) :=
    (Harmless.contained (by decide)).append h.fill
  unfold Paint.border
  split
  · simp +decide [hsolid]
  · exact clean_style_nil

theorem allClean_tableButton (hf : Contained theme.font) (b : TableButton) :
    AllClean (tableButton theme b) := by
  have hp := Paint.clean_of theme b.fill b.textColor
  -- what depends on the button's width and on the shape of buttons comes first
  have hstyle : (Attribute.style (if b.width = .full then [("width", "100%")] else [])).Clean := by
    split <;> simp +decide
  have hfill : CleanAttributes (if (Paint.of theme b.fill b.textColor).outlined then []
      else [.plain "bgcolor" (Paint.of theme b.fill b.textColor).fill]) := by
    split
    · exact cleanAttributes_nil
    · simp +decide [hp.fill.inert]
  cases hwidth : b.width.pixels? <;>
    simp +decide [tableButton, hf, hp.radius, hp.background, hp.textColor, hp.border, hstyle, hfill,
      hwidth]

theorem allClean_dualButton (hf : Contained theme.font) (b : OfferButton) :
    AllClean (dualButton theme b) := by
  have hp := Paint.clean_of theme b.background b.textColor
  have hstroke : CleanAttributes (if (Paint.of theme b.background b.textColor).outlined then
      [.plain "strokecolor" (Paint.of theme b.background b.textColor).fill,
        .plain "strokeweight" "2px", .plain "filled" "f"]
      else [.plain "stroke" "f",
        .plain "fillcolor" (Paint.of theme b.background b.textColor).fill]) := by
    split <;> simp +decide [hp.fill.inert]
  simp +decide [dualButton, hf, hp.radius, hp.background, hp.textColor, hp.border, hstroke,
    harmless_percent]

theorem allClean_buttonRow (hf : Contained theme.font) (b : ButtonBlock) :
    AllClean (buttonRow theme b) := by
  unfold buttonRow
  split
  · exact allClean_nil
  · simp +decide [allClean_tableButton hf]

/-! ## Offers -/

theorem clean_offerImage (url alt : String) (width : Nat) : (offerImage url alt width).Clean := by
  simp +decide [offerImage, clean_imageDeclarations]

theorem allClean_serviceLine (hf : Contained theme.font) {tag padding weight : String}
    (htag : TagName tag) (hp : Harmless padding) (hw : Harmless weight) (l : ServiceLine) :
    AllClean (serviceLine theme tag padding weight l) := by
  unfold serviceLine
  split
  · exact allClean_nil
  · simp +decide [htag, hp, hw, hf]

theorem allClean_couponLine (hf : Contained theme.font) (c : Coupon) :
    AllClean (couponLine theme c) := by
  have hdashed : Contained ("2px dashed " ++ styleValue c.borderColor) :=
    (Harmless.contained (by decide)).append (contained_styleValue _)
  have hborder : (Attribute.style (if c.showBorder
      then [("border", "2px dashed " ++ styleValue c.borderColor)] else [])).Clean := by
    split
    · simp +decide [hdashed]
    · exact clean_style_nil
  unfold couponLine
  split
  · exact allClean_nil
  · simp +decide [hf, hborder]

theorem allClean_serviceImage (o : ServiceOffer) : AllClean (serviceImage o) := by
  unfold serviceImage
  split
  · simp +decide [clean_offerImage]
  · exact allClean_nil

theorem allClean_serviceButton (hf : Contained theme.font) (b : OfferButton) :
    AllClean (serviceButton theme b) := by
  unfold serviceButton
  split
  · exact allClean_nil
  · simp +decide [allClean_dualButton hf]

theorem allClean_serviceOfferRow (hf : Contained theme.font) (o : ServiceOffer) :
    AllClean (serviceOfferRow theme o) := by
  simp +decide [serviceOfferRow, allClean_serviceImage, allClean_serviceLine hf,
    allClean_couponLine hf, allClean_serviceButton hf]

theorem allClean_styledLine (hf : Contained theme.font) (s : LineStyle) {content : List Token}
    (hc : AllClean content) : AllClean (styledLine theme s content) := by
  simp +decide [styledLine, hf, hc]

theorem allClean_salesLine (hf : Contained theme.font) (l : OfferLine) :
    AllClean (salesLine theme l) := by
  unfold salesLine
  split
  · exact allClean_nil
  · exact allClean_styledLine hf _ (allClean_lines _)

theorem allClean_additionalLines (hf : Contained theme.font) (a : AdditionalOffer) :
    AllClean (additionalLines theme a) :=
  allClean_flatMap fun _ _ => allClean_styledLine hf _ (allClean_lines _)

theorem allClean_numberLine (hf : Contained theme.font) (o : SalesOffer) :
    AllClean (numberLine theme o) := by
  have hlabel : Inert (o.numberKind.label ++ " ") := by
    cases o.numberKind <;> decide
  unfold numberLine
  split
  · exact allClean_nil
  · refine allClean_styledLine hf _ ?_
    simp [hlabel]

theorem allClean_salesButton (hf : Contained theme.font) (b : OfferButton) :
    AllClean (salesButton theme b) := by
  unfold salesButton
  split
  · exact allClean_nil
  · simp +decide [offerTableButton, allClean_tableButton hf]

theorem allClean_salesLines (hf : Contained theme.font) (o : SalesOffer) :
    AllClean (salesLines theme o) := by
  have hadditional : AllClean (o.additional.flatMap (additionalLines theme)) :=
    allClean_flatMap fun a _ => allClean_additionalLines hf a
  simp [salesLines, allClean_salesLine hf, hadditional, allClean_numberLine hf,
    allClean_salesButton hf]

theorem allClean_salesImage (o : SalesOffer) (width : Nat) : AllClean (salesImage o width) := by
  refine allClean_linked _ ?_
  simp [clean_offerImage]

theorem allClean_salesOfferRow (hf : Contained theme.font) (o : SalesOffer) :
    AllClean (salesOfferRow theme o) := by
  have hlines := allClean_salesLines hf o
  have hsideImage : AllClean (sideImage o) := by
    simp +decide [sideImage, allClean_salesImage]
  have hsideLines : AllClean (sideLines theme o) := by
    simp +decide [sideLines, hlines]
  unfold salesOfferRow
  rw [allClean_offerRow]
  split
  · exact hlines
  · split
    · simp +decide [allClean_salesImage, hlines]
    · simp +decide [hsideImage, hsideLines]
    · simp +decide [hsideImage, hsideLines]

/-! ## Emails -/

/-- **The rows of a block are clean**, whatever it holds. -/
theorem allClean_rowsOf (hf : Contained theme.font) (c : Content) : AllClean (rowsOf theme c) := by
  cases c with
  | header t => exact allClean_textRow hf (by decide) t
  | textBlock t => exact allClean_textRow hf (by decide) t
  | image i => exact allClean_imageRow i
  | button b => exact allClean_buttonRow hf b
  | divider d => exact allClean_dividerRow d
  | spacer s => exact allClean_spacerRow s
  | serviceOffer o => exact allClean_serviceOfferRow hf o
  | salesOffer o => exact allClean_salesOfferRow hf o
  | unknown n => exact allClean_nil

theorem inert_ofList {l : List Char} (h : l.all fun c => !isDelimiter c) :
    Inert (String.ofList l) := by
  rw [← all_iff_inert, String.toList_ofList]
  exact h

-- the style sheets are taken piece by piece, since one check of the whole text is slow
theorem inert_legacyStyles : Inert legacyStyles := by
  unfold legacyStyles
  simp only [inert_append, -String.reduceAppend]
  repeat' constructor
  all_goals
    refine inert_ofList ?_
    decide

theorem inert_commonStyles : Inert commonStyles := by
  unfold commonStyles
  simp only [inert_append, -String.reduceAppend]
  repeat' constructor
  all_goals
    refine inert_ofList ?_
    decide

theorem clean_doctype : (Token.doctype ("html PUBLIC \"-//W3C//DTD XHTML 1.0 Transitional//EN\" " ++
    "\"http://www.w3.org/TR/xhtml1/DTD/xhtml1-transitional.dtd\"")).Clean := by
  rw [clean_doctype_iff, String.toList_append, String.toList_ofList, String.toList_ofList]
  refine ⟨?_, ?_, ?_⟩ <;> decide +kernel

theorem allClean_metaLine {attributes : List Attribute} (h : CleanAttributes attributes) :
    AllClean (metaLine attributes) := by
  have hmeta : TagName "meta" := by decide
  simp [metaLine, hmeta, h]

theorem allClean_headLines : AllClean headLines := by
  unfold headLines
  simp only [allClean_append, allClean_cons, allClean_nil, allClean_element, clean_doctype,
    clean_newline, clean_start, clean_stop, clean_text, inert_legacyStyles, inert_commonStyles,
    cleanAttributes_nil, and_true, true_and]
  simp +decide [allClean_metaLine, -Harmless.inert]

theorem allClean_openingLines (hf : Contained theme.font) : AllClean (openingLines theme) := by
  simp +decide [openingLines, hf]

theorem allClean_closingLines : AllClean closingLines := by
  simp +decide [closingLines]

theorem allClean_emptyRow (hf : Contained theme.font) : AllClean (emptyRow theme) := by
  simp +decide [emptyRow, hf]

/-- **All tokens of an email are clean.** -/
theorem allClean_tokens (d : Document) (s : DesignSettings) : AllClean (tokens d s) := by
  have hf : Contained (Theme.ofSettings s).font := contained_styleValue _
  have hrows : AllClean (d.blocks.flatMap fun b => rowsOf (Theme.ofSettings s) b.content) :=
    allClean_flatMap fun b _ => allClean_rowsOf hf b.content
  unfold tokens shell
  -- without rows, the email has a row that says so
  simp only [allClean_append]
  refine ⟨⟨⟨allClean_headLines, allClean_openingLines hf⟩, ?_⟩, allClean_closingLines⟩
  split
  · exact allClean_emptyRow hf
  · exact hrows

end MailBlocks.Email
