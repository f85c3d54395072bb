import MailBlocks.Proofs.CleanEmail

/-!
# Authored strings never change the skeleton

The skeleton of an email is what its tags, attributes and declarations are called. Two emails whose
documents differ only in what their strings say, not in which of them are blank, have the same one,
but for the breaks between the lines of a text. A break with an attribute would count.

* `skeleton`: what is read off an email apart from values and texts.
* `Document.masked`, `DesignSettings.masked`: every authored string put out of sight.
* `skeleton_render`: the skeleton does not depend on authored strings.
-/

namespace MailBlocks

/-! ## Skeletons -/

namespace Markup

open Text

/-- **The outline of a tag**: its kind, its name, the names of its attributes and, of a style
attribute, the properties that it declares. -/
structure Outline where
  kind : TagKind
  name : String
  attributes : List (String × List String)
  deriving DecidableEq, Repr

/-- The outline of a tag that was read. -/
def Tag.outline (t : Tag) : Outline :=
  ⟨t.kind, t.name, t.attributes.map fun (n, v) => (n, if n = "style" then properties v else [])⟩

/-- The tag of a break between two lines: an empty one without attributes. -/
def Tag.lineBreak : Tag := ⟨.empty, "br", []⟩

/-- **The skeleton of a text**: the outlines of its tags in order, without those of line breaks. -/
def skeleton (s : String) : List Outline :=
  ((tagsOf s).filter fun t => t ≠ .lineBreak).map Tag.outline

/-- A tag with another name is no line break. -/
theorem Tag.ne_lineBreak {t : Tag} (h : t.name ≠ "br") : t ≠ .lineBreak :=
  fun hbreak => h (congrArg Tag.name hbreak)

/-- What the outline of a tag says of an attribute. -/
def Attribute.outline : Attribute → String × List String
  | plain name _ => (name, [])
  | style declarations => ("style", declarations.map (·.1) ++ [""])

@[simp]
theorem Attribute.outline_plain (name value : String) :
    (plain name value).outline = (name, []) := rfl

@[simp]
theorem Attribute.outline_style (declarations : List (String × String)) :
    (style declarations).outline = ("style", declarations.map (·.1) ++ [""]) := rfl

/-- The outlines that a token adds to a skeleton. -/
def Token.outline : Token → List Outline
  | start name attributes => [⟨.start, name, attributes.map Attribute.outline⟩]
  | empty name attributes => [⟨.empty, name, attributes.map Attribute.outline⟩]
  | text _ | lineBreak => []
  | t => t.tags.map Tag.outline

theorem Attribute.Clean.outline_eq {a : Attribute} (h : a.Clean) :
    (a.name, if a.name = "style" then properties a.value else []) = a.outline := by
  cases a with
  | plain n v =>
    have hn : n ≠ "style" := h.1.2.1
    rw [Attribute.name, if_neg hn, Attribute.outline]
  | style ds => rw [Attribute.name, if_pos rfl, properties_style h, Attribute.outline]

theorem outline_attributes {as : List Attribute} (h : ∀ a ∈ as, a.Clean) (kind : TagKind)
    (name : String) :
    Tag.outline ⟨kind, name, as.map fun a => (a.name, a.value)⟩ =
      ⟨kind, name, as.map Attribute.outline⟩ := by
  unfold Tag.outline
  rw [List.map_map]
  congr 1
  exact List.map_congr_left fun a ha => (h a ha).outline_eq

theorem Token.Clean.outline_eq {t : Token} (h : t.Clean) :
    (t.tags.filter fun t => t ≠ .lineBreak).map Tag.outline = t.outline := by
  -- only the token of a line break prints its tag, since no other tag has its name
  have hkept : ∀ t : Tag, t.name ≠ "br" → [t].filter (fun t => t ≠ .lineBreak) = [t] :=
    fun t ht => List.filter_cons_of_pos (decide_eq_true (Tag.ne_lineBreak ht))
  cases t with
  | start n as =>
    obtain ⟨⟨-, hn⟩, has⟩ := h
    rw [Token.tags, hkept _ hn, List.map_singleton, outline_attributes has, Token.outline]
  | empty n as =>
    obtain ⟨⟨-, hn⟩, has⟩ := h
    rw [Token.tags, hkept _ hn, List.map_singleton, outline_attributes has, Token.outline]
  | stop n =>
    obtain ⟨-, hn⟩ := h
    rw [Token.tags, hkept _ hn]
    rfl
  | text s => rfl
  | doctype _ | lineBreak | legacyStart | legacyStop | modernStart | modernStop => rfl

/-- The skeleton that tokens print to. -/
def outline (ts : List Token) : List Outline := ts.flatMap Token.outline

/-- **The skeleton of printed tokens** is put together from those of the tokens. -/
theorem skeleton_printAll {ts : List Token} (h : ∀ t ∈ ts, t.Clean) :
    skeleton (printAll ts) = outline ts := by
  rw [skeleton, tagsOf_printAll h, outline]
  induction ts with
  | nil => rfl
  | cons t ts ih =>
    obtain ⟨ht, hts⟩ := List.forall_mem_cons.1 h
    rw [List.flatMap_cons, List.filter_append, List.map_append, ht.outline_eq, ih hts,
      List.flatMap_cons]

example : skeleton "<p id=\"a>b\" style=\"color:&amp;;top:1;\">x<br />y<br id=c /></p>" =
    [⟨.start, "p", [("id", []), ("style", ["color", "top", ""])]⟩, ⟨.empty, "br", [("id", [])]⟩,
      ⟨.stop, "p", []⟩] := by
  decide

section

variable (name : String) (attributes : List Attribute) (content : List Token)

@[simp]
theorem outline_nil : outline [] = [] := rfl

@[simp]
theorem outline_cons (t : Token) (ts : List Token) :
    outline (t :: ts) = t.outline ++ outline ts := List.flatMap_cons

@[simp]
theorem outline_append (xs ys : List Token) :
    outline (xs ++ ys) = outline xs ++ outline ys := List.flatMap_append

@[simp]
theorem outline_start :
    (Token.start name attributes).outline =
      [⟨.start, name, attributes.map Attribute.outline⟩] := rfl

@[simp]
theorem outline_empty :
    (Token.empty name attributes).outline =
      [⟨.empty, name, attributes.map Attribute.outline⟩] := rfl

@[simp]
theorem outline_stop : (Token.stop name).outline = [⟨.stop, name, []⟩] := rfl

@[simp]
theorem outline_text (s : String) : (Token.text s).outline = [] := rfl

@[simp]
theorem outline_newline : Token.newline.outline = [] := rfl

/-- The outlines of an element around those of its content. -/
def around (name : String) (attributes : List (String × List String)) (content : List Outline) :
    List Outline :=
  ⟨.start, name, attributes⟩ :: content ++ [⟨.stop, name, []⟩]

@[simp]
theorem outline_element :
    outline (element name attributes content) =
      around name (attributes.map Attribute.outline) (outline content) := by
  simp [element, around]

@[simp]
theorem outline_row :
    outline (row attributes content) =
      around "tr" [] (around "td" (attributes.map Attribute.outline) (outline content)) := by
  simp [row, around]

@[simp]
theorem outline_line (s : String) : outline (line s) = [] := rfl

/-- Text has no outline, and neither have its line breaks. -/
@[simp]
theorem outline_lines (s : String) : outline (lines s) = [] := by
  unfold outline lines
  rw [List.flatMap_eq_nil_iff]
  intro t ht
  rcases mem_lines ht with rfl | ⟨e, rfl, -⟩ <;> rfl

theorem outline_flatMap {α : Type} (f : α → List Token) (l : List α) :
    outline (l.flatMap f) = l.flatMap fun x => outline (f x) :=
  List.flatMap_assoc

end

end Markup

/-! ## Masked documents -/

/-- **A string put out of sight.** What is kept is whether it is blank. -/
def mask (s : String) : String :=
  if Text.blank s then s else "x"

@[simp]
theorem blank_mask (s : String) : Text.blank (mask s) = Text.blank s := by
  unfold mask
  by_cases h : Text.blank s
  · rw [if_pos h]
  · rw [if_neg h]
    rw [Bool.not_eq_true] at h
    rw [h]
    decide

/-- A text block with its strings masked. -/
def TextBlock.masked (b : TextBlock) : TextBlock :=
  { b with
    text := mask b.text
    fontWeight := mask b.fontWeight
    fontStyle := mask b.fontStyle
    color := mask b.color
    background := mask b.background
    lineHeight := mask b.lineHeight }

/-- An image with its strings masked. -/
def ImageBlock.masked (b : ImageBlock) : ImageBlock :=
  { b with source := mask b.source, alt := mask b.alt, link := mask b.link }

/-- A button with its strings masked. -/
def ButtonBlock.masked (b : ButtonBlock) : ButtonBlock :=
  { b with
    text := mask b.text
    link := mask b.link
    background := mask b.background
    textColor := mask b.textColor }

/-- A divider with its strings masked. -/
def DividerBlock.masked (b : DividerBlock) : DividerBlock :=
  { b with width := mask b.width, thickness := mask b.thickness, color := mask b.color }

/-- A spacer with its strings masked. -/
def SpacerBlock.masked (b : SpacerBlock) : SpacerBlock :=
  { b with background := mask b.background }

/-- The button of an offer with its strings masked. -/
def OfferButton.masked (b : OfferButton) : OfferButton :=
  { b with
    text := mask b.text
    link := mask b.link
    background := mask b.background
    textColor := mask b.textColor }

/-- A line of a service offer with its strings masked. -/
def ServiceLine.masked (l : ServiceLine) : ServiceLine :=
  { l with text := mask l.text, color := mask l.color }

/-- A coupon with its strings masked. -/
def Coupon.masked (c : Coupon) : Coupon :=
  { c with
    text := mask c.text
    color := mask c.color
    background := mask c.background
    borderColor := mask c.borderColor }

/-- A service offer with its strings masked. -/
def ServiceOffer.masked (o : ServiceOffer) : ServiceOffer :=
  { o with
    imageUrl := mask o.imageUrl
    imageAlt := mask o.imageAlt
    title := o.title.masked
    coupon := o.coupon.masked
    details := o.details.masked
    disclaimer := o.disclaimer.masked
    button := o.button.masked
    background := mask o.background }

/-- A style with its strings masked. -/
def LineStyle.masked (s : LineStyle) : LineStyle :=
  { s with color := mask s.color, background := mask s.background }

/-- A line of an offer with its strings masked. -/
def OfferLine.masked (l : OfferLine) : OfferLine :=
  ⟨mask l.text, l.style.masked⟩

/-- An additional offer with its strings masked. -/
def AdditionalOffer.masked (a : AdditionalOffer) : AdditionalOffer :=
  { a with
    separator := a.separator.masked
    offer := a.offer.masked
    details := a.details.masked
    disclaimer := a.disclaimer.masked }

/-- A sales offer with its strings masked. -/
def SalesOffer.masked (o : SalesOffer) : SalesOffer :=
  { o with
    imageUrl := mask o.imageUrl
    imageAlt := mask o.imageAlt
    imageLink := mask o.imageLink
    vehicle := o.vehicle.masked
    offer := o.offer.masked
    details := o.details.masked
    additional := o.additional.map AdditionalOffer.masked
    number := o.number.masked
    mileage := o.mileage.masked
    disclaimer := o.disclaimer.masked
    button := o.button.masked
    background := mask o.background }

/-- Content with its strings masked. -/
def Content.masked : Content → Content
  | header b => header b.masked
  | textBlock b => textBlock b.masked
  | image b => image b.masked
  | button b => button b.masked
  | divider b => divider b.masked
  | spacer b => spacer b.masked
  | serviceOffer o => serviceOffer o.masked
  | salesOffer o => salesOffer o.masked
  | unknown name => unknown name

/-- **A document with its strings masked.** -/
def Document.masked (d : Document) : Document :=
  ⟨d.blocks.map fun b => ⟨b.id, b.content.masked⟩⟩

/-- **Design settings with the font family masked.** -/
def DesignSettings.masked (s : DesignSettings) : DesignSettings :=
  { s with fontFamily := mask s.fontFamily }

/-! ## Rows -/

namespace Email

open Markup Text

section

variable (attributes extra : List Attribute) (content : List Token)

@[simp]
theorem outline_layoutTable :
    outline (layoutTable attributes extra content) =
      around "table"
        (("role", []) :: attributes.map Attribute.outline ++
          [("cellpadding", []), ("cellspacing", []), ("border", [])] ++
          extra.map Attribute.outline) (outline content) := by
  simp [layoutTable]

@[simp]
theorem outline_innerRow :
    outline (innerRow attributes content) =
      around "tr" [] (around "td" (attributes.map Attribute.outline) (outline content)) := by
  simp [innerRow]

@[simp]
theorem outline_offerTable :
    outline (offerTable content) = outline (layoutTable [.plain "width" ""] [] content) := by
  simp [offerTable]

@[simp]
theorem outline_offerRow (background : String) :
    outline (offerRow background content) =
      around "tr" [] (around "td" [("style", ["padding", "background-color", ""])]
        (outline content)) := by
  simp [offerRow]

end

/-- A link is there or not as its address is blank or not. -/
theorem outline_linked {link link' : String} {content content' : List Token}
    (hl : blank link = blank link') (hc : outline content = outline content') :
    outline (linked link content) = outline (linked link' content') := by
  unfold linked
  rw [hl]
  split
  · exact hc
  · simp [hc]

theorem outline_textRow (theme theme' : Theme) (tag : String) (b : TextBlock) :
    outline (textRow theme tag b) = outline (textRow theme' tag b.masked) := by
  unfold textRow TextBlock.masked
  rw [blank_mask]
  split
  · rfl
  · simp

theorem outline_imageRow (b : ImageBlock) : outline (imageRow b) = outline (imageRow b.masked) := by
  unfold imageRow ImageBlock.masked
  rw [blank_mask]
  split
  · rfl
  · rw [outline_row, outline_row]
    congr 2
    exact outline_linked (blank_mask _).symm (by simp [imageDeclarations])

theorem outline_dividerRow (b : DividerBlock) :
    outline (dividerRow b) = outline (dividerRow b.masked) := by
  simp [dividerRow]

theorem outline_spacerRow (b : SpacerBlock) :
    outline (spacerRow b) = outline (spacerRow b.masked) := by
  simp [spacerRow, SpacerBlock.masked]

/-! ## Buttons -/

@[simp]
theorem Paint.outlined_of (theme : Theme) (fill textColor : String) :
    (Paint.of theme fill textColor).outlined = theme.buttonStyle.isOutlined := by
  unfold Paint.of
  by_cases h : theme.buttonStyle.isOutlined
  · rw [if_pos h, h]
  · rw [if_neg h]
    rw [Bool.not_eq_true] at h
    rw [h]

@[simp]
theorem Paint.border_properties (theme : Theme) (fill textColor : String) :
    (Paint.of theme fill textColor).border.map (·.1) =
      if theme.buttonStyle.isOutlined then ["border"] else [] := by
  unfold Paint.border
  rw [Paint.outlined_of]
  split <;> rfl

variable {theme theme' : Theme}

/-- The outline of a table button depends on the button's width and on the shape of buttons. -/
theorem outline_tableButton (h : theme.buttonStyle = theme'.buttonStyle) {b b' : TableButton}
    (hw : b.width = b'.width) :
    outline (tableButton theme b) = outline (tableButton theme' b') := by
  unfold tableButton
  rw [hw]
  -- the shape of buttons, the width being full, and the width in pixels decide on attributes
  by_cases ho : theme'.buttonStyle.isOutlined <;> by_cases hf : b'.width = .full <;>
    cases b'.width.pixels? <;> simp [h, ho, hf]

theorem outline_dualButton (h : theme.buttonStyle = theme'.buttonStyle) (b : OfferButton) :
    outline (dualButton theme b) = outline (dualButton theme' b.masked) := by
  unfold dualButton
  by_cases ho : theme'.buttonStyle.isOutlined <;> simp [h, ho, Token.outline]

theorem outline_buttonRow (h : theme.buttonStyle = theme'.buttonStyle) (b : ButtonBlock) :
    outline (buttonRow theme b) = outline (buttonRow theme' b.masked) := by
  unfold buttonRow ButtonBlock.masked
  rw [blank_mask]
  split
  · rfl
  · rw [outline_row, outline_row]
    congr 2
    exact outline_tableButton h rfl

/-! ## Offers -/

theorem outline_serviceLine (theme theme' : Theme) (tag padding weight : String) (l : ServiceLine) :
    outline (serviceLine theme tag padding weight l) =
      outline (serviceLine theme' tag padding weight l.masked) := by
  unfold serviceLine ServiceLine.masked
  rw [blank_mask]
  split
  · rfl
  · simp

theorem outline_couponLine (theme theme' : Theme) (c : Coupon) :
    outline (couponLine theme c) = outline (couponLine theme' c.masked) := by
  unfold couponLine Coupon.masked
  rw [blank_mask]
  split
  · rfl
  · cases c.showBorder <;> simp

theorem outline_offerImage (url alt url' alt' : String) (width : Nat) :
    (offerImage url alt width).outline = (offerImage url' alt' width).outline := by
  simp [offerImage]

theorem outline_serviceImage (o : ServiceOffer) :
    outline (serviceImage o) = outline (serviceImage o.masked) := by
  unfold serviceImage ServiceOffer.masked
  rw [blank_mask]
  split
  · simp [offerImage]
  · rfl

theorem outline_serviceButton (h : theme.buttonStyle = theme'.buttonStyle) (b : OfferButton) :
    outline (serviceButton theme b) = outline (serviceButton theme' b.masked) := by
  have hdual := outline_dualButton h b
  unfold serviceButton
  rw [OfferButton.masked, blank_mask, ← OfferButton.masked]
  split
  · rfl
  · simp [hdual]

theorem outline_serviceOfferRow (h : theme.buttonStyle = theme'.buttonStyle) (o : ServiceOffer) :
    outline (serviceOfferRow theme o) = outline (serviceOfferRow theme' o.masked) := by
  have himage : outline (serviceImage o) = outline (serviceImage o.masked) := outline_serviceImage o
  have hline := outline_serviceLine theme theme'
  have hcoupon := outline_couponLine theme theme' o.coupon
  have hbutton := outline_serviceButton h o.button
  simp only [serviceOfferRow, outline_offerRow, outline_offerTable, outline_layoutTable,
    outline_append, himage, hline, hcoupon, hbutton]
  rfl

theorem outline_styledLine (theme theme' : Theme) (s : LineStyle) {content content' : List Token}
    (hc : outline content = outline content') :
    outline (styledLine theme s content) = outline (styledLine theme' s.masked content') := by
  simp [styledLine, hc]

theorem outline_salesLine (theme theme' : Theme) (l : OfferLine) :
    outline (salesLine theme l) = outline (salesLine theme' l.masked) := by
  unfold salesLine OfferLine.masked
  rw [blank_mask]
  split
  · rfl
  · exact outline_styledLine theme theme' l.style (by simp)

theorem outline_additionalLines (theme theme' : Theme) (a : AdditionalOffer) :
    outline (additionalLines theme a) = outline (additionalLines theme' a.masked) := by
  have hline : ∀ l : OfferLine, outline (styledLine theme l.style (lines l.text)) =
      outline (styledLine theme' l.masked.style (lines l.masked.text)) :=
    fun l => outline_styledLine theme theme' l.style (by simp)
  have hlines : a.masked.lines = a.lines.map OfferLine.masked := rfl
  unfold additionalLines
  rw [outline_flatMap, outline_flatMap, hlines, List.flatMap_map]
  simp only [hline]

theorem outline_numberLine (theme theme' : Theme) (o : SalesOffer) :
    outline (numberLine theme o) = outline (numberLine theme' o.masked) := by
  unfold numberLine
  rw [show blank o.masked.number.text = blank o.number.text from blank_mask _]
  split
  · rfl
  · exact outline_styledLine theme theme' o.number.style (by simp)

theorem outline_salesButton (h : theme.buttonStyle = theme'.buttonStyle) (b : OfferButton) :
    outline (salesButton theme b) = outline (salesButton theme' b.masked) := by
  have htable : outline (offerTableButton theme b) = outline (offerTableButton theme' b.masked) :=
    outline_tableButton h rfl
  unfold salesButton
  rw [show blank b.masked.text = blank b.text from blank_mask _]
  split
  · rfl
  · simp [htable]

theorem outline_salesLines (h : theme.buttonStyle = theme'.buttonStyle) (o : SalesOffer) :
    outline (salesLines theme o) = outline (salesLines theme' o.masked) := by
  have hline := outline_salesLine theme theme'
  have hadditional : outline (o.additional.flatMap (additionalLines theme)) =
      outline (o.masked.additional.flatMap (additionalLines theme')) := by
    rw [outline_flatMap, outline_flatMap, SalesOffer.masked, List.flatMap_map]
    simp only [outline_additionalLines theme theme']
  have hnumber := outline_numberLine theme theme' o
  have hbutton := outline_salesButton h o.button
  simp only [salesLines, outline_offerTable, outline_layoutTable, outline_append, hline,
    hadditional, hnumber, hbutton]
  rfl

theorem outline_salesImage (o : SalesOffer) (width : Nat) :
    outline (salesImage o width) = outline (salesImage o.masked width) := by
  refine outline_linked (blank_mask _).symm ?_
  rw [outline_cons, outline_cons, outline_offerImage]

theorem outline_salesOfferRow (h : theme.buttonStyle = theme'.buttonStyle) (o : SalesOffer) :
    outline (salesOfferRow theme o) = outline (salesOfferRow theme' o.masked) := by
  have hlines := outline_salesLines h o
  have himage := outline_salesImage o
  have hsideImage : outline (sideImage o) = outline (sideImage o.masked) := by
    have hwidth : sideWidth o.masked = sideWidth o := rfl
    simp [sideImage, himage, hwidth]
  have hsideLines : outline (sideLines theme o) = outline (sideLines theme' o.masked) := by
    simp [sideLines, hlines]
  have hshown : (!o.masked.showImage || blank o.masked.imageUrl) =
      (!o.showImage || blank o.imageUrl) := by
    rw [show blank o.masked.imageUrl = blank o.imageUrl from blank_mask _]
    rfl
  unfold salesOfferRow
  rw [outline_offerRow, outline_offerRow, hshown, show o.masked.imagePlace = o.imagePlace from rfl]
  split
  · rw [hlines]
  -- the image stands above, to the left or to the right
  · split
    · simp [himage, hlines]
    · simp [hsideImage, hsideLines]
    · simp [hsideImage, hsideLines]

/-! ## Emails -/

/-- **The outline of a row** does not depend on authored strings. -/
theorem outline_rowsOf (h : theme.buttonStyle = theme'.buttonStyle) (c : Content) :
    outline (rowsOf theme c) = outline (rowsOf theme' c.masked) := by
  cases c with
  | header t => exact outline_textRow theme theme' "h1" t
  | textBlock t => exact outline_textRow theme theme' "p" t
  | image i => exact outline_imageRow i
  | button b => exact outline_buttonRow h b
  | divider d => exact outline_dividerRow d
  | spacer s => exact outline_spacerRow s
  | serviceOffer o => exact outline_serviceOfferRow h o
  | salesOffer o => exact outline_salesOfferRow h o
  | unknown n => rfl

/-- The rows of a block begin with the tag of a row, unless there are none. -/
theorem rowsOf_cases (theme : Theme) (c : Content) :
    rowsOf theme c = [] ∨ ∃ ts, rowsOf theme c = .start "tr" [] :: ts := by
  have hite : ∀ {p : Prop} [Decidable p] (attributes : List Attribute) (content : List Token),
      (if p then [] else row attributes content) = [] ∨
        ∃ ts, (if p then [] else row attributes content) = .start "tr" [] :: ts := by
    intro p _ attributes content
    split
    · exact .inl rfl
    · exact .inr ⟨_, rfl⟩
  cases c with
  | header _ | textBlock _ | image _ | button _ => exact hite _ _
  | divider _ | spacer _ | serviceOffer _ | salesOffer _ => exact .inr ⟨_, rfl⟩
  | unknown _ => exact .inl rfl

/-- Rows without an outline are no rows. -/
theorem outline_rowsOf_eq_nil_iff (theme : Theme) (c : Content) :
    outline (rowsOf theme c) = [] ↔ rowsOf theme c = [] := by
  rcases rowsOf_cases theme c with h | ⟨ts, h⟩
  · simp [h]
  · simp [h]

theorem outline_rows_eq_nil_iff (theme : Theme) (bs : List Block) :
    outline (bs.flatMap fun b => rowsOf theme b.content) = [] ↔
      (bs.flatMap fun b => rowsOf theme b.content) = [] := by
  rw [outline_flatMap, List.flatMap_eq_nil_iff, List.flatMap_eq_nil_iff]
  simp only [outline_rowsOf_eq_nil_iff]

/-- The outline of an email depends on that of its rows only. -/
theorem outline_shell {rows rows' : List Token} (h : outline rows = outline rows')
    (hempty : rows = [] ↔ rows' = []) :
    outline (shell theme rows) = outline (shell theme' rows') := by
  have hopening : outline (openingLines theme) = outline (openingLines theme') := by
    simp [openingLines, Token.outline]
  have hrows : outline (if rows.isEmpty then emptyRow theme else rows) =
      outline (if rows'.isEmpty then emptyRow theme' else rows') := by
    -- both emails have the row for empty documents, or neither has
    by_cases he : rows = []
    · have he' := hempty.1 he
      simp [he, he', emptyRow]
    · have he' : rows' ≠ [] := fun h' => he (hempty.2 h')
      rw [if_neg (by simpa using he), if_neg (by simpa using he'), h]
  simp only [shell, outline_append, hopening, hrows]

/-- **Authored strings never change the skeleton of an email.** -/
theorem skeleton_render (d : Document) (s : DesignSettings) :
    skeleton (render d s) = skeleton (render d.masked s.masked) := by
  have hstyle : (Theme.ofSettings s).buttonStyle = (Theme.ofSettings s.masked).buttonStyle := rfl
  have hrows : outline (d.blocks.flatMap fun b => rowsOf (Theme.ofSettings s) b.content) =
      outline (d.masked.blocks.flatMap fun b => rowsOf (Theme.ofSettings s.masked) b.content) := by
    rw [outline_flatMap, outline_flatMap, Document.masked, List.flatMap_map]
    simp only [outline_rowsOf hstyle]
  rw [render, render, skeleton_printAll (allClean_tokens d s),
    skeleton_printAll (allClean_tokens d.masked s.masked)]
  refine outline_shell hrows ?_
  -- whether there are rows shows in their outline
  rw [← outline_rows_eq_nil_iff, hrows, outline_rows_eq_nil_iff]

end Email

end MailBlocks
