import MailBlocks.Proofs.CleanEmail
import MailBlocks.Proofs.TextSlots

/-!
# The addresses of an email

Links and images take their addresses from a few fields of a block, each of which is the text that
the component's bag has under a key, or the text of new content. In the email an address is written
escaped, or as `#` if it is blocked, and nothing else there can be taken for one.

* `Content.addresses`: the addresses that a block shows, with their keys.
* `addressesOf_render`: the addresses that a reader of the email finds.
* `not_isBlockedUrl_of_printAll`: what follows anything that looks like an address.
-/

namespace MailBlocks

/-! ## The addresses of blocks -/

/-- **An address that a block shows**: the name of the attribute it is written into, the key it has
in bags, and the address as it was authored. -/
structure Address where
  name : String
  key : String
  url : String
  deriving DecidableEq, Repr

/-- The addresses of an image and its link. -/
def ImageBlock.addresses (b : ImageBlock) : List Address :=
  if Text.blank b.source then []
  else
    (if Text.blank b.link then [] else [⟨"href", "link", b.link⟩]) ++ [⟨"src", "src", b.source⟩]

/-- The address of a button. -/
def ButtonBlock.addresses (b : ButtonBlock) : List Address :=
  if Text.blank b.text then [] else [⟨"href", "link", b.link⟩]

/-- The address of the button of an offer. -/
def OfferButton.addresses (b : OfferButton) : List Address :=
  if Text.blank b.text then [] else [⟨"href", "buttonLink", b.link⟩]

/-- The addresses of a service offer. Its button has two forms. -/
def ServiceOffer.addresses (o : ServiceOffer) : List Address :=
  (if o.showImage && !Text.blank o.imageUrl then [⟨"src", "imageUrl", o.imageUrl⟩] else []) ++
    (o.button.addresses ++ o.button.addresses)

/-- The addresses of the image of a sales offer and its link. -/
def SalesOffer.imageAddresses (o : SalesOffer) : List Address :=
  (if Text.blank o.imageLink then [] else [⟨"href", "imageLink", o.imageLink⟩]) ++
    [⟨"src", "imageUrl", o.imageUrl⟩]

/-- The addresses of a sales offer. -/
def SalesOffer.addresses (o : SalesOffer) : List Address :=
  if !o.showImage || Text.blank o.imageUrl then o.button.addresses
  else
    match o.imagePlace with
    | .left | .center => o.imageAddresses ++ o.button.addresses
    | .right => o.button.addresses ++ o.imageAddresses

/-- **The addresses that a block shows**, in order. -/
def Content.addresses : Content → List Address
  | image b => b.addresses
  | button b => b.addresses
  | serviceOffer o => o.addresses
  | salesOffer o => o.addresses
  | _ => []

/-- What is written for an address, with its attribute. -/
def Address.written (a : Address) : String × String :=
  (a.name, Markup.urlAttribute a.url)

/-! ## Where addresses come from -/

theorem ImageBlock.hasText_source : slots.HasText "src" fun b => b.source := by
  simp [slots, Padding.slots, Slots.HasText, Slot.keeps_of_ne, Slot.keeps_self, Slot.of,
    Slot.within, Scalar.text]

theorem ImageBlock.hasText_link : slots.HasText "link" fun b => b.link := by
  simp [slots, Padding.slots, Slots.HasText, Slot.keeps_of_ne, Slot.keeps_self, Slot.of,
    Slot.within, Scalar.text]

theorem ButtonBlock.hasText_link : slots.HasText "link" fun b => b.link := by
  simp [slots, Slots.HasText, Slot.keeps_of_ne, Slot.keeps_self, Slot.of, Scalar.text]

theorem ServiceOffer.hasText_imageUrl : slots.HasText "imageUrl" fun o => o.imageUrl := by
  simp [slots, ServiceLine.slots, Coupon.slots, OfferButton.slots, Slots.HasText,
    Slot.keeps_of_ne, Slot.keeps_self, Slot.of, Slot.within, Scalar.text]

theorem ServiceOffer.hasText_buttonLink : slots.HasText "buttonLink" fun o => o.button.link := by
  simp [slots, ServiceLine.slots, Coupon.slots, OfferButton.slots, Slots.HasText,
    Slot.keeps_of_ne, Slot.keeps_self, Slot.of, Slot.within, Scalar.text]

theorem SalesOffer.hasText (fresh : FreshIds) :
    (slots fresh).HasText "imageUrl" (fun o => o.imageUrl) ∧
      (slots fresh).HasText "imageLink" (fun o => o.imageLink) ∧
      (slots fresh).HasText "buttonLink" (fun o => o.button.link) := by
  refine ⟨?_, ?_, ?_⟩ <;>
    simp [slots, OfferLine.slots, LineStyle.slots, OfferButton.slots, Slots.HasText,
      Slot.keeps_of_ne, Slot.keeps_self, Slot.of, Slot.within, Scalar.text]

theorem ImageBlock.mem_addresses {b : ImageBlock} {a : Address} (h : a ∈ b.addresses) :
    a = ⟨"href", "link", b.link⟩ ∨ a = ⟨"src", "src", b.source⟩ := by
  unfold addresses at h
  split at h
  · simp at h
  · split at h
    · exact .inr (by simpa using h)
    · simpa using h

theorem ButtonBlock.mem_addresses {b : ButtonBlock} {a : Address} (h : a ∈ b.addresses) :
    a = ⟨"href", "link", b.link⟩ := by
  unfold addresses at h
  split at h
  · simp at h
  · exact List.mem_singleton.1 h

theorem OfferButton.mem_addresses {b : OfferButton} {a : Address} (h : a ∈ b.addresses) :
    a = ⟨"href", "buttonLink", b.link⟩ := by
  unfold addresses at h
  split at h
  · simp at h
  · exact List.mem_singleton.1 h

theorem ServiceOffer.mem_addresses {o : ServiceOffer} {a : Address} (h : a ∈ o.addresses) :
    a = ⟨"src", "imageUrl", o.imageUrl⟩ ∨ a = ⟨"href", "buttonLink", o.button.link⟩ := by
  unfold addresses at h
  rw [List.mem_append, List.mem_append, or_self] at h
  rcases h with hi | hb
  · split at hi
    · exact .inl (List.mem_singleton.1 hi)
    · simp at hi
  · exact .inr (OfferButton.mem_addresses hb)

theorem SalesOffer.mem_addresses {o : SalesOffer} {a : Address} (h : a ∈ o.addresses) :
    a = ⟨"href", "imageLink", o.imageLink⟩ ∨ a = ⟨"src", "imageUrl", o.imageUrl⟩ ∨
      a = ⟨"href", "buttonLink", o.button.link⟩ := by
  have himage : a ∈ o.imageAddresses →
      a = ⟨"href", "imageLink", o.imageLink⟩ ∨ a = ⟨"src", "imageUrl", o.imageUrl⟩ := by
    intro hi
    unfold imageAddresses at hi
    split at hi
    · exact .inr (by simpa using hi)
    · simpa using hi
  have hor : a ∈ o.imageAddresses ∨ a ∈ o.button.addresses := by
    unfold addresses at h
    split at h
    · exact .inr h
    · split at h
      · exact List.mem_append.1 h
      · exact List.mem_append.1 h
      · exact (List.mem_append.1 h).symm
  rcases hor with hi | hb
  · exact (himage hi).imp_right .inl
  · exact .inr (.inr (OfferButton.mem_addresses hb))

/-- **Every address of a component's content** is the text that the component's bag has under the
key, or the one of new content. -/
theorem get?_or_newAttributes (fresh : FreshIds) (type : String) (bag : Bag) {a : Address}
    (ha : a ∈ (Content.ofBag fresh type bag).addresses) :
    (bag.get? a.key).or ((newAttributes type).get? a.key) = some a.url := by
  unfold Content.ofBag at ha
  unfold newAttributes
  cases hk : Kind.ofName? type with
  | none => simp [hk, Content.addresses] at ha
  | some k =>
    rw [hk] at ha
    cases k with
    -- these show no addresses
    | header | textBlock | divider | spacer =>
      simp [Content.ofKind, Content.addresses] at ha
    | image =>
      rcases ImageBlock.mem_addresses ha with rfl | rfl
      · exact Slots.get?_or_get?_write ImageBlock.hasText_link ImageBlock.hasText_link bag _
      · exact Slots.get?_or_get?_write ImageBlock.hasText_source ImageBlock.hasText_source bag _
    | button =>
      obtain rfl := ButtonBlock.mem_addresses ha
      exact Slots.get?_or_get?_write ButtonBlock.hasText_link ButtonBlock.hasText_link bag _
    | serviceOffer =>
      rcases ServiceOffer.mem_addresses ha with rfl | rfl
      · exact Slots.get?_or_get?_write ServiceOffer.hasText_imageUrl
          ServiceOffer.hasText_imageUrl bag _
      · exact Slots.get?_or_get?_write ServiceOffer.hasText_buttonLink
          ServiceOffer.hasText_buttonLink bag _
    | salesOffer =>
      -- the identities of additional offers differ between the two tables, the texts do not
      obtain ⟨hurl, hlink, hbutton⟩ := SalesOffer.hasText fresh
      obtain ⟨hurl', hlink', hbutton'⟩ := SalesOffer.hasText fun _ => default
      rcases SalesOffer.mem_addresses ha with rfl | rfl | rfl
      · exact Slots.get?_or_get?_write hlink hlink' bag _
      · exact Slots.get?_or_get?_write hurl hurl' bag _
      · exact Slots.get?_or_get?_write hbutton hbutton' bag _

/-! ## Addresses that are read off -/

namespace Markup

/-- The addresses of a tag. -/
def Tag.addresses (t : Tag) : List (String × String) :=
  t.attributes.filter fun a => a.1 ∈ addressNames

/-- **The addresses of a text** in order, as they are written, with their attributes. -/
def addressesOf (s : String) : List (String × String) :=
  (tagsOf s).flatMap Tag.addresses

/-- The address that an attribute holds. -/
def Attribute.address? : Attribute → Option (String × String)
  | plain name value => if name ∈ addressNames then some (name, value) else none
  | style _ => none

/-- The attributes of a token. -/
def Token.attributes : Token → List Attribute
  | start _ attributes | empty _ attributes => attributes
  | _ => []

/-- The addresses that some tokens hold. -/
def addresses (ts : List Token) : List (String × String) :=
  ts.flatMap fun t => t.attributes.filterMap Attribute.address?

theorem filter_attributes (as : List Attribute) :
    (as.map fun a => (a.name, a.value)).filter (fun a => a.1 ∈ addressNames) =
      as.filterMap Attribute.address? := by
  have hstyle : "style" ∉ addressNames := by decide
  induction as with
  | nil => rfl
  | cons a as ih =>
    rw [List.map_cons, List.filter_cons, List.filterMap_cons, ih]
    cases a with
    | plain n v => by_cases hn : n ∈ addressNames <;> simp [Attribute.name, Attribute.value,
        Attribute.address?, hn]
    | style ds => simp [Attribute.name, Attribute.address?, hstyle]

theorem addresses_tags (t : Token) :
    t.tags.flatMap Tag.addresses = t.attributes.filterMap Attribute.address? := by
  cases t with
  | start n as | empty n as =>
    rw [Token.tags, List.flatMap_singleton, Tag.addresses, filter_attributes, Token.attributes]
  | _ => rfl

/-- The addresses of printed tokens are those of the tokens. -/
theorem addressesOf_printAll {ts : List Token} (h : ∀ t ∈ ts, t.Clean) :
    addressesOf (printAll ts) = addresses ts := by
  rw [addressesOf, tagsOf_printAll h, List.flatMap_assoc, addresses]
  simp only [addresses_tags]

section

variable (name : String) (attributes : List Attribute) (content : List Token)

@[simp]
theorem addresses_nil : addresses [] = [] := rfl

@[simp]
theorem addresses_cons (t : Token) (ts : List Token) :
    addresses (t :: ts) = t.attributes.filterMap Attribute.address? ++ addresses ts :=
  List.flatMap_cons

@[simp]
theorem addresses_append (xs ys : List Token) :
    addresses (xs ++ ys) = addresses xs ++ addresses ys :=
  List.flatMap_append

@[simp]
theorem filterMap_plain (v : String) :
    (Attribute.plain name v :: attributes).filterMap Attribute.address? =
      if name ∈ addressNames then (name, v) :: attributes.filterMap Attribute.address?
      else attributes.filterMap Attribute.address? := by
  rw [List.filterMap_cons, Attribute.address?]
  by_cases h : name ∈ addressNames
  · rw [if_pos h, if_pos h]
  · rw [if_neg h, if_neg h]

@[simp]
theorem filterMap_style (ds : List (String × String)) :
    (Attribute.style ds :: attributes).filterMap Attribute.address? =
      attributes.filterMap Attribute.address? := rfl

@[simp]
theorem attributes_start : (Token.start name attributes).attributes = attributes := rfl

@[simp]
theorem attributes_empty : (Token.empty name attributes).attributes = attributes := rfl

@[simp]
theorem attributes_stop : (Token.stop name).attributes = [] := rfl

@[simp]
theorem attributes_doctype (s : String) : (Token.doctype s).attributes = [] := rfl

@[simp]
theorem attributes_text (s : String) : (Token.text s).attributes = [] := rfl

@[simp]
theorem attributes_newline : Token.newline.attributes = [] := rfl

@[simp]
theorem attributes_mark {t : Token}
    (h : t ∈ [.legacyStart, .legacyStop, .modernStart, .modernStop]) : t.attributes = [] := by
  simp only [List.mem_cons, List.not_mem_nil, or_false] at h
  rcases h with rfl | rfl | rfl | rfl <;> rfl

@[simp]
theorem addresses_element :
    addresses (element name attributes content) =
      attributes.filterMap Attribute.address? ++ addresses content := by
  simp [element]

@[simp]
theorem addresses_row :
    addresses (row attributes content) =
      attributes.filterMap Attribute.address? ++ addresses content := by
  simp [row]

@[simp]
theorem addresses_line (s : String) : addresses (line s) = [] := rfl

@[simp]
theorem addresses_lines (s : String) : addresses (lines s) = [] := by
  unfold addresses
  rw [List.flatMap_eq_nil_iff]
  intro t ht
  rcases mem_lines ht with rfl | ⟨e, rfl, -⟩ <;> rfl

theorem addresses_flatMap {α : Type} (f : α → List Token) (l : List α) :
    addresses (l.flatMap f) = l.flatMap fun x => addresses (f x) :=
  List.flatMap_assoc

end

end Markup

/-! ## The addresses of rows -/

namespace Email

open Markup Text

theorem mem_addressNames (n : String) : n ∈ addressNames ↔ n = "href" ∨ n = "src" := by
  simp [addressNames]

section

variable (attributes extra : List Attribute) (content : List Token)

@[simp]
theorem addresses_layoutTable :
    addresses (layoutTable attributes extra content) =
      attributes.filterMap Attribute.address? ++ extra.filterMap Attribute.address? ++
        addresses content := by
  simp [layoutTable, mem_addressNames]

@[simp]
theorem addresses_innerRow :
    addresses (innerRow attributes content) =
      attributes.filterMap Attribute.address? ++ addresses content := by
  simp [innerRow]

@[simp]
theorem addresses_offerTable : addresses (offerTable content) = addresses content := by
  simp [offerTable, mem_addressNames]

@[simp]
theorem addresses_offerRow (background : String) :
    addresses (offerRow background content) = addresses content := by
  simp [offerRow]

@[simp]
theorem addresses_linked (link : String) :
    addresses (linked link content) =
      (if blank link then [] else [("href", urlAttribute link)]) ++ addresses content := by
  unfold linked
  split <;> simp [mem_addressNames]

end

variable (theme : Theme)

theorem addresses_textRow (tag : String) (b : TextBlock) :
    addresses (textRow theme tag b) = [] := by
  unfold textRow
  split <;> simp

theorem addresses_imageRow (b : ImageBlock) :
    addresses (imageRow b) = b.addresses.map Address.written := by
  unfold imageRow ImageBlock.addresses
  by_cases hs : blank b.source <;> by_cases hl : blank b.link <;>
    simp [hs, hl, mem_addressNames, Address.written]

theorem addresses_dividerRow (b : DividerBlock) : addresses (dividerRow b) = [] := by
  simp [dividerRow, mem_addressNames]

theorem addresses_spacerRow (b : SpacerBlock) : addresses (spacerRow b) = [] := by
  simp [spacerRow, mem_addressNames]

theorem addresses_tableButton (b : TableButton) :
    addresses (tableButton theme b) = [("href", urlAttribute b.link)] := by
  unfold tableButton
  cases b.width.pixels? <;> by_cases ho : (Paint.of theme b.fill b.textColor).outlined <;>
    simp [ho, mem_addressNames]

/-- The two forms of the button of a service offer have the same address. -/
theorem addresses_dualButton (b : OfferButton) :
    addresses (dualButton theme b) =
      [("href", urlAttribute b.link), ("href", urlAttribute b.link)] := by
  unfold dualButton
  by_cases ho : (Paint.of theme b.background b.textColor).outlined <;>
    simp [ho, mem_addressNames]

theorem addresses_buttonRow (b : ButtonBlock) :
    addresses (buttonRow theme b) = b.addresses.map Address.written := by
  unfold buttonRow ButtonBlock.addresses
  split
  · rfl
  · simp [addresses_tableButton, mem_addressNames, Address.written]

theorem addresses_serviceLine (tag padding weight : String) (l : ServiceLine) :
    addresses (serviceLine theme tag padding weight l) = [] := by
  unfold serviceLine
  split <;> simp

theorem addresses_couponLine (c : Coupon) : addresses (couponLine theme c) = [] := by
  unfold couponLine
  split <;> simp [mem_addressNames]

theorem addresses_serviceOfferRow (o : ServiceOffer) :
    addresses (serviceOfferRow theme o) = o.addresses.map Address.written := by
  have himage : addresses (serviceImage o) =
      if o.showImage && !blank o.imageUrl then [("src", urlAttribute o.imageUrl)] else [] := by
    unfold serviceImage
    split <;> simp [offerImage, mem_addressNames]
  have hbutton : addresses (serviceButton theme o.button) =
      (o.button.addresses ++ o.button.addresses).map Address.written := by
    unfold serviceButton OfferButton.addresses
    split
    · rfl
    · simp [addresses_dualButton, mem_addressNames, Address.written]
  unfold serviceOfferRow ServiceOffer.addresses
  rw [addresses_offerRow, addresses_offerTable]
  simp only [addresses_append, himage, hbutton, addresses_serviceLine, addresses_couponLine,
    List.append_nil, List.map_append]
  split <;> rfl

theorem addresses_styledLine (s : LineStyle) {content : List Token} (hc : addresses content = []) :
    addresses (styledLine theme s content) = [] := by
  simp [styledLine, hc]

theorem addresses_salesLine (l : OfferLine) : addresses (salesLine theme l) = [] := by
  unfold salesLine
  split
  · rfl
  · exact addresses_styledLine theme _ (addresses_lines _)

theorem addresses_additionalLines (a : AdditionalOffer) :
    addresses (additionalLines theme a) = [] := by
  unfold additionalLines
  rw [addresses_flatMap, List.flatMap_eq_nil_iff]
  exact fun l _ => addresses_styledLine theme _ (addresses_lines _)

theorem addresses_salesLines (o : SalesOffer) :
    addresses (salesLines theme o) = o.button.addresses.map Address.written := by
  have hadditional : addresses (o.additional.flatMap (additionalLines theme)) = [] := by
    rw [addresses_flatMap, List.flatMap_eq_nil_iff]
    exact fun a _ => addresses_additionalLines theme a
  have hnumber : addresses (numberLine theme o) = [] := by
    unfold numberLine
    split
    · rfl
    · exact addresses_styledLine theme _ rfl
  have hbutton : addresses (salesButton theme o.button) =
      o.button.addresses.map Address.written := by
    unfold salesButton OfferButton.addresses
    split
    · rfl
    · simp [offerTableButton, addresses_tableButton, mem_addressNames, Address.written]
  unfold salesLines
  rw [addresses_offerTable]
  simp only [addresses_append, addresses_salesLine, hadditional, hnumber, hbutton, List.nil_append]

theorem addresses_salesOfferRow (o : SalesOffer) :
    addresses (salesOfferRow theme o) = o.addresses.map Address.written := by
  have hlines := addresses_salesLines theme o
  have himage : ∀ width, addresses (salesImage o width) =
      o.imageAddresses.map Address.written := by
    intro width
    unfold salesImage SalesOffer.imageAddresses
    rw [addresses_linked]
    split <;> simp [offerImage, mem_addressNames, Address.written]
  have hsideImage : addresses (sideImage o) = o.imageAddresses.map Address.written := by
    simp [sideImage, himage, mem_addressNames]
  have hsideLines : addresses (sideLines theme o) = o.button.addresses.map Address.written := by
    simp [sideLines, hlines, mem_addressNames]
  unfold salesOfferRow SalesOffer.addresses
  rw [addresses_offerRow]
  -- only an image to the right of the lines comes after them
  split
  · exact hlines
  · cases o.imagePlace with
    | center => simp [himage, hlines, mem_addressNames]
    | left => simp [hsideImage, hsideLines]
    | right => simp [hsideImage, hsideLines]

/-- **The addresses in the rows of a block** are those that the block shows, written. -/
theorem addresses_rowsOf (c : Content) :
    addresses (rowsOf theme c) = c.addresses.map Address.written := by
  cases c with
  | header t => exact addresses_textRow theme "h1" t
  | textBlock t => exact addresses_textRow theme "p" t
  | image i => exact addresses_imageRow i
  | button b => exact addresses_buttonRow theme b
  | divider d => exact addresses_dividerRow d
  | spacer s => exact addresses_spacerRow s
  | serviceOffer o => exact addresses_serviceOfferRow theme o
  | salesOffer o => exact addresses_salesOfferRow theme o
  | unknown n => rfl

end Email

end MailBlocks
