import MailBlocks.Block.Content
import MailBlocks.Proofs.CompactText
import MailBlocks.Proofs.Tables

/-!
# Settled blocks

A block that is written to its bag and read back has its words of style settled: trimmed, and
replaced by the default of their field if blank. Nothing else changes, also in the additional
offers, which travel as the text of one attribute. For each kind of block and each part of one:

* `settled`: the block with its words of style settled over those of a default.
* `reread_slots`: reading what was written settles the block.
* `settled_read`: what was read over a settled default is settled.
* `AdditionalOffer.decode_encode`: the stored list of additional offers is read back.
-/

namespace MailBlocks

open Slots Scalar

/-! ## Groups of style attributes -/

theorem Padding.reread_slots (p start : Padding) : Padding.slots.reread p start = p := by
  simp only [slots, reread_of, reread_nil, faithful_number _ _]

namespace LineStyle

/-- The style with its words settled over the words of a default. -/
def settled (s default : LineStyle) : LineStyle :=
  { s with
    color := settle default.color s.color
    background := settle default.background s.background }

theorem read_slots (line : String) (b : Bag) (s : LineStyle) :
    (LineStyle.slots line).read b s =
      { fontSize := b.read .number (line ++ "FontSize") s.fontSize
        color := b.read .token (line ++ "Color") s.color
        background := b.read .token (line ++ "BgColor") s.background
        align := b.read .align (line ++ "TextAlign") s.align
        paddingTop := b.read .number (line ++ "PaddingTop") s.paddingTop
        paddingBottom := b.read .number (line ++ "PaddingBottom") s.paddingBottom } := by
  simp only [slots, read_of, read_nil, implies_true]

theorem reread_slots (line : String) (s start : LineStyle) :
    (LineStyle.slots line).reread s start = s.settled start := by
  simp only [slots, reread_of, reread_nil, faithful_number _ _, faithful_align _ _]
  rfl

theorem settled_read {start : LineStyle} (h : start.settled start = start) (line : String)
    (b : Bag) :
    ((LineStyle.slots line).read b start).settled start = (LineStyle.slots line).read b start := by
  have hcolor := settle_read (congrArg color h) b (line ++ "Color")
  have hbackground := settle_read (congrArg background h) b (line ++ "BgColor")
  simp only [read_slots, settled, hcolor, hbackground]

end LineStyle

namespace OfferLine

/-- The line with its words of style settled over those of a default. -/
def settled (l default : OfferLine) : OfferLine :=
  { l with style := l.style.settled default.style }

theorem read_slots (textKey line : String) (b : Bag) (l : OfferLine) :
    (OfferLine.slots textKey line).read b l =
      { text := b.read .text textKey l.text
        style := (LineStyle.slots line).read b l.style } := by
  simp only [slots, read_of, read_within, implies_true]

theorem reread_slots (textKey line : String) (l start : OfferLine) :
    (OfferLine.slots textKey line).reread l start = l.settled start := by
  simp only [slots, reread_of, reread_within, implies_true, faithful_text _ _,
    LineStyle.reread_slots, settled]

theorem settled_read {start : OfferLine} (h : start.settled start = start) (textKey line : String)
    (b : Bag) :
    ((OfferLine.slots textKey line).read b start).settled start =
      (OfferLine.slots textKey line).read b start := by
  have hstyle := LineStyle.settled_read (congrArg style h) line b
  simp only [read_slots, settled, hstyle]

end OfferLine

/-! ## Additional offers -/

namespace AdditionalOffer

/-- The offer with the words of its lines settled over the styles of a new offer. -/
def settled (a : AdditionalOffer) : AdditionalOffer :=
  { a with
    separator := a.separator.settled (blank a.id).separator
    offer := a.offer.settled (blank a.id).offer
    details := a.details.settled (blank a.id).details
    disclaimer := a.disclaimer.settled (blank a.id).disclaimer }

theorem read_slots (b : Bag) (a : AdditionalOffer) :
    slots.read b a =
      { id := b.read idScalar "id" a.id
        separator := (OfferLine.slots "separator" "separator").read b a.separator
        offer := (OfferLine.slots "offer" "offer").read b a.offer
        details := (OfferLine.slots "details" "details").read b a.details
        disclaimer := (OfferLine.slots "disclaimer" "disclaimer").read b a.disclaimer } := by
  simp only [slots, read_append, read_of, read_within, implies_true]

theorem reread_slots (a : AdditionalOffer) (fresh : OfferId) :
    slots.reread a (blank fresh) = a.settled := by
  simp only [slots, reread_append, reread_of, reread_within, implies_true,
    faithful_idScalar _ _, OfferLine.reread_slots]
  rfl

theorem nodup_keys : (slots.map (·.key)).Nodup := by
  decide

theorem settled_blank (id : OfferId) : (blank id).settled = blank id := by
  have hdefault : (blank default).settled = blank default := by decide
  exact congrArg (fun a => { a with id := id }) hdefault

/-- An offer that was read is settled. -/
theorem settled_ofMembers (fresh : OfferId) (members : List (String × Json.Value)) :
    (ofMembers fresh members).settled = ofMembers fresh members := by
  have hblank := settled_blank fresh
  have hseparator := OfferLine.settled_read (congrArg separator hblank) "separator" "separator"
  have hoffer := OfferLine.settled_read (congrArg offer hblank) "offer" "offer"
  have hdetails := OfferLine.settled_read (congrArg details hblank) "details" "details"
  have hdisclaimer := OfferLine.settled_read (congrArg disclaimer hblank) "disclaimer" "disclaimer"
  rw [ofMembers, read_slots, settled]
  dsimp only
  congr 1
  · exact hseparator _
  · exact hoffer _
  · exact hdetails _
  · exact hdisclaimer _

/-- The attributes of a stored offer are those of its bag. -/
theorem bagOf_ofList (b : Bag) :
    bagOf (Keyed.ofList (b.entries.map fun x => (x.1, Json.Value.string x.2))) = b := by
  have hsome : b.entries.filterMap ((fun x : String × Json.Value =>
      (attribute? x.2).map fun s => (x.1, s)) ∘ fun x => (x.1, Json.Value.string x.2)) =
      b.entries := List.filterMap_some
  rw [Keyed.ofList_of_ascending b.ascending_members, bagOf, List.filterMap_map, hsome,
    Bag.ofList_entries]

/-- What is made of an element at each place is made of it by a map, if the place does not matter. -/
theorem mapIdx_map_eq {α β γ : Type} {f : α → β} {g : Nat → β → γ} {h : α → γ}
    (hg : ∀ i a, g i (f a) = h a) (l : List α) : (l.map f).mapIdx g = l.map h := by
  refine List.mapIdx_eq_iff.2 fun i => ?_
  rw [List.getElem?_map, List.getElem?_map, Option.map_map]
  exact congrArg (Option.map · l[i]?) (funext fun a => (hg i a).symm)

/-- **A stored list is read back**, with the words of all lines settled. -/
theorem decode_encode (fresh : FreshIds) (offers : List AdditionalOffer) :
    decode fresh (encode offers) = .ok (offers.map settled) := by
  have hblank : ¬ Text.blank (encode offers) := by
    rw [Text.blank, encode, Json.Value.compact, String.toList_ofList]
    exact Bool.false_ne_true
  have hread : ∀ i (a : AdditionalOffer), ofMembers (fresh i)
      (Keyed.ofList ((slots.write a).entries.map fun x => (x.1, Json.Value.string x.2))) =
      a.settled := by
    intro i a
    rw [ofMembers, bagOf_ofList, read_write nodup_keys, reread_slots]
  have hparse := Json.parse_objects (offers.map fun a => (slots.write a).entries)
  rw [List.map_map, List.map_map] at hparse
  have hlist : listDecoder.parse (encode offers) = .ok (offers.map _) := hparse
  rw [decode, if_neg hblank, hlist, Except.map]
  exact congrArg Except.ok (mapIdx_map_eq (fun i a => by rw [Function.comp_apply, hread]) offers)

/-- Offers that were read from a stored list are settled. -/
theorem map_settled_of_decode {fresh : FreshIds} {stored : String} {offers : List AdditionalOffer}
    (h : decode fresh stored = .ok offers) : offers.map settled = offers := by
  unfold decode at h
  split at h
  · cases h
    rfl
  · cases hp : listDecoder.parse stored with
    | error e =>
      rw [hp] at h
      cases h
    | ok entries =>
      rw [hp] at h
      obtain rfl := Except.ok.inj h
      refine (List.map_congr_left fun a ha => ?_).trans (List.map_id' _)
      obtain ⟨i, hi, rfl⟩ := List.mem_mapIdx.1 ha
      exact settled_ofMembers _ _

end AdditionalOffer

/-! ## Blocks without inner structure -/

namespace TextBlock

/-- The block with its words of style settled over those of a default. -/
def settled (t default : TextBlock) : TextBlock :=
  { t with
    fontWeight := settle default.fontWeight t.fontWeight
    fontStyle := settle default.fontStyle t.fontStyle
    color := settle default.color t.color
    background := settle default.background t.background
    lineHeight := settle default.lineHeight t.lineHeight }

theorem read_slots (b : Bag) (t : TextBlock) :
    TextBlock.slots.read b t =
      { text := b.read .text "text" t.text
        fontSize := b.read .number "fontSize" t.fontSize
        fontWeight := b.read .token "fontWeight" t.fontWeight
        fontStyle := b.read .token "fontStyle" t.fontStyle
        color := b.read .token "color" t.color
        background := b.read .token "backgroundColor" t.background
        align := b.read .align "textAlign" t.align
        lineHeight := b.read .token "lineHeight" t.lineHeight
        padding := Padding.slots.read b t.padding } := by
  simp only [slots, read_append, read_of, read_within, read_nil, implies_true]

theorem reread_slots (t start : TextBlock) :
    TextBlock.slots.reread t start = t.settled start := by
  simp only [slots, reread_append, reread_of, reread_within, reread_nil, implies_true,
    faithful_text _ _, faithful_number _ _, faithful_align _ _, Padding.reread_slots]
  rfl

theorem settled_read {start : TextBlock} (h : start.settled start = start) (b : Bag) :
    (TextBlock.slots.read b start).settled start = TextBlock.slots.read b start := by
  have hfontWeight := settle_read (congrArg fontWeight h) b "fontWeight"
  have hfontStyle := settle_read (congrArg fontStyle h) b "fontStyle"
  have hcolor := settle_read (congrArg color h) b "color"
  have hbackground := settle_read (congrArg background h) b "backgroundColor"
  have hlineHeight := settle_read (congrArg lineHeight h) b "lineHeight"
  simp only [read_slots, settled, hfontWeight, hfontStyle, hcolor, hbackground, hlineHeight]

theorem nodup_keys : (TextBlock.slots.map (·.key)).Nodup := by
  decide

end TextBlock

namespace ImageBlock

theorem read_slots (b : Bag) (i : ImageBlock) :
    ImageBlock.slots.read b i =
      { source := b.read .text "src" i.source
        alt := b.read .text "alt" i.alt
        link := b.read .text "link" i.link
        widthPercent := b.read .percent "width" i.widthPercent
        align := b.read .align "align" i.align
        padding := Padding.slots.read b i.padding } := by
  simp only [slots, Slots.read_append, Slots.read_of, Slots.read_within, Slots.read_nil,
    implies_true]

theorem reread_slots (i start : ImageBlock) : ImageBlock.slots.reread i start = i := by
  simp only [slots, reread_append, reread_of, reread_within, reread_nil, implies_true,
    faithful_text _ _, faithful_percent _ _, faithful_align _ _, Padding.reread_slots]

theorem nodup_keys : (ImageBlock.slots.map (·.key)).Nodup := by
  decide

end ImageBlock

namespace ButtonBlock

/-- The button with its words of style settled over those of a default. -/
def settled (k default : ButtonBlock) : ButtonBlock :=
  { k with
    background := settle default.background k.background
    textColor := settle default.textColor k.textColor }

theorem read_slots (b : Bag) (k : ButtonBlock) :
    ButtonBlock.slots.read b k =
      { text := b.read .text "text" k.text
        link := b.read .text "link" k.link
        background := b.read .token "backgroundColor" k.background
        textColor := b.read .token "textColor" k.textColor
        align := b.read .align "align" k.align
        width := b.read ButtonWidth.scalar "widthType" k.width
        fontSize := b.read .number "fontSize" k.fontSize
        paddingTop := b.read .number "paddingTop" k.paddingTop
        paddingBottom := b.read .number "paddingBottom" k.paddingBottom } := by
  simp only [slots, read_of, read_nil, implies_true]

theorem reread_slots (k start : ButtonBlock) :
    ButtonBlock.slots.reread k start = k.settled start := by
  simp only [slots, reread_of, reread_nil, faithful_text _ _, faithful_number _ _,
    faithful_align _ _, ButtonWidth.faithful_scalar _ _]
  rfl

theorem settled_read {start : ButtonBlock} (h : start.settled start = start) (b : Bag) :
    (ButtonBlock.slots.read b start).settled start = ButtonBlock.slots.read b start := by
  have hbackground := settle_read (congrArg background h) b "backgroundColor"
  have htextColor := settle_read (congrArg textColor h) b "textColor"
  simp only [read_slots, settled, hbackground, htextColor]

theorem nodup_keys : (ButtonBlock.slots.map (·.key)).Nodup := by
  decide

end ButtonBlock

namespace DividerBlock

/-- The divider with its colour settled over that of a default. -/
def settled (d default : DividerBlock) : DividerBlock :=
  { d with color := settle default.color d.color }

theorem read_slots (b : Bag) (d : DividerBlock) :
    DividerBlock.slots.read b d =
      { width := b.read .text "width" d.width
        thickness := b.read .text "thickness" d.thickness
        color := b.read .token "color" d.color
        align := b.read .align "align" d.align
        paddingTop := b.read .number "paddingTop" d.paddingTop
        paddingBottom := b.read .number "paddingBottom" d.paddingBottom } := by
  simp only [slots, read_of, read_nil, implies_true]

theorem reread_slots (d start : DividerBlock) :
    DividerBlock.slots.reread d start = d.settled start := by
  simp only [slots, reread_of, reread_nil, faithful_text _ _, faithful_number _ _,
    faithful_align _ _]
  rfl

theorem settled_read {start : DividerBlock} (h : start.settled start = start) (b : Bag) :
    (DividerBlock.slots.read b start).settled start = DividerBlock.slots.read b start := by
  have hcolor := settle_read (congrArg color h) b "color"
  simp only [read_slots, settled, hcolor]

theorem nodup_keys : (DividerBlock.slots.map (·.key)).Nodup := by
  decide

end DividerBlock

namespace SpacerBlock

/-- The spacer with its colour settled over that of a default. -/
def settled (s default : SpacerBlock) : SpacerBlock :=
  { s with background := settle default.background s.background }

theorem read_slots (b : Bag) (s : SpacerBlock) :
    SpacerBlock.slots.read b s =
      { height := b.read .number "height" s.height
        background := b.read .token "backgroundColor" s.background
        matchBackground := b.read .flag "matchBackground" s.matchBackground } := by
  simp only [slots, read_of, read_nil, implies_true]

theorem reread_slots (s start : SpacerBlock) :
    SpacerBlock.slots.reread s start = s.settled start := by
  simp only [slots, reread_of, reread_nil, faithful_number _ _, faithful_flag _ _]
  rfl

theorem settled_read {start : SpacerBlock} (h : start.settled start = start) (b : Bag) :
    (SpacerBlock.slots.read b start).settled start = SpacerBlock.slots.read b start := by
  have hbackground := settle_read (congrArg background h) b "backgroundColor"
  simp only [read_slots, settled, hbackground]

theorem nodup_keys : (SpacerBlock.slots.map (·.key)).Nodup := by
  decide

end SpacerBlock

/-! ## Service offers -/

namespace OfferButton

/-- The button with its words of style settled over those of a default. -/
def settled (k default : OfferButton) : OfferButton :=
  { k with
    background := settle default.background k.background
    textColor := settle default.textColor k.textColor }

theorem read_slots (b : Bag) (k : OfferButton) :
    OfferButton.slots.read b k =
      { text := b.read .text "buttonText" k.text
        link := b.read .text "buttonLink" k.link
        background := b.read .token "buttonBgColor" k.background
        textColor := b.read .token "buttonTextColor" k.textColor
        fontSize := b.read .number "buttonFontSize" k.fontSize
        paddingTop := b.read .number "buttonPaddingTop" k.paddingTop
        paddingBottom := b.read .number "buttonPaddingBottom" k.paddingBottom
        align := b.read .align "buttonAlign" k.align } := by
  simp only [slots, read_of, read_nil, implies_true]

theorem reread_slots (k start : OfferButton) :
    OfferButton.slots.reread k start = k.settled start := by
  simp only [slots, reread_of, reread_nil, faithful_text _ _, faithful_number _ _,
    faithful_align _ _]
  rfl

theorem settled_read {start : OfferButton} (h : start.settled start = start) (b : Bag) :
    (OfferButton.slots.read b start).settled start = OfferButton.slots.read b start := by
  have hbackground := settle_read (congrArg background h) b "buttonBgColor"
  have htextColor := settle_read (congrArg textColor h) b "buttonTextColor"
  simp only [read_slots, settled, hbackground, htextColor]

end OfferButton

namespace ServiceLine

/-- The line with its colour settled over that of a default. -/
def settled (l default : ServiceLine) : ServiceLine :=
  { l with color := settle default.color l.color }

theorem read_slots (line : String) (b : Bag) (l : ServiceLine) :
    (ServiceLine.slots line).read b l =
      { text := b.read .text line l.text
        fontSize := b.read .number (line ++ "FontSize") l.fontSize
        color := b.read .token (line ++ "Color") l.color
        align := b.read .align (line ++ "Align") l.align } := by
  simp only [slots, read_of, read_nil, implies_true]

theorem reread_slots (line : String) (l start : ServiceLine) :
    (ServiceLine.slots line).reread l start = l.settled start := by
  simp only [slots, reread_of, reread_nil, faithful_text _ _, faithful_number _ _,
    faithful_align _ _]
  rfl

theorem settled_read (line : String) {start : ServiceLine} (h : start.settled start = start)
    (b : Bag) :
    ((ServiceLine.slots line).read b start).settled start =
      (ServiceLine.slots line).read b start := by
  have hcolor := settle_read (congrArg color h) b (line ++ "Color")
  simp only [read_slots, settled, hcolor]

end ServiceLine

namespace Coupon

/-- The coupon with its words of style settled over those of a default. -/
def settled (c default : Coupon) : Coupon :=
  { c with
    color := settle default.color c.color
    background := settle default.background c.background
    borderColor := settle default.borderColor c.borderColor }

theorem read_slots (b : Bag) (c : Coupon) :
    Coupon.slots.read b c =
      { text := b.read .text "couponText" c.text
        fontSize := b.read .number "couponFontSize" c.fontSize
        color := b.read .token "couponColor" c.color
        background := b.read .token "couponBgColor" c.background
        showBorder := b.read .flag "couponShowBorder" c.showBorder
        borderColor := b.read .token "couponBorderColor" c.borderColor } := by
  simp only [slots, read_of, read_nil, implies_true]

theorem reread_slots (c start : Coupon) :
    Coupon.slots.reread c start = c.settled start := by
  simp only [slots, reread_of, reread_nil, faithful_text _ _, faithful_number _ _,
    faithful_flag _ _]
  rfl

theorem settled_read {start : Coupon} (h : start.settled start = start) (b : Bag) :
    (Coupon.slots.read b start).settled start = Coupon.slots.read b start := by
  have hcolor := settle_read (congrArg color h) b "couponColor"
  have hbackground := settle_read (congrArg background h) b "couponBgColor"
  have hborderColor := settle_read (congrArg borderColor h) b "couponBorderColor"
  simp only [read_slots, settled, hcolor, hbackground, hborderColor]

end Coupon

namespace ServiceOffer

/-- The offer with its words of style settled over those of a default. -/
def settled (o default : ServiceOffer) : ServiceOffer :=
  { o with
    title := o.title.settled default.title
    coupon := o.coupon.settled default.coupon
    details := o.details.settled default.details
    disclaimer := o.disclaimer.settled default.disclaimer
    button := o.button.settled default.button
    background := settle default.background o.background }

theorem read_slots (b : Bag) (o : ServiceOffer) :
    ServiceOffer.slots.read b o =
      { showImage := b.read .flag "showImage" o.showImage
        imageUrl := b.read .text "imageUrl" o.imageUrl
        imageAlt := b.read .text "imageAlt" o.imageAlt
        title := (ServiceLine.slots "title").read b o.title
        coupon := Coupon.slots.read b o.coupon
        details := (ServiceLine.slots "details").read b o.details
        disclaimer := (ServiceLine.slots "disclaimer").read b o.disclaimer
        button := OfferButton.slots.read b o.button
        background := b.read .token "backgroundColor" o.background } := by
  simp only [slots, read_append, read_of, read_within, read_nil, implies_true]

theorem reread_slots (o start : ServiceOffer) :
    ServiceOffer.slots.reread o start = o.settled start := by
  simp only [slots, reread_append, reread_of, reread_within, reread_nil, implies_true,
    faithful_text _ _, faithful_flag _ _, ServiceLine.reread_slots, Coupon.reread_slots,
    OfferButton.reread_slots]
  rfl

theorem settled_read {start : ServiceOffer} (h : start.settled start = start) (b : Bag) :
    (ServiceOffer.slots.read b start).settled start = ServiceOffer.slots.read b start := by
  have htitle := ServiceLine.settled_read "title" (congrArg title h) b
  have hcoupon := Coupon.settled_read (congrArg coupon h) b
  have hdetails := ServiceLine.settled_read "details" (congrArg details h) b
  have hdisclaimer := ServiceLine.settled_read "disclaimer" (congrArg disclaimer h) b
  have hbutton := OfferButton.settled_read (congrArg button h) b
  have hbackground := settle_read (congrArg background h) b "backgroundColor"
  simp only [read_slots, settled, htitle, hcoupon, hdetails, hdisclaimer, hbutton, hbackground]

theorem nodup_keys : (ServiceOffer.slots.map (·.key)).Nodup := by
  decide

end ServiceOffer

/-! ## Sales offers -/

namespace SalesOffer

/-- The offer with its words of style settled over those of a default, and each additional offer
settled. -/
def settled (o default : SalesOffer) : SalesOffer :=
  { o with
    vehicle := o.vehicle.settled default.vehicle
    offer := o.offer.settled default.offer
    details := o.details.settled default.details
    additional := o.additional.map AdditionalOffer.settled
    number := o.number.settled default.number
    mileage := o.mileage.settled default.mileage
    disclaimer := o.disclaimer.settled default.disclaimer
    button := o.button.settled default.button
    background := settle default.background o.background }

theorem read_encode (fresh : FreshIds) (start offers : List AdditionalOffer) :
    (additionalScalar fresh).read start ((additionalScalar fresh).write offers) =
      offers.map AdditionalOffer.settled := by
  have hdecode := AdditionalOffer.decode_encode fresh offers
  exact congrArg (fun r => r.toOption.getD []) hdecode

theorem settled_read_additional (fresh : FreshIds) {start : List AdditionalOffer}
    (h : start.map AdditionalOffer.settled = start) (b : Bag) :
    (b.read (additionalScalar fresh) "additionalOffers" start).map AdditionalOffer.settled =
      b.read (additionalScalar fresh) "additionalOffers" start := by
  unfold Bag.read
  cases b.get? "additionalOffers" with
  | none => exact h
  | some stored =>
    change ((AdditionalOffer.decode fresh stored).toOption.getD []).map _ =
      (AdditionalOffer.decode fresh stored).toOption.getD []
    cases hd : AdditionalOffer.decode fresh stored with
    | error e => rfl
    | ok offers => exact AdditionalOffer.map_settled_of_decode hd

/-- Writing draws no identities, so their supply does not matter. -/
theorem write_slots (fresh other : FreshIds) (o : SalesOffer) :
    (SalesOffer.slots fresh).write o = (SalesOffer.slots other).write o := by
  simp only [slots, Slots.write, writeOver, List.foldl_append, List.foldl_cons, List.foldl_nil]
  rfl

theorem read_slots (fresh : FreshIds) (b : Bag) (o : SalesOffer) :
    (SalesOffer.slots fresh).read b o =
      { showImage := b.read .flag "showImage" o.showImage
        imageUrl := b.read .text "imageUrl" o.imageUrl
        imageAlt := b.read .text "imageAlt" o.imageAlt
        imageLink := b.read .text "imageLink" o.imageLink
        imagePlace := b.read ImagePlace.scalar "layout" o.imagePlace
        imageWidth := b.read .number "imageWidth" o.imageWidth
        vehicle := (OfferLine.slots "vehicle" "vehicle").read b o.vehicle
        offer := (OfferLine.slots "offer" "offer").read b o.offer
        details := (OfferLine.slots "details" "details").read b o.details
        additional := b.read (additionalScalar fresh) "additionalOffers" o.additional
        numberKind := b.read VehicleNumber.scalar "stockVinType" o.numberKind
        number := (OfferLine.slots "stockVinValue" "stockVin").read b o.number
        mileage := (OfferLine.slots "mileage" "mileage").read b o.mileage
        disclaimer := (OfferLine.slots "disclaimer" "disclaimer").read b o.disclaimer
        button := OfferButton.slots.read b o.button
        background := b.read .token "backgroundColor" o.background } := by
  simp only [slots, read_append, read_of, read_within, read_nil, implies_true]

theorem reread_slots (fresh : FreshIds) (o start : SalesOffer) :
    (SalesOffer.slots fresh).reread o start = o.settled start := by
  simp only [slots, reread_append, reread_of, reread_within, reread_nil, implies_true,
    faithful_text _ _, faithful_flag _ _, faithful_number _ _, ImagePlace.faithful_scalar _ _,
    VehicleNumber.faithful_scalar _ _, read_encode, OfferLine.reread_slots,
    OfferButton.reread_slots]
  rfl

theorem settled_read (fresh : FreshIds) {start : SalesOffer} (h : start.settled start = start)
    (b : Bag) :
    ((SalesOffer.slots fresh).read b start).settled start =
      (SalesOffer.slots fresh).read b start := by
  have hvehicle := OfferLine.settled_read (congrArg vehicle h) "vehicle" "vehicle" b
  have hoffer := OfferLine.settled_read (congrArg offer h) "offer" "offer" b
  have hdetails := OfferLine.settled_read (congrArg details h) "details" "details" b
  have hadditional := settled_read_additional fresh (congrArg additional h) b
  have hnumber := OfferLine.settled_read (congrArg number h) "stockVinValue" "stockVin" b
  have hmileage := OfferLine.settled_read (congrArg mileage h) "mileage" "mileage" b
  have hdisclaimer := OfferLine.settled_read (congrArg disclaimer h) "disclaimer" "disclaimer" b
  have hbutton := OfferButton.settled_read (congrArg button h) b
  have hbackground := settle_read (congrArg background h) b "backgroundColor"
  simp only [read_slots, settled, hvehicle, hoffer, hdetails, hadditional, hnumber, hmileage,
    hdisclaimer, hbutton, hbackground]

theorem nodup_keys (fresh : FreshIds) : ((SalesOffer.slots fresh).map (·.key)).Nodup := by
  simp only [slots, List.map_append, List.map_cons, List.map_nil, Slot.key_of]
  decide

end SalesOffer

end MailBlocks
