import MailBlocks.Attribute.Style

/-!
# Service offers

An offer of a service: title, coupon, details and disclaimer, with a button, and perhaps an image
above them.
-/

namespace MailBlocks

/-- **The button of an offer.** -/
structure OfferButton where
  text : String
  link : String
  background : String
  textColor : String
  fontSize : UInt32
  paddingTop : UInt32
  paddingBottom : UInt32
  align : Align
  deriving DecidableEq, Repr

namespace OfferButton

/-- A new button with the given text. -/
def labelled (text : String) : OfferButton where
  text := text
  link := "https://example.com"
  background := "#007bff"
  textColor := "#ffffff"
  fontSize := 16
  paddingTop := 12
  paddingBottom := 12
  align := .center

/-- The attributes. -/
def slots : Slots OfferButton :=
  [.of "buttonText" .text (·.text) fun t b => { b with text := t },
   .of "buttonLink" .text (·.link) fun t b => { b with link := t },
   .of "buttonBgColor" .token (·.background) fun t b => { b with background := t },
   .of "buttonTextColor" .token (·.textColor) fun t b => { b with textColor := t },
   .of "buttonFontSize" .number (·.fontSize) fun n b => { b with fontSize := n },
   .of "buttonPaddingTop" .number (·.paddingTop) fun n b => { b with paddingTop := n },
   .of "buttonPaddingBottom" .number (·.paddingBottom) fun n b => { b with paddingBottom := n },
   .of "buttonAlign" .align (·.align) fun a b => { b with align := a }]

end OfferButton

/-- A line of a service offer. -/
structure ServiceLine where
  text : String
  fontSize : UInt32
  color : String
  align : Align
  deriving DecidableEq, Repr

namespace ServiceLine

/-- The attributes of the line called `line`, whose text stands under that name. -/
def slots (line : String) : Slots ServiceLine :=
  [.of line .text (·.text) fun t l => { l with text := t },
   .of (line ++ "FontSize") .number (·.fontSize) fun n l => { l with fontSize := n },
   .of (line ++ "Color") .token (·.color) fun t l => { l with color := t },
   .of (line ++ "Align") .align (·.align) fun a l => { l with align := a }]

end ServiceLine

/-- The coupon of a service offer. -/
structure Coupon where
  text : String
  fontSize : UInt32
  color : String
  background : String
  showBorder : Bool
  borderColor : String
  deriving DecidableEq, Repr

namespace Coupon

/-- The attributes. -/
def slots : Slots Coupon :=
  [.of "couponText" .text (·.text) fun t c => { c with text := t },
   .of "couponFontSize" .number (·.fontSize) fun n c => { c with fontSize := n },
   .of "couponColor" .token (·.color) fun t c => { c with color := t },
   .of "couponBgColor" .token (·.background) fun t c => { c with background := t },
   .of "couponShowBorder" .flag (·.showBorder) fun f c => { c with showBorder := f },
   .of "couponBorderColor" .token (·.borderColor) fun t c => { c with borderColor := t }]

end Coupon

/-- **A service offer.** -/
structure ServiceOffer where
  showImage : Bool
  imageUrl : String
  imageAlt : String
  title : ServiceLine
  coupon : Coupon
  details : ServiceLine
  disclaimer : ServiceLine
  button : OfferButton
  background : String
  deriving DecidableEq, Repr

namespace ServiceOffer

/-- A new service offer. -/
def new : ServiceOffer where
  showImage := false
  imageUrl := "https://placehold.co/600x250"
  imageAlt := "Service offer"
  title := ⟨"Oil Change Special", 22, "#333333", .center⟩
  coupon := ⟨"$29.95", 28, "#d32f2f", "#fff3e0", true, "#d32f2f"⟩
  details :=
    ⟨"Includes up to 5 quarts of conventional oil and a new filter.", 14, "#555555", .center⟩
  disclaimer := ⟨"Offer expires at the end of the month.", 11, "#888888", .center⟩
  button := .labelled "Schedule Service"
  background := "#ffffff"

/-- The attributes. -/
def slots : Slots ServiceOffer :=
  [.of "showImage" .flag (·.showImage) fun f o => { o with showImage := f },
   .of "imageUrl" .text (·.imageUrl) fun t o => { o with imageUrl := t },
   .of "imageAlt" .text (·.imageAlt) fun t o => { o with imageAlt := t },
   .of "backgroundColor" .token (·.background) fun t o => { o with background := t }] ++
  (ServiceLine.slots "title").map (.within (·.title) fun l o => { o with title := l }) ++
  Coupon.slots.map (.within (·.coupon) fun c o => { o with coupon := c }) ++
  (ServiceLine.slots "details").map (.within (·.details) fun l o => { o with details := l }) ++
  (ServiceLine.slots "disclaimer").map
    (.within (·.disclaimer) fun l o => { o with disclaimer := l }) ++
  OfferButton.slots.map (.within (·.button) fun b o => { o with button := b })

end ServiceOffer

end MailBlocks
