import MailBlocks.Block.ServiceOffer
import MailBlocks.Offer.Additional

/-!
# Sales offers

An offer of a vehicle: styled lines, a list of additional offers that are addressed by identity, a
button, and perhaps an image above or beside them.

* `push`, `remove?`, `modifyLine?`, `position?`: editing the additional offers.
-/

namespace MailBlocks

/-- Where the image of a sales offer stands. -/
inductive ImagePlace where
  | left
  | center
  | right
  deriving DecidableEq, Repr

namespace ImagePlace

/-- The name of a place. -/
def name : ImagePlace → String
  | left => "left"
  | center => "center"
  | right => "right"

/-- The place that an attribute gives, in the words for alignments. -/
def ofText? (s : String) : Option ImagePlace :=
  (Align.ofText? s).map fun
    | .left => left
    | .center => center
    | .right => right

/-- How the attribute is read and written. -/
def scalar : Scalar ImagePlace := .ofPartial ofText? name

end ImagePlace

/-- What the number of a vehicle is. -/
inductive VehicleNumber where
  | stock
  | vin
  deriving DecidableEq, Repr

namespace VehicleNumber

/-- The name of a kind of number. -/
def name : VehicleNumber → String
  | stock => "stock"
  | vin => "vin"

/-- What is written before the number. -/
def label : VehicleNumber → String
  | stock => "Stock #:"
  | vin => "VIN:"

/-- The kind of number that an attribute gives. -/
def ofText? (s : String) : Option VehicleNumber :=
  match keyword s with
  | "stock" => some stock
  | "vin" => some vin
  | _ => none

/-- How the attribute is read and written. -/
def scalar : Scalar VehicleNumber := .ofPartial ofText? name

end VehicleNumber

/-- **A sales offer.** -/
structure SalesOffer where
  showImage : Bool
  imageUrl : String
  imageAlt : String
  imageLink : String
  imagePlace : ImagePlace
  /-- The width of the image beside the lines, in pixels. -/
  imageWidth : UInt32
  vehicle : OfferLine
  offer : OfferLine
  details : OfferLine
  additional : List AdditionalOffer
  numberKind : VehicleNumber
  number : OfferLine
  mileage : OfferLine
  disclaimer : OfferLine
  button : OfferButton
  background : String
  deriving DecidableEq, Repr

namespace SalesOffer

/-- A new sales offer. -/
def new : SalesOffer where
  showImage := true
  imageUrl := "https://placehold.co/600x400"
  imageAlt := "Vehicle"
  imageLink := ""
  imagePlace := .center
  imageWidth := 240
  vehicle := ⟨"2025 Vehicle Make Model", { LineStyle.plain 20 "#333333" with paddingTop := 15 }⟩
  offer := ⟨"$299/mo for 36 months", .plain 28 "#d32f2f"⟩
  details := ⟨"$2,999 due at signing. Tax, title and fees extra.", .plain 14 "#555555"⟩
  additional := []
  numberKind := .stock
  number := ⟨"", .plain 12 "#777777"⟩
  mileage := ⟨"", .plain 12 "#777777"⟩
  disclaimer :=
    ⟨"See dealer for complete details. Offer subject to credit approval.",
      { LineStyle.plain 10 "#999999" with paddingTop := 10, paddingBottom := 10 }⟩
  button := .labelled "View Offer"
  background := "#ffffff"

/-- The stored list of additional offers; one that cannot be read counts as empty. -/
def additionalScalar (fresh : FreshIds) : Scalar (List AdditionalOffer) where
  read _ stored := (AdditionalOffer.decode fresh stored).toOption.getD []
  write := AdditionalOffer.encode

/-- The attributes. -/
def slots (fresh : FreshIds) : Slots SalesOffer :=
  [.of "showImage" .flag (·.showImage) fun f o => { o with showImage := f },
   .of "imageUrl" .text (·.imageUrl) fun t o => { o with imageUrl := t },
   .of "imageAlt" .text (·.imageAlt) fun t o => { o with imageAlt := t },
   .of "imageLink" .text (·.imageLink) fun t o => { o with imageLink := t },
   .of "layout" ImagePlace.scalar (·.imagePlace) fun p o => { o with imagePlace := p },
   .of "imageWidth" .number (·.imageWidth) fun n o => { o with imageWidth := n },
   .of "stockVinType" VehicleNumber.scalar (·.numberKind) fun k o => { o with numberKind := k },
   .of "additionalOffers" (additionalScalar fresh) (·.additional)
     fun l o => { o with additional := l },
   .of "backgroundColor" .token (·.background) fun t o => { o with background := t }] ++
  (OfferLine.slots "vehicle" "vehicle").map
    (.within (·.vehicle) fun l o => { o with vehicle := l }) ++
  (OfferLine.slots "offer" "offer").map (.within (·.offer) fun l o => { o with offer := l }) ++
  (OfferLine.slots "details" "details").map
    (.within (·.details) fun l o => { o with details := l }) ++
  (OfferLine.slots "stockVinValue" "stockVin").map
    (.within (·.number) fun l o => { o with number := l }) ++
  (OfferLine.slots "mileage" "mileage").map
    (.within (·.mileage) fun l o => { o with mileage := l }) ++
  (OfferLine.slots "disclaimer" "disclaimer").map
    (.within (·.disclaimer) fun l o => { o with disclaimer := l }) ++
  OfferButton.slots.map (.within (·.button) fun b o => { o with button := b })

/-- Appends an additional offer. -/
def push (o : SalesOffer) (a : AdditionalOffer) : SalesOffer :=
  { o with additional := o.additional ++ [a] }

/-- The additional offer with an identity, the first of them. -/
def find? (o : SalesOffer) (id : OfferId) : Option AdditionalOffer :=
  o.additional.find? (·.id == id)

/-- The place of the additional offer with an identity in the display order. -/
def position? (o : SalesOffer) (id : OfferId) : Option Nat :=
  o.additional.findIdx? (·.id == id)

/-- Takes out the additional offer with an identity. -/
def remove? (o : SalesOffer) (id : OfferId) : Option (AdditionalOffer × SalesOffer) :=
  (o.find? id).map fun a => (a, { o with additional := o.additional.eraseP (·.id == id) })

/-- Changes the line called `name` of the additional offer with an identity, if there are both. -/
def modifyLine? (o : SalesOffer) (id : OfferId) (name : String) (f : OfferLine → OfferLine) :
    Option SalesOffer := do
  let i ← o.position? id
  let a ← o.additional[i]?
  let a ← a.modifyLine? name f
  pure { o with additional := o.additional.set i a }

end SalesOffer

end MailBlocks
