import MailBlocks.Attribute.Style
import MailBlocks.Json.Decoder
import MailBlocks.Offer.Id

/-!
# Additional offers

A sales offer carries a list of additional offers, each of four styled lines and an identity. In a
bag the list is one attribute: the text of a JSON array of objects, in display order.

* `decode`: reads that text; an offer without a usable identity gets a fresh one.
* `encode`: writes it.
-/

namespace MailBlocks

/-- **An additional offer.** -/
structure AdditionalOffer where
  id : OfferId
  separator : OfferLine
  offer : OfferLine
  details : OfferLine
  disclaimer : OfferLine
  deriving DecidableEq, Repr

/-- Fresh identities: the one that the offer at a place of a list gets if it has none. -/
abbrev FreshIds := Nat → OfferId

namespace AdditionalOffer

/-- A new offer with the given identity. -/
def new (id : OfferId) : AdditionalOffer where
  id := id
  separator := ⟨"PLUS", { LineStyle.plain 14 "#999999" with paddingTop := 10 }⟩
  offer := ⟨"$500 Loyalty Bonus", .plain 22 "#d32f2f"⟩
  details := ⟨"For returning customers", .plain 14 "#555555"⟩
  disclaimer := ⟨"", .plain 11 "#888888"⟩

/-- The offer that a stored offer is read over: the styles of a new one and no texts. -/
def blank (id : OfferId) : AdditionalOffer :=
  let a := new id
  { a with
    separator := ⟨"", a.separator.style⟩
    offer := ⟨"", a.offer.style⟩
    details := ⟨"", a.details.style⟩
    disclaimer := ⟨"", a.disclaimer.style⟩ }

/-- The names of the four lines, in display order. -/
def lineNames : List String := ["separator", "offer", "details", "disclaimer"]

/-- The four lines, in display order. -/
def lines (a : AdditionalOffer) : List OfferLine :=
  [a.separator, a.offer, a.details, a.disclaimer]

/-- Changes the line with a name, if there is one. -/
def modifyLine? (a : AdditionalOffer) (name : String) (f : OfferLine → OfferLine) :
    Option AdditionalOffer :=
  match name with
  | "separator" => some { a with separator := f a.separator }
  | "offer" => some { a with offer := f a.offer }
  | "details" => some { a with details := f a.details }
  | "disclaimer" => some { a with disclaimer := f a.disclaimer }
  | _ => none

/-- An identity is read if it is one, and kept otherwise. -/
def idScalar : Scalar OfferId := .ofPartial OfferId.ofText? OfferId.text

/-- The attributes. -/
def slots : Slots AdditionalOffer :=
  .of "id" idScalar (·.id) (fun id a => { a with id := id }) ::
    ((OfferLine.slots "separator" "separator").map
        (.within (·.separator) fun l a => { a with separator := l }) ++
      (OfferLine.slots "offer" "offer").map
        (.within (·.offer) fun l a => { a with offer := l }) ++
      (OfferLine.slots "details" "details").map
        (.within (·.details) fun l a => { a with details := l }) ++
      (OfferLine.slots "disclaimer" "disclaimer").map
        (.within (·.disclaimer) fun l a => { a with disclaimer := l }))

/-- The attribute that a member of a stored offer gives: strings, numbers and booleans do. -/
def attribute? : Json.Value → Option String
  | .string s => some s
  | .number n => some n.text
  | .bool b => some (if b then "true" else "false")
  | _ => none

/-- The bag of the members that give attributes. -/
def bagOf (members : List (String × Json.Value)) : Bag :=
  Bag.ofList (members.filterMap fun (k, v) => (attribute? v).map fun s => (k, s))

/-- The offer that a stored offer's members give. -/
def ofMembers (fresh : OfferId) (members : List (String × Json.Value)) : AdditionalOffer :=
  slots.read (bagOf members) (blank fresh)

/-- The shape of the stored list. -/
def listDecoder : Json.Decoder (List (List (String × Json.Value))) :=
  .sequence .map

/-- **Reads a stored list.** A blank text is the empty list; anything else than an array of objects
is refused as a whole. -/
def decode (fresh : FreshIds) (stored : String) : Except Json.Error (List AdditionalOffer) :=
  if Text.blank stored then .ok []
  else (listDecoder.parse stored).map fun entries =>
    entries.mapIdx fun i members => ofMembers (fresh i) members

/-- **Writes a list** to be stored. -/
def encode (offers : List AdditionalOffer) : String :=
  (Json.Value.array (offers.map fun a => (slots.write a).toValue)).compact

end AdditionalOffer

end MailBlocks
