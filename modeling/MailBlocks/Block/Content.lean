import MailBlocks.Block.SalesOffer
import MailBlocks.Block.Simple

/-!
# Kinds of blocks

A block is of one of eight kinds, each with attributes of its own, or of a kind that is not known,
of which only the name is kept.

* `Content.ofBag`: reads a bag; no bag is refused.
* `Content.toBag`: writes all attributes.
-/

namespace MailBlocks

/-- **The known kinds of blocks.** -/
inductive Kind where
  | header
  | textBlock
  | image
  | button
  | divider
  | spacer
  | serviceOffer
  | salesOffer
  deriving DecidableEq, Repr

namespace Kind

/-- All kinds, in the order in which they are offered. -/
def all : List Kind :=
  [header, textBlock, image, button, divider, spacer, serviceOffer, salesOffer]

/-- The name of a kind. -/
def name : Kind → String
  | header => "header"
  | textBlock => "text_block"
  | image => "image"
  | button => "button"
  | divider => "divider"
  | spacer => "spacer"
  | serviceOffer => "service_offer"
  | salesOffer => "sales_offer"

/-- The kind with a name. -/
def ofName? (s : String) : Option Kind :=
  all.find? fun k => k.name == s

/-- The stored form. -/
def decoder : Json.Decoder Kind :=
  .oneOf (all.map fun k => (k.name, k))

theorem ofName?_name (k : Kind) : ofName? k.name = some k := by
  cases k <;> decide

theorem name_of_ofName? {s : String} {k : Kind} (h : ofName? s = some k) : k.name = s := by
  simpa using List.find?_some h

end Kind

/-- **What a block holds.** -/
inductive Content where
  | header (block : TextBlock)
  | textBlock (block : TextBlock)
  | image (block : ImageBlock)
  | button (block : ButtonBlock)
  | divider (block : DividerBlock)
  | spacer (block : SpacerBlock)
  | serviceOffer (offer : ServiceOffer)
  | salesOffer (offer : SalesOffer)
  | unknown (name : String)
  deriving DecidableEq, Repr

namespace Content

/-- New content of a kind. -/
def new : Kind → Content
  | .header => header .heading
  | .textBlock => textBlock .paragraph
  | .image => image .new
  | .button => button .new
  | .divider => divider .new
  | .spacer => spacer .new
  | .serviceOffer => serviceOffer .new
  | .salesOffer => salesOffer .new

/-- The kind, if it is known. -/
def kind? : Content → Option Kind
  | header _ => some .header
  | textBlock _ => some .textBlock
  | image _ => some .image
  | button _ => some .button
  | divider _ => some .divider
  | spacer _ => some .spacer
  | serviceOffer _ => some .serviceOffer
  | salesOffer _ => some .salesOffer
  | unknown _ => none

/-- The name of the kind, known or not. -/
def typeName : Content → String
  | unknown name => name
  | c => (c.kind?.map Kind.name).getD ""

/-- **Reads a bag** as content of a kind. What the bag does not say is as in new content. -/
def ofKind (fresh : FreshIds) (b : Bag) : Kind → Content
  | .header => header (TextBlock.slots.read b .heading)
  | .textBlock => textBlock (TextBlock.slots.read b .paragraph)
  | .image => image (ImageBlock.slots.read b .new)
  | .button => button (ButtonBlock.slots.read b .new)
  | .divider => divider (DividerBlock.slots.read b .new)
  | .spacer => spacer (SpacerBlock.slots.read b .new)
  | .serviceOffer => serviceOffer (ServiceOffer.slots.read b .new)
  | .salesOffer => salesOffer ((SalesOffer.slots fresh).read b .new)

/-- Reads a bag as content of the kind with a name. -/
def ofBag (fresh : FreshIds) (typeName : String) (b : Bag) : Content :=
  match Kind.ofName? typeName with
  | some k => ofKind fresh b k
  | none => unknown typeName

/-- **The bag of all attributes**, which is empty for an unknown kind. -/
def toBag : Content → Bag
  | header t | textBlock t => TextBlock.slots.write t
  | image i => ImageBlock.slots.write i
  | button b => ButtonBlock.slots.write b
  | divider d => DividerBlock.slots.write d
  | spacer s => SpacerBlock.slots.write s
  | serviceOffer o => ServiceOffer.slots.write o
  -- writing draws no identity, so the supply of fresh ones does not matter
  | salesOffer o => (SalesOffer.slots fun _ => default).write o
  | unknown _ => ∅

end Content

end MailBlocks
