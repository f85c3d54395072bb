import MailBlocks.Block.Content

/-!
# Components

The stored form of a block: an identity, the name of its kind and its bag of attributes. Stored
identities may be numbers, and stored attributes may be numbers, booleans, arrays and objects; both
are taken as texts.

* `Component.decoder`: reads the stored form.
* `Block.ofComponent`, `Block.toComponent`: to the typed form and back.
-/

namespace MailBlocks

/-- The attribute that a stored value is taken as: nothing for null, the text itself for a string,
and the compact JSON text for all else. -/
def Bag.attribute? : Json.Value → Option String
  | .null => none
  | .string s => some s
  | v => some v.compact

/-- The bag of stored attributes. -/
def Bag.decoder : Json.Decoder Bag :=
  Json.Decoder.map.as fun ms =>
    Bag.ofList (ms.filterMap fun (k, v) => (Bag.attribute? v).map fun s => (k, s))

/-- **A component.** -/
structure Component where
  id : String
  type : String
  data : Bag
  deriving DecidableEq

namespace Component

/-- The identity that a stored value gives. -/
def idOfValue : Json.Value → Except Json.Cause String
  | .string s => .ok s
  | .number n => .ok n.text
  | v => .error (.refused ("component id must be a string or number, got " ++ v.compact))

/-- The stored fields, of which the bag may be missing. -/
def record : Json.Record Component where
  name := "EmailComponent"
  start := ⟨"", "", ∅⟩
  fields :=
    [.of "id" true (Json.Decoder.value.refine idOfValue) fun i c => { c with id := i },
     .of "type" true .string fun t c => { c with type := t },
     .of "data" false Bag.decoder fun d c => { c with data := d }]

/-- Reads a stored component. -/
def decoder : Json.Decoder Component := record.decoder

/-- The component as a stored object. -/
def toValue (c : Component) : Json.Value :=
  .object [("id", .string c.id), ("type", .string c.type), ("data", c.data.toValue)]

/-- The kind, if it is known. -/
def kind? (c : Component) : Option Kind :=
  Kind.ofName? c.type

/-- Puts a text under a key of the bag. -/
def set (c : Component) (key text : String) : Component :=
  { c with data := c.data.insert key text }

end Component

/-- **A block**: typed content with the identity of its component. -/
structure Block where
  id : String
  content : Content
  deriving DecidableEq, Repr

namespace Block

/-- Reads a component; none is refused. -/
def ofComponent (fresh : FreshIds) (c : Component) : Block :=
  ⟨c.id, .ofBag fresh c.type c.data⟩

/-- Writes a block as a component with all its attributes. -/
def toComponent (b : Block) : Component :=
  ⟨b.id, b.content.typeName, b.content.toBag⟩

end Block

end MailBlocks
