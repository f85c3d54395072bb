import MailBlocks.Json.Decoder

/-!
# Design settings

The styling that holds for a whole email: its font family and the shape of its buttons. The layout
of offers is stored for later use.
-/

namespace MailBlocks

/-- The shape of buttons. -/
inductive ButtonStyle where
  | rounded
  | pill
  | square
  | outlined
  deriving DecidableEq, Repr

namespace ButtonStyle

/-- All shapes. -/
def all : List ButtonStyle := [rounded, pill, square, outlined]

/-- The name of a shape. -/
def name : ButtonStyle → String
  | rounded => "rounded"
  | pill => "pill"
  | square => "square"
  | outlined => "outlined"

/-- The radius of the corners. Outlined buttons have that of rounded ones. -/
def radius : ButtonStyle → String
  | rounded | outlined => "8px"
  | pill => "50px"
  | square => "0px"

/-- Whether buttons have a border and no filling. -/
def isOutlined (s : ButtonStyle) : Bool :=
  s = outlined

/-- The stored form. -/
def decoder : Json.Decoder ButtonStyle :=
  .oneOf (all.map fun s => (s.name, s))

end ButtonStyle

/-- The layout of offers. -/
inductive OffersLayout where
  | list
  | grid
  deriving DecidableEq, Repr

namespace OffersLayout

/-- All layouts. -/
def all : List OffersLayout := [list, grid]

/-- The name of a layout. -/
def name : OffersLayout → String
  | list => "list"
  | grid => "grid"

/-- The stored form. -/
def decoder : Json.Decoder OffersLayout :=
  .oneOf (all.map fun l => (l.name, l))

end OffersLayout

/-- **Design settings.** -/
structure DesignSettings where
  fontFamily : String
  buttonStyle : ButtonStyle
  offersLayout : OffersLayout
  deriving DecidableEq, Repr

namespace DesignSettings

/-- The settings of a project that has none. -/
def standard : DesignSettings :=
  ⟨"Arial, Helvetica, sans-serif", .rounded, .list⟩

/-- The stored fields, each of which may be missing. -/
def record : Json.Record DesignSettings where
  name := "DesignSettings"
  start := standard
  fields :=
    [.of "fontFamily" false .string fun f s => { s with fontFamily := f },
     .of "buttonStyle" false ButtonStyle.decoder fun b s => { s with buttonStyle := b },
     .of "offersLayout" false OffersLayout.decoder fun l s => { s with offersLayout := l }]

/-- The settings as a stored object. -/
def toValue (s : DesignSettings) : Json.Value :=
  .object [("fontFamily", .string s.fontFamily), ("buttonStyle", .string s.buttonStyle.name),
    ("offersLayout", .string s.offersLayout.name)]

end DesignSettings

end MailBlocks
