import MailBlocks.Attribute.Slot

/-!
# Groups of style attributes

Padding on four sides, and the style of one line of an offer, whose keys begin with the name of the
line.
-/

namespace MailBlocks

/-- **Padding** on four sides, in pixels. -/
structure Padding where
  top : UInt32
  right : UInt32
  bottom : UInt32
  left : UInt32
  deriving DecidableEq, Repr

namespace Padding

/-- No padding. -/
def none : Padding := ⟨0, 0, 0, 0⟩

/-- The attributes. -/
def slots : Slots Padding :=
  [.of "paddingTop" .number (·.top) fun n p => { p with top := n },
   .of "paddingRight" .number (·.right) fun n p => { p with right := n },
   .of "paddingBottom" .number (·.bottom) fun n p => { p with bottom := n },
   .of "paddingLeft" .number (·.left) fun n p => { p with left := n }]

/-- The value of a `padding` declaration. -/
def css (p : Padding) : String :=
  Scalar.decimal p.top ++ "px " ++ Scalar.decimal p.right ++ "px " ++ Scalar.decimal p.bottom ++
    "px " ++ Scalar.decimal p.left ++ "px"

end Padding

/-- **The style of one line of an offer.** -/
structure LineStyle where
  fontSize : UInt32
  color : String
  background : String
  align : Align
  paddingTop : UInt32
  paddingBottom : UInt32
  deriving DecidableEq, Repr

namespace LineStyle

/-- A centred style on a transparent background with five pixels of padding. -/
def plain (fontSize : UInt32) (color : String) : LineStyle :=
  ⟨fontSize, color, "transparent", .center, 5, 5⟩

/-- The attributes of the line called `line`. -/
def slots (line : String) : Slots LineStyle :=
  [.of (line ++ "FontSize") .number (·.fontSize) fun n s => { s with fontSize := n },
   .of (line ++ "Color") .token (·.color) fun c s => { s with color := c },
   .of (line ++ "BgColor") .token (·.background) fun c s => { s with background := c },
   .of (line ++ "TextAlign") .align (·.align) fun a s => { s with align := a },
   .of (line ++ "PaddingTop") .number (·.paddingTop) fun n s => { s with paddingTop := n },
   .of (line ++ "PaddingBottom") .number (·.paddingBottom) fun n s => { s with paddingBottom := n }]

end LineStyle

/-- **A line of an offer**: its text and its style. -/
structure OfferLine where
  text : String
  style : LineStyle
  deriving DecidableEq, Repr

namespace OfferLine

/-- The attributes of the line called `line`, whose text stands under `textKey`. -/
def slots (textKey line : String) : Slots OfferLine :=
  .of textKey .text (·.text) (fun t l => { l with text := t }) ::
    (LineStyle.slots line).map (.within (·.style) fun s l => { l with style := s })

end OfferLine

end MailBlocks
