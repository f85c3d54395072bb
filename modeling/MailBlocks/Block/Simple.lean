import MailBlocks.Attribute.Style

/-!
# Text, images, buttons, dividers and spacers

The blocks without inner structure: their fields, their defaults and their attributes.
-/

namespace MailBlocks

/-- **A block of text**, which is a heading or a paragraph. -/
structure TextBlock where
  text : String
  fontSize : UInt32
  fontWeight : String
  fontStyle : String
  color : String
  background : String
  align : Align
  lineHeight : String
  padding : Padding
  deriving DecidableEq, Repr

namespace TextBlock

/-- A new heading. -/
def heading : TextBlock where
  text := "Your Header Text"
  fontSize := 24
  fontWeight := "bold"
  fontStyle := "normal"
  color := "#333333"
  background := "transparent"
  align := .center
  lineHeight := "1.3"
  padding := ⟨20, 20, 20, 20⟩

/-- A new paragraph. -/
def paragraph : TextBlock where
  text := "Your text content goes here."
  fontSize := 16
  fontWeight := "normal"
  fontStyle := "normal"
  color := "#555555"
  background := "transparent"
  align := .left
  lineHeight := "1.6"
  padding := ⟨10, 20, 10, 20⟩

/-- The attributes. -/
def slots : Slots TextBlock :=
  [.of "text" .text (·.text) fun t b => { b with text := t },
   .of "fontSize" .number (·.fontSize) fun n b => { b with fontSize := n },
   .of "fontWeight" .token (·.fontWeight) fun t b => { b with fontWeight := t },
   .of "fontStyle" .token (·.fontStyle) fun t b => { b with fontStyle := t },
   .of "color" .token (·.color) fun t b => { b with color := t },
   .of "backgroundColor" .token (·.background) fun t b => { b with background := t },
   .of "textAlign" .align (·.align) fun a b => { b with align := a },
   .of "lineHeight" .token (·.lineHeight) fun t b => { b with lineHeight := t }] ++
  Padding.slots.map (.within (·.padding) fun p b => { b with padding := p })

end TextBlock

/-- **An image**, perhaps with a link, as wide as a percentage of the content column. -/
structure ImageBlock where
  source : String
  alt : String
  link : String
  widthPercent : UInt32
  align : Align
  padding : Padding
  deriving DecidableEq, Repr

namespace ImageBlock

/-- A new image. -/
def new : ImageBlock where
  source := "https://placehold.co/600x300"
  alt := "Image"
  link := ""
  widthPercent := 100
  align := .center
  padding := .none

/-- The attributes. -/
def slots : Slots ImageBlock :=
  [.of "src" .text (·.source) fun t b => { b with source := t },
   .of "alt" .text (·.alt) fun t b => { b with alt := t },
   .of "link" .text (·.link) fun t b => { b with link := t },
   .of "width" .percent (·.widthPercent) fun n b => { b with widthPercent := n },
   .of "align" .align (·.align) fun a b => { b with align := a }] ++
  Padding.slots.map (.within (·.padding) fun p b => { b with padding := p })

end ImageBlock

/-- How wide a button is. -/
inductive ButtonWidth where
  | auto
  | full
  | small
  | medium
  | large
  deriving DecidableEq, Repr

namespace ButtonWidth

/-- All widths. -/
def all : List ButtonWidth := [auto, full, small, medium, large]

/-- The name of a width. -/
def name : ButtonWidth → String
  | auto => "auto"
  | full => "full"
  | small => "small"
  | medium => "medium"
  | large => "large"

/-- The width that an attribute gives. -/
def ofText? (s : String) : Option ButtonWidth :=
  match keyword s with
  | "auto" => some auto
  | "full" => some full
  | "small" => some small
  | "medium" => some medium
  | "large" => some large
  | _ => none

/-- The stored form. -/
def decoder : Json.Decoder ButtonWidth :=
  .oneOf (all.map fun w => (w.name, w))

/-- The width of the button's table in pixels, if it is fixed. -/
def pixels? : ButtonWidth → Option Nat
  | small => some 160
  | medium => some 280
  | large => some 400
  | auto | full => none

/-- How the attribute is read and written. -/
def scalar : Scalar ButtonWidth := .ofPartial ofText? name

end ButtonWidth

/-- **A button** on a row of its own. -/
structure ButtonBlock where
  text : String
  link : String
  background : String
  textColor : String
  align : Align
  width : ButtonWidth
  fontSize : UInt32
  paddingTop : UInt32
  paddingBottom : UInt32
  deriving DecidableEq, Repr

namespace ButtonBlock

/-- A new button. -/
def new : ButtonBlock where
  text := "Click Here"
  link := "https://example.com"
  background := "#007bff"
  textColor := "#ffffff"
  align := .center
  width := .full
  fontSize := 16
  paddingTop := 15
  paddingBottom := 15

/-- The attributes. -/
def slots : Slots ButtonBlock :=
  [.of "text" .text (·.text) fun t b => { b with text := t },
   .of "link" .text (·.link) fun t b => { b with link := t },
   .of "backgroundColor" .token (·.background) fun t b => { b with background := t },
   .of "textColor" .token (·.textColor) fun t b => { b with textColor := t },
   .of "align" .align (·.align) fun a b => { b with align := a },
   .of "widthType" ButtonWidth.scalar (·.width) fun w b => { b with width := w },
   .of "fontSize" .number (·.fontSize) fun n b => { b with fontSize := n },
   .of "paddingTop" .number (·.paddingTop) fun n b => { b with paddingTop := n },
   .of "paddingBottom" .number (·.paddingBottom) fun n b => { b with paddingBottom := n }]

end ButtonBlock

/-- **A divider**, whose width and thickness are kept as they were written. -/
structure DividerBlock where
  width : String
  thickness : String
  color : String
  align : Align
  paddingTop : UInt32
  paddingBottom : UInt32
  deriving DecidableEq, Repr

namespace DividerBlock

/-- A new divider. -/
def new : DividerBlock where
  width := "100"
  thickness := "1"
  color := "#dddddd"
  align := .center
  paddingTop := 20
  paddingBottom := 20

/-- The attributes. -/
def slots : Slots DividerBlock :=
  [.of "width" .text (·.width) fun t b => { b with width := t },
   .of "thickness" .text (·.thickness) fun t b => { b with thickness := t },
   .of "color" .token (·.color) fun t b => { b with color := t },
   .of "align" .align (·.align) fun a b => { b with align := a },
   .of "paddingTop" .number (·.paddingTop) fun n b => { b with paddingTop := n },
   .of "paddingBottom" .number (·.paddingBottom) fun n b => { b with paddingBottom := n }]

end DividerBlock

/-- **A spacer**: empty height, with a background of its own unless it matches what is around. -/
structure SpacerBlock where
  height : UInt32
  background : String
  matchBackground : Bool
  deriving DecidableEq, Repr

namespace SpacerBlock

/-- A new spacer. -/
def new : SpacerBlock where
  height := 30
  background := "#ffffff"
  matchBackground := true

/-- The attributes. -/
def slots : Slots SpacerBlock :=
  [.of "height" .number (·.height) fun n b => { b with height := n },
   .of "backgroundColor" .token (·.background) fun t b => { b with background := t },
   .of "matchBackground" .flag (·.matchBackground) fun f b => { b with matchBackground := f }]

end SpacerBlock

end MailBlocks
