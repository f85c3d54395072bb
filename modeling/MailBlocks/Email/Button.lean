import MailBlocks.Block.ServiceOffer
import MailBlocks.Block.Simple
import MailBlocks.Email.Theme

/-!
# Buttons

A button is a table with a link in it. The button of a service offer has two forms, of which each
engine shows one: a link for the modern engines, and a drawn shape for the legacy engine, whose
height and corners are worked out in pixels.

* `shapeHeight`: the height of the shape, 1.3 times the text and its padding.
* `arcSize`: the corners of the shape as a percentage of its height.
-/

namespace MailBlocks.Email

open Markup Number

/-- The largest 32-bit number. -/
def maxPixels : Nat := 0xFFFFFFFF

/-- **The height of the shape** for a text of a size with padding above and below: 1.3 times their
sum in floating point, rounded, at most the largest 32-bit number. -/
def shapeHeight (top bottom size : UInt32) : Nat :=
  let total := ((Binary64.ofNat top.toNat).add (.ofNat bottom.toNat)).add (.ofNat size.toNat)
  min (total.mul (.ofDecimal 13 (-1))).nearest maxPixels

/-- The percentage of corners that are not given in pixels, or of a shape without height. -/
def standardArc : Nat := 8

/-- The percentage that a radius in pixels is of half the height, at most 50. -/
def arcOfRadius (radius : Binary64) (height : Nat) : Nat :=
  let percent := (radius.div (.ofQuotient height 2)).mul (.ofNat 100)
  if 50 * Binary64.oneUnits < percent.units then 50 else percent.nearest

/-- **The corners of the shape**: the radius as a percentage. A radius below zero, or none that is a
number, makes no corners. -/
def arcSize (radius : String) (height : Nat) : Nat :=
  let pixels :=
    (Text.dropTail "px".toList (Text.trimBlank radius.toList)).bind fun cs =>
      Numeral.ofChars? (Text.trimBlank cs)
  match pixels with
  | none => standardArc
  | some n =>
    if height = 0 then standardArc
    else
      match n.signedMagnitude? with
      | some (false, r) => arcOfRadius r height
      | _ => 0

/-- The colours and the border of a button. -/
structure Paint where
  radius : String
  fill : String
  background : String
  textColor : String
  outlined : Bool
  deriving DecidableEq, Repr

/-- Outlined buttons have a border and a text of the filling's colour, and no filling. -/
def Paint.of (theme : Theme) (fill textColor : String) : Paint :=
  let fill := styleValue fill
  if theme.buttonStyle.isOutlined then ⟨theme.buttonStyle.radius, fill, "transparent", fill, true⟩
  else ⟨theme.buttonStyle.radius, fill, fill, styleValue textColor, false⟩

/-- The declaration of the border, if there is one. -/
def Paint.border (p : Paint) : List (String × String) :=
  if p.outlined then [("border", "2px solid " ++ p.fill)] else []

/-- What a button of a table is made of. -/
structure TableButton where
  text : String
  link : String
  fill : String
  textColor : String
  fontSize : UInt32
  paddingTop : UInt32
  paddingBottom : UInt32
  width : ButtonWidth

/-- **A button as a table.** -/
def tableButton (theme : Theme) (b : TableButton) : List Token :=
  let paint := Paint.of theme b.fill b.textColor
  let width : List Attribute :=
    match b.width.pixels? with
    | some w => [.plain "width" (Number.decimal w)]
    | none => []
  let widthStyle := if b.width = .full then [("width", "100%")] else []
  let fill : List Attribute := if paint.outlined then [] else [.plain "bgcolor" paint.fill]
  layoutTable [] (width ++ [.style ([("border-collapse", "separate")] ++ widthStyle)])
    (element "tr" []
      (element "td"
        ([.plain "align" "center"] ++ fill ++
          [.style ([("border-radius", paint.radius), ("background-color", paint.background)] ++
            paint.border)])
        (element "a"
          [.plain "href" (urlAttribute b.link), .plain "target" "_blank",
            .style [("display", "block"),
              ("padding", paddingOf b.paddingTop "24px" b.paddingBottom),
              ("font-family", theme.font), ("font-size", px b.fontSize), ("font-weight", "bold"),
              ("line-height", "1.2"), ("color", paint.textColor), ("text-decoration", "none"),
              ("border-radius", paint.radius)]]
          (line b.text))))

/-- The row of a button of its own; one without a text has none. -/
def buttonRow (theme : Theme) (b : ButtonBlock) : List Token :=
  if Text.blank b.text then []
  else
    row
      [.plain "align" b.align.name,
        .style [("padding", paddingOf b.paddingTop "20px" b.paddingBottom)]]
      (tableButton theme
        ⟨b.text, b.link, b.background, b.textColor, b.fontSize, 12, 12, b.width⟩)

/-- The button of a sales offer. -/
def offerTableButton (theme : Theme) (b : OfferButton) : List Token :=
  tableButton theme
    ⟨b.text, b.link, b.background, b.textColor, b.fontSize, b.paddingTop, b.paddingBottom, .auto⟩

/-- The width of the drawn shape, in pixels. -/
def shapeWidth : Nat := 220

/-- **The button of a service offer** in its two forms. -/
def dualButton (theme : Theme) (b : OfferButton) : List Token :=
  let paint := Paint.of theme b.background b.textColor
  let height := shapeHeight b.paddingTop b.paddingBottom b.fontSize
  let href := urlAttribute b.link
  let stroke : List Attribute :=
    if paint.outlined then
      [.plain "strokecolor" paint.fill, .plain "strokeweight" "2px", .plain "filled" "f"]
    else [.plain "stroke" "f", .plain "fillcolor" paint.fill]
  [.legacyStart, .newline,
    .start "v:roundrect"
      ([.plain "xmlns:v" "urn:schemas-microsoft-com:vml",
        .plain "xmlns:w" "urn:schemas-microsoft-com:office:word", .plain "href" href,
        .style [("height", pxNat height), ("v-text-anchor", "middle"),
          ("width", pxNat shapeWidth)],
        .plain "arcsize" (Number.decimal (arcSize paint.radius height) ++ "%")] ++ stroke),
    .newline, .empty "w:anchorlock" [], .newline] ++
  element "center"
    [.style [("color", paint.textColor), ("font-family", theme.font),
      ("font-size", px b.fontSize), ("font-weight", "bold")]]
    (line b.text) ++
  [.newline, .stop "v:roundrect", .newline, .legacyStop, .newline, .modernStart, .newline] ++
  element "a"
    [.plain "href" href, .plain "target" "_blank",
      .style ([("display", "inline-block"),
        ("padding", paddingOf b.paddingTop "24px" b.paddingBottom),
        ("background-color", paint.background)] ++ paint.border ++
        [("border-radius", paint.radius), ("color", paint.textColor), ("font-family", theme.font),
          ("font-size", px b.fontSize), ("font-weight", "bold"), ("line-height", "1.2"),
          ("text-decoration", "none"), ("mso-hide", "all")])]
    (line b.text) ++
  [.newline, .modernStop]

example : shapeHeight 12 12 16 = 52 := by decide +kernel
example : arcSize "8px" 52 = 31 := by decide +kernel

end MailBlocks.Email
