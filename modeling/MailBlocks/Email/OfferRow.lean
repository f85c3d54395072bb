import MailBlocks.Block.SalesOffer
import MailBlocks.Email.Button

/-!
# Rows of offers

An offer is one row of the content table with a table of its own inside. Blank lines are left out,
except those of additional offers, which are all shown in their order.
-/

namespace MailBlocks.Email

open Markup

/-- The table that holds the lines of an offer. -/
def offerTable (content : List Token) : List Token :=
  layoutTable [.plain "width" "100%"] [] content

/-- The row of an offer. -/
def offerRow (background : String) (content : List Token) : List Token :=
  row [.style [("padding", "0"), ("background-color", styleValue background)]] content

/-- A row of the inner table. -/
def innerRow (attributes : List Attribute) (content : List Token) : List Token :=
  element "tr" [] (element "td" attributes content)

/-- The image of an offer, which fills its place. -/
def offerImage (url alt : String) (width : Nat) : Token :=
  .empty "img"
    [.plain "src" (urlAttribute url), .plain "alt" (attributeValue alt),
      .plain "width" (Number.decimal width),
      .style ([("display", "block"), ("width", "100%")] ++ imageDeclarations width)]

/-! ## Service offers -/

/-- A line of a service offer in the element `tag`; a blank one is left out. -/
def serviceLine (theme : Theme) (tag padding weight : String) (l : ServiceLine) : List Token :=
  if Text.blank l.text then []
  else
    innerRow [.style [("padding", padding), ("text-align", l.align.name)]]
      (element tag
        [.style [("margin", "0"), ("font-family", theme.font), ("font-size", px l.fontSize),
          ("font-weight", weight), ("color", styleValue l.color), ("line-height", "1.4")]]
        (lines l.text))

/-- The coupon of a service offer; a blank one is left out. -/
def couponLine (theme : Theme) (c : Coupon) : List Token :=
  if Text.blank c.text then []
  else
    let border :=
      if c.showBorder then [("border", "2px dashed " ++ styleValue c.borderColor)] else []
    innerRow [.plain "align" "center", .style [("padding", "10px 20px")]]
      (layoutTable [.plain "align" "center"] []
        (innerRow
          [.style ([("padding", "12px 24px"), ("background-color", styleValue c.background)] ++
            border ++ [("font-family", theme.font), ("font-size", px c.fontSize),
              ("font-weight", "bold"), ("color", styleValue c.color), ("text-align", "center")])]
          (line c.text)))

/-- The image above a service offer, if it is shown and has an address. -/
def serviceImage (o : ServiceOffer) : List Token :=
  if o.showImage && !Text.blank o.imageUrl then
    innerRow [.plain "align" "center", .style [("padding", "0")]]
      [offerImage o.imageUrl o.imageAlt contentWidth]
  else []

/-- The button of a service offer; one without a text is left out. -/
def serviceButton (theme : Theme) (b : OfferButton) : List Token :=
  if Text.blank b.text then []
  else
    innerRow [.plain "align" b.align.name, .style [("padding", "15px 20px 25px 20px")]]
      (.newline :: dualButton theme b ++ [.newline])

/-- **The row of a service offer.** -/
def serviceOfferRow (theme : Theme) (o : ServiceOffer) : List Token :=
  offerRow o.background (offerTable
    (serviceImage o ++ serviceLine theme "h2" "20px 20px 10px 20px" "bold" o.title ++
      couponLine theme o.coupon ++ serviceLine theme "p" "10px 20px" "normal" o.details ++
      serviceLine theme "p" "5px 20px 10px 20px" "normal" o.disclaimer ++
      serviceButton theme o.button))

/-! ## Sales offers -/

/-- A styled line with the given content. -/
def styledLine (theme : Theme) (s : LineStyle) (content : List Token) : List Token :=
  innerRow
    [.style [("padding", paddingOf s.paddingTop "20px" s.paddingBottom),
      ("background-color", styleValue s.background), ("text-align", s.align.name),
      ("font-family", theme.font), ("font-size", px s.fontSize), ("color", styleValue s.color),
      ("line-height", "1.4")]] content

/-- A line of a sales offer; a blank one is left out. -/
def salesLine (theme : Theme) (l : OfferLine) : List Token :=
  if Text.blank l.text then [] else styledLine theme l.style (lines l.text)

/-- The lines of an additional offer, blank ones among them. -/
def additionalLines (theme : Theme) (a : AdditionalOffer) : List Token :=
  a.lines.flatMap fun l => styledLine theme l.style (lines l.text)

/-- The number of the vehicle behind its label; a blank one is left out. -/
def numberLine (theme : Theme) (o : SalesOffer) : List Token :=
  if Text.blank o.number.text then []
  else
    styledLine theme o.number.style
      (.text (o.numberKind.label ++ " ") :: line (Text.trim o.number.text))

/-- The button of a sales offer; one without a text is left out. -/
def salesButton (theme : Theme) (b : OfferButton) : List Token :=
  if Text.blank b.text then []
  else
    innerRow [.plain "align" b.align.name, .style [("padding", "15px 20px 25px 20px")]]
      (offerTableButton theme b)

/-- The lines of a sales offer in their order. -/
def salesLines (theme : Theme) (o : SalesOffer) : List Token :=
  offerTable
    (salesLine theme o.vehicle ++ salesLine theme o.offer ++ salesLine theme o.details ++
      o.additional.flatMap (additionalLines theme) ++ numberLine theme o ++
      salesLine theme o.mileage ++ salesLine theme o.disclaimer ++ salesButton theme o.button)

/-- The image of a sales offer. -/
def salesImage (o : SalesOffer) (width : Nat) : List Token :=
  linked o.imageLink [offerImage o.imageUrl o.imageAlt width]

/-- The width of an image beside the lines: at least one pixel, at most the column. -/
def sideWidth (o : SalesOffer) : Nat :=
  min (max o.imageWidth.toNat 1) contentWidth

/-- The cell of an image beside the lines. On narrow screens it stands above them. -/
def sideImage (o : SalesOffer) : List Token :=
  let width := sideWidth o
  element "td"
    [.plain "class" "mobile-stack mobile-padding-bottom", .plain "width" (Number.decimal width),
      .plain "valign" "top", .style [("width", pxNat width), ("padding", "20px")]]
    (salesImage o width)

/-- The cell of the lines beside an image. -/
def sideLines (theme : Theme) (o : SalesOffer) : List Token :=
  element "td"
    [.plain "class" "mobile-stack", .plain "valign" "top", .style [("padding", "0")]]
    (salesLines theme o)

/-- **The row of a sales offer**, with its image above or beside the lines, if it is shown and has
an address. -/
def salesOfferRow (theme : Theme) (o : SalesOffer) : List Token :=
  offerRow o.background <|
    if !o.showImage || Text.blank o.imageUrl then salesLines theme o
    else
      match o.imagePlace with
      | .center =>
        offerTable
          (innerRow [.plain "align" "center", .style [("padding", "20px 20px 0 20px")]]
              (salesImage o (contentWidth - 40)) ++
            innerRow [.style [("padding", "0")]] (salesLines theme o))
      | .left => offerTable (element "tr" [] (sideImage o ++ sideLines theme o))
      | .right => offerTable (element "tr" [] (sideLines theme o ++ sideImage o))

end MailBlocks.Email
