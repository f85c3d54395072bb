import MailBlocks.Block.Simple
import MailBlocks.Email.Theme

/-!
# Rows of text, images, dividers and spacers

Each block becomes one row of the content table, or none if it has nothing to show.

* `imagePixels`: the width of an image, which no padding makes negative.
-/

namespace MailBlocks.Email

open Markup

/-- The row of a text in the element `tag`; a blank text has none. -/
def textRow (theme : Theme) (tag : String) (b : TextBlock) : List Token :=
  if Text.blank b.text then []
  else
    row
      [.style [("padding", b.padding.css), ("background-color", styleValue b.background),
        ("text-align", b.align.name)]]
      (element tag
        [.style [("margin", "0"), ("font-family", theme.font), ("font-size", px b.fontSize),
          ("font-weight", styleValue b.fontWeight), ("font-style", styleValue b.fontStyle),
          ("color", styleValue b.color), ("line-height", styleValue b.lineHeight),
          ("text-align", b.align.name)]]
        (lines b.text))

/-- The margin that puts an image where it belongs. -/
def marginOf : Align → String
  | .left => "0"
  | .center => "0 auto"
  | .right => "0 0 0 auto"

/-- The sum of two numbers, or the largest of 32 bits if it is above that. -/
def saturatingAdd (a b : UInt32) : UInt32 :=
  if a ≤ a + b then a + b else 0xFFFFFFFF

/-- The difference of two numbers, or zero if it is below that. -/
def saturatingSub (a b : UInt32) : UInt32 :=
  if b ≤ a then a - b else 0

theorem toNat_saturatingAdd (a b : UInt32) :
    (saturatingAdd a b).toNat = min (a.toNat + b.toNat) 0xFFFFFFFF := by
  have ha := a.toNat_lt
  have hb := b.toNat_lt
  have hmost : (0xFFFFFFFF : UInt32).toNat = 0xFFFFFFFF := rfl
  unfold saturatingAdd
  split
  · next h =>
    rw [UInt32.le_iff_toNat_le, UInt32.toNat_add] at h
    rw [UInt32.toNat_add]
    omega
  · next h =>
    rw [UInt32.le_iff_toNat_le, UInt32.toNat_add] at h
    rw [hmost]
    omega

theorem toNat_saturatingSub (a b : UInt32) :
    (saturatingSub a b).toNat = a.toNat - b.toNat := by
  unfold saturatingSub
  split
  · next h => exact UInt32.toNat_sub_of_le a b h
  · next h =>
    rw [UInt32.le_iff_toNat_le, Nat.not_le] at h
    exact (Nat.sub_eq_zero_of_le (Nat.le_of_lt h)).symm

/-- The percentage of an image's width, at most 100. -/
def imagePercent (b : ImageBlock) : UInt32 :=
  min b.widthPercent 100

/-- **The width of an image** in pixels: its percentage of what the padding leaves of the column. -/
def imagePixels (b : ImageBlock) : UInt32 :=
  let available :=
    saturatingSub (.ofNat contentWidth) (saturatingAdd b.padding.left b.padding.right)
  available * imagePercent b / 100

/-- The row of an image; one without an address has none. -/
def imageRow (b : ImageBlock) : List Token :=
  if Text.blank b.source then []
  else
    let pixels := (imagePixels b).toNat
    let image : Token :=
      .empty "img"
        [.plain "src" (urlAttribute b.source), .plain "alt" (attributeValue b.alt),
          .plain "width" (Number.decimal pixels),
          .style ([("display", "block"), ("width", Scalar.decimal (imagePercent b) ++ "%")] ++
            imageDeclarations pixels ++ [("margin", marginOf b.align)])]
    row [.plain "align" b.align.name, .style [("padding", b.padding.css)]] (linked b.link [image])

/-- The row of a divider. Width and thickness are written as they were given, escaped. -/
def dividerRow (b : DividerBlock) : List Token :=
  let thickness := Text.trim b.thickness
  row
    [.plain "align" b.align.name,
      .style [("padding", paddingOf b.paddingTop "20px" b.paddingBottom)]]
    (element "table"
      [.plain "role" "presentation", .plain "width" (attributeValue (Text.trim b.width) ++ "%"),
        .plain "align" b.align.name, .plain "cellpadding" "0", .plain "cellspacing" "0",
        .plain "border" "0"]
      (element "tr" []
        (element "td"
          [.plain "height" (attributeValue thickness),
            .style [("font-size", "0"), ("line-height", "0"),
              ("border-top", styleValue thickness ++ "px solid " ++ styleValue b.color)]]
          [.text "&nbsp;"])))

/-- The row of a spacer. -/
def spacerRow (b : SpacerBlock) : List Token :=
  let background := if b.matchBackground then "transparent" else styleValue b.background
  row
    [.plain "height" (Scalar.decimal b.height),
      .style [("height", px b.height), ("font-size", px b.height), ("line-height", px b.height),
        ("background-color", background)]]
    [.text "&nbsp;"]

end MailBlocks.Email
