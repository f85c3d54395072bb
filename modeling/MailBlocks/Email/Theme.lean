import MailBlocks.Attribute.Scalar
import MailBlocks.Markup.StyleValue
import MailBlocks.Markup.Token
import MailBlocks.Markup.Url
import MailBlocks.Settings

/-!
# What all rows of an email share

The theme of an email, worked out once from the design settings, and the forms of images, links and
lengths that rows of several kinds have in common.
-/

namespace MailBlocks.Email

open Markup

/-- The width of the content column, in pixels. -/
def contentWidth : Nat := 600

/-- **The theme**: the font family as a style value and the shape of buttons. -/
structure Theme where
  font : String
  buttonStyle : ButtonStyle
  deriving DecidableEq, Repr

/-- The theme of design settings. -/
def Theme.ofSettings (s : DesignSettings) : Theme :=
  ⟨styleValue s.fontFamily, s.buttonStyle⟩

/-- A number of pixels. -/
def px (n : UInt32) : String :=
  Scalar.decimal n ++ "px"

/-- A number of pixels. -/
def pxNat (n : Nat) : String :=
  Number.decimal n ++ "px"

/-- The value of a `padding` declaration with the same padding on the left and on the right. -/
def paddingOf (top : UInt32) (sides : String) (bottom : UInt32) : String :=
  px top ++ " " ++ sides ++ " " ++ px bottom ++ " " ++ sides

/-- The declarations of all images after those of their width. -/
def imageDeclarations (width : Nat) : List (String × String) :=
  [("max-width", pxNat width), ("height", "auto"), ("border", "0"), ("outline", "none"),
    ("text-decoration", "none")]

/-- What opens in a window of its own when the content is followed, unless the address is blank. -/
def linked (link : String) (content : List Token) : List Token :=
  if Text.blank link then content
  else
    element "a"
      [.plain "href" (urlAttribute link), .plain "target" "_blank",
        .style [("text-decoration", "none")]] content

end MailBlocks.Email
