import MailBlocks.Markup.Escape

/-!
# Addresses in markup

An authored address is written into a link or an image unless its scheme would run a script or embed
markup. Schemes are recognised whatever the case of their letters and whatever blanks or control
characters are strewn in, since readers of mail ignore those.

* `isBlockedUrl`: the addresses that are kept out.
* `urlAttribute`: what is written for an address.
-/

namespace MailBlocks.Markup

open Text

/-- The characters of an address that count for its scheme. -/
def schemeChars (url : String) : List Char :=
  lowerChars (url.toList.filter fun c => !isBlank c && !isControl c)

/-- **Blocked addresses**: scripts, and data that is no image. -/
def isBlockedUrl (url : String) : Bool :=
  let cs := schemeChars url
  "javascript:".toList.isPrefixOf cs || "vbscript:".toList.isPrefixOf cs ||
    ("data:".toList.isPrefixOf cs && !"data:image/".toList.isPrefixOf cs)

/-- **The address as an attribute's value**: trimmed and escaped, or `#` in place of a blocked
one. -/
def urlAttribute (url : String) : String :=
  let trimmed := trim url
  if isBlockedUrl trimmed then "#" else attributeValue trimmed

example : urlAttribute " JaVa\tScript:alert(1)" = "#" := by decide

end MailBlocks.Markup
