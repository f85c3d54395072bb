import MailBlocks.Markup.Escape

/-!
# Values of style declarations

Authored values of style declarations lose the characters that could end the declaration, the
attribute or the element, and a value that tries to run a script or to load something is dropped.
Merge fields are copied whole.
-/

namespace MailBlocks.Markup

open Text

/-- The characters that a style value loses, besides control characters. -/
def isStyleBreaker (c : Char) : Bool :=
  c = '<' || c = '>' || c = '"' || c = '\x7b' || c = '\x7d' || c = ';' || c = '\\'

/-- How one character is written in a style value. -/
def styleChar (c : Char) : List Char :=
  if isStyleBreaker c || isControl c then []
  else if c = '&' then "&amp;".toList
  else [c]

/-- What no style value may contain, in small letters. -/
def blockedStyles : List String := ["expression(", "javascript:", "url("]

/-- **The value of a style declaration.** -/
def styleValue (s : String) : String :=
  let cs := s.toList
  if blockedStyles.any fun p => occurs p.toList (lowerChars cs) then ""
  else String.ofList (trimBlank (MergeField.mapPlain styleChar (trimBlank cs)))

example : styleValue "red;\" onload=\"x" = "red onload=x" := by decide

end MailBlocks.Markup
