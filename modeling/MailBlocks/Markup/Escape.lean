import MailBlocks.MergeField

/-!
# Escaping authored text

Authored text enters markup with its five special characters written as character references. Merge
fields are copied as they are: their braces, names and blanks need no escape.

* `elementContent`: the content of an element.
* `multilineContent`: the content of an element, with its line breaks.
* `attributeValue`: the value of an attribute between double quotes.
-/

namespace MailBlocks.Markup

/-- How one character is written in the content of an element. -/
def contentChar (c : Char) : List Char :=
  match c with
  | '"' => "&quot;".toList
  | '&' => "&amp;".toList
  | '\'' => "&#x27;".toList
  | '<' => "&lt;".toList
  | '>' => "&gt;".toList
  | c => [c]

/-- How one character is written in an attribute's value: as in content, and never as a bare double
quote. -/
def attributeChar (c : Char) : List Char :=
  (contentChar c).flatMap fun d => if d = '"' then "&quot;".toList else [d]

/-- **The content of an element.** -/
def elementContent (s : String) : String :=
  String.ofList (MergeField.mapPlain contentChar s.toList)

/-- **The value of an attribute**, between double quotes. -/
def attributeValue (s : String) : String :=
  String.ofList (MergeField.mapPlain attributeChar s.toList)

/-- The text with each carriage return and line feed made one line feed. -/
def unixLines : List Char → List Char
  | '\r' :: '\n' :: s => '\n' :: unixLines s
  | c :: s => c :: unixLines s
  | [] => []

/-- The element that a line feed turns into. -/
def breakChar (c : Char) : List Char :=
  if c = '\n' then "<br />".toList else [c]

/-- **The content of an element with line breaks.** -/
def multilineContent (s : String) : String :=
  String.ofList ((MergeField.mapPlain contentChar (unixLines s.toList)).flatMap breakChar)

end MailBlocks.Markup
