import MailBlocks.Markup.Escape

/-!
# Markup as tokens

An email is put together as a list of tokens, tags with attributes, text between them and the marks
of conditional comments, and printed at the end. Values and texts in tokens are escaped already, so
that printing joins them as they are.

* `printAll_lines`: the tokens of a text with line breaks print as its multi-line content.
-/

namespace MailBlocks.Markup

/-- **An attribute of a tag.** The style attribute keeps its declarations apart. -/
inductive Attribute where
  | plain (name value : String)
  | style (declarations : List (String × String))
  deriving DecidableEq, Repr

/-- The printed form, a blank in front. -/
def Attribute.print : Attribute → String
  | plain name value => " " ++ name ++ "=\"" ++ value ++ "\""
  | style declarations =>
    " style=\"" ++ String.join (declarations.map fun (p, v) => p ++ ":" ++ v ++ ";") ++ "\""

/-- **A token.** Legacy marks enclose what only one engine shows, an engine that draws shapes in a
language of its own; modern marks enclose what all the others show. -/
inductive Token where
  | doctype (declaration : String)
  | start (name : String) (attributes : List Attribute)
  | empty (name : String) (attributes : List Attribute)
  | stop (name : String)
  | text (escaped : String)
  | lineBreak
  | legacyStart
  | legacyStop
  | modernStart
  | modernStop
  deriving DecidableEq, Repr

namespace Token

/-- The printed form. -/
def print : Token → String
  | doctype declaration => "<!DOCTYPE " ++ declaration ++ ">"
  | start name attributes => "<" ++ name ++ String.join (attributes.map Attribute.print) ++ ">"
  | empty name [] => "<" ++ name ++ "/>"
  | empty name attributes => "<" ++ name ++ String.join (attributes.map Attribute.print) ++ " />"
  | stop name => "</" ++ name ++ ">"
  | text escaped => escaped
  | lineBreak => "<br />"
  | legacyStart => "<!--[if mso]>"
  | legacyStop => "<![endif]-->"
  | modernStart => "<!--[if !mso]><!-- -->"
  | modernStop => "<!--<![endif]-->"

/-- A line feed between tags. -/
def newline : Token := text "\n"

end Token

/-- **The printed form of a list of tokens.** -/
def printAll (tokens : List Token) : String :=
  String.join (tokens.map Token.print)

theorem toList_printAll (tokens : List Token) :
    (printAll tokens).toList = tokens.flatMap fun t => t.print.toList := by
  rw [printAll, String.toList_join, List.flatMap_map]

/-- An element: its tag, its content and its end tag. -/
def element (name : String) (attributes : List Attribute) (content : List Token) : List Token :=
  .start name attributes :: content ++ [.stop name]

/-- A table for layout, with some attributes in front of those that take away its spacing. -/
def layoutTable (attributes extra : List Attribute) (content : List Token) : List Token :=
  element "table"
    (.plain "role" "presentation" :: attributes ++
      [.plain "cellpadding" "0", .plain "cellspacing" "0", .plain "border" "0"] ++ extra) content

/-- **A row of an email**: one cell on a line of its own. -/
def row (attributes : List Attribute) (content : List Token) : List Token :=
  [.start "tr" [], .newline, .start "td" attributes] ++ content ++
    [.stop "td", .newline, .stop "tr", .newline]

/-- The text of one line, escaped. -/
def line (s : String) : List Token :=
  [.text (elementContent s)]

/-- The texts of several lines, escaped, with breaks between them. -/
def lines (s : String) : List Token :=
  ((Text.splitAt '\n' (MergeField.mapPlain contentChar (unixLines s.toList))).map fun l =>
    Token.text (String.ofList l)).intersperse .lineBreak

theorem splitAt_ne_nil (sep : Char) (s : List Char) : Text.splitAt sep s ≠ [] := by
  cases s with
  | nil => simp [Text.splitAt]
  | cons c s =>
    simp only [Text.splitAt]
    split
    · simp
    · split <;> simp

theorem toList_print_pieces (s : List Char) :
    (((Text.splitAt '\n' s).map fun l => Token.text (String.ofList l)).intersperse
      .lineBreak).flatMap (fun t => t.print.toList) = s.flatMap breakChar := by
  induction s with
  | nil => simp [Text.splitAt, Token.print]
  | cons c s ih =>
    have hne := splitAt_ne_nil '\n' s
    simp only [Text.splitAt, List.flatMap_cons]
    split
    · next h =>
      subst h
      cases hs : Text.splitAt '\n' s with
      | nil => exact absurd hs hne
      | cons piece pieces =>
        rw [hs] at ih
        rw [← ih]
        simp [Token.print, breakChar]
    · next h =>
      cases hs : Text.splitAt '\n' s with
      | nil => exact absurd hs hne
      | cons piece pieces =>
        rw [hs] at ih
        rw [← ih]
        cases pieces <;> simp [Token.print, breakChar, h]

/-- The tokens of a text with line breaks print as its multi-line content. -/
theorem printAll_lines (s : String) : printAll (lines s) = multilineContent s := by
  apply String.toList_inj.1
  have h := toList_print_pieces (MergeField.mapPlain contentChar (unixLines s.toList))
  simp only [printAll, lines, multilineContent, String.toList_join, String.toList_ofList,
    List.flatMap_map]
  exact h

end MailBlocks.Markup
