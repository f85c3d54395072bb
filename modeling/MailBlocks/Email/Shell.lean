import MailBlocks.Email.Theme

/-!
# The shell of an email

What stands around the rows of every email: the head with its styles, the body, and the table of
fixed width, which the legacy engine gets from a table around it.
-/

namespace MailBlocks.Email

open Markup

/-- The text of an email without rows. -/
def emptyText : String := "No content yet. Add components to build your email."

/-- The styles for the legacy engine. -/
def legacyStyles : String :=
  "\nbody, table, td, p, a, h1, h2 \x7b font-family: Arial, Helvetica, sans-serif " ++
  "!important; \x7d\n"

/-- The styles for all engines. -/
def commonStyles : String :=
  "\nbody \x7b margin: 0; padding: 0; width: 100% !important; -webkit-text-size-adjust: 100%; " ++
  "-ms-text-size-adjust: 100%; \x7d\n" ++
  "table, td \x7b border-collapse: collapse; mso-table-lspace: 0pt; " ++
  "mso-table-rspace: 0pt; \x7d\n" ++
  "img \x7b border: 0; outline: none; text-decoration: none; " ++
  "-ms-interpolation-mode: bicubic; \x7d\n" ++
  "@media only screen and (max-width: 600px) \x7b\n" ++
  "  .mobile-stack \x7b display: block !important; width: 100% !important; " ++
  "max-width: 100% !important; \x7d\n" ++
  "  .mobile-padding-bottom \x7b padding-bottom: 20px !important; \x7d\n" ++
  "\x7d\n"

/-- A line with one tag of the head about the document. -/
def metaLine (attributes : List Attribute) : List Token :=
  [.empty "meta" attributes, .newline]

/-- The lines before the body. -/
def headLines : List Token :=
  [.doctype ("html PUBLIC \"-//W3C//DTD XHTML 1.0 Transitional//EN\" " ++
      "\"http://www.w3.org/TR/xhtml1/DTD/xhtml1-transitional.dtd\""), .newline,
    .start "html"
      [.plain "xmlns" "http://www.w3.org/1999/xhtml",
        .plain "xmlns:v" "urn:schemas-microsoft-com:vml",
        .plain "xmlns:o" "urn:schemas-microsoft-com:office:office"], .newline,
    .start "head" [], .newline] ++
  metaLine [.plain "http-equiv" "Content-Type", .plain "content" "text/html; charset=UTF-8"] ++
  metaLine
    [.plain "http-equiv" "Content-Security-Policy",
      .plain "content"
        "default-src 'none'; style-src 'unsafe-inline'; img-src https: data:;"] ++
  metaLine
    [.plain "name" "viewport", .plain "content" "width=device-width, initial-scale=1.0"] ++
  metaLine [.plain "http-equiv" "X-UA-Compatible", .plain "content" "IE=edge"] ++
  element "title" [] [] ++ [.newline, .legacyStart, .newline] ++
  element "style" [.plain "type" "text/css"] [.text legacyStyles] ++ [.newline] ++
  element "noscript" []
    (element "xml" []
      (element "o:OfficeDocumentSettings" []
        (element "o:PixelsPerInch" [] [.text "96"]))) ++
  [.newline, .legacyStop, .newline] ++
  element "style" [.plain "type" "text/css"] [.text commonStyles] ++
  [.newline, .stop "head", .newline]

/-- The lines from the body's tag to the rows. -/
def openingLines (theme : Theme) : List Token :=
  [.start "body"
      [.style [("margin", "0"), ("padding", "0"), ("background-color", "#f4f4f4"),
        ("font-family", theme.font)]], .newline,
    .legacyStart, .newline,
    .start "table"
      [.plain "role" "presentation", .plain "width" (Number.decimal contentWidth),
        .plain "align" "center", .plain "cellpadding" "0", .plain "cellspacing" "0",
        .plain "border" "0"],
    .start "tr" [], .start "td" [], .newline, .legacyStop, .newline,
    .start "table"
      [.plain "role" "presentation", .plain "width" "100%", .plain "cellpadding" "0",
        .plain "cellspacing" "0", .plain "border" "0",
        .style [("max-width", pxNat contentWidth), ("margin", "0 auto"),
          ("background-color", "#ffffff")]], .newline]

/-- The lines after the rows. -/
def closingLines : List Token :=
  [.stop "table", .newline, .legacyStart, .newline, .stop "td", .stop "tr", .stop "table",
    .newline, .legacyStop, .newline, .stop "body", .newline, .stop "html", .newline]

/-- The row of an email without rows. -/
def emptyRow (theme : Theme) : List Token :=
  row
    [.style [("padding", "40px 20px"), ("text-align", "center"), ("font-family", theme.font),
      ("font-size", "14px"), ("color", "#999999")]]
    (line emptyText)

/-- **A whole email** around its rows. -/
def shell (theme : Theme) (rows : List Token) : List Token :=
  headLines ++ openingLines theme ++ (if rows.isEmpty then emptyRow theme else rows) ++
    closingLines

end MailBlocks.Email
