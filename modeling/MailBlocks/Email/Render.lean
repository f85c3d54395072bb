import MailBlocks.Document
import MailBlocks.Email.OfferRow
import MailBlocks.Email.Shell
import MailBlocks.Email.SimpleRow

/-!
# Documents as emails

The markup of a document: the rows of its blocks in their order inside the shell. It is a function
of the document and the settings alone.

* `rowsOf`: the row of a block, empty if it shows nothing.
* `render`: the email as a text.
-/

namespace MailBlocks.Email

open Markup

/-- **The rows of a block**: one, or none if there is nothing to show. -/
def rowsOf (theme : Theme) : Content → List Token
  | .header t => textRow theme "h1" t
  | .textBlock t => textRow theme "p" t
  | .image i => imageRow i
  | .button b => buttonRow theme b
  | .divider d => dividerRow d
  | .spacer s => spacerRow s
  | .serviceOffer o => serviceOfferRow theme o
  | .salesOffer o => salesOfferRow theme o
  | .unknown _ => []

/-- The tokens of a document's email. -/
def tokens (d : Document) (s : DesignSettings) : List Token :=
  let theme := Theme.ofSettings s
  shell theme (d.blocks.flatMap fun b => rowsOf theme b.content)

/-- **The email of a document.** -/
def render (d : Document) (s : DesignSettings) : String :=
  printAll (tokens d s)

/-- The email of the document of some components. -/
def renderComponents (fresh : Nat → FreshIds) (cs : List Component) (s : DesignSettings) : String :=
  render (.ofComponents fresh cs) s

end MailBlocks.Email
