import MailBlocks.Number.Shortest

/-!
# JSON values

Numbers are whole where the text has neither point nor exponent and fits 64 bits, and binary
floating point otherwise. Objects are lists of members in the order in which they are written.
-/

namespace MailBlocks.Json

/-- **A JSON number.** -/
inductive Number where
  | int (value : Int)
  | real (negative : Bool) (magnitude : Number.Binary64)
  deriving DecidableEq, Repr

/-- **A JSON value.** -/
inductive Value where
  | null
  | bool (value : Bool)
  | number (value : Number)
  | string (value : String)
  | array (items : List Value)
  | object (members : List (String × Value))
  deriving Repr, Inhabited

end MailBlocks.Json
