import MailBlocks.Text.Unprintable

/-!
# Quoted text in messages

A text that a message shows stands between double quotes, with quotes, backslashes and the
characters that cannot be seen written as escapes.

* `quotedChar`: how one character is written.
* `quoted`: a whole text between its quotes.
-/

namespace MailBlocks.Text

/-- The hexadecimal digits of a number, in small letters and without leading zeros. -/
def hexDigits (n : Nat) : List Char :=
  Nat.toDigits 16 n

/-- How one character is written between the quotes. -/
def quotedChar (c : Char) : List Char :=
  match c with
  | '\x00' => ['\\', '0']
  | '\t' => ['\\', 't']
  | '\n' => ['\\', 'n']
  | '\r' => ['\\', 'r']
  | '"' => ['\\', '"']
  | '\\' => ['\\', '\\']
  | c =>
    if c.toNat < 0x20 || c.toNat = 0x7F || (0x80 ≤ c.toNat && isUnprintable c) then
      ['\\', 'u', '\x7b'] ++ hexDigits c.toNat ++ ['\x7d']
    else [c]

/-- A text between double quotes, as messages show it. -/
def quoted (s : String) : String :=
  String.ofList ('"' :: s.toList.flatMap quotedChar ++ ['"'])

example : quoted "a\"b\n\x7f" = "\"a\\\"b\\n\\u\x7b7f\x7d\"" := by decide

end MailBlocks.Text
