import Highlight.Text.Combining
import Highlight.Text.Printable

/-!
# Quoted characters and strings

How a diagnostic shows a piece of someone else's text: between quotes, with everything that would
not be seen, or would be mistaken for the quotes themselves, written as an escape. A character is
quoted by `'` and a string by `"`, and each leaves the other's quote alone.
-/

namespace Highlight.Text

/-- A character by its number: `\u{301}`, in lower-case hexadecimal digits. -/
def numberedEscape (c : Char) : List Char :=
  '\\' :: 'u' :: '\x7b' :: Nat.toDigits 16 c.toNat ++ ['\x7d']

/-- A character as it stands between two `quote`s. -/
def escaped (quote c : Char) : List Char :=
  if c = '\x00' then ['\\', '0']
  else if c = '\t' then ['\\', 't']
  else if c = '\r' then ['\\', 'r']
  else if c = '\n' then ['\\', 'n']
  else if c = '\\' ∨ c = quote then ['\\', c]
  else if isCombining c || !isPrintable c then numberedEscape c
  else [c]

/-- A character between single quotes. -/
def quotedChar (c : Char) : String :=
  String.ofList ('\'' :: escaped '\'' c ++ ['\''])

/-- A string between double quotes. -/
def quoted (text : String) : String :=
  String.ofList ('"' :: text.toList.flatMap (escaped '"') ++ ['"'])

end Highlight.Text
