import Highlight.Text.Hex
import Highlight.Text.Quoted

/-!
# Colors

A color has a red, a green, a blue and an alpha channel of eight bits each. It is written as `#` and
two hexadecimal digits for each channel, and the alpha channel is left out where it is full.
-/

namespace Highlight

structure Color where
  red : UInt8
  green : UInt8
  blue : UInt8
  alpha : UInt8
deriving DecidableEq

/-- Why a text is not a color. What is at fault is shown with the text as a whole. -/
inductive ColorError
  | notHex (text : String)
  | length (text : String) (digits : Nat)
deriving DecidableEq

def ColorError.message : ColorError → String
  | .notHex text =>
      "could not parse a color from " ++ Text.quoted text ++ ": not a hexadecimal integer"
  | .length text digits =>
      "could not parse a color from " ++ Text.quoted text ++ ": expected 6 or 8 digits, got " ++
        toString digits

namespace Color

/-- A color without transparency. -/
def rgb (red green blue : UInt8) : Color := ⟨red, green, blue, 255⟩

/-- The color whose channels are the bytes of a word, red in the highest. -/
def ofWord (w : UInt32) : Color :=
  ⟨(w >>> 24).toUInt8, (w >>> 16).toUInt8, (w >>> 8).toUInt8, w.toUInt8⟩

/-- The digits of a text, which may have a number sign in front of them. -/
def digits : List Char → List Char
  | '#' :: cs => cs
  | cs => cs

/-- Reads six digits, for a color without transparency, or eight. -/
def parse (text : String) : Except ColorError Color :=
  let ds := digits text.toList
  if ds.isEmpty || !ds.all Text.isHexDigit then .error (.notHex text)
  else if ds.length ≠ 6 ∧ ds.length ≠ 8 then .error (.length text ds.length)
  else
    match Text.hexWord? ds with
    | none => .error (.notHex text)
    | some w => .ok (ofWord (if ds.length = 6 then w <<< 8 ||| 0xff else w))

def chars (c : Color) : List Char :=
  '#' :: Text.hexByte c.red ++ Text.hexByte c.green ++ Text.hexByte c.blue ++
    if c.alpha = 255 then [] else Text.hexByte c.alpha

def text (c : Color) : String := String.ofList c.chars

end Color

end Highlight
