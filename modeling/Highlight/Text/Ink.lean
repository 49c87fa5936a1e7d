/-!
# Ink

Text for a terminal is painted by the escape sequence of its color in front of it and the sequence
that ends all colors behind it.
-/

namespace Highlight.Text

inductive Ink
  | dim
  | red
  | green
  | brightRed
  | brightGreen
deriving DecidableEq

/-- The number of a rendition in an escape sequence. -/
def Ink.code : Ink → String
  | .dim => "2"
  | .red => "31"
  | .green => "32"
  | .brightRed => "91"
  | .brightGreen => "92"

def Ink.paint (ink : Ink) (text : String) : String :=
  "\x1b[" ++ ink.code ++ "m" ++ text ++ "\x1b[0m"

end Highlight.Text
