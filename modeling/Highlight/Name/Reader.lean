import Highlight.Name
import Highlight.SyntaxError

/-!
# Reading scope names

A component starts with a letter, a digit, `_` or `*`, and goes on with these or `-`; letters and
digits are those of ASCII. A name is read as far as there are characters of a name, dots included,
and the run is then cut at its dots. The first piece that is not a component is where reading
halts.
-/

namespace Highlight

def isComponentStart (c : Char) : Bool :=
  c.isAlphanum || c == '_' || c == '*'

def isComponentChar (c : Char) : Bool :=
  isComponentStart c || c == '-'

def isComponent : List Char → Bool
  | [] => false
  | c :: cs => isComponentStart c && cs.all isComponentChar

theorem isComponent_nil : isComponent [] = false := rfl

theorem isComponent_cons (c : Char) (cs : List Char) :
    isComponent (c :: cs) = (isComponentStart c && cs.all isComponentChar) := rfl

/-- Whether a character can stand somewhere in a name. -/
def isNameChar (c : Char) : Bool :=
  isComponentChar c || c == '.'

namespace Name

/-- The run of name characters that a text starts with, cut at its dots. -/
def pieces (cs : List Char) : List (List Char) :=
  (cs.takeWhile isNameChar).splitOn '.'

/-- Reads the name that starts right here, and returns it with the text behind it. -/
def read (cs : List Char) : Except Halt (Name × List Char) :=
  if (pieces cs).all isComponent then
    .ok (⟨(pieces cs).map String.ofList⟩, cs.dropWhile isNameChar)
  else
    let good := (pieces cs).takeWhile isComponent
    .error ⟨cs.drop (good.flatMap fun k => k ++ ['.']).length, .expecting .component⟩

/-- Reads a text that must be one name and nothing else, not even blanks. The empty text is the
empty name. -/
def ofChars (cs : List Char) : Except Halt Name :=
  if cs.isEmpty then .ok ⟨[]⟩
  else
    match read cs with
    | .error halt => .error halt
    | .ok (name, []) => .ok name
    | .ok (_, rest) => .error ⟨rest, .expecting .endOfName⟩

def parse (text : String) : Except SyntaxError Name :=
  (ofChars text.toList).mapError (Halt.error text.toList)

end Name

end Highlight
