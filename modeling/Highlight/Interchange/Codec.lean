import Highlight.Interchange.Value
import Highlight.Scope.Reader
import Highlight.Selector.Reader
import Highlight.Selector.Tokens
import Highlight.Style

/-!
# Codecs

How names, scopes, selectors, colors and underlines are stored as values. Names, scopes and
selectors are stored as their text, the way they stand in a theme file, and a stored text is read
again when it is decoded. A color is stored as a map of its channels, and may also be given as a
sequence of all four.
-/

namespace Highlight

structure Codec (α : Type) where
  encode : α → Value
  decode : Value → Except DecodeError α

namespace Codec

/-- What is stored as its text. -/
def ofText {α : Type} (expected : String) (parse : String → Except SyntaxError α)
    (text : α → String) : Codec α where
  encode a := .string (text a)
  decode
    | .string s => (parse s).mapError .malformed
    | value => .error (.wrongKind value expected)

def name : Codec Name := ofText "a dotted scope name" Name.parse Name.text

def scope : Codec Scope :=
  ofText "a whitespace-separated list of scope names" Scope.parse Scope.text

def selector : Codec Selector := ofText "a scope selector" Selector.parse Selector.text

/-- Lists are stored as sequences. The first item that cannot be decoded is the one reported. -/
def list {α : Type} (item : Codec α) : Codec (List α) where
  encode as := .sequence (as.map item.encode)
  decode
    | .sequence items => items.mapM item.decode
    | value => .error (.wrongKind value "a sequence")

def byte : Codec UInt8 where
  encode b := .integer b.toNat
  decode
    | .integer n =>
        if 0 ≤ n ∧ n < 256 then .ok (UInt8.ofNat n.toNat)
        else .error (.wrongContent (.integer n) "u8")
    | value => .error (.wrongKind value "u8")

/-- A channel that must be there. -/
def channel (key : String) (c : Option UInt8) : Except DecodeError UInt8 :=
  match c with
  | some b => .ok b
  | none => .error (.missingField key)

/-- Reads the channels of a map. Each channel that is there is decoded, in the order of the keys,
before one is found to be missing. -/
def colorOfFields (fields : List (String × Value)) : Except DecodeError Color := do
  let alpha ← (fields.lookup "alpha").mapM byte.decode
  let blue ← (fields.lookup "blue").mapM byte.decode
  let green ← (fields.lookup "green").mapM byte.decode
  let red ← (fields.lookup "red").mapM byte.decode
  return ⟨← channel "red" red, ← channel "green" green, ← channel "blue" blue,
    ← channel "alpha" alpha⟩

/-- Reads the channels of a sequence, of which there must be four. A bad channel among the first
four is reported before their number. -/
def colorOfItems (items : List Value) : Except DecodeError Color := do
  match ← (items.take 4).mapM byte.decode with
  | [red, green, blue, alpha] =>
      if items.length ≤ 4 then return ⟨red, green, blue, alpha⟩
      else .error (.wrongLength items.length "fewer elements in array")
  | _ => .error (.wrongLength items.length "struct Color with 4 elements")

def color : Codec Color where
  encode c := .map [("red", byte.encode c.red), ("green", byte.encode c.green),
    ("blue", byte.encode c.blue), ("alpha", byte.encode c.alpha)]
  decode
    | .map fields => colorOfFields fields
    | .sequence items => colorOfItems items
    | value => .error (.wrongKind value "struct Color")

/-- The underline of a name. -/
def underlineOf (s : String) : Except DecodeError Underline :=
  if s = "Single" then .ok .single else .error (.unknownVariant s "Single")

/-- An underline is stored as its name. A map with the name as its only key, and nothing under it,
stands for the same. -/
def underline : Codec Underline where
  encode | .single => .string "Single"
  decode
    | .string s => underlineOf s
    | .map [(key, content)] => do
        let u ← underlineOf key
        match content with
        | .null => return u
        | _ => .error (.wrongKind content "unit")
    | .map fields => .error (.wrongContent (.map fields) "map with a single key")
    | value => .error (.wrongKind value "string or map")

end Codec

end Highlight
