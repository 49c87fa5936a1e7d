import Highlight.SyntaxError

/-!
# Values for interchange

The values that other programs store and exchange: scalars, texts, sequences, and maps from texts.
The keys of a map are distinct, and their order means nothing.

A value may fail to be what a reader hopes for. `DecodeError` says how, and its message describes
what was found by its kind alone, or by its content as well where that is short.
-/

namespace Highlight

inductive Value
  | null
  | bool (b : Bool)
  | integer (n : Int)
  /-- A number that is not an integer, in its decimal notation. -/
  | decimal (digits : String)
  | string (text : String)
  | sequence (items : List Value)
  | map (fields : List (String × Value))
deriving Inhabited

/-- What a diagnostic says that it found. -/
def Value.description : Value → String
  | .null => "null"
  | .bool b => "boolean `" ++ toString b ++ "`"
  | .integer n => "integer `" ++ toString n ++ "`"
  | .decimal digits => "floating point `" ++ digits ++ "`"
  | .string text => "string " ++ Text.quoted text
  | .sequence _ => "sequence"
  | .map _ => "map"

inductive DecodeError
  /-- A text is not what it should be. -/
  | malformed (error : SyntaxError)
  /-- A value of some other kind was expected. -/
  | wrongKind (found : Value) (expected : String)
  /-- The kind of the value is right, but not its content. -/
  | wrongContent (found : Value) (expected : String)
  | wrongLength (length : Nat) (expected : String)
  | missingField (key : String)
  | unknownVariant (found expected : String)

def DecodeError.message : DecodeError → String
  | .malformed error => error.message
  | .wrongKind found expected =>
      "invalid type: " ++ found.description ++ ", expected " ++ expected
  | .wrongContent found expected =>
      "invalid value: " ++ found.description ++ ", expected " ++ expected
  | .wrongLength length expected =>
      "invalid length " ++ toString length ++ ", expected " ++ expected
  | .missingField key => "missing field `" ++ key ++ "`"
  | .unknownVariant found expected =>
      "unknown variant `" ++ found ++ "`, expected `" ++ expected ++ "`"

end Highlight
