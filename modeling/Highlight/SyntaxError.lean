import Highlight.Position
import Highlight.Text.Quoted

/-!
# Syntax errors

Every reader of this library stops at the first character that cannot be part of what it reads. It
leaves behind a `Halt`: the text it had not read, and why it went no further. Told the whole text,
a halt becomes a `SyntaxError`, which knows its position and the character found there.
-/

namespace Highlight

/-- How deeply groups and filters may nest inside each other. -/
def maxNesting : Nat := 128

/-- What a reader was looking for when it stopped. -/
inductive Expected
  | component
  | term
  | closeParen
  | endOfName
  | endOfSelector
deriving DecidableEq

def Expected.text : Expected → String
  | .component => "a scope name component"
  | .term => "a scope name, `(` or a filter"
  | .closeParen => "`)`"
  | .endOfName => "`.` or the end of the scope name"
  | .endOfSelector => "`,`, an operator or the end of the selector"

/-- Why a reader stopped. -/
inductive Reason
  | expecting (expected : Expected)
  | tooDeep
deriving DecidableEq

/-- Where and why a reader stopped, the place given by the text left unread. -/
structure Halt where
  unread : List Char
  reason : Reason
deriving DecidableEq

/-- What is wrong at a position. Nothing is found there at the end of the text. -/
inductive Fault
  | unexpected (found : Option Char) (expected : Expected)
  | tooDeep
deriving DecidableEq

structure SyntaxError where
  position : Position
  fault : Fault
deriving DecidableEq

namespace SyntaxError

/-- What was looked for, if the error is about something missing. -/
def expected (e : SyntaxError) : Option Expected :=
  match e.fault with
  | .unexpected _ expected => some expected
  | .tooDeep => none

def message (e : SyntaxError) : String :=
  "encountered a syntax error at " ++ e.position.label ++ ": " ++
    match e.fault with
    | .unexpected (some c) expected =>
        "expected " ++ expected.text ++ ", found " ++ Text.quotedChar c
    | .unexpected none expected => "expected " ++ expected.text ++ ", found the end of input"
    | .tooDeep => "nesting exceeds " ++ toString maxNesting ++ " levels"

end SyntaxError

/-- The error of a reader that halted on `text`. -/
def Halt.error (text : List Char) (halt : Halt) : SyntaxError where
  position := Position.after (text.take (text.length - halt.unread.length))
  fault :=
    match halt.reason with
    | .expecting expected => .unexpected halt.unread.head? expected
    | .tooDeep => .tooDeep

end Highlight
