import Highlight.Command.Arguments
import Highlight.Command.Diff
import Highlight.Scope.Reader
import Highlight.Selector.Matching
import Highlight.Selector.Outline
import Highlight.Selector.Reader
import Highlight.Selector.Tokens

/-!
# What a command comes to

A request is answered by an outcome: the lines to be printed, a chain of errors with the outermost
first, and an exit code. Only the file that a request names has to be looked up, and `File` stands
for all that can come of it.
-/

namespace Highlight.Command

/-- What looking up a file comes to. -/
inductive File
  | bytes (content : ByteArray)
  | missing
  | unreadable (message : String)

structure Outcome where
  exit : Nat
  lines : List String
  errors : List String
deriving DecidableEq

namespace Outcome

/-- Prints lines and succeeds. -/
def success (lines : List String) : Outcome := ⟨0, lines, []⟩

/-- Prints lines that are the bad news. -/
def failure (lines : List String) : Outcome := ⟨1, lines, []⟩

/-- Says why nothing could be done. -/
def error (errors : List String) : Outcome := ⟨1, [], errors⟩

/-- The command line makes no sense. -/
def usage : Outcome := ⟨2, [], []⟩

/-- What is printed, with a newline behind each line. -/
def text (o : Outcome) : String := String.join (o.lines.map (· ++ "\n"))

end Outcome

/-- How an error refers to the source of the selector. -/
def Source.description : Source → String
  | .expression _ => "the expression"
  | .file path => "`" ++ path ++ "`"

/-- The text of a file, or the reason why there is none. -/
def File.text : File → Except String String
  | .bytes content =>
      match String.fromUTF8? content with
      | some text => .ok text
      | none => .error "stream did not contain valid UTF-8"
  | .missing => .error "No such file or directory (os error 2)"
  | .unreadable message => .error message

/-- The text of the selector. -/
def Source.read (files : String → File) : Source → Except (List String) String
  | .expression text => .ok text
  | .file path =>
      (files path).text.mapError fun message => ["could not read `" ++ path ++ "`", message]

/-- Puts what could not be parsed in front of the reason. -/
def parsing {α : Type} (what : String) (result : Except SyntaxError α) :
    Except (List String) α :=
  result.mapError fun e => ["could not parse " ++ what, e.message]

/-- The text of the selector with the selector itself. -/
def Source.parse (files : String → File) (s : Source) :
    Except (List String) (String × Selector) := do
  let text ← s.read files
  let selector ← parsing s.description (Selector.parse text)
  return (text, selector)

/-- The diff between two outlines or two texts that should not differ. -/
def discrepancy (what old new : String) : Outcome :=
  .failure (Text.Ink.brightRed.paint what :: diff old new)

def check (first : Selector) : Except (List String) Outcome := do
  let second ← parsing "the first dump" (Selector.parse first.text)
  if first ≠ second then
    return discrepancy "The ASTs differ!" first.outline.text second.outline.text
  else if first.text ≠ second.text then
    return discrepancy "The dumps differ!" first.text second.text
  else
    return .success [Text.Ink.brightGreen.paint "The dumps are equal"]

def select (selector : Selector) (scope : String) (left : Option String) :
    Except (List String) Outcome := do
  let main ← parsing ("the scope `" ++ scope ++ "`") (Scope.parse scope)
  let left ← left.mapM fun text => parsing ("the left scope `" ++ text ++ "`") (Scope.parse text)
  if selector.selects ⟨left, main⟩ then
    return .success [Text.Ink.brightGreen.paint "matches"]
  else
    return .failure [Text.Ink.brightRed.paint "does not match"]

/-- Answers a request, or says why it cannot be answered. -/
def Request.answer (files : String → File) (r : Request) : Except (List String) Outcome := do
  let (text, selector) ← r.source.parse files
  match r.action with
  | .outline => return .success [selector.outline.text]
  | .dump false => return .success [selector.text]
  | .dump true => return .success (diff (Text.trimEnd text) selector.text)
  | .check => check selector
  | .select scope left => select selector scope left

/-- What a command line comes to. -/
def run (files : String → File) (args : List String) : Outcome :=
  match Request.ofArguments args with
  | none => .usage
  | some request =>
      match request.answer files with
      | .ok outcome => outcome
      | .error errors => .error errors

end Highlight.Command
