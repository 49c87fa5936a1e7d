import Highlight.Text.Edit
import Highlight.Text.Ink
import Highlight.Text.Lines

/-!
# Numbered diffs

A diff shows the lines of two texts as an edit script from the old to the new. To the left of each
line stand its numbers, in the old text and in the new one; a line that is in only one of them has
a blank in the other's gutter. The gutters are as wide as the number of lines demands.
-/

namespace Highlight.Command

open Text (Edit Ink)

/-- A line of a diff, with its numbers where it has them. -/
structure DiffLine where
  oldNumber : Option Nat
  newNumber : Option Nat
  edit : Edit (List Char)

namespace DiffLine

/-- Numbers the lines of a script, given the numbers of the next line on either side. -/
def number (old new : Nat) : List (Edit (List Char)) → List DiffLine
  | [] => []
  | .keep line :: edits => ⟨some old, some new, .keep line⟩ :: number (old + 1) (new + 1) edits
  | .delete line :: edits => ⟨some old, none, .delete line⟩ :: number (old + 1) new edits
  | .insert line :: edits => ⟨none, some new, .insert line⟩ :: number old (new + 1) edits

/-- The lines of the diff of two texts. -/
def between (old new : List Char) : List DiffLine :=
  number 1 1 (Edit.between (Text.breakLines old) (Text.breakLines new))

/-- How many digits the line numbers of a text may have. -/
def gutterWidth (text : List Char) : Nat :=
  (Nat.toDigits 10 (max (Text.lineCount text) 1)).length

/-- A number flush right in its gutter, or a blank gutter. -/
def gutter (width : Nat) (number : Option Nat) : List Char :=
  ((number.map (Nat.toDigits 10)).getD []).leftpad width ' '

/-- The sign of a line, and the line itself. -/
def content : Edit (List Char) → Char × List Char
  | .keep line => (' ', line)
  | .delete line => ('-', line)
  | .insert line => ('+', line)

def ink : Edit (List Char) → Ink
  | .keep _ => .dim
  | .delete _ => .red
  | .insert _ => .green

/-- A line without the `\n` it may end with. -/
def withoutNewline (line : List Char) : List Char :=
  (line.reverse.dropWhile (· == '\n')).reverse

/-- The characters of a line of a diff, before it is painted. -/
def chars (oldWidth newWidth : Nat) (l : DiffLine) : List Char :=
  let (sign, line) := content l.edit
  gutter oldWidth l.oldNumber ++ ' ' :: gutter newWidth l.newNumber ++
    ' ' :: '|' :: sign :: withoutNewline line

end DiffLine

/-- The diff of two texts, as it is shown. -/
def diff (old new : String) : List String :=
  let old := old.toList
  let new := new.toList
  (DiffLine.between old new).map fun l =>
    (DiffLine.ink l.edit).paint
      (String.ofList (l.chars (DiffLine.gutterWidth old) (DiffLine.gutterWidth new)))

end Highlight.Command
