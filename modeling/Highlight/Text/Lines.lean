/-!
# Lines

A text breaks into lines behind every `\n`, every `\r\n` and every `\r` that stands alone. The lines
keep their breaks, so put together again they are the text. `lineCount` is the coarser notion of a
text editor that does not know the lone `\r`: it counts the lines that a `\n` ends, and one more for
what is behind the last of them.
-/

namespace Highlight.Text

/-- Whether a line ends with `c`, given the text behind it. -/
def endsLine (c : Char) (cs : List Char) : Bool :=
  c == '\n' || (c == '\r' && cs.head? != some '\n')

/-- The lines of a text, each with its break. -/
def breakLines : List Char → List (List Char)
  | [] => []
  | c :: cs =>
      if endsLine c cs then [c] :: breakLines cs
      else
        match breakLines cs with
        | [] => [[c]]
        | line :: lines => (c :: line) :: lines

theorem breakLines_nil : breakLines [] = [] := rfl

theorem flatten_breakLines (cs : List Char) : (breakLines cs).flatten = cs := by
  induction cs with
  | nil => rfl
  | cons c cs ih =>
    rw [breakLines]
    split
    · simp [ih]
    · split <;> simp_all

/-- The number of lines, where only `\n` ends a line. -/
def lineCount (cs : List Char) : Nat :=
  cs.count '\n' + if cs.getLast?.getD '\n' = '\n' then 0 else 1

end Highlight.Text
