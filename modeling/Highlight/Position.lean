import Highlight.Text.Bytes

/-!
# Positions in a text

Selectors found in themes are sometimes split across several lines, so a position carries, besides
its offset in bytes of UTF-8, the line and the column it falls on. Lines and columns count from
one, and a column counts characters.

`Position.after` walks over the characters before a position. `Position.locate` starts from an
offset instead, which may lie past the end of the text or inside a character, and looks back from
there for line breaks.
-/

namespace Highlight

structure Position where
  offset : Nat
  line : Nat
  column : Nat
deriving DecidableEq

namespace Position

/-- The beginning of a text. -/
def start : Position := ⟨0, 1, 1⟩

/-- The position behind a character that stands at `p`. -/
def advance (p : Position) (c : Char) : Position :=
  if c = '\n' then ⟨p.offset + c.utf8Size, p.line + 1, 1⟩
  else ⟨p.offset + c.utf8Size, p.line, p.column + 1⟩

/-- The position behind all of `cs`. -/
def after (cs : List Char) : Position :=
  cs.foldl advance start

theorem after_nil : after [] = start := rfl

theorem after_append (cs ds : List Char) : after (cs ++ ds) = ds.foldl advance (after cs) := by
  simp [after]

/-- How a diagnostic names a position: `L2:5`. -/
def label (p : Position) : String :=
  "L" ++ toString p.line ++ ":" ++ toString p.column

end Position

/-- The characters behind the last line break. -/
def Text.lastLine (cs : List Char) : List Char := (cs.reverse.takeWhile (· != '\n')).reverse

/-- The position of a byte offset. An offset past the end is moved back to the end; one inside a
character is kept, but has the line and column of the end. -/
def Position.locate (text : String) (offset : Nat) : Position :=
  let cs := text.toList
  let offset := min offset (Text.byteLength cs)
  let before := (Text.takeBytes? cs offset).getD cs
  ⟨offset, before.count '\n' + 1, (Text.lastLine before).length + 1⟩

end Highlight
