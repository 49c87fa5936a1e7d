import Highlight.Name.Reader
import Highlight.Scope
import Highlight.Text.Blank

/-!
# Lexemes

Scopes and selectors are made of the same lexemes: names, the sides of filters, and marks, which are
single characters of any other kind. Blanks may stand before each of them. A letter `L`, `R` or `B`
that is followed by a colon, with or without blanks in between, is the side of a filter; without the
colon it is a name like any other.

`Lexeme.scan` cuts every text into lexemes. Whether these make sense together is left to the
readers, so a mark may be any character at all, and a name that is missing a component behind a dot
is a lexeme too. A lexeme therefore keeps two places at which a reader may have to halt: its start,
and the place where it ceases to be a name.
-/

namespace Highlight

inductive Token
  | name (name : Name)
  | broken (name : Name)
  | side (side : Side)
  | mark (char : Char)
deriving DecidableEq

namespace Token

/-- The characters of a token. A broken name ends with the dot behind which a component is missing,
and a side includes its colon. -/
def chars : Token → List Char
  | .name n => n.chars
  | .broken n => n.chars ++ ['.']
  | .side s => [s.letter, ':']
  | .mark c => [c]

end Token

/-- A token with two of its places, each given by the text unread there: `start` is where it begins
and `turn` is where it can no longer be taken for a name. -/
structure Lexeme where
  token : Token
  start : List Char
  turn : List Char

namespace Lexeme

/-- The side that a name turns out to be when a colon follows. -/
def sideOf? (n : Name) (rest : List Char) : Option Side :=
  match n.components.map String.toList, Text.dropBlanks rest with
  | [[letter]], ':' :: _ => Side.ofLetter? letter
  | _, _ => none

/-- The lexeme at the start of `c :: cs`, where `c` is not blank, and how many characters of `cs`
belong to it. -/
def ofCons (c : Char) (cs : List Char) : Lexeme × Nat :=
  let start := c :: cs
  if isComponentStart c then
    let length := (cs.takeWhile isNameChar).length
    match Name.read start with
    | .error halt =>
        let good := (Name.pieces start).takeWhile isComponent
        (⟨.broken ⟨good.map String.ofList⟩, start, halt.unread⟩, length)
    | .ok (n, rest) =>
        match sideOf? n rest with
        | some side =>
            (⟨.side side, start, Text.dropBlanks rest⟩, (rest.takeWhile Text.isBlank).length + 1)
        | none => (⟨.name n, start, rest⟩, length)
  else (⟨.mark c, start, cs⟩, 0)

/-- The lexemes of a text of which the first `n` characters belong to a lexeme already found. -/
def scanFrom : Nat → List Char → List Lexeme
  | _, [] => []
  | n + 1, _ :: cs => scanFrom n cs
  | 0, c :: cs =>
      if Text.isBlank c then scanFrom 0 cs
      else
        let (lexeme, n) := ofCons c cs
        lexeme :: scanFrom n cs

/-- The lexemes of a text, in order. -/
def scan (cs : List Char) : List Lexeme := scanFrom 0 cs

theorem scanFrom_eq_scan_drop (n : Nat) (cs : List Char) : scanFrom n cs = scan (cs.drop n) := by
  induction cs generalizing n with
  | nil => simp [scan, scanFrom]
  | cons c cs ih =>
    cases n with
    | zero => rfl
    | succ n => simpa [scanFrom] using ih n

theorem scan_nil : scan [] = [] := rfl

theorem scan_cons_blank {c : Char} (h : Text.isBlank c = true) (cs : List Char) :
    scan (c :: cs) = scan cs := by
  simp [scan, scanFrom, h]

theorem scan_cons {c : Char} (h : Text.isBlank c = false) (cs : List Char) :
    scan (c :: cs) = (ofCons c cs).1 :: scan (cs.drop (ofCons c cs).2) := by
  rw [← scanFrom_eq_scan_drop]
  simp [scan, scanFrom, h]

/-- The name that a lexeme is, where nothing but a name will do. -/
def name (l : Lexeme) : Except Halt Name :=
  match l.token with
  | .name n => .ok n
  | .broken _ | .side _ => .error ⟨l.turn, .expecting .component⟩
  | .mark _ => .error ⟨l.start, .expecting .component⟩

end Lexeme

end Highlight
