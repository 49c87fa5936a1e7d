import Highlight.Name

/-!
# Scopes and contexts

A scope is the stack of names that a highlighter reports for a place in a document, outermost
first: `source.js meta.function string.quoted`. A context is what a selector is tried on, the scope
at a position and, if there is anything there, the scope to the left of it.
-/

namespace Highlight

structure Scope where
  names : List Name
deriving DecidableEq

namespace Scope

def isEmpty (s : Scope) : Bool := s.names.isEmpty

/-- The characters of a scope, its names separated by single spaces. -/
def chars (s : Scope) : List Char :=
  List.intercalate [' '] (s.names.map Name.chars)

def text (s : Scope) : String := String.ofList s.chars

end Scope

/-- The side of a position that a filter looks at. -/
inductive Side
  | left
  | right
  | both
deriving DecidableEq

namespace Side

/-- The letter that stands for a side in front of a colon. -/
def letter : Side → Char
  | .left => 'L'
  | .right => 'R'
  | .both => 'B'

def ofLetter? (c : Char) : Option Side :=
  if c = 'L' then some .left
  else if c = 'R' then some .right
  else if c = 'B' then some .both
  else none

theorem ofLetter?_letter (s : Side) : ofLetter? s.letter = some s := by
  cases s <;> rfl

end Side

structure Context where
  left : Option Scope
  main : Scope
deriving DecidableEq

namespace Context

/-- The context whose main scope is the left one. Where nothing is to the left, the main scope takes
its place. -/
def leftward (context : Context) : Context := ⟨none, context.left.getD context.main⟩

/-- The context without anything to the left. -/
def rightward (context : Context) : Context := ⟨none, context.main⟩

end Context

end Highlight
