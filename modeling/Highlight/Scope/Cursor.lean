import Highlight.Scope

/-!
# Walking along a scope

A cursor stands before the names of a scope that have not been matched yet, and it only moves
inwards. Each of its two moves is given a pattern and answers whether the move was made, together
with the cursor to go on with; a move that was not made leaves the cursor where it was. The empty
name asks for nothing, so it is always matched and nothing is consumed.
-/

namespace Highlight

structure Cursor where
  rest : List Name
deriving DecidableEq

/-- A cursor before the outermost name. -/
def Scope.cursor (s : Scope) : Cursor := ⟨s.names⟩

namespace Cursor

def isEmpty (c : Cursor) : Bool := c.rest.isEmpty

/-- Moves past the next name if that one refines `n`. -/
def first (c : Cursor) (n : Name) : Bool × Cursor :=
  if n.isEmpty then (true, c)
  else
    match c.rest with
    | [] => (false, c)
    | head :: tail => if head.refines n then (true, ⟨tail⟩) else (false, c)

/-- What follows the first name that refines `n`. -/
def behind? (n : Name) : List Name → Option (List Name)
  | [] => none
  | head :: tail => if head.refines n then some tail else behind? n tail

theorem behind?_nil (n : Name) : behind? n [] = none := rfl

theorem behind?_cons (n head : Name) (tail : List Name) :
    behind? n (head :: tail) = if head.refines n then some tail else behind? n tail := rfl

/-- Moves past the first name, of all that are left, that refines `n`. -/
def leading (c : Cursor) (n : Name) : Bool × Cursor :=
  if n.isEmpty then (true, c)
  else
    match behind? n c.rest with
    | none => (false, c)
    | some rest => (true, ⟨rest⟩)

end Cursor

end Highlight
