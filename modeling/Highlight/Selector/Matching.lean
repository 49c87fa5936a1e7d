import Highlight.Scope.Cursor
import Highlight.Selector

/-!
# What a selector selects

A path is followed along the main scope from the outside in, without ever going back: a direct step
takes the next name, a transitive one the first name that will do. Operators are applied from left
to right. A filter narrows the context to one side, behind which nothing is to the left any more.
-/

namespace Highlight

namespace Cursor

/-- Makes the move that a relation asks for. -/
def take (c : Cursor) (relation : Relation) (n : Name) : Bool × Cursor :=
  match relation with
  | .direct => c.first n
  | .transitive => c.leading n

/-- Makes one move after the other, as long as each of them is made. -/
def follow : Cursor → List (Relation × Name) → Option Cursor
  | c, [] => some c
  | c, (relation, n) :: steps =>
      match c.take relation n with
      | (true, c) => follow c steps
      | (false, _) => none

theorem follow_nil (c : Cursor) : c.follow [] = some c := rfl

end Cursor

def Path.selects (p : Path) (context : Context) : Bool :=
  match context.main.cursor.follow p.steps with
  | none => false
  | some c => !p.endAnchor || c.isEmpty

/-- An operator on what its two sides select. -/
def Operator.apply : Operator → Bool → Bool → Bool
  | .union, a, b => a || b
  | .intersection, a, b => a && b
  | .difference, a, b => a && !b

mutual

def Term.selects : Term → Context → Bool
  | .filter .left term, context => term.selects context.leftward
  | .filter .right term, context => term.selects context.rightward
  | .filter .both term, context =>
      term.selects context.leftward && term.selects context.rightward
  | .group selector, context => selector.selects context
  | .path path, context => path.selects context

def Expression.selects : Expression → Context → Bool
  | ⟨complement, term⟩, context => term.selects context != complement

/-- The operators and operands of a chain, applied to what the chain selects so far. -/
def Composition.selectsFrom (soFar : Bool) : List Composition → Context → Bool
  | [], _ => soFar
  | ⟨operator, operand⟩ :: cs, context =>
      Composition.selectsFrom (operator.apply soFar (operand.selects context)) cs context

def Composite.selects : Composite → Context → Bool
  | ⟨base, compositions⟩, context =>
      Composition.selectsFrom (base.selects context) compositions context

def Composite.someSelects : List Composite → Context → Bool
  | [], _ => false
  | c :: cs, context => c.selects context || Composite.someSelects cs context

def Selector.selects : Selector → Context → Bool
  | ⟨composites⟩, context => composites.isEmpty || Composite.someSelects composites context

end

end Highlight
