import Highlight.Scope

/-!
# Scope selectors

A selector is a comma-separated list of composites. A composite is a chain of expressions joined by
set operators without precedence, an expression a possibly complemented term, and a term a path, a
parenthesized selector, or a filter in front of another term. A path is a sequence of scope names,
each of which either follows the one before it directly or may come anywhere behind it.

The five types from `Term` to `Selector` contain each other, and everything defined on them is
defined for all five at once. As for names, nothing is asked of a tree that was built by hand.
-/

namespace Highlight

/-- How a name of a path relates to the name before it. -/
inductive Relation
  | direct
  | transitive
deriving DecidableEq

/-- A name of a path behind its root. -/
structure Descendant where
  relation : Relation
  name : Name
deriving DecidableEq

/-- A sequence of names to be found in a scope, from the outside in. An anchor at the beginning ties
the root to the outermost name, one at the end ties the last name to the innermost. -/
structure Path where
  beginAnchor : Bool
  endAnchor : Bool
  root : Name
  descendants : List Descendant
deriving DecidableEq

namespace Path

/-- The path of a root alone. -/
def ofRoot (root : Name) : Path := ⟨false, false, root, []⟩

def append (p : Path) (relation : Relation) (name : Name) : Path :=
  { p with descendants := p.descendants ++ [⟨relation, name⟩] }

def anchorBegin (p : Path) : Path := { p with beginAnchor := true }

def anchorEnd (p : Path) : Path := { p with endAnchor := true }

/-- Every name of a path with its relation to what is before it. An anchored root is related
directly to the outside of the scope. -/
def steps (p : Path) : List (Relation × Name) :=
  (if p.beginAnchor then .direct else .transitive, p.root) ::
    p.descendants.map fun d => (d.relation, d.name)

end Path

inductive Operator
  | union
  | intersection
  | difference
deriving DecidableEq

def Operator.char : Operator → Char
  | .union => '|'
  | .intersection => '&'
  | .difference => '-'

def Operator.ofChar? (c : Char) : Option Operator :=
  if c = '|' then some .union
  else if c = '&' then some .intersection
  else if c = '-' then some .difference
  else none

theorem Operator.ofChar?_char (o : Operator) : Operator.ofChar? o.char = some o := by
  cases o <;> rfl

mutual

inductive Term
  | filter (side : Side) (term : Term)
  | group (selector : Selector)
  | path (path : Path)

structure Expression where
  complement : Bool
  term : Term

/-- An operator with the expression to its right. -/
structure Composition where
  operator : Operator
  operand : Expression

structure Composite where
  base : Expression
  compositions : List Composition

structure Selector where
  composites : List Composite

end

namespace Composite

/-- The chain of a single expression. -/
def ofBase (base : Expression) : Composite := ⟨base, []⟩

def append (c : Composite) (operator : Operator) (operand : Expression) : Composite :=
  { c with compositions := c.compositions ++ [⟨operator, operand⟩] }

end Composite

namespace Selector

/-- The selector without composites, which selects everything. -/
def universal : Selector := ⟨[]⟩

def isEmpty (s : Selector) : Bool := s.composites.isEmpty

end Selector

mutual

/-- Equality of trees is decided node by node. -/
def Term.decideEq : (a b : Term) → Decidable (a = b)
  | .filter s t, .filter s' t' =>
      have := Term.decideEq t t'
      decidable_of_iff (s = s' ∧ t = t') (by simp)
  | .group s, .group s' =>
      have := Selector.decideEq s s'
      decidable_of_iff (s = s') (by simp)
  | .path p, .path p' => decidable_of_iff (p = p') (by simp)
  | .filter .., .group _ => isFalse nofun
  | .filter .., .path _ => isFalse nofun
  | .group _, .filter .. => isFalse nofun
  | .group _, .path _ => isFalse nofun
  | .path _, .filter .. => isFalse nofun
  | .path _, .group _ => isFalse nofun

def Expression.decideEq : (a b : Expression) → Decidable (a = b)
  | ⟨c, t⟩, ⟨c', t'⟩ =>
      have := Term.decideEq t t'
      decidable_of_iff (c = c' ∧ t = t') (by simp)

def Composition.decideEq : (a b : Composition) → Decidable (a = b)
  | ⟨o, e⟩, ⟨o', e'⟩ =>
      have := Expression.decideEq e e'
      decidable_of_iff (o = o' ∧ e = e') (by simp)

def Composition.decideEqList : (as bs : List Composition) → Decidable (as = bs)
  | [], [] => isTrue rfl
  | [], _ :: _ => isFalse nofun
  | _ :: _, [] => isFalse nofun
  | a :: as, b :: bs =>
      have := Composition.decideEq a b
      have := Composition.decideEqList as bs
      decidable_of_iff (a = b ∧ as = bs) (by simp)

def Composite.decideEq : (a b : Composite) → Decidable (a = b)
  | ⟨e, cs⟩, ⟨e', cs'⟩ =>
      have := Expression.decideEq e e'
      have := Composition.decideEqList cs cs'
      decidable_of_iff (e = e' ∧ cs = cs') (by simp)

def Composite.decideEqList : (as bs : List Composite) → Decidable (as = bs)
  | [], [] => isTrue rfl
  | [], _ :: _ => isFalse nofun
  | _ :: _, [] => isFalse nofun
  | a :: as, b :: bs =>
      have := Composite.decideEq a b
      have := Composite.decideEqList as bs
      decidable_of_iff (a = b ∧ as = bs) (by simp)

def Selector.decideEq : (a b : Selector) → Decidable (a = b)
  | ⟨cs⟩, ⟨cs'⟩ =>
      have := Composite.decideEqList cs cs'
      decidable_of_iff (cs = cs') (by simp)

end

instance : DecidableEq Term := Term.decideEq

instance : DecidableEq Expression := Expression.decideEq

instance : DecidableEq Composition := Composition.decideEq

instance : DecidableEq Composite := Composite.decideEq

instance : DecidableEq Selector := Selector.decideEq

end Highlight
