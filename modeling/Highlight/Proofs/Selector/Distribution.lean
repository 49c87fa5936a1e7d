import Highlight.Selector.Matching

/-!
# Filters over groups

A filter to one side changes the context of what it filters, and does nothing else. The nodes
between a filter and the paths below it only combine what is selected in one and the same context,
so the filter may as well stand in front of every path, or of every filter that is met before a
path.

`distribute` puts a filter there. That it may be put there is shown for any filter which is a change
of context. A filter to both sides tries its term in two contexts: it is a filter to the left and
one to the right, and each of these may be put there.
-/

namespace Highlight

/-- A filter to this side selects what its term selects in the narrowed context. -/
def Side.Narrows (side : Side) (narrow : Context → Context) : Prop :=
  ∀ (t : Term) (context : Context),
    (Term.filter side t).selects context = t.selects (narrow context)

theorem Side.narrows_left : Side.left.Narrows Context.leftward := by
  intro t context
  rw [Term.selects]

theorem Side.narrows_right : Side.right.Narrows Context.rightward := by
  intro t context
  rw [Term.selects]

mutual

/-- The term with a filter in front of each path, and of each filter that is not inside another. -/
def Term.distribute (side : Side) : Term → Term
  | .filter inner term => .filter side (.filter inner term)
  | .group selector => .group (selector.distribute side)
  | .path path => .filter side (.path path)

def Expression.distribute (side : Side) : Expression → Expression
  | ⟨complement, term⟩ => ⟨complement, term.distribute side⟩

def Composition.distribute (side : Side) : Composition → Composition
  | ⟨operator, operand⟩ => ⟨operator, operand.distribute side⟩

def Composition.distributeChain (side : Side) : List Composition → List Composition
  | [] => []
  | c :: cs => c.distribute side :: Composition.distributeChain side cs

def Composite.distribute (side : Side) : Composite → Composite
  | ⟨base, compositions⟩ =>
      ⟨base.distribute side, Composition.distributeChain side compositions⟩

def Composite.distributeEach (side : Side) : List Composite → List Composite
  | [] => []
  | c :: cs => c.distribute side :: Composite.distributeEach side cs

def Selector.distribute (side : Side) : Selector → Selector
  | ⟨composites⟩ => ⟨Composite.distributeEach side composites⟩

end

theorem Composite.isEmpty_distributeEach (side : Side) (cs : List Composite) :
    (Composite.distributeEach side cs).isEmpty = cs.isEmpty := by
  cases cs with
  | nil => rfl
  | cons c cs => rfl

section

variable {side : Side} {narrow : Context → Context}

mutual

/-- With the filter in front of its paths and filters, a term selects what it would select in the
narrowed context. -/
theorem Term.selects_distribute (h : side.Narrows narrow) : ∀ (t : Term) (context : Context),
    (t.distribute side).selects context = t.selects (narrow context)
  | .filter inner t, context => h (.filter inner t) context
  | .group s, context => by
      rw [Term.distribute, Term.selects, Selector.selects_distribute h s, Term.selects]
  | .path p, context => h (.path p) context

theorem Expression.selects_distribute (h : side.Narrows narrow) : ∀ (e : Expression)
    (context : Context), (e.distribute side).selects context = e.selects (narrow context)
  | ⟨complement, t⟩, context => by
      rw [Expression.distribute, Expression.selects, Term.selects_distribute h t,
        Expression.selects]

theorem Composition.selectsFrom_distributeChain (h : side.Narrows narrow) :
    ∀ (cs : List Composition) (soFar : Bool) (context : Context),
      Composition.selectsFrom soFar (Composition.distributeChain side cs) context =
        Composition.selectsFrom soFar cs (narrow context)
  | [], soFar, context => by
      rw [Composition.distributeChain, Composition.selectsFrom, Composition.selectsFrom]
  | ⟨operator, operand⟩ :: cs, soFar, context => by
      rw [Composition.distributeChain, Composition.distribute, Composition.selectsFrom,
        Expression.selects_distribute h operand, Composition.selectsFrom_distributeChain h cs,
        Composition.selectsFrom]

theorem Composite.selects_distribute (h : side.Narrows narrow) : ∀ (c : Composite)
    (context : Context), (c.distribute side).selects context = c.selects (narrow context)
  | ⟨base, compositions⟩, context => by
      rw [Composite.distribute, Composite.selects, Expression.selects_distribute h base,
        Composition.selectsFrom_distributeChain h compositions, Composite.selects]

theorem Composite.someSelects_distributeEach (h : side.Narrows narrow) :
    ∀ (cs : List Composite) (context : Context),
      Composite.someSelects (Composite.distributeEach side cs) context =
        Composite.someSelects cs (narrow context)
  | [], context => by
      rw [Composite.distributeEach, Composite.someSelects, Composite.someSelects]
  | c :: cs, context => by
      rw [Composite.distributeEach, Composite.someSelects, Composite.selects_distribute h c,
        Composite.someSelects_distributeEach h cs, Composite.someSelects]

theorem Selector.selects_distribute (h : side.Narrows narrow) : ∀ (s : Selector)
    (context : Context), (s.distribute side).selects context = s.selects (narrow context)
  | ⟨composites⟩, context => by
      rw [Selector.distribute, Selector.selects, Composite.isEmpty_distributeEach,
        Composite.someSelects_distributeEach h composites, Selector.selects]

end

/-- A filter that is a change of context passes a group. -/
theorem Selector.selects_filter_group (h : side.Narrows narrow) (g : Selector)
    (context : Context) : (Term.filter side (.group g)).selects context =
      (Term.group (g.distribute side)).selects context := by
  rw [h (.group g) context, Term.selects, Term.selects, Selector.selects_distribute h g context]

end

/-- Filters to the left and to the right pass through a group onto the paths and filters in it, and
a filter to both sides is one to the left and one to the right. -/
theorem Selector.filters_distribute (g : Selector) (t : Term) (context : Context) :
    (Term.filter .left (.group g)).selects context =
        (Term.group (g.distribute .left)).selects context ∧
      (Term.filter .right (.group g)).selects context =
        (Term.group (g.distribute .right)).selects context ∧
      ((Term.filter .both t).selects context = true ↔
        (Term.filter .left t).selects context = true ∧
          (Term.filter .right t).selects context = true) := by
  refine ⟨selects_filter_group Side.narrows_left g context,
    selects_filter_group Side.narrows_right g context, ?_⟩
  rw [Side.narrows_left t context, Side.narrows_right t context, Term.selects, Bool.and_eq_true]

end Highlight
