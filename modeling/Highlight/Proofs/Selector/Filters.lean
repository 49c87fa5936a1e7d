import Highlight.Selector.Matching

/-!
# Filters inside filters

A filter has an effect only where the scope to the left is another than the scope at the position.
Behind a first filter nothing is to the left any more, so every filter further in passes its context
on unchanged, and it makes no difference if it is left out.

`erase` leaves out all filters of a node. The one induction of this module is about contexts that
look the same on both sides; all else follows by putting such a context in.
-/

namespace Highlight

namespace Context

/-- The scope to the left of the position, or what stands in for it, is the scope at the
position. -/
def SidesAgree (context : Context) : Prop :=
  context.leftward = context.rightward

theorem sidesAgree_of_none (main : Scope) : SidesAgree ⟨none, main⟩ := rfl

theorem sidesAgree_of_some_self (main : Scope) : SidesAgree ⟨some main, main⟩ := rfl

theorem sidesAgree_leftward (context : Context) : context.leftward.SidesAgree := rfl

theorem sidesAgree_rightward (context : Context) : context.rightward.SidesAgree := rfl

end Context

mutual

/-- The term with every filter in it replaced by what it filters. -/
def Term.erase : Term → Term
  | .filter _ term => term.erase
  | .group selector => .group selector.erase
  | .path path => .path path

def Expression.erase : Expression → Expression
  | ⟨complement, term⟩ => ⟨complement, term.erase⟩

def Composition.erase : Composition → Composition
  | ⟨operator, operand⟩ => ⟨operator, operand.erase⟩

def Composition.eraseChain : List Composition → List Composition
  | [] => []
  | c :: cs => c.erase :: Composition.eraseChain cs

def Composite.erase : Composite → Composite
  | ⟨base, compositions⟩ => ⟨base.erase, Composition.eraseChain compositions⟩

def Composite.eraseEach : List Composite → List Composite
  | [] => []
  | c :: cs => c.erase :: Composite.eraseEach cs

def Selector.erase : Selector → Selector
  | ⟨composites⟩ => ⟨Composite.eraseEach composites⟩

end

theorem Composite.isEmpty_eraseEach (cs : List Composite) :
    (Composite.eraseEach cs).isEmpty = cs.isEmpty := by
  cases cs with
  | nil => rfl
  | cons c cs => rfl

mutual

/-- In a context that looks the same on both sides, it makes no difference if filters are left
out. -/
theorem Term.selects_eq_selects_erase : ∀ (t : Term) {context : Context}, context.SidesAgree →
    t.selects context = t.erase.selects context.rightward
  | .filter side t, context, hsides => by
      have hright : t.selects context.rightward = t.erase.selects context.rightward :=
        Term.selects_eq_selects_erase t context.sidesAgree_rightward
      have hleft : t.selects context.leftward = t.erase.selects context.rightward :=
        (congrArg t.selects hsides).trans hright
      cases side with
      | left => exact hleft
      | right => exact hright
      | both => rw [Term.selects, hleft, hright, Bool.and_self, Term.erase]
  | .group s, context, hsides => by
      rw [Term.selects, Selector.selects_eq_selects_erase s hsides, Term.erase, Term.selects]
  | .path p, context, hsides => rfl

theorem Expression.selects_eq_selects_erase : ∀ (e : Expression) {context : Context},
    context.SidesAgree → e.selects context = e.erase.selects context.rightward
  | ⟨complement, t⟩, context, hsides => by
      rw [Expression.selects, Term.selects_eq_selects_erase t hsides, Expression.erase,
        Expression.selects]

theorem Composition.selectsFrom_eq_selectsFrom_eraseChain : ∀ (cs : List Composition)
    (soFar : Bool) {context : Context}, context.SidesAgree →
      Composition.selectsFrom soFar cs context =
        Composition.selectsFrom soFar (Composition.eraseChain cs) context.rightward
  | [], soFar, context, hsides => rfl
  | ⟨operator, operand⟩ :: cs, soFar, context, hsides => by
      rw [Composition.selectsFrom, Expression.selects_eq_selects_erase operand hsides,
        Composition.selectsFrom_eq_selectsFrom_eraseChain cs _ hsides, Composition.eraseChain,
        Composition.erase, Composition.selectsFrom]

theorem Composite.selects_eq_selects_erase : ∀ (c : Composite) {context : Context},
    context.SidesAgree → c.selects context = c.erase.selects context.rightward
  | ⟨base, compositions⟩, context, hsides => by
      rw [Composite.selects, Expression.selects_eq_selects_erase base hsides,
        Composition.selectsFrom_eq_selectsFrom_eraseChain compositions _ hsides, Composite.erase,
        Composite.selects]

theorem Composite.someSelects_eq_someSelects_eraseEach : ∀ (cs : List Composite)
    {context : Context}, context.SidesAgree →
      Composite.someSelects cs context =
        Composite.someSelects (Composite.eraseEach cs) context.rightward
  | [], context, hsides => rfl
  | c :: cs, context, hsides => by
      rw [Composite.someSelects, Composite.selects_eq_selects_erase c hsides,
        Composite.someSelects_eq_someSelects_eraseEach cs hsides, Composite.eraseEach,
        Composite.someSelects]

theorem Selector.selects_eq_selects_erase : ∀ (s : Selector) {context : Context},
    context.SidesAgree → s.selects context = s.erase.selects context.rightward
  | ⟨composites⟩, context, hsides => by
      rw [Selector.selects, Composite.someSelects_eq_someSelects_eraseEach composites hsides,
        Selector.erase, Selector.selects, Composite.isEmpty_eraseEach]

end

/-- What a filter filters is tried in contexts with nothing to the left, so it may do without
filters of its own. -/
theorem Term.selects_filter_erase (side : Side) (t : Term) (context : Context) :
    (Term.filter side t).selects context = (Term.filter side t.erase).selects context := by
  have hleft : t.selects context.leftward = t.erase.selects context.leftward :=
    t.selects_eq_selects_erase context.sidesAgree_leftward
  have hright : t.selects context.rightward = t.erase.selects context.rightward :=
    t.selects_eq_selects_erase context.sidesAgree_rightward
  cases side with
  | left => exact hleft
  | right => exact hright
  | both => rw [Term.selects, Term.selects, hleft, hright]

/-- Filters collapse: the scope itself to the left is as good as nothing there, with nothing there
all filters may be erased, and inside a filter they may be erased in any context. -/
theorem Selector.filters_collapse (s : Selector) (t : Term) (side : Side) (main : Scope)
    (context : Context) :
    s.selects ⟨some main, main⟩ = s.selects ⟨none, main⟩ ∧
      s.selects ⟨none, main⟩ = s.erase.selects ⟨none, main⟩ ∧
        (Term.filter side t).selects context = (Term.filter side t.erase).selects context := by
  have hsome := s.selects_eq_selects_erase (Context.sidesAgree_of_some_self main)
  have hnone := s.selects_eq_selects_erase (Context.sidesAgree_of_none main)
  exact ⟨hsome.trans hnone.symm, hnone, t.selects_filter_erase side context⟩

end Highlight
