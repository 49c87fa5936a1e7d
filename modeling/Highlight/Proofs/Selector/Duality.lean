import Highlight.Proofs.Selector.Chain
import Highlight.Proofs.Selector.Combined

/-!
# Complements of chains and groups

A chain has a dual, which is as long as the chain itself and selects just what it does not: each
operator gives way to the one that does the opposite. So the complement of a group is a chain of
groups, one for each of its composites.

A difference takes away what its operand selects, which an intersection with the complemented
operand does as well. A selector may be respelled in this way in any number of places, inside groups
and filters as well as outside.
-/

namespace Highlight

namespace Expression

/-- The expression with its complement added or dropped. -/
def toggle (e : Expression) : Expression := ⟨!e.complement, e.term⟩

theorem selects_toggle (e : Expression) (context : Context) :
    e.toggle.selects context = !e.selects context := by
  rcases e with ⟨complement, term⟩
  rw [toggle, selects, selects, Bool.bne_not]

end Expression

namespace Composition

/-- The composition that does the opposite to a chain that selects the opposite so far. -/
def dual : Composition → Composition
  | ⟨.union, operand⟩ => ⟨.difference, operand⟩
  | ⟨.intersection, operand⟩ => ⟨.union, operand.toggle⟩
  | ⟨.difference, operand⟩ => ⟨.union, operand⟩

theorem apply_dual (c : Composition) (soFar : Bool) (context : Context) :
    c.dual.operator.apply (!soFar) (c.dual.operand.selects context) =
      !c.operator.apply soFar (c.operand.selects context) := by
  rcases c with ⟨_ | _ | _, operand⟩
  · exact (Bool.not_or _ _).symm
  · rw [dual, Expression.selects_toggle]
    exact (Bool.not_and _ _).symm
  · simp [dual, Operator.apply]

theorem selectsFrom_dual (soFar : Bool) (cs : List Composition) (context : Context) :
    selectsFrom (!soFar) (cs.map dual) context = !selectsFrom soFar cs context := by
  induction cs generalizing soFar with
  | nil => rw [List.map_nil, selectsFrom, selectsFrom]
  | cons c cs ih => rw [List.map_cons, selectsFrom_cons, apply_dual, ih, selectsFrom_cons]

end Composition

namespace Composite

/-- The chain of the opposite compositions, from the opposite of the base on. -/
def dual (c : Composite) : Composite := ⟨c.base.toggle, c.compositions.map Composition.dual⟩

theorem selects_dual (c : Composite) (context : Context) :
    c.dual.selects context = !c.selects context := by
  rcases c with ⟨base, compositions⟩
  rw [dual, selects, Expression.selects_toggle, Composition.selectsFrom_dual, selects]

theorem someSelects_eq_any (cs : List Composite) (context : Context) :
    someSelects cs context = cs.any fun c => c.selects context := by
  induction cs with
  | nil => rw [someSelects, List.any_nil]
  | cons c cs ih => rw [someSelects, ih, List.any_cons]

/-- The composite in parentheses. -/
def grouped (c : Composite) : Expression := ⟨false, .group (.ofComposite c)⟩

theorem selects_grouped (c : Composite) (context : Context) :
    c.grouped.selects context = c.selects context := by
  rw [grouped, Expression.selects_group, Selector.selects_ofComposite]

/-- Composites in parentheses, with intersections between them. -/
def meet (c : Composite) (cs : List Composite) : Composite :=
  ⟨c.grouped, cs.map fun d => ⟨.intersection, d.grouped⟩⟩

theorem selects_meet (c : Composite) (cs : List Composite) (context : Context) :
    (meet c cs).selects context = (c :: cs).all fun d => d.selects context := by
  have hchain (soFar : Bool) : Composition.selectsFrom soFar
      (cs.map fun d => ⟨.intersection, d.grouped⟩) context =
        (soFar && cs.all fun d => d.selects context) := by
    induction cs generalizing soFar with
    | nil => rw [List.map_nil, Composition.selectsFrom, List.all_nil, Bool.and_true]
    | cons d ds ih =>
        rw [List.map_cons, Composition.selectsFrom, ih, selects_grouped, List.all_cons,
          Operator.apply, Bool.and_assoc]
  rw [meet, selects, hchain, selects_grouped, List.all_cons]

end Composite

mutual

/-- The second node is the first, with some of the differences in it written as intersections. -/
inductive Term.Respells : Term → Term → Prop
  | refl (term : Term) : Term.Respells term term
  | filter (side : Side) {term term' : Term} (hterm : Term.Respells term term') :
      Term.Respells (.filter side term) (.filter side term')
  | group {selector selector' : Selector} (hselector : Selector.Respells selector selector') :
      Term.Respells (.group selector) (.group selector')

inductive Expression.Respells : Expression → Expression → Prop
  | intro (complement : Bool) {term term' : Term} (hterm : Term.Respells term term') :
      Expression.Respells ⟨complement, term⟩ ⟨complement, term'⟩

inductive Composition.Respells : Composition → Composition → Prop
  | operand (operator : Operator) {operand operand' : Expression}
      (hoperand : Expression.Respells operand operand') :
      Composition.Respells ⟨operator, operand⟩ ⟨operator, operand'⟩
  | difference {operand operand' : Expression}
      (hoperand : Expression.Respells operand operand') :
      Composition.Respells ⟨.difference, operand⟩ ⟨.intersection, operand'.toggle⟩

inductive Composition.RespellsChain : List Composition → List Composition → Prop
  | nil : Composition.RespellsChain [] []
  | cons {c c' : Composition} {cs cs' : List Composition} (hc : Composition.Respells c c')
      (hcs : Composition.RespellsChain cs cs') :
      Composition.RespellsChain (c :: cs) (c' :: cs')

inductive Composite.Respells : Composite → Composite → Prop
  | intro {base base' : Expression} {compositions compositions' : List Composition}
      (hbase : Expression.Respells base base')
      (hcompositions : Composition.RespellsChain compositions compositions') :
      Composite.Respells ⟨base, compositions⟩ ⟨base', compositions'⟩

inductive Composite.RespellsEach : List Composite → List Composite → Prop
  | nil : Composite.RespellsEach [] []
  | cons {c c' : Composite} {cs cs' : List Composite} (hc : Composite.Respells c c')
      (hcs : Composite.RespellsEach cs cs') : Composite.RespellsEach (c :: cs) (c' :: cs')

inductive Selector.Respells : Selector → Selector → Prop
  | intro {composites composites' : List Composite}
      (hcomposites : Composite.RespellsEach composites composites') :
      Selector.Respells ⟨composites⟩ ⟨composites'⟩

end

theorem Expression.Respells.refl (e : Expression) : e.Respells e := by
  rcases e with ⟨complement, term⟩
  exact .intro complement (.refl term)

theorem Composite.RespellsEach.isEmpty_eq {cs cs' : List Composite}
    (h : Composite.RespellsEach cs cs') : cs'.isEmpty = cs.isEmpty := by
  cases h with
  | nil => rfl
  | cons hc hcs => rfl

mutual

/-- A respelled node selects what it did before. -/
theorem Term.Respells.selects_eq {t t' : Term} (h : Term.Respells t t') :
    ∀ context, t'.selects context = t.selects context := by
  intro context
  match h with
  | .refl _ => rfl
  | .filter .left hterm => rw [Term.selects, hterm.selects_eq, Term.selects]
  | .filter .right hterm => rw [Term.selects, hterm.selects_eq, Term.selects]
  | .filter .both hterm =>
      rw [Term.selects, hterm.selects_eq context.leftward, hterm.selects_eq context.rightward,
        Term.selects]
  | .group hselector => rw [Term.selects, hselector.selects_eq, Term.selects]

theorem Expression.Respells.selects_eq {e e' : Expression} (h : Expression.Respells e e') :
    ∀ context, e'.selects context = e.selects context := by
  intro context
  match h with
  | .intro complement hterm => rw [Expression.selects, hterm.selects_eq, Expression.selects]

theorem Composition.Respells.apply_eq {c c' : Composition} (h : Composition.Respells c c') :
    ∀ (soFar : Bool) (context : Context),
      c'.operator.apply soFar (c'.operand.selects context) =
        c.operator.apply soFar (c.operand.selects context) := by
  intro soFar context
  match h with
  | .operand operator hoperand => rw [hoperand.selects_eq]
  | .difference hoperand =>
      rw [Expression.selects_toggle, hoperand.selects_eq, Operator.apply, Operator.apply]

theorem Composition.RespellsChain.selectsFrom_eq {cs cs' : List Composition}
    (h : Composition.RespellsChain cs cs') : ∀ (soFar : Bool) (context : Context),
      Composition.selectsFrom soFar cs' context = Composition.selectsFrom soFar cs context := by
  intro soFar context
  match h with
  | .nil => rfl
  | .cons hc hcs =>
      rw [Composition.selectsFrom_cons, hc.apply_eq, hcs.selectsFrom_eq,
        Composition.selectsFrom_cons]

theorem Composite.Respells.selects_eq {c c' : Composite} (h : Composite.Respells c c') :
    ∀ context, c'.selects context = c.selects context := by
  intro context
  match h with
  | .intro hbase hcompositions =>
      rw [Composite.selects, hbase.selects_eq, hcompositions.selectsFrom_eq, Composite.selects]

theorem Composite.RespellsEach.someSelects_eq {cs cs' : List Composite}
    (h : Composite.RespellsEach cs cs') : ∀ context,
      Composite.someSelects cs' context = Composite.someSelects cs context := by
  intro context
  match h with
  | .nil => rfl
  | .cons hc hcs =>
      rw [Composite.someSelects, hc.selects_eq, hcs.someSelects_eq, Composite.someSelects]

theorem Selector.Respells.selects_eq {s s' : Selector} (h : Selector.Respells s s') :
    ∀ context, s'.selects context = s.selects context := by
  intro context
  match h with
  | .intro hcomposites =>
      rw [Selector.selects, hcomposites.isEmpty_eq, hcomposites.someSelects_eq, Selector.selects]

end

namespace Selector

/-- The dual of a composite selects just what the composite does not, and the complement of a group
what all the duals of its composites select. A difference is an intersection with the complemented
operand, wherever it stands. -/
theorem de_morgan (context : Context) :
    (∀ c : Composite, c.dual.selects context = !c.selects context) ∧
    (∀ (c : Composite) (cs : List Composite),
      (Expression.mk true (.group ⟨c :: cs⟩)).selects context =
        (Composite.meet c.dual (cs.map Composite.dual)).selects context) ∧
    ∀ s s' : Selector, s.Respells s' → s'.selects context = s.selects context := by
  refine ⟨fun c => c.selects_dual context, fun c cs => ?_, fun s s' h => h.selects_eq context⟩
  have hduals : ((c :: cs).map Composite.dual).all (fun d => d.selects context) =
      (c :: cs).all fun d => !d.selects context := by
    simp [Composite.selects_dual, Function.comp_def]
  rw [Composite.selects_meet, ← List.map_cons, hduals, ← List.not_any_eq_all_not,
    Expression.selects, Term.selects, Selector.selects, Composite.someSelects_eq_any,
    Bool.bne_true, List.isEmpty_cons, Bool.false_or]

/-- Of the three differences in `L: (a - (b - c) - d), e`, two are respelled: one inside of a filter
and a group, and one in another group inside of its operand. -/
theorem exists_respelled_inside_out :
    ∃ s s' : Selector, parse "L: (a - (b - c) - d), e" = .ok s ∧
      parse "L: (a & - (b & - c) - d), e" = .ok s' ∧ s.Respells s' ∧
        ∀ context, s'.selects context = s.selects context := by
  let path (n : String) : Expression := ⟨false, .path (.ofRoot ⟨[n]⟩)⟩
  let inner : Composite := ⟨path "b", [⟨.difference, path "c"⟩]⟩
  let inner' : Composite := ⟨path "b", [⟨.intersection, (path "c").toggle⟩]⟩
  let outer : Composite := ⟨path "a", [⟨.difference, inner.grouped⟩, ⟨.difference, path "d"⟩]⟩
  let outer' : Composite :=
    ⟨path "a", [⟨.intersection, inner'.grouped.toggle⟩, ⟨.difference, path "d"⟩]⟩
  let s : Selector := ⟨[.ofBase ⟨false, .filter .left outer.grouped.term⟩, .ofBase (path "e")]⟩
  let s' : Selector := ⟨[.ofBase ⟨false, .filter .left outer'.grouped.term⟩, .ofBase (path "e")]⟩
  have hinner : inner.Respells inner' := .intro (.refl _) (.cons (.difference (.refl _)) .nil)
  have hgrouped : inner.grouped.Respells inner'.grouped :=
    .intro false (.group (.intro (.cons hinner .nil)))
  have houter : outer.Respells outer' :=
    .intro (.refl _) (.cons (.difference hgrouped) (.cons (.operand .difference (.refl _)) .nil))
  have hfilter : Expression.Respells ⟨false, .filter .left outer.grouped.term⟩
      ⟨false, .filter .left outer'.grouped.term⟩ :=
    .intro false (.filter .left (.group (.intro (.cons houter .nil))))
  have hs : s.Respells s' :=
    .intro (.cons (.intro hfilter .nil) (.cons (.intro (.refl _) .nil) .nil))
  exact ⟨s, s', by rfl, by rfl, hs, fun context => (de_morgan context).2.2 s s' hs⟩

end Selector

end Highlight
