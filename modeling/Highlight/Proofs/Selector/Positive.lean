import Highlight.Proofs.Scope.Loosening
import Highlight.Proofs.Selector.Visibility
import Highlight.Theme

/-!
# Going further in

Inside nested constructs a scope has more names at its inner end. A run of the cursor that succeeds
does not get there: each of its steps takes the same name as before, and more is left behind the
last one. Only an anchor at the end asks for nothing to be left.

A selector is positive if nothing in it is complemented or taken away. Whatever relation between
scopes keeps its paths selected then keeps the selector as a whole selected, whichever side its
filters look at. That takes an induction over the tree; going further in is such a relation.
-/

namespace Highlight

namespace Scope

/-- The scope of a place further in, which has more names inside of those that are there. -/
def deepen (s inner : Scope) : Scope := ⟨s.names ++ inner.names⟩

/-- The second scope is that of a place further in than the first, or the same. -/
def Encloses (s₁ s₂ : Scope) : Prop := ∃ inner, s₂ = s₁.deepen inner

end Scope

namespace Cursor

/-- The cursor at the same place of a deeper scope. -/
def deepen (c : Cursor) (inner : Scope) : Cursor := ⟨c.rest ++ inner.names⟩

variable {c c' : Cursor} {n : Name}

theorem behind?_append {names rest : List Name} (h : behind? n names = some rest)
    (inner : List Name) : behind? n (names ++ inner) = some (rest ++ inner) := by
  induction names with
  | nil => cases h
  | cons head tail ih =>
      rw [behind?_cons] at h
      rw [List.cons_append, behind?_cons]
      split at h
      · next hrefines => rw [if_pos hrefines, Option.some.inj h]
      · next hrefines => rw [if_neg hrefines, ih h]

theorem first_deepen (hn : n.isEmpty = false) (h : c.first n = (true, c')) (inner : Scope) :
    (c.deepen inner).first n = (true, c'.deepen inner) := by
  rcases c with ⟨_ | ⟨head, tail⟩⟩
  · rw [first_nil hn] at h
    cases h
  · rw [first_cons hn] at h
    split at h
    · next hrefines =>
        obtain rfl := (Prod.mk.inj h).2
        exact (first_cons hn head _).trans (if_pos hrefines)
    · cases h

theorem leading_deepen (hn : n.isEmpty = false) (h : c.leading n = (true, c')) (inner : Scope) :
    (c.deepen inner).leading n = (true, c'.deepen inner) := by
  rw [leading, hn, if_neg Bool.false_ne_true] at h ⊢
  cases hbehind : behind? n c.rest with
  | none => simp [hbehind] at h
  | some rest =>
      rw [hbehind] at h
      obtain rfl := (Prod.mk.inj h).2
      rw [deepen, behind?_append hbehind]
      rfl

theorem take_deepen {relation : Relation} (h : c.take relation n = (true, c')) (inner : Scope) :
    (c.deepen inner).take relation n = (true, c'.deepen inner) := by
  cases hn : n.isEmpty with
  | true =>
      rw [take_of_isEmpty hn] at h
      rw [take_of_isEmpty hn, (Prod.mk.inj h).2]
  | false =>
      cases relation with
      | direct => exact first_deepen hn h inner
      | transitive => exact leading_deepen hn h inner

/-- A run that reaches its end does so in a deeper scope, too, and stops before the same name. -/
theorem follow_deepen {steps : List (Relation × Name)} (h : c.follow steps = some c')
    (inner : Scope) : (c.deepen inner).follow steps = some (c'.deepen inner) := by
  induction steps generalizing c with
  | nil => rw [Option.some.inj h, follow_nil]
  | cons step steps ih =>
      obtain ⟨next, htake, hfollow⟩ := follow_cons_eq_some_iff.1 h
      exact follow_cons_eq_some_iff.2 ⟨next.deepen inner, take_deepen htake inner, ih hfollow⟩

end Cursor

namespace Path

/-- The path is selected in every scope that is related to one in which it is selected. -/
def IsKeptBy (r : Scope → Scope → Prop) (p : Path) : Prop :=
  ∀ s₁ s₂, r s₁ s₂ → p.selects ⟨none, s₁⟩ = true → p.selects ⟨none, s₂⟩ = true

theorem isKeptBy_encloses {p : Path} (hend : p.endAnchor = false) :
    p.IsKeptBy Scope.Encloses := by
  rintro s₁ s₂ ⟨inner, rfl⟩ h
  rw [selects_eq_true_iff_of_open hend] at h ⊢
  obtain ⟨c, hfollow⟩ := h
  exact ⟨c.deepen inner, Cursor.follow_deepen hfollow inner⟩

end Path

mutual

/-- Nothing in the node is complemented and nothing is taken away by a difference. -/
def Term.isPositive : Term → Bool
  | .filter _ term => term.isPositive
  | .group selector => selector.isPositive
  | .path _ => true

def Expression.isPositive : Expression → Bool
  | ⟨complement, term⟩ => !complement && term.isPositive

def Composition.chainIsPositive : List Composition → Bool
  | [] => true
  | ⟨operator, operand⟩ :: cs =>
      operator != .difference && operand.isPositive && Composition.chainIsPositive cs

def Composite.isPositive : Composite → Bool
  | ⟨base, compositions⟩ => base.isPositive && Composition.chainIsPositive compositions

def Composite.allPositive : List Composite → Bool
  | [] => true
  | c :: cs => c.isPositive && Composite.allPositive cs

def Selector.isPositive : Selector → Bool
  | ⟨composites⟩ => Composite.allPositive composites

end

namespace Context

/-- What is seen of the first context is related to what is seen of the second, on either side. -/
structure Related (r : Scope → Scope → Prop) (c₁ c₂ : Context) : Prop where
  left : r c₁.leftward.main c₂.leftward.main
  main : r c₁.main c₂.main

variable {r : Scope → Scope → Prop} {c₁ c₂ : Context}

theorem Related.leftward (h : Related r c₁ c₂) : Related r c₁.leftward c₂.leftward :=
  ⟨h.left, h.left⟩

theorem Related.rightward (h : Related r c₁ c₂) : Related r c₁.rightward c₂.rightward :=
  ⟨h.main, h.main⟩

/-- Where nothing is to the left, the deeper main scope stands in for it. -/
theorem related_encloses (left : Option Scope) (main leftInner inner : Scope) :
    Related Scope.Encloses ⟨left, main⟩
      ⟨left.map fun s => s.deepen leftInner, main.deepen inner⟩ := by
  refine ⟨?_, inner, rfl⟩
  cases left with
  | none => exact ⟨inner, rfl⟩
  | some s => exact ⟨leftInner, rfl⟩

end Context

/-- An operator other than a difference only selects more if both of its sides do. -/
theorem Operator.apply_mono {o : Operator} (ho : (o != .difference) = true) {a a' b b' : Bool}
    (ha : a = true → a' = true) (hb : b = true → b' = true) :
    o.apply a b = true → o.apply a' b' = true := by
  cases o with
  | union =>
      simp only [apply, Bool.or_eq_true]
      exact Or.imp ha hb
  | intersection =>
      simp only [apply, Bool.and_eq_true]
      exact And.imp ha hb
  | difference => cases ho

section Mono

variable {r : Scope → Scope → Prop}

mutual

/-- A relation that keeps all paths of a positive term selected keeps the term selected. -/
theorem Term.selects_mono : ∀ (t : Term) {c₁ c₂ : Context}, t.isPositive = true →
    (∀ p ∈ t.placedPaths, p.path.IsKeptBy r) → Context.Related r c₁ c₂ →
      t.selects c₁ = true → t.selects c₂ = true
  | .filter side t, c₁, c₂, ht, hpaths, h => by
      have hinside : ∀ p ∈ t.placedPaths, p.path.IsKeptBy r :=
        fun p hp => hpaths (p.under side) (List.mem_map_of_mem hp)
      have hleft := Term.selects_mono t ht hinside h.leftward
      have hright := Term.selects_mono t ht hinside h.rightward
      cases side with
      | left => exact hleft
      | right => exact hright
      | both =>
          rw [Term.selects, Term.selects, Bool.and_eq_true, Bool.and_eq_true]
          exact And.imp hleft hright
  | .group s, c₁, c₂, hs, hpaths, h => Selector.selects_mono s hs hpaths h
  | .path p, c₁, c₂, _, hpaths, h => hpaths ⟨[], p⟩ List.mem_cons_self c₁.main c₂.main h.main

theorem Expression.selects_mono : ∀ (e : Expression) {c₁ c₂ : Context}, e.isPositive = true →
    (∀ p ∈ e.placedPaths, p.path.IsKeptBy r) → Context.Related r c₁ c₂ →
      e.selects c₁ = true → e.selects c₂ = true
  | ⟨true, t⟩, c₁, c₂, he, hpaths, h => absurd he Bool.false_ne_true
  | ⟨false, t⟩, c₁, c₂, he, hpaths, h => by
      rw [Expression.selects, Expression.selects, Bool.bne_false, Bool.bne_false]
      exact Term.selects_mono t he hpaths h

theorem Composition.selectsFrom_mono : ∀ (cs : List Composition) {soFar₁ soFar₂ : Bool}
    {c₁ c₂ : Context}, Composition.chainIsPositive cs = true →
      (∀ p ∈ Composition.chainPaths cs, p.path.IsKeptBy r) → Context.Related r c₁ c₂ →
        (soFar₁ = true → soFar₂ = true) →
          Composition.selectsFrom soFar₁ cs c₁ = true → Composition.selectsFrom soFar₂ cs c₂ = true
  | [], soFar₁, soFar₂, c₁, c₂, _, _, _, hsoFar => hsoFar
  | ⟨operator, operand⟩ :: cs, soFar₁, soFar₂, c₁, c₂, hcs, hpaths, h, hsoFar => by
      rw [Composition.chainIsPositive, Bool.and_eq_true, Bool.and_eq_true] at hcs
      obtain ⟨⟨hoperator, hoperand⟩, hcs⟩ := hcs
      obtain ⟨hhere, hfurther⟩ := List.forall_mem_append.1 hpaths
      exact Composition.selectsFrom_mono cs hcs hfurther h
        (Operator.apply_mono hoperator hsoFar (Expression.selects_mono operand hoperand hhere h))

theorem Composite.selects_mono : ∀ (c : Composite) {c₁ c₂ : Context}, c.isPositive = true →
    (∀ p ∈ c.placedPaths, p.path.IsKeptBy r) → Context.Related r c₁ c₂ →
      c.selects c₁ = true → c.selects c₂ = true
  | ⟨base, compositions⟩, c₁, c₂, hc, hpaths, h => by
      obtain ⟨hbase, hcompositions⟩ := Bool.and_eq_true_iff.1 hc
      obtain ⟨hhere, hfurther⟩ := List.forall_mem_append.1 hpaths
      exact Composition.selectsFrom_mono compositions hcompositions hfurther h
        (Expression.selects_mono base hbase hhere h)

theorem Composite.someSelects_mono : ∀ (cs : List Composite) {c₁ c₂ : Context},
    Composite.allPositive cs = true → (∀ p ∈ Composite.furtherPaths cs, p.path.IsKeptBy r) →
      Context.Related r c₁ c₂ →
        Composite.someSelects cs c₁ = true → Composite.someSelects cs c₂ = true
  | [], c₁, c₂, _, _, _ => id
  | c :: cs, c₁, c₂, hcs, hpaths, h => by
      obtain ⟨hc, hcs⟩ := Bool.and_eq_true_iff.1 hcs
      obtain ⟨hhere, hfurther⟩ := List.forall_mem_append.1 hpaths
      rw [Composite.someSelects, Composite.someSelects, Bool.or_eq_true, Bool.or_eq_true]
      exact Or.imp (Composite.selects_mono c hc hhere h)
        (Composite.someSelects_mono cs hcs hfurther h)

theorem Selector.selects_mono : ∀ (s : Selector) {c₁ c₂ : Context}, s.isPositive = true →
    (∀ p ∈ s.placedPaths, p.path.IsKeptBy r) → Context.Related r c₁ c₂ →
      s.selects c₁ = true → s.selects c₂ = true
  | ⟨composites⟩, c₁, c₂, hs, hpaths, h => by
      rw [Selector.selects, Selector.selects, Bool.or_eq_true, Bool.or_eq_true]
      exact Or.imp id (Composite.someSelects_mono composites hs hpaths h)

end

end Mono

namespace Selector

/-- Going further in does not turn off a selector without complements, differences and anchors at
the end, nor a style that has it: more names inside of the main scope, and inside of the scope to
the left where there is one, leave it selected. -/
theorem selects_of_deeper (s : Selector) (hpositive : s.isPositive = true)
    (hopen : ∀ p ∈ s.placedPaths, p.path.endAnchor = false) (left : Option Scope)
    (main leftInner inner : Scope) :
    (s.selects ⟨left, main⟩ = true →
      s.selects ⟨left.map fun l => l.deepen leftInner, main.deepen inner⟩ = true) ∧
    ∀ style : Style, style.scope = some s → style.applies ⟨left, main⟩ = true →
      style.applies ⟨left.map fun l => l.deepen leftInner, main.deepen inner⟩ = true := by
  have hselects := s.selects_mono hpositive (fun p hp => Path.isKeptBy_encloses (hopen p hp))
    (Context.related_encloses left main leftInner inner)
  refine ⟨hselects, ?_⟩
  intro style hstyle
  rw [Style.applies, Style.applies, hstyle]
  exact hselects

/-- `B: (^a b | c) & L: b, d > e` is selected where `a b` is to the left of `a x b`. It still is
with `d` inside of the left scope and `b e` inside of the main one, and without anything to the
left. -/
theorem exists_selects_of_deeper :
    ∃ (s : Selector) (style : Style) (left main leftInner inner : Scope),
      s.isPositive = true ∧ (∀ p ∈ s.placedPaths, p.path.endAnchor = false) ∧
      (s.selects ⟨some left, main⟩ = true ∧
        s.selects ⟨some (left.deepen leftInner), main.deepen inner⟩ = true) ∧
      style.scope = some s ∧ style.applies ⟨none, main⟩ = true ∧
        style.applies ⟨none, main.deepen inner⟩ = true := by
  let path (n : String) : Expression := ⟨false, .path (.ofRoot ⟨[n]⟩)⟩
  let inside : Selector := ⟨[(Composite.ofBase
    ⟨false, .path ((Path.ofRoot ⟨["a"]⟩).append .transitive ⟨["b"]⟩).anchorBegin⟩).append .union
      (path "c")]⟩
  let s : Selector := ⟨[(Composite.ofBase ⟨false, .filter .both (.group inside)⟩).append
      .intersection ⟨false, .filter .left (path "b").term⟩,
    .ofBase ⟨false, .path ((Path.ofRoot ⟨["d"]⟩).append .direct ⟨["e"]⟩)⟩]⟩
  let left : Scope := ⟨[⟨["a"]⟩, ⟨["b"]⟩]⟩
  let main : Scope := ⟨[⟨["a"]⟩, ⟨["x"]⟩, ⟨["b"]⟩]⟩
  let leftInner : Scope := ⟨[⟨["d"]⟩]⟩
  let inner : Scope := ⟨[⟨["b"]⟩, ⟨["e"]⟩]⟩
  have hpositive : s.isPositive = true := by decide
  have hopen : ∀ p ∈ s.placedPaths, p.path.endAnchor = false := by decide
  have hselects : s.selects ⟨some left, main⟩ = true := by decide
  have happlies : (⟨none, some s, ∅⟩ : Style).applies ⟨none, main⟩ = true := by decide
  exact ⟨s, ⟨none, some s, ∅⟩, left, main, leftInner, inner, hpositive, hopen,
    ⟨hselects, (s.selects_of_deeper hpositive hopen (some left) main leftInner inner).1 hselects⟩,
    rfl, happlies,
    (s.selects_of_deeper hpositive hopen none main leftInner inner).2 _ rfl happlies⟩

end Selector

end Highlight
