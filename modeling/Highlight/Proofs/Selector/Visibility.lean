import Highlight.Selector.Matching

/-!
# What a path gets to see

A path is tried on the main scope of the context that reaches it. Which of the two scopes that is
depends on the outermost filter above the path and on nothing else: behind it nothing is to the left
any more, so filters further in have no choice left.

`Selector.placedPaths` lists the paths of a selector, each with the filters above it. The one
induction of this module says that a selector cannot tell two contexts apart that show the same
scopes to all of its paths.
-/

namespace Highlight

/-- A path below some filters, the outermost first. -/
structure PlacedPath where
  sides : List Side
  path : Path
deriving DecidableEq

namespace PlacedPath

def outermost? (p : PlacedPath) : Option Side := p.sides.head?

/-- The path below one more filter, outside of all the others. -/
def under (side : Side) (p : PlacedPath) : PlacedPath := { p with sides := side :: p.sides }

end PlacedPath

mutual

/-- The paths of the node, each with the filters that are above it in the node. -/
def Term.placedPaths : Term → List PlacedPath
  | .filter side term => term.placedPaths.map (PlacedPath.under side)
  | .group selector => selector.placedPaths
  | .path path => [⟨[], path⟩]

def Expression.placedPaths : Expression → List PlacedPath
  | ⟨_, term⟩ => term.placedPaths

def Composition.chainPaths : List Composition → List PlacedPath
  | [] => []
  | ⟨_, operand⟩ :: cs => operand.placedPaths ++ Composition.chainPaths cs

def Composite.placedPaths : Composite → List PlacedPath
  | ⟨base, compositions⟩ => base.placedPaths ++ Composition.chainPaths compositions

def Composite.furtherPaths : List Composite → List PlacedPath
  | [] => []
  | c :: cs => c.placedPaths ++ Composite.furtherPaths cs

def Selector.placedPaths : Selector → List PlacedPath
  | ⟨composites⟩ => Composite.furtherPaths composites

end

namespace Context

/-- The scopes that a path is tried on if this is the outermost filter above it. -/
def visible (context : Context) : Option Side → List Scope
  | none => [context.main]
  | some .left => [context.leftward.main]
  | some .right => [context.rightward.main]
  | some .both => [context.leftward.main, context.rightward.main]

/-- Two contexts show the same scopes to every one of the paths. -/
def AgreeOn (ps : List PlacedPath) (c₁ c₂ : Context) : Prop :=
  ∀ p ∈ ps, c₁.visible p.outermost? = c₂.visible p.outermost?

variable {ps qs : List PlacedPath} {c₁ c₂ : Context}

theorem agreeOn_append_iff : AgreeOn (ps ++ qs) c₁ c₂ ↔ AgreeOn ps c₁ c₂ ∧ AgreeOn qs c₁ c₂ :=
  List.forall_mem_append

theorem agreeOn_under_iff (side : Side) : AgreeOn (ps.map (PlacedPath.under side)) c₁ c₂ ↔
    ∀ p ∈ ps, c₁.visible (some side) = c₂.visible (some side) :=
  List.forall_mem_map

/-- Where nothing is to the left, equal main scopes are all there is to agree on, whatever filters
there are. A node without paths has nothing to compare, so equality is asked for path by path. -/
theorem agreeOn_of_main_eq {main₁ main₂ : Scope} (h : ∀ p ∈ ps, main₁ = main₂) :
    AgreeOn ps ⟨none, main₁⟩ ⟨none, main₂⟩ := by
  intro p hp
  rw [h p hp]

theorem AgreeOn.leftward (h : AgreeOn (ps.map (PlacedPath.under .left)) c₁ c₂) :
    AgreeOn ps c₁.leftward c₂.leftward :=
  agreeOn_of_main_eq fun p hp => List.head_eq_of_cons_eq ((agreeOn_under_iff .left).1 h p hp)

theorem AgreeOn.rightward (h : AgreeOn (ps.map (PlacedPath.under .right)) c₁ c₂) :
    AgreeOn ps c₁.rightward c₂.rightward :=
  agreeOn_of_main_eq fun p hp => List.head_eq_of_cons_eq ((agreeOn_under_iff .right).1 h p hp)

theorem AgreeOn.of_both (h : AgreeOn (ps.map (PlacedPath.under .both)) c₁ c₂) :
    AgreeOn (ps.map (PlacedPath.under .left)) c₁ c₂ ∧
      AgreeOn (ps.map (PlacedPath.under .right)) c₁ c₂ := by
  rw [agreeOn_under_iff] at h
  rw [agreeOn_under_iff, agreeOn_under_iff]
  constructor
  · intro p hp
    exact congrArg (List.take 1) (h p hp)
  · intro p hp
    exact congrArg (List.drop 1) (h p hp)

end Context

open Context (AgreeOn agreeOn_append_iff)

mutual

/-- Contexts that show the same scopes to every path of a term are the same to the term. -/
theorem Term.selects_congr : ∀ (t : Term) {c₁ c₂ : Context},
    AgreeOn t.placedPaths c₁ c₂ → t.selects c₁ = t.selects c₂
  | .filter .left t, c₁, c₂, h => by
      rw [Term.selects, Term.selects, Term.selects_congr t h.leftward]
  | .filter .right t, c₁, c₂, h => by
      rw [Term.selects, Term.selects, Term.selects_congr t h.rightward]
  | .filter .both t, c₁, c₂, h => by
      obtain ⟨hleft, hright⟩ := h.of_both
      rw [Term.selects, Term.selects, Term.selects_congr t hleft.leftward,
        Term.selects_congr t hright.rightward]
  | .group s, c₁, c₂, h => by
      rw [Term.selects, Term.selects, Selector.selects_congr s h]
  | .path p, c₁, c₂, h => by
      have hmain : c₁.main = c₂.main := List.head_eq_of_cons_eq (h ⟨[], p⟩ List.mem_cons_self)
      rw [Term.selects, Term.selects, Path.selects, hmain, Path.selects]

theorem Expression.selects_congr : ∀ (e : Expression) {c₁ c₂ : Context},
    AgreeOn e.placedPaths c₁ c₂ → e.selects c₁ = e.selects c₂
  | ⟨complement, t⟩, c₁, c₂, h => by
      rw [Expression.selects, Expression.selects, Term.selects_congr t h]

theorem Composition.selectsFrom_congr : ∀ (cs : List Composition) (soFar : Bool)
    {c₁ c₂ : Context}, AgreeOn (Composition.chainPaths cs) c₁ c₂ →
      Composition.selectsFrom soFar cs c₁ = Composition.selectsFrom soFar cs c₂
  | [], soFar, c₁, c₂, h => rfl
  | ⟨operator, operand⟩ :: cs, soFar, c₁, c₂, h => by
      obtain ⟨hoperand, hcs⟩ := agreeOn_append_iff.1 h
      rw [Composition.selectsFrom, Composition.selectsFrom,
        Expression.selects_congr operand hoperand, Composition.selectsFrom_congr cs _ hcs]

theorem Composite.selects_congr : ∀ (c : Composite) {c₁ c₂ : Context},
    AgreeOn c.placedPaths c₁ c₂ → c.selects c₁ = c.selects c₂
  | ⟨base, compositions⟩, c₁, c₂, h => by
      obtain ⟨hbase, hcompositions⟩ := agreeOn_append_iff.1 h
      rw [Composite.selects, Composite.selects, Expression.selects_congr base hbase,
        Composition.selectsFrom_congr compositions _ hcompositions]

theorem Composite.someSelects_congr : ∀ (cs : List Composite) {c₁ c₂ : Context},
    AgreeOn (Composite.furtherPaths cs) c₁ c₂ →
      Composite.someSelects cs c₁ = Composite.someSelects cs c₂
  | [], c₁, c₂, h => rfl
  | c :: cs, c₁, c₂, h => by
      obtain ⟨hc, hcs⟩ := agreeOn_append_iff.1 h
      rw [Composite.someSelects, Composite.someSelects, Composite.selects_congr c hc,
        Composite.someSelects_congr cs hcs]

theorem Selector.selects_congr : ∀ (s : Selector) {c₁ c₂ : Context},
    AgreeOn s.placedPaths c₁ c₂ → s.selects c₁ = s.selects c₂
  | ⟨composites⟩, c₁, c₂, h => by
      rw [Selector.selects, Selector.selects, Composite.someSelects_congr composites h]

end

namespace Selector

/-- Filters keep the two scopes apart: without `L` and `B` outermost above a path, nothing depends
on what is to the left, or whether anything is there, and with `L` outermost above every path
nothing depends on the scope at the position, as long as something is to the left. -/
theorem selects_isolated (s : Selector) (c₁ c₂ : Context) :
    ((∀ p ∈ s.placedPaths, p.outermost? ≠ some .left ∧ p.outermost? ≠ some .both) →
      c₁.main = c₂.main → s.selects c₁ = s.selects c₂) ∧
    ((∀ p ∈ s.placedPaths, p.outermost? = some .left) →
      ∀ left, c₁.left = some left → c₂.left = some left → s.selects c₁ = s.selects c₂) := by
  constructor
  · intro hpaths hmain
    apply s.selects_congr
    intro p hp
    obtain ⟨hleft, hboth⟩ := hpaths p hp
    match hside : p.outermost? with
    | none => rw [Context.visible, Context.visible, hmain]
    | some .right => simp only [Context.visible, Context.rightward, hmain]
    | some .left => exact absurd hside hleft
    | some .both => exact absurd hside hboth
  · intro hpaths left h₁ h₂
    apply s.selects_congr
    intro p hp
    simp only [hpaths p hp, Context.visible, Context.leftward, h₁, h₂, Option.getD_some]

/-- `R: (a - L: b) | - c` knows nothing of what is to the left, for all its inner `L`, and
`L: (a - R: b), - L: c` nothing of the scope at the position. -/
theorem exists_isolated_nested_filters :
    ∃ (s₁ s₂ : Selector) (left main other : Scope), main ≠ other ∧
      (∀ p ∈ s₁.placedPaths, p.outermost? ≠ some .left ∧ p.outermost? ≠ some .both) ∧
        s₁.selects ⟨some left, main⟩ = s₁.selects ⟨none, main⟩ ∧
      (∀ p ∈ s₂.placedPaths, p.outermost? = some .left) ∧
        s₂.selects ⟨some left, main⟩ = s₂.selects ⟨some left, other⟩ := by
  let path (text : String) : Term := .path (.ofRoot ⟨[text]⟩)
  let without (side : Side) : Term :=
    .group ⟨[(Composite.ofBase ⟨false, path "a"⟩).append .difference
      ⟨false, .filter side (path "b")⟩]⟩
  let s₁ : Selector :=
    ⟨[(Composite.ofBase ⟨false, .filter .right (without .left)⟩).append .union ⟨true, path "c"⟩]⟩
  let s₂ : Selector :=
    ⟨[.ofBase ⟨false, .filter .left (without .right)⟩, .ofBase ⟨true, .filter .left (path "c")⟩]⟩
  let left : Scope := ⟨[⟨["b"]⟩]⟩
  let main : Scope := ⟨[⟨["a"]⟩]⟩
  have h₁ : ∀ p ∈ s₁.placedPaths, p.outermost? ≠ some .left ∧ p.outermost? ≠ some .both := by
    decide
  have h₂ : ∀ p ∈ s₂.placedPaths, p.outermost? = some .left := by decide
  exact ⟨s₁, s₂, left, main, left, by decide, h₁, (selects_isolated s₁ _ _).1 h₁ rfl, h₂,
    (selects_isolated s₂ _ _).2 h₂ left rfl rfl⟩

end Selector

end Highlight
