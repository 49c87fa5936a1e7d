import Highlight.Proofs.Scope.Placement
import Mathlib.Data.Nat.Find

/-!
# Where going back would not help

A cursor never goes back, so it may miss a placement: `a > b` has one in `a a b`, but the first `a`
is taken. It misses none of a path whose direct steps all come before its transitive ones. There is
no choice in the direct steps, and for the transitive steps behind them an earlier start is never
worse. An anchor at the end would tell two placements apart by their last place, so it is only
allowed where there is no choice at all.
-/

namespace Highlight

namespace Scope

variable {s : Scope} {start : Nat} {steps : List (Relation × Name)} {places : List Nat}

/-- A transitive step that may end on some place has a nearest one, from an earlier start, too. -/
theorem exists_admitsNearest_le {n : Name} {start' place : Nat} (hstart : start' ≤ start)
    (h : s.Admits (.transitive, n) ⟨start, place⟩) :
    ∃ place' ≤ place, s.AdmitsNearest (.transitive, n) ⟨start', place'⟩ := by
  have hplace : start' ≤ place ∧ s.refinesAt place n = true :=
    ⟨Nat.le_trans hstart h.start_le, h.refines⟩
  have hex : ∃ i, start' ≤ i ∧ s.refinesAt i n = true := ⟨place, hplace⟩
  obtain ⟨hfrom, hrefines⟩ := Nat.find_spec hex
  refine ⟨Nat.find hex, Nat.find_min' hex hplace, ⟨hfrom, hrefines, ?_⟩, ?_⟩
  · rintro ⟨⟩
  · intro _ i hi hlt
    exact Bool.eq_false_iff.2 fun hrefines' => Nat.find_min hex hlt ⟨hi, hrefines'⟩

/-- From an earlier start, transitive steps find places if they have any. -/
theorem exists_nearest_legs_of_transitive (hsteps : ∀ step ∈ steps, step.1 = .transitive)
    {start' : Nat} (hstart : start' ≤ start)
    (h : List.Forall₂ s.Admits steps (Leg.between start places)) :
    ∃ places', List.Forall₂ s.AdmitsNearest steps (Leg.between start' places') := by
  -- the nearest place is no further than the one given, so the next start is an earlier one again
  induction steps generalizing start start' places with
  | nil => exact ⟨[], .nil⟩
  | cons step steps ih =>
      rcases step with ⟨relation, n⟩
      obtain ⟨rfl, hfurther⟩ := List.forall_mem_cons.1 hsteps
      cases places with
      | nil => cases h
      | cons place places =>
          obtain ⟨hleg, hlegs⟩ := List.forall₂_cons.1 h
          obtain ⟨place', hle, hleg'⟩ := exists_admitsNearest_le hstart hleg
          obtain ⟨places', hlegs'⟩ := ih hfurther (Nat.succ_le_succ hle) hlegs
          exact ⟨place' :: places', .cons hleg' hlegs'⟩

/-- In a direct step there is no choice. -/
theorem Admits.nearest_of_direct {step : Relation × Name} {leg : Leg} (h : s.Admits step leg)
    (hstep : step.1 = .direct) : s.AdmitsNearest step leg := by
  refine ⟨h, fun htransitive => ?_⟩
  rw [hstep] at htransitive
  cases htransitive

theorem nearest_legs_of_direct {legs : List Leg} (hsteps : ∀ step ∈ steps, step.1 = .direct)
    (h : List.Forall₂ s.Admits steps legs) : List.Forall₂ s.AdmitsNearest steps legs := by
  induction h with
  | nil => exact .nil
  | cons hleg hlegs ih =>
      obtain ⟨hstep, hsteps⟩ := List.forall_mem_cons.1 hsteps
      exact .cons (hleg.nearest_of_direct hstep) (ih hsteps)

/-- Steps of which the direct ones come first find places if they have any. -/
theorem exists_nearest_legs (hsteps : steps.Pairwise fun a b => b.1 = .direct → a.1 = .direct)
    (h : List.Forall₂ s.Admits steps (Leg.between start places)) :
    ∃ places', List.Forall₂ s.AdmitsNearest steps (Leg.between start places') := by
  induction steps generalizing start places with
  | nil => exact ⟨[], .nil⟩
  | cons step steps ih =>
      obtain ⟨hstep, hsteps⟩ := List.pairwise_cons.1 hsteps
      cases hrelation : step.1 with
      | direct =>
          cases places with
          | nil => cases h
          | cons place places =>
              obtain ⟨hleg, hlegs⟩ := List.forall₂_cons.1 h
              obtain ⟨places', hlegs'⟩ := ih hsteps hlegs
              exact ⟨place :: places', .cons (hleg.nearest_of_direct hrelation) hlegs'⟩
      | transitive =>
          -- from here on there are no direct steps left
          apply exists_nearest_legs_of_transitive _ (Nat.le_refl start) h
          refine List.forall_mem_cons.2 ⟨hrelation, fun further hmem => ?_⟩
          cases hfurther : further.1 with
          | direct =>
              have hdirect := hstep further hmem hfurther
              rw [hrelation] at hdirect
              cases hdirect
          | transitive => rfl

end Scope

namespace Path

/-- Every direct step comes before every transitive one. An anchored root is a direct step. -/
def DirectFirst (p : Path) : Prop :=
  p.steps.Pairwise fun a b => b.1 = .direct → a.1 = .direct

instance (p : Path) : Decidable p.DirectFirst :=
  inferInstanceAs (Decidable (p.steps.Pairwise _))

variable {p : Path} {s : Scope} {places : List Nat}

theorem Placement.exists_nearestPlacement (h : p.Placement s places) (hfirst : p.DirectFirst)
    (hend : p.endAnchor = true → ∀ step ∈ p.steps, step.1 = .direct) :
    ∃ places', p.NearestPlacement s places' := by
  by_cases hanchor : p.endAnchor = true
  · exact ⟨places, Scope.nearest_legs_of_direct (hend hanchor) h.legs, h.ends⟩
  · obtain ⟨places', hlegs⟩ := Scope.exists_nearest_legs hfirst h.legs
    exact ⟨places', hlegs, fun h => absurd h hanchor⟩

/-- A path whose direct steps come first, and which is only anchored at the end if all of its steps
are direct, is selected wherever it has a placement: going back would not help. -/
theorem selects_iff_exists_placement (p : Path) (hp : ∀ n ∈ p.names, n.isEmpty = false)
    (hfirst : p.DirectFirst) (hend : p.endAnchor = true → ∀ step ∈ p.steps, step.1 = .direct)
    (left : Option Scope) (s : Scope) :
    p.selects ⟨left, s⟩ = true ↔ ∃ places, places.Pairwise (· < ·) ∧ p.Placement s places := by
  rw [← exists_nearestPlacement_iff hp left s]
  constructor
  · rintro ⟨places, h⟩
    exact ⟨places, h.placement.pairwise_lt, h.placement⟩
  · rintro ⟨places, -, h⟩
    exact h.exists_nearestPlacement hfirst hend

/-- `^a > * b c` finds places in `a b c b b c`, though 0, 1, 4 and 5 are not the nearest. -/
theorem exists_selects_of_placement :
    ∃ (p : Path) (s : Scope) (places : List Nat), (∀ n ∈ p.names, n.isEmpty = false) ∧
      p.DirectFirst ∧ (p.endAnchor = true → ∀ step ∈ p.steps, step.1 = .direct) ∧
      places.Pairwise (· < ·) ∧ p.Placement s places ∧ ¬ p.NearestPlacement s places ∧
      p.selects ⟨none, s⟩ = true := by
  let p := ((((Path.ofRoot ⟨["a"]⟩).append .direct ⟨["*"]⟩).append .transitive ⟨["b"]⟩).append
    .transitive ⟨["c"]⟩).anchorBegin
  let s : Scope := ⟨[⟨["a"]⟩, ⟨["b"]⟩, ⟨["c"]⟩, ⟨["b"]⟩, ⟨["b"]⟩, ⟨["c"]⟩]⟩
  have hp : ∀ n ∈ p.names, n.isEmpty = false := by decide
  have hfirst : p.DirectFirst := by decide
  have hend : p.endAnchor = true → ∀ step ∈ p.steps, step.1 = .direct := by decide
  have hincreasing : [0, 1, 4, 5].Pairwise (· < ·) := by decide
  have hplaces : p.Placement s [0, 1, 4, 5] := by decide
  exact ⟨p, s, [0, 1, 4, 5], hp, hfirst, hend, hincreasing, hplaces, by decide,
    (selects_iff_exists_placement p hp hfirst hend none s).2 ⟨_, hincreasing, hplaces⟩⟩

/-- Behind a transitive step, a direct one may need it to go back: `a > b` is not selected in
`a a b`, though it has the places 1 and 2. -/
example :
    let p := (Path.ofRoot ⟨["a"]⟩).append .direct ⟨["b"]⟩
    let s : Scope := ⟨[⟨["a"]⟩, ⟨["a"]⟩, ⟨["b"]⟩]⟩
    p.Placement s [1, 2] ∧ p.selects ⟨none, s⟩ = false := by
  decide

end Path

end Highlight
