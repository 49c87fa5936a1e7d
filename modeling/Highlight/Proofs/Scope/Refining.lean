import Highlight.Proofs.Scope.Greedy

/-!
# Refining a scope

A place that holds a refinement of a name still does when the scope gets more specific, or the name
less so, since refinement is transitive. So a placement of a path is one in the refined scope, too.
The cursor may well find another one, for a refinement can create places that come sooner. This does
no harm to a path that is selected wherever it has a placement.
-/

namespace Highlight

namespace Scope

/-- The first scope has as many names as the second, and each refines the one at the same place. -/
def Refines (s' s : Scope) : Prop :=
  List.Forall₂ (fun m' m => m'.refines m = true) s'.names s.names

instance (s' s : Scope) : Decidable (s'.Refines s) :=
  inferInstanceAs (Decidable (List.Forall₂ _ s'.names s.names))

variable {s s' : Scope}

theorem Refines.refl (s : Scope) : s.Refines s :=
  List.forall₂_same.2 fun m _ => m.refines_refl

theorem Refines.length_eq (h : s'.Refines s) : s'.names.length = s.names.length :=
  List.Forall₂.length_eq h

theorem Refines.refinesAt {n n' : Name} {place : Nat} (hs : s'.Refines s)
    (hn : n.refines n' = true) (h : s.refinesAt place n = true) :
    s'.refinesAt place n' = true := by
  obtain ⟨m, hm, hrefines⟩ := (Option.any_eq_true _ _).1 h
  obtain ⟨hlength, rfl⟩ := List.getElem?_eq_some_iff.1 hm
  have hlength' : place < s'.names.length := hs.length_eq ▸ hlength
  have hplace : s'.names[place].refines s.names[place] = true :=
    List.Forall₂.get hs hlength' hlength
  exact (Option.any_eq_true _ _).2 ⟨s'.names[place], List.getElem?_eq_getElem hlength',
    Name.refines_trans (Name.refines_trans hplace hrefines) hn⟩

theorem Refines.admits {step step' : Relation × Name} {leg : Leg} (hs : s'.Refines s)
    (hstep : step'.1 = step.1 ∧ step.2.refines step'.2 = true) (h : s.Admits step leg) :
    s'.Admits step' leg :=
  ⟨h.start_le, hs.refinesAt hstep.2 h.refines, fun hdirect => h.direct (hstep.1 ▸ hdirect)⟩

theorem Refines.forall_admits {steps steps' : List (Relation × Name)} {legs : List Leg}
    (hs : s'.Refines s)
    (hsteps : List.Forall₂ (fun a b => b.1 = a.1 ∧ a.2.refines b.2 = true) steps steps')
    (h : List.Forall₂ s.Admits steps legs) : List.Forall₂ s'.Admits steps' legs := by
  induction hsteps generalizing legs with
  | nil => exact (List.forall₂_nil_left_iff.1 h) ▸ .nil
  | cons hstep hsteps ih =>
      obtain ⟨leg, legs, hleg, hlegs, rfl⟩ := List.forall₂_cons_left_iff.1 h
      exact .cons (hs.admits hstep hleg) (ih hlegs)

end Scope

namespace Path

/-- The path `q` is `p` with some of its names replaced by names that they refine. -/
structure WidensTo (p q : Path) : Prop where
  beginAnchor : q.beginAnchor = p.beginAnchor
  endAnchor : q.endAnchor = p.endAnchor
  root : p.root.refines q.root = true
  descendants : List.Forall₂
    (fun d e => e.relation = d.relation ∧ d.name.refines e.name = true)
    p.descendants q.descendants

variable {p q : Path} {s s' : Scope} {places : List Nat}

theorem WidensTo.refl (p : Path) : p.WidensTo p :=
  ⟨rfl, rfl, p.root.refines_refl, List.forall₂_same.2 fun d _ => ⟨rfl, d.name.refines_refl⟩⟩

theorem WidensTo.steps (h : p.WidensTo q) :
    List.Forall₂ (fun a b => b.1 = a.1 ∧ a.2.refines b.2 = true) p.steps q.steps := by
  refine .cons ⟨?_, h.root⟩ ?_
  · rw [h.beginAnchor]
  · rw [List.forall₂_map_left_iff, List.forall₂_map_right_iff]
    exact h.descendants

theorem WidensTo.map_fst_steps (h : p.WidensTo q) :
    q.steps.map Prod.fst = p.steps.map Prod.fst := by
  rw [← List.forall₂_eq_eq_eq, List.forall₂_map_left_iff, List.forall₂_map_right_iff]
  exact h.steps.flip.imp fun _ _ hstep => hstep.1

/-- How the steps are related is all that matters to what comes first. -/
theorem directFirst_iff : p.DirectFirst ↔
    (p.steps.map Prod.fst).Pairwise fun a b => b = .direct → a = .direct := by
  rw [DirectFirst, List.pairwise_map]

theorem WidensTo.directFirst (h : p.WidensTo q) (hp : p.DirectFirst) : q.DirectFirst := by
  rwa [directFirst_iff, h.map_fst_steps, ← directFirst_iff]

theorem WidensTo.forall_direct (h : p.WidensTo q) (hp : ∀ step ∈ p.steps, step.1 = .direct) :
    ∀ step ∈ q.steps, step.1 = .direct := by
  have hrelations : ∀ relation ∈ q.steps.map Prod.fst, relation = .direct := by
    rw [h.map_fst_steps]
    exact List.forall_mem_map.2 hp
  exact List.forall_mem_map.1 hrelations

theorem Placement.of_refines (h : p.Placement s places) (hwidens : p.WidensTo q)
    (hs : s'.Refines s) : q.Placement s' places := by
  refine ⟨hs.forall_admits hwidens.steps h.legs, ?_⟩
  rw [hwidens.endAnchor, hs.length_eq]
  exact h.ends

theorem WidensTo.selects (h : p.WidensTo q) (hp : ∀ n ∈ p.names, n.isEmpty = false)
    (hq : ∀ n ∈ q.names, n.isEmpty = false) (hfirst : p.DirectFirst)
    (hend : p.endAnchor = true → ∀ step ∈ p.steps, step.1 = .direct) (hs : s'.Refines s)
    {left left' : Option Scope} (hselects : p.selects ⟨left, s⟩ = true) :
    q.selects ⟨left', s'⟩ = true := by
  rw [← exists_nearestPlacement_iff hp] at hselects
  obtain ⟨places, hplaces⟩ := hselects
  rw [← exists_nearestPlacement_iff hq]
  apply (hplaces.placement.of_refines h hs).exists_nearestPlacement (h.directFirst hfirst)
  rw [h.endAnchor]
  exact fun hanchor => h.forall_direct (hend hanchor)

/-- A path whose direct steps come first, and which is only anchored at the end if all of its steps
are direct, stays selected if the names of the scope are replaced by refinements, and if its own are
replaced by names that they refine. The names of the paths must not be empty. -/
theorem selects_of_refined (p : Path) (hp : ∀ n ∈ p.names, n.isEmpty = false)
    (hfirst : p.DirectFirst) (hend : p.endAnchor = true → ∀ step ∈ p.steps, step.1 = .direct)
    (left left' : Option Scope) (s s' : Scope) (hs : s'.Refines s)
    (h : p.selects ⟨left, s⟩ = true) :
    p.selects ⟨left', s'⟩ = true ∧
      ∀ q, p.WidensTo q → (∀ n ∈ q.names, n.isEmpty = false) →
        q.selects ⟨left, s⟩ = true ∧ q.selects ⟨left', s'⟩ = true := by
  refine ⟨(WidensTo.refl p).selects hp hp hfirst hend hs h, fun q hq hne => ⟨?_, ?_⟩⟩
  · exact hq.selects hp hne hfirst hend (.refl s) h
  · exact hq.selects hp hne hfirst hend hs h

/-- The path `a.b c` is selected in `a a.b c`, and in `a.b a.b.x c`, though there it finds its first
name sooner. So is `* c`. -/
theorem exists_selects_of_refined :
    ∃ (p q : Path) (s s' : Scope), (∀ n ∈ p.names, n.isEmpty = false) ∧ p.DirectFirst ∧
      (p.endAnchor = true → ∀ step ∈ p.steps, step.1 = .direct) ∧ s'.Refines s ∧
      p.WidensTo q ∧ (∀ n ∈ q.names, n.isEmpty = false) ∧
      p.NearestPlacement s [1, 2] ∧ p.NearestPlacement s' [0, 2] ∧
      p.selects ⟨none, s⟩ = true ∧ p.selects ⟨none, s'⟩ = true ∧
      q.selects ⟨none, s⟩ = true ∧ q.selects ⟨none, s'⟩ = true := by
  let p := (Path.ofRoot ⟨["a", "b"]⟩).append .transitive ⟨["c"]⟩
  let q := (Path.ofRoot ⟨["*"]⟩).append .transitive ⟨["c"]⟩
  let s : Scope := ⟨[⟨["a"]⟩, ⟨["a", "b"]⟩, ⟨["c"]⟩]⟩
  let s' : Scope := ⟨[⟨["a", "b"]⟩, ⟨["a", "b", "x"]⟩, ⟨["c"]⟩]⟩
  have hp : ∀ n ∈ p.names, n.isEmpty = false := by decide
  have hq : ∀ n ∈ q.names, n.isEmpty = false := by decide
  have hfirst : p.DirectFirst := by decide
  have hend : p.endAnchor = true → ∀ step ∈ p.steps, step.1 = .direct := by decide
  have hs : s'.Refines s := by decide
  have hwidens : p.WidensTo q := ⟨rfl, rfl, by decide, by decide⟩
  have hselects : p.selects ⟨none, s⟩ = true := by decide
  obtain ⟨hrefined, hwide⟩ := selects_of_refined p hp hfirst hend none none s s' hs hselects
  obtain ⟨hwide, hboth⟩ := hwide q hwidens hq
  exact ⟨p, q, s, s', hp, hfirst, hend, hs, hwidens, hq, by decide, by decide, hselects, hrefined,
    hwide, hboth⟩

/-- Behind a transitive step, a direct one is left behind by a place that comes sooner: `a.b > c` is
selected in `a a.b c`, but not in `a.b a.b c`. -/
example :
    let p := (Path.ofRoot ⟨["a", "b"]⟩).append .direct ⟨["c"]⟩
    p.selects ⟨none, ⟨[⟨["a"]⟩, ⟨["a", "b"]⟩, ⟨["c"]⟩]⟩⟩ = true ∧
      p.selects ⟨none, ⟨[⟨["a", "b"]⟩, ⟨["a", "b"]⟩, ⟨["c"]⟩]⟩⟩ = false := by
  decide

end Path

end Highlight
