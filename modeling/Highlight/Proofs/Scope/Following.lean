import Highlight.Proofs.Name.Order
import Highlight.Selector.Matching
import Mathlib.Data.List.Forall2

/-!
# Following a path along a scope

A path is selected if its steps can be made one after the other and, behind an anchor at the end,
nothing is left. What runs of steps come to is said here for steps of one kind: direct ones take a
name each, with no choice in it, and transitive ones are never diverted by names further in, since
every name refines itself.
-/

namespace Highlight

namespace Cursor

theorem follow_cons (c : Cursor) (relation : Relation) (n : Name)
    (steps : List (Relation × Name)) :
    c.follow ((relation, n) :: steps) =
      if (c.take relation n).1 then (c.take relation n).2.follow steps else none := by
  rw [follow]
  rcases c.take relation n with ⟨_ | _, c'⟩
  · rfl
  · rfl

theorem follow_cons_eq_some_iff {c c' : Cursor} {step : Relation × Name}
    {steps : List (Relation × Name)} :
    c.follow (step :: steps) = some c' ↔
      ∃ next, c.take step.1 step.2 = (true, next) ∧ next.follow steps = some c' := by
  rw [follow_cons]
  rcases c.take step.1 step.2 with ⟨_ | _, next⟩
  · simp
  · simp

theorem first_nil {n : Name} (hn : n.isEmpty = false) : first ⟨[]⟩ n = (false, ⟨[]⟩) := by
  simp [first, hn]

theorem first_cons {n : Name} (hn : n.isEmpty = false) (head : Name) (tail : List Name) :
    first ⟨head :: tail⟩ n =
      if head.refines n then (true, ⟨tail⟩) else (false, ⟨head :: tail⟩) := by
  simp [first, hn]

theorem leading_cons_of_refines {n head : Name} (hn : n.isEmpty = false)
    (h : head.refines n = true) (tail : List Name) :
    leading ⟨head :: tail⟩ n = (true, ⟨tail⟩) := by
  simp [leading, hn, behind?_cons, h]

theorem behind?_eq_map_findIdx? (n : Name) (names : List Name) :
    behind? n names = (names.findIdx? fun m => m.refines n).map fun i => names.drop (i + 1) := by
  induction names with
  | nil => rfl
  | cons head tail ih =>
      rw [behind?_cons, List.findIdx?_cons]
      by_cases h : head.refines n = true
      · rw [if_pos h, if_pos h]
        rfl
      · rw [if_neg h, if_neg h, ih, Option.map_map]
        rfl

/-- Direct steps are made just if as many names come next and each of them refines the name of its
step; the rest is left. -/
theorem follow_direct_eq_some_iff {ns : List Name} (hns : ∀ n ∈ ns, n.isEmpty = false)
    (c c' : Cursor) :
    c.follow (ns.map fun n => (.direct, n)) = some c' ↔
      ∃ ms, c.rest = ms ++ c'.rest ∧ List.Forall₂ (fun m n => m.refines n = true) ms ns := by
  induction ns generalizing c with
  | nil =>
      rw [List.map_nil, follow_nil, Option.some.injEq]
      constructor
      · rintro rfl
        exact ⟨[], rfl, .nil⟩
      · rintro ⟨ms, hrest, hms⟩
        obtain rfl := List.forall₂_nil_right_iff.1 hms
        rcases c with ⟨rest⟩
        rcases c' with ⟨rest'⟩
        exact congrArg mk hrest
  | cons n ns ih =>
      obtain ⟨hn, hns⟩ := List.forall_mem_cons.1 hns
      rw [List.map_cons, follow_cons, take]
      rcases c with ⟨_ | ⟨head, tail⟩⟩
      · simp [first_nil hn]
      by_cases hrefines : head.refines n = true
      · rw [first_cons hn, if_pos hrefines, if_pos rfl, ih hns]
        constructor
        · rintro ⟨ms, hrest, hms⟩
          exact ⟨head :: ms, congrArg (head :: ·) hrest, .cons hrefines hms⟩
        · rintro ⟨ms, hrest, hms⟩
          obtain ⟨m, ms', hm, hms', rfl⟩ := List.forall₂_cons_right_iff.1 hms
          exact ⟨ms', (List.cons.inj hrest).2, hms'⟩
      · rw [first_cons hn, if_neg hrefines, if_neg Bool.false_ne_true]
        constructor
        · rintro ⟨⟩
        · rintro ⟨ms, hrest, hms⟩
          obtain ⟨m, ms', hm, -, rfl⟩ := List.forall₂_cons_right_iff.1 hms
          obtain rfl := (List.cons.inj hrest).1
          exact absurd hm hrefines

/-- Transitive steps for the names that come next are made by taking just these. -/
theorem follow_transitive_self {ns : List Name} (hns : ∀ n ∈ ns, n.isEmpty = false)
    (rest : List Name) :
    follow ⟨ns ++ rest⟩ (ns.map fun n => (.transitive, n)) = some ⟨rest⟩ := by
  induction ns with
  | nil => rfl
  | cons n ns ih =>
      obtain ⟨hn, hns⟩ := List.forall_mem_cons.1 hns
      rw [List.map_cons, follow_cons, List.cons_append, take,
        leading_cons_of_refines hn n.refines_refl]
      exact ih hns

end Cursor

namespace Path

theorem selects_eq_true_iff (p : Path) (context : Context) :
    p.selects context = true ↔
      ∃ c, context.main.cursor.follow p.steps = some c ∧ (p.endAnchor = true → c.rest = []) := by
  rw [selects]
  cases context.main.cursor.follow p.steps with
  | none => simp
  | some c => cases hend : p.endAnchor <;> simp [Cursor.isEmpty]

/-- Without an anchor at the end, it does not matter what is left. -/
theorem selects_eq_true_iff_of_open {p : Path} (hend : p.endAnchor = false) (context : Context) :
    p.selects context = true ↔ ∃ c, context.main.cursor.follow p.steps = some c := by
  simp [selects_eq_true_iff, hend]

/-- The unanchored path of names that may come anywhere behind each other. -/
def loose (n : Name) (ns : List Name) : Path :=
  ⟨false, false, n, ns.map (Descendant.mk .transitive)⟩

/-- The path of names that follow each other directly, from one end of the scope to the other. -/
def strict (n : Name) (ns : List Name) : Path :=
  ⟨true, true, n, ns.map (Descendant.mk .direct)⟩

theorem steps_loose (n : Name) (ns : List Name) :
    (loose n ns).steps = (n :: ns).map fun m => (.transitive, m) := by
  simp [loose, steps]

theorem steps_strict (n : Name) (ns : List Name) :
    (strict n ns).steps = (n :: ns).map fun m => (.direct, m) := by
  simp [strict, steps]

variable {n : Name} {ns : List Name}

theorem selects_loose_self (h : ∀ m ∈ n :: ns, m.isEmpty = false) (left : Option Scope) :
    (loose n ns).selects ⟨left, ⟨n :: ns⟩⟩ = true := by
  have hfollow := Cursor.follow_transitive_self h []
  rw [List.append_nil] at hfollow
  rw [selects_eq_true_iff, steps_loose]
  exact ⟨_, hfollow, fun _ => rfl⟩

theorem selects_strict_iff (h : ∀ m ∈ n :: ns, m.isEmpty = false) (context : Context) :
    (strict n ns).selects context = true ↔
      List.Forall₂ (fun m n => m.refines n = true) context.main.names (n :: ns) := by
  rw [selects_eq_true_iff, steps_strict]
  constructor
  · rintro ⟨c, hfollow, hend⟩
    obtain ⟨ms, hrest, hms⟩ := (Cursor.follow_direct_eq_some_iff h _ c).1 hfollow
    rw [hend rfl, List.append_nil] at hrest
    obtain rfl : context.main.names = ms := hrest
    exact hms
  · intro hnames
    refine ⟨⟨[]⟩, (Cursor.follow_direct_eq_some_iff h _ _).2 ?_, fun _ => rfl⟩
    exact ⟨context.main.names, (List.append_nil _).symm, hnames⟩

end Path

end Highlight
