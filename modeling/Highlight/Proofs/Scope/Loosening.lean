import Highlight.Proofs.Scope.Following

/-!
# Asking less of a scope

A path asks less if some of its names need not follow directly, or if an anchor is dropped. The
looser path is selected wherever the path itself is. This is so although a cursor never goes back,
since a transitive step that may take the very next name does take it: both paths move their cursors
in the same way, to the very end.
-/

namespace Highlight

namespace Cursor

variable {c c' : Cursor} {n : Name}

theorem first_of_isEmpty (hn : n.isEmpty = true) (c : Cursor) : c.first n = (true, c) :=
  if_pos hn

theorem leading_of_isEmpty (hn : n.isEmpty = true) (c : Cursor) : c.leading n = (true, c) :=
  if_pos hn

theorem take_of_isEmpty (hn : n.isEmpty = true) (c : Cursor) (relation : Relation) :
    c.take relation n = (true, c) := by
  cases relation with
  | direct => exact first_of_isEmpty hn c
  | transitive => exact leading_of_isEmpty hn c

/-- A name that comes next is also the first of all that are left. -/
theorem leading_of_first (h : c.first n = (true, c')) : c.leading n = (true, c') := by
  cases hn : n.isEmpty with
  | true => rwa [leading_of_isEmpty hn, ← first_of_isEmpty hn]
  | false =>
      rcases c with ⟨_ | ⟨head, tail⟩⟩
      · rw [first_nil hn] at h
        cases h
      · rw [first_cons hn] at h
        split at h
        · next hrefines => rw [leading_cons_of_refines hn hrefines, h]
        · cases h

/-- A step that was made is also made, in the same way, if it need not be direct. -/
theorem take_of_take {relation relation' : Relation}
    (hrelation : relation' = .direct → relation = .direct) (h : c.take relation n = (true, c')) :
    c.take relation' n = (true, c') := by
  cases relation' with
  | direct => rwa [hrelation rfl] at h
  | transitive =>
      cases relation with
      | direct => exact leading_of_first h
      | transitive => exact h

theorem follow_of_follow {steps steps' : List (Relation × Name)}
    (hsteps : List.Forall₂ (fun a b => b.2 = a.2 ∧ (b.1 = .direct → a.1 = .direct)) steps steps')
    (h : c.follow steps = some c') : c.follow steps' = some c' := by
  -- both runs have the same cursor before each of their steps
  induction hsteps generalizing c with
  | nil => exact h
  | @cons step step' steps steps' hstep hsteps ih =>
      obtain ⟨hname, hrelation⟩ := hstep
      obtain ⟨next, htake, hfollow⟩ := follow_cons_eq_some_iff.1 h
      refine follow_cons_eq_some_iff.2 ⟨next, ?_, ih hfollow⟩
      rw [hname]
      exact take_of_take hrelation htake

theorem follow_append (c : Cursor) (steps steps' : List (Relation × Name)) :
    c.follow (steps ++ steps') = (c.follow steps).bind fun c => c.follow steps' := by
  induction steps generalizing c with
  | nil => rfl
  | cons step steps ih =>
      rw [List.cons_append, follow_cons, follow_cons]
      split
      · exact ih _
      · rfl

end Cursor

namespace Path

/-- The path `q` has the names of `p` and asks no more of where they are. -/
structure LoosensTo (p q : Path) : Prop where
  beginAnchor : q.beginAnchor = true → p.beginAnchor = true
  endAnchor : q.endAnchor = true → p.endAnchor = true
  root : q.root = p.root
  descendants : List.Forall₂
    (fun d e => e.name = d.name ∧ (e.relation = .direct → d.relation = .direct))
    p.descendants q.descendants

variable {p q : Path} {context : Context}

theorem LoosensTo.steps (h : p.LoosensTo q) :
    List.Forall₂ (fun a b => b.2 = a.2 ∧ (b.1 = .direct → a.1 = .direct)) p.steps q.steps := by
  refine .cons ⟨h.root, ?_⟩ ?_
  · intro hdirect
    have hq : q.beginAnchor = true := by
      by_contra hq
      rw [if_neg hq] at hdirect
      cases hdirect
    exact if_pos (h.beginAnchor hq)
  · rw [List.forall₂_map_left_iff, List.forall₂_map_right_iff]
    exact h.descendants

theorem LoosensTo.selects (h : p.LoosensTo q) (hp : p.selects context = true) :
    q.selects context = true := by
  rw [selects_eq_true_iff] at hp ⊢
  obtain ⟨c, hfollow, hend⟩ := hp
  exact ⟨c, Cursor.follow_of_follow h.steps hfollow, fun hq => hend (h.endAnchor hq)⟩

theorem steps_append (p : Path) (relation : Relation) (n : Name) :
    (p.append relation n).steps = p.steps ++ [(relation, n)] :=
  congrArg (List.cons _) List.map_append

theorem selects_of_selects_append {relation : Relation} {n : Name} (hend : p.endAnchor = false)
    (h : (p.append relation n).selects context = true) : p.selects context = true := by
  rw [selects_eq_true_iff, steps_append, Cursor.follow_append] at h
  obtain ⟨c, hfollow, -⟩ := h
  obtain ⟨c', hfollow', -⟩ := Option.bind_eq_some_iff.1 hfollow
  exact (selects_eq_true_iff_of_open hend context).2 ⟨c', hfollow'⟩

/-- Where a path is selected, so is every path that asks less: with some of its direct names
anywhere further in, without an anchor, or, if it has none at the end, without its last names. -/
theorem selects_of_loosened (p : Path) (context : Context) :
    (∀ q, p.LoosensTo q → p.selects context = true → q.selects context = true) ∧
    ∀ relation n, p.endAnchor = false → (p.append relation n).selects context = true →
      p.selects context = true :=
  ⟨fun _ h hp => h.selects hp, fun _ _ hend h => selects_of_selects_append hend h⟩

/-- The path `^a > b c > d$` is selected in `a b x c d`. So are `a b c > d`, with a direct step left
that could still go wrong, and `^a > b c`, which is cut short. -/
theorem exists_selects_of_loosened :
    ∃ (p q : Path) (n : Name) (context : Context),
      ((p.append .direct n).anchorEnd.LoosensTo q ∧
        (p.append .direct n).anchorEnd.selects context = true ∧ q.selects context = true) ∧
      p.endAnchor = false ∧ (p.append .direct n).selects context = true ∧
        p.selects context = true := by
  let root := Path.ofRoot ⟨["a"]⟩
  let p := ((root.append .direct ⟨["b"]⟩).append .transitive ⟨["c"]⟩).anchorBegin
  let q := ((root.append .transitive ⟨["b"]⟩).append .transitive ⟨["c"]⟩).append .direct ⟨["d"]⟩
  let context : Context := ⟨none, ⟨[⟨["a"]⟩, ⟨["b"]⟩, ⟨["x"]⟩, ⟨["c"]⟩, ⟨["d"]⟩]⟩⟩
  have hloosens : (p.append .direct ⟨["d"]⟩).anchorEnd.LoosensTo q :=
    ⟨by decide, by decide, rfl, by decide⟩
  have hwhole : (p.append .direct ⟨["d"]⟩).anchorEnd.selects context = true := by decide
  have hlonger : (p.append .direct ⟨["d"]⟩).selects context = true := by decide
  obtain ⟨hlooser, -⟩ := selects_of_loosened (p.append .direct ⟨["d"]⟩).anchorEnd context
  obtain ⟨-, hshorter⟩ := selects_of_loosened p context
  exact ⟨p, q, ⟨["d"]⟩, context, ⟨hloosens, hwhole, hlooser q hloosens hwhole⟩, rfl, hlonger,
    hshorter .direct ⟨["d"]⟩ rfl hlonger⟩

end Path

end Highlight
