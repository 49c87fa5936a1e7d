import Highlight.Text.Edit
import Mathlib.Data.List.Chain

/-!
# Shortest edit scripts

A script turns one list into another if what it keeps and deletes is the one and what it keeps and
inserts is the other. A diff is a script that deletes and inserts as little as possible, and does
not delete right behind an insertion, where the deletion could have come first. `Edit.between` finds
one. There may be others, but not if the new list is a single item that the old list has at its end
at most: then the item is kept if it is there, and everything else is deleted before it.
-/

namespace Highlight.Text.Edit

variable {α : Type} {a b d : α} {old new as bs : List α} {edits : List (Edit α)}

/-- The script turns the old list into the new one. -/
inductive Turns : List α → List α → List (Edit α) → Prop
  | nil : Turns [] [] []
  | keep (a : α) {as bs : List α} {edits : List (Edit α)} :
      Turns as bs edits → Turns (a :: as) (a :: bs) (.keep a :: edits)
  | delete (a : α) {as bs : List α} {edits : List (Edit α)} :
      Turns as bs edits → Turns (a :: as) bs (.delete a :: edits)
  | insert (b : α) {as bs : List α} {edits : List (Edit α)} :
      Turns as bs edits → Turns as (b :: bs) (.insert b :: edits)

/-- The number of deletions and insertions. -/
def changes : List (Edit α) → Nat
  | [] => 0
  | .keep _ :: edits => changes edits
  | .delete _ :: edits => changes edits + 1
  | .insert _ :: edits => changes edits + 1

/-- Whether one edit may stand right in front of another. -/
def MayPrecede : Edit α → Edit α → Prop
  | .insert _, .delete _ => False
  | _, _ => True

/-- A script with as few deletions and insertions as there can be, the deletions first. -/
structure IsDiff (old new : List α) (edits : List (Edit α)) : Prop where
  turns : Turns old new edits
  shortest : ∀ edits', Turns old new edits' → changes edits ≤ changes edits'
  deletesFirst : edits.IsChain MayPrecede

/-! ## Scripts in general -/

theorem Turns.eq_map_insert (h : Turns [] new edits) : edits = new.map .insert := by
  induction new generalizing edits with
  | nil =>
      cases h
      rfl
  | cons b bs ih =>
      cases h with
      | insert _ h => rw [ih h, List.map_cons]

theorem Turns.eq_map_delete (h : Turns old [] edits) : edits = old.map .delete := by
  induction old generalizing edits with
  | nil =>
      cases h
      rfl
  | cons a as ih =>
      cases h with
      | delete _ h => rw [ih h, List.map_cons]

theorem Turns.map_delete_append (h : Turns as bs edits) (front : List α) :
    Turns (front ++ as) bs (front.map .delete ++ edits) := by
  induction front with
  | nil => exact h
  | cons a front ih => exact .delete a ih

theorem changes_map_delete_append (front : List α) (edits : List (Edit α)) :
    changes (front.map .delete ++ edits) = front.length + changes edits := by
  induction front with
  | nil => exact (Nat.zero_add _).symm
  | cons a front ih =>
      rw [List.map_cons, List.cons_append, changes, ih, List.length_cons, Nat.add_right_comm]

/-- The edit the other way round. -/
def swap : Edit α → Edit α
  | .keep a => .keep a
  | .delete a => .insert a
  | .insert a => .delete a

theorem Turns.map_swap (h : Turns old new edits) : Turns new old (edits.map swap) := by
  induction h with
  | nil => exact .nil
  | keep a h ih => exact .keep a ih
  | delete a h ih => exact .insert a ih
  | insert b h ih => exact .delete b ih

theorem changes_map_swap (edits : List (Edit α)) : changes (edits.map swap) = changes edits := by
  induction edits with
  | nil => rfl
  | cons edit edits ih =>
      cases edit with
      | keep a => exact ih
      | delete a => exact congrArg (· + 1) ih
      | insert a => exact congrArg (· + 1) ih

/-- Without its first item, the new list is at most one change further away: the item is not
inserted any more, or deleted instead of kept. -/
theorem Turns.exists_tail_new (h : Turns old (b :: bs) edits) :
    ∃ edits', Turns old bs edits' ∧ changes edits' ≤ changes edits + 1 := by
  induction old generalizing edits with
  | nil =>
      cases h with
      | @insert _ _ _ edits h => exact ⟨edits, h, by rw [changes]; omega⟩
  | cons a as ih =>
      cases h with
      | @keep _ _ _ edits h => exact ⟨.delete _ :: edits, .delete _ h, Nat.le_refl _⟩
      | @delete _ _ _ edits h =>
          obtain ⟨edits', h', hchanges⟩ := ih h
          exact ⟨.delete a :: edits', .delete a h', Nat.succ_le_succ hchanges⟩
      | @insert _ _ _ edits h => exact ⟨edits, h, by rw [changes]; omega⟩

theorem Turns.exists_tail_old (h : Turns (a :: as) new edits) :
    ∃ edits', Turns as new edits' ∧ changes edits' ≤ changes edits + 1 := by
  obtain ⟨edits', h', hchanges⟩ := h.map_swap.exists_tail_new
  refine ⟨edits'.map swap, h'.map_swap, ?_⟩
  rwa [changes_map_swap, ← changes_map_swap edits]

/-! ## The script that is found -/

/-- The script is a diff, and its cost is known. -/
structure Script.Solves (s : Script α) (old new : List α) : Prop where
  isDiff : IsDiff old new s.edits
  cost_eq : s.cost = changes s.edits

/-- Each script of the row is for the old list and its own suffix of the new one. -/
def Row.Solves (old : List α) : List α → Row α → Prop
  | [], (s, scripts) => s.Solves old [] ∧ scripts = []
  | b :: bs, (s, scripts) =>
      s.Solves old (b :: bs) ∧
        ∃ s' scripts', scripts = s' :: scripts' ∧ Solves old bs (s', scripts')

theorem Row.Solves.script {row : Row α} (h : Row.Solves old new row) : row.1.Solves old new := by
  cases new with
  | nil => exact h.1
  | cons b bs => exact h.1

theorem Script.Solves.insert {s : Script α} (h : s.Solves [] bs) (b : α) :
    (Script.mk (s.cost + 1) (.insert b :: s.edits)).Solves [] (b :: bs) := by
  refine ⟨⟨.insert b h.isDiff.turns, ?_, List.isChain_cons.2 ⟨?_, h.isDiff.deletesFirst⟩⟩,
    congrArg (· + 1) h.cost_eq⟩
  · intro edits' h'
    rw [h'.eq_map_insert, h.isDiff.turns.eq_map_insert, List.map_cons]
  · intro edit hedit
    rw [h.isDiff.turns.eq_map_insert] at hedit
    obtain ⟨b', -, rfl⟩ := List.mem_map.1 (List.mem_of_mem_head? hedit)
    exact trivial

theorem Script.Solves.delete {s : Script α} (h : s.Solves as []) (a : α) :
    (Script.mk (s.cost + 1) (.delete a :: s.edits)).Solves (a :: as) [] := by
  refine ⟨⟨.delete a h.isDiff.turns, ?_, List.isChain_cons.2 ⟨fun _ _ => trivial,
    h.isDiff.deletesFirst⟩⟩, congrArg (· + 1) h.cost_eq⟩
  intro edits' h'
  rw [h'.eq_map_delete, h.isDiff.turns.eq_map_delete, List.map_cons]

theorem lastRow_solves (new : List α) : Row.Solves [] new (lastRow new) := by
  induction new with
  | nil => exact ⟨⟨⟨.nil, fun _ _ => Nat.zero_le _, .nil⟩, rfl⟩, rfl⟩
  | cons b bs ih => exact ⟨ih.script.insert b, _, _, rfl, ih⟩

variable {both onlyOld onlyNew : Script α}

theorem Script.Solves.keep (h : both.Solves as bs) (a : α) :
    (Script.mk both.cost (.keep a :: both.edits)).Solves (a :: as) (a :: bs) := by
  refine ⟨⟨.keep a h.isDiff.turns, ?_, List.isChain_cons.2 ⟨fun _ _ => trivial,
    h.isDiff.deletesFirst⟩⟩, h.cost_eq⟩
  intro edits' h'
  rw [changes]
  -- what a script does to `a` otherwise takes one change, and so does doing without
  cases h' with
  | @keep _ _ _ edits' h' => exact h.isDiff.shortest edits' h'
  | delete _ h' =>
      obtain ⟨edits'', h'', hchanges⟩ := h'.exists_tail_new
      exact (h.isDiff.shortest _ h'').trans hchanges
  | insert _ h' =>
      obtain ⟨edits'', h'', hchanges⟩ := h'.exists_tail_old
      exact (h.isDiff.shortest _ h'').trans hchanges

theorem Script.solves_delete (hab : ¬a = b) (hold : onlyOld.Solves as (b :: bs))
    (hnew : onlyNew.Solves (a :: as) bs) (hle : onlyOld.cost ≤ onlyNew.cost) :
    (Script.mk (onlyOld.cost + 1) (.delete a :: onlyOld.edits)).Solves (a :: as) (b :: bs) := by
  refine ⟨⟨.delete a hold.isDiff.turns, ?_, List.isChain_cons.2 ⟨fun _ _ => trivial,
    hold.isDiff.deletesFirst⟩⟩, congrArg (· + 1) hold.cost_eq⟩
  intro edits' h'
  rw [hold.cost_eq, hnew.cost_eq] at hle
  rw [changes]
  cases h' with
  | keep _ h' => exact absurd rfl hab
  | delete _ h' => exact Nat.succ_le_succ (hold.isDiff.shortest _ h')
  | insert _ h' => exact Nat.succ_le_succ (hle.trans (hnew.isDiff.shortest _ h'))

theorem Script.solves_insert_of_lt (hab : ¬a = b) (hold : onlyOld.Solves as (b :: bs))
    (hnew : onlyNew.Solves (a :: as) bs) (hlt : onlyNew.cost < onlyOld.cost) :
    (Script.mk (onlyNew.cost + 1) (.insert b :: onlyNew.edits)).Solves (a :: as) (b :: bs) := by
  refine ⟨⟨.insert b hnew.isDiff.turns, ?_, List.isChain_cons.2 ⟨?_,
    hnew.isDiff.deletesFirst⟩⟩, congrArg (· + 1) hnew.cost_eq⟩
  · intro edits' h'
    rw [hold.cost_eq, hnew.cost_eq] at hlt
    rw [changes]
    cases h' with
    | keep _ h' => exact absurd rfl hab
    | delete _ h' => exact Nat.succ_le_succ (hlt.le.trans (hold.isDiff.shortest _ h'))
    | insert _ h' => exact Nat.succ_le_succ (hnew.isDiff.shortest _ h')
  · -- a deletion behind the insertion could come first instead, at no cost
    intro edit hedit
    obtain ⟨edits, hedits⟩ := List.head?_eq_some_iff.1 hedit
    cases edit with
    | delete a' =>
        have hturns := hnew.isDiff.turns
        rw [hedits] at hturns
        cases hturns with
        | delete _ hturns =>
            have hle := hold.isDiff.shortest _ (.insert b hturns)
            rw [hold.cost_eq, hnew.cost_eq, hedits] at hlt
            exact absurd hle (Nat.not_le_of_lt hlt)
    | _ => trivial

theorem extend_solves [DecidableEq α] (hboth : both.Solves as bs)
    (hold : onlyOld.Solves as (b :: bs)) (hnew : onlyNew.Solves (a :: as) bs) :
    (extend a b both onlyOld onlyNew).Solves (a :: as) (b :: bs) := by
  unfold extend
  split
  · next hab =>
      rw [← hab]
      exact hboth.keep a
  · next hab =>
      split
      · next hle => exact Script.solves_delete hab hold hnew hle
      · next hlt => exact Script.solves_insert_of_lt hab hold hnew (Nat.lt_of_not_le hlt)

theorem rowBefore_solves [DecidableEq α] (a : α) {row : Row α} (h : Row.Solves as new row) :
    Row.Solves (a :: as) new (rowBefore a new row) := by
  induction new generalizing row with
  | nil =>
      rcases row with ⟨below, scripts⟩
      exact ⟨h.1.delete a, rfl⟩
  | cons b bs ih =>
      rcases row with ⟨below, scripts⟩
      obtain ⟨hbelow, diagonal, scripts, rfl, hrow⟩ := h
      have hright := ih hrow
      exact ⟨extend_solves hrow.script hbelow hright.script, _, _, rfl, hright⟩

theorem isDiff_between [DecidableEq α] (old new : List α) : IsDiff old new (between old new) := by
  have hrow : Row.Solves old new (old.foldr (fun a row => rowBefore a new row) (lastRow new)) := by
    induction old with
    | nil => exact lastRow_solves new
    | cons a as ih => exact rowBefore_solves a ih
  exact hrow.script.isDiff

/-! ## Diffs against a single item -/

theorem Turns.exists_of_singleton (h : Turns old [d] edits) :
    ∃ before after,
      edits = before.map .delete ++ .keep d :: after.map .delete ∧ old = before ++ d :: after ∨
        edits = before.map .delete ++ .insert d :: after.map .delete ∧ old = before ++ after := by
  induction old generalizing edits with
  | nil =>
      rw [h.eq_map_insert]
      exact ⟨[], [], .inr ⟨rfl, rfl⟩⟩
  | cons a as ih =>
      cases h with
      | keep _ h =>
          rw [h.eq_map_delete]
          exact ⟨[], as, .inl ⟨rfl, rfl⟩⟩
      | insert _ h =>
          rw [h.eq_map_delete]
          exact ⟨[], a :: as, .inr ⟨rfl, rfl⟩⟩
      | delete _ h =>
          obtain ⟨before, after, ⟨rfl, rfl⟩ | ⟨rfl, rfl⟩⟩ := ih h
          · exact ⟨a :: before, after, .inl ⟨rfl, rfl⟩⟩
          · exact ⟨a :: before, after, .inr ⟨rfl, rfl⟩⟩

/-- There is only one diff against a single item that is nowhere but perhaps at the end. -/
theorem IsDiff.eq_of_singleton (h : IsDiff old [d] edits) (hd : d ∉ old.dropLast) :
    old.getLast? = some d ∧ edits = old.dropLast.map .delete ++ [.keep d] ∨
      old.getLast? ≠ some d ∧ edits = old.map .delete ++ [.insert d] := by
  obtain ⟨before, after, ⟨rfl, rfl⟩ | ⟨rfl, rfl⟩⟩ := h.turns.exists_of_singleton
  · -- what is behind a kept item would make it an inner one
    cases after with
    | nil => exact .inl ⟨List.getLast?_concat, by rw [List.dropLast_concat]; rfl⟩
    | cons a after =>
        rw [List.dropLast_append_cons, List.dropLast_cons_cons] at hd
        exact absurd (List.mem_append_right before List.mem_cons_self) hd
  · -- nothing is deleted behind an insertion
    cases after with
    | cons a after =>
        have hchain := (List.isChain_append.1 h.deletesFirst).2.1
        exact absurd (List.isChain_cons_cons.1 hchain).1 id
    | nil =>
        rw [List.append_nil] at h hd ⊢
        refine .inr ⟨?_, rfl⟩
        intro hlast
        obtain ⟨front, rfl⟩ := List.getLast?_eq_some_iff.1 hlast
        have hkeep := (Turns.keep d .nil).map_delete_append front
        have hle := h.shortest _ hkeep
        rw [changes_map_delete_append, changes_map_delete_append, List.length_append,
          List.length_singleton, Nat.add_assoc] at hle
        have htwo : 2 ≤ 0 := Nat.le_of_add_le_add_left hle
        exact absurd htwo (by decide)

end Highlight.Text.Edit
