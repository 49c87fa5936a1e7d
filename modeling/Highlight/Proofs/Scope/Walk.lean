import Highlight.Proofs.Scope.Loosening

/-!
# Walks along a scope

A walk starts before the outermost name of a scope and is made of the moves of a cursor, in any
order and for any names. Copies of the cursor may be kept on the way, and any of them may take its
place later on. Wherever a walk leads, what lies ahead is an end of the scope, and the moves keep
the same discipline: a move that is not made leaves the cursor where it is, and one that is made
passes over nothing that it was not asked to pass over.
-/

namespace Highlight

namespace Cursor

variable {n : Name} {names rest : List Name} {c c' : Cursor}

theorem behind?_eq_some_iff :
    behind? n names = some rest ↔
      ∃ skipped m, (∀ k ∈ skipped, k.refines n = false) ∧ m.refines n = true ∧
        names = skipped ++ m :: rest := by
  induction names with
  | nil => simp [behind?_nil]
  | cons head tail ih =>
      rw [behind?_cons]
      by_cases hhead : head.refines n = true
      · rw [if_pos hhead, Option.some.injEq]
        constructor
        · rintro rfl
          exact ⟨[], head, List.forall_mem_nil _, hhead, rfl⟩
        · rintro ⟨_ | ⟨k, skipped⟩, m, hskipped, -, heq⟩
          · exact (List.cons.inj heq).2
          · obtain ⟨rfl, -⟩ := List.cons.inj heq
            rw [hskipped head List.mem_cons_self] at hhead
            cases hhead
      · rw [if_neg hhead, ih]
        constructor
        · rintro ⟨skipped, m, hskipped, hm, rfl⟩
          exact ⟨head :: skipped, m,
            List.forall_mem_cons.2 ⟨Bool.eq_false_iff.2 hhead, hskipped⟩, hm, rfl⟩
        · rintro ⟨_ | ⟨k, skipped⟩, m, hskipped, hm, heq⟩
          · obtain ⟨rfl, -⟩ := List.cons.inj heq
            exact absurd hm hhead
          · exact ⟨skipped, m, fun l hl => hskipped l (List.mem_cons_of_mem k hl), hm,
              (List.cons.inj heq).2⟩

theorem behind?_eq_none_iff :
    behind? n names = none ↔ ∀ m ∈ names, m.refines n = false := by
  rw [behind?_eq_map_findIdx?, Option.map_eq_none_iff, List.findIdx?_eq_none_iff]

/-- The next name, and no other, can be taken directly. -/
theorem first_eq_true_iff (hn : n.isEmpty = false) :
    c.first n = (true, c') ↔ ∃ m, m.refines n = true ∧ c.rest = m :: c'.rest := by
  rcases c with ⟨_ | ⟨head, tail⟩⟩
  · simp [first_nil hn]
  · rcases c' with ⟨rest⟩
    by_cases hhead : head.refines n = true
    · simp [first_cons hn, hhead]
    · simp [first_cons hn, hhead]

theorem leading_eq_true_iff (hn : n.isEmpty = false) :
    c.leading n = (true, c') ↔
      ∃ skipped m, (∀ k ∈ skipped, k.refines n = false) ∧ m.refines n = true ∧
        c.rest = skipped ++ m :: c'.rest := by
  rw [← behind?_eq_some_iff, leading, hn]
  rcases c' with ⟨rest⟩
  cases behind? n c.rest with
  | none => simp
  | some rest' => simp

/-- What the moves of a cursor for a name owe to whoever asks for them. -/
structure Disciplined (c : Cursor) (n : Name) : Prop where
  first_empty : n.isEmpty = true → c.first n = (true, c)
  leading_empty : n.isEmpty = true → c.leading n = (true, c)
  first_failed : (c.first n).1 = false →
    (c.first n).2 = c ∧ ∀ m ∈ c.rest.head?, m.refines n = false
  leading_failed : (c.leading n).1 = false →
    (c.leading n).2 = c ∧ ∀ m ∈ c.rest, m.refines n = false
  first_made : n.isEmpty = false → (c.first n).1 = true →
    ∃ m, m.refines n = true ∧ c.rest = m :: (c.first n).2.rest
  leading_made : n.isEmpty = false → (c.leading n).1 = true →
    ∃ skipped m, (∀ k ∈ skipped, k.refines n = false) ∧ m.refines n = true ∧
      c.rest = skipped ++ m :: (c.leading n).2.rest
  leading_of_first : (c.first n).1 = true → c.leading n = c.first n

theorem first_failed (h : (c.first n).1 = false) :
    (c.first n).2 = c ∧ ∀ m ∈ c.rest.head?, m.refines n = false := by
  cases hn : n.isEmpty with
  | true =>
      rw [first_of_isEmpty hn] at h
      cases h
  | false =>
      rcases c with ⟨_ | ⟨head, tail⟩⟩
      · simp [first_nil hn]
      · rw [first_cons hn] at h ⊢
        split at h
        · cases h
        · next hhead => simp [hhead]

theorem leading_failed (h : (c.leading n).1 = false) :
    (c.leading n).2 = c ∧ ∀ m ∈ c.rest, m.refines n = false := by
  cases hn : n.isEmpty with
  | true =>
      rw [leading_of_isEmpty hn] at h
      cases h
  | false =>
      rw [← behind?_eq_none_iff]
      rw [leading, hn] at h ⊢
      cases hbehind : behind? n c.rest with
      | none => exact ⟨rfl, rfl⟩
      | some rest =>
          rw [hbehind] at h
          cases h

theorem disciplined (c : Cursor) (n : Name) : c.Disciplined n where
  first_empty hn := first_of_isEmpty hn c
  leading_empty hn := leading_of_isEmpty hn c
  first_failed := first_failed
  leading_failed := leading_failed
  first_made hn h := (first_eq_true_iff hn).1 (Prod.ext h rfl)
  leading_made hn h := (leading_eq_true_iff hn).1 (Prod.ext h rfl)
  leading_of_first h := by
    have hfirst : c.first n = (true, (c.first n).2) := Prod.ext h rfl
    rw [leading_of_first hfirst, ← hfirst]

/-- A move that changes nothing or takes names off the front leaves an end of what lay ahead. -/
theorem rest_suffix_of_move {move : Bool × Cursor} (hempty : n.isEmpty = true → move = (true, c))
    (hfailed : move.1 = false → move.2 = c)
    (hmade : n.isEmpty = false → move.1 = true → ∃ front, front ++ move.2.rest = c.rest) :
    move.2.rest <:+ c.rest := by
  cases hanswer : move.1 with
  | false =>
      have hsame : move.2 = c := hfailed hanswer
      exact ⟨[], congrArg Cursor.rest hsame⟩
  | true =>
      cases hn : n.isEmpty with
      | true =>
          have hsame : move.2 = c := congrArg Prod.snd (hempty hn)
          exact ⟨[], congrArg Cursor.rest hsame⟩
      | false => exact hmade hn hanswer

theorem Disciplined.rest_first_suffix (h : c.Disciplined n) : (c.first n).2.rest <:+ c.rest := by
  refine rest_suffix_of_move h.first_empty (fun hanswer => (h.first_failed hanswer).1) ?_
  intro hn hanswer
  obtain ⟨m, -, hrest⟩ := h.first_made hn hanswer
  exact ⟨[m], hrest.symm⟩

theorem Disciplined.rest_leading_suffix (h : c.Disciplined n) :
    (c.leading n).2.rest <:+ c.rest := by
  refine rest_suffix_of_move h.leading_empty (fun hanswer => (h.leading_failed hanswer).1) ?_
  intro hn hanswer
  obtain ⟨skipped, m, -, -, hrest⟩ := h.leading_made hn hanswer
  exact ⟨skipped ++ [m], by rw [hrest, List.append_assoc, List.singleton_append]⟩

end Cursor

/-- A cursor on its way, with the copies of it that were kept, in this order. -/
structure Walk where
  cursor : Cursor
  copies : List Cursor
deriving DecidableEq

/-- What a walk can be continued by: a move of the cursor, keeping a copy of it, or going back to
one of the copies. -/
inductive Walk.Step
  | first (n : Name)
  | leading (n : Name)
  | save
  | restore (copy : Nat)

def Scope.walk (s : Scope) : Walk := ⟨s.cursor, []⟩

namespace Walk

/-- Continues a walk. Where no such copy has been kept, there is nothing to go back to. -/
def step (w : Walk) : Step → Walk
  | .first n => { w with cursor := (w.cursor.first n).2 }
  | .leading n => { w with cursor := (w.cursor.leading n).2 }
  | .save => { w with copies := w.copies ++ [w.cursor] }
  | .restore copy => { w with cursor := w.copies[copy]?.getD w.cursor }

def run (w : Walk) (steps : List Step) : Walk := steps.foldl step w

variable {w : Walk} {s : Scope}

theorem run_cons (w : Walk) (step : Step) (steps : List Step) :
    w.run (step :: steps) = (w.step step).run steps := rfl

theorem run_append (w : Walk) (steps steps' : List Step) :
    w.run (steps ++ steps') = (w.run steps).run steps' :=
  List.foldl_append

/-- The cursor and all of its copies are somewhere in the scope. -/
structure Within (w : Walk) (s : Scope) : Prop where
  cursor : w.cursor.rest <:+ s.names
  copies : ∀ c ∈ w.copies, c.rest <:+ s.names

theorem within_walk (s : Scope) : s.walk.Within s where
  cursor := List.suffix_refl s.names
  copies := List.forall_mem_nil _

theorem Within.step (h : w.Within s) (step : Step) : (w.step step).Within s := by
  cases step with
  | first n => exact ⟨(w.cursor.disciplined n).rest_first_suffix.trans h.cursor, h.copies⟩
  | leading n => exact ⟨(w.cursor.disciplined n).rest_leading_suffix.trans h.cursor, h.copies⟩
  | save =>
      exact ⟨h.cursor, List.forall_mem_append.2 ⟨h.copies, List.forall_mem_singleton.2 h.cursor⟩⟩
  | restore copy =>
      refine ⟨?_, h.copies⟩
      cases hcopy : w.copies[copy]? with
      | none => simpa [Walk.step, hcopy] using h.cursor
      | some c => simpa [Walk.step, hcopy] using h.copies c (List.mem_of_getElem? hcopy)

theorem Within.run (h : w.Within s) (steps : List Step) : (w.run steps).Within s := by
  induction steps generalizing w with
  | nil => exact h
  | cons step steps ih => exact ih (h.step step)

theorem prefix_copies_step (w : Walk) (step : Step) : w.copies <+: (w.step step).copies := by
  cases step with
  | save => exact List.prefix_append w.copies [w.cursor]
  | _ => exact List.prefix_refl w.copies

/-- A copy that was kept stays what it is, and where it is. -/
theorem prefix_copies_run (w : Walk) (steps : List Step) : w.copies <+: (w.run steps).copies := by
  induction steps generalizing w with
  | nil => exact List.prefix_refl w.copies
  | cons step steps ih => exact (w.prefix_copies_step step).trans (ih (w.step step))

theorem cursor_run_restore (w : Walk) (steps : List Step) :
    (w.run (.save :: steps ++ [.restore w.copies.length])).cursor = w.cursor := by
  obtain ⟨later, hlater⟩ := (w.step .save).prefix_copies_run steps
  have hcopy : ((w.step .save).run steps).copies[w.copies.length]? = some w.cursor := by
    rw [← hlater]
    simp [step]
  rw [run_append, run_cons]
  change (((w.step .save).run steps).copies[w.copies.length]?.getD _) = w.cursor
  rw [hcopy]
  rfl

/-- What the next step does to a walk: a move moves the cursor alone, keeping a copy changes nothing
else, and going back puts a copy in the place of the cursor and still keeps it. -/
structure Continues (w : Walk) (next : Step → Walk) : Prop where
  first : ∀ n, next (.first n) = ⟨(w.cursor.first n).2, w.copies⟩
  leading : ∀ n, next (.leading n) = ⟨(w.cursor.leading n).2, w.copies⟩
  save : next .save = ⟨w.cursor, w.copies ++ [w.cursor]⟩
  restore_kept : ∀ copy c, w.copies[copy]? = some c → next (.restore copy) = ⟨c, w.copies⟩
  restore_missing : ∀ copy, w.copies[copy]? = none → next (.restore copy) = w

theorem continues_step (w : Walk) : w.Continues w.step where
  first _ := rfl
  leading _ := rfl
  save := rfl
  restore_kept copy c hcopy := by rw [step, hcopy, Option.getD_some]
  restore_missing copy hcopy := by rw [step, hcopy, Option.getD_none]

theorem run_concat (w : Walk) (steps : List Step) (step : Step) :
    w.run (steps ++ [step]) = (w.run steps).step step :=
  run_append w steps [step]

/-- A walk along a scope starts before all of its names, and each of its steps does what it is meant
to do. Wherever it has led, an end of the scope lies ahead, also of every copy that was kept.
Whichever move comes next, for whatever name: if it is not made, nothing has changed and no name it
might have taken was there; if it is made, it takes one name that refines the given one, behind
names that do not, and behind none at all if it is direct. The empty name takes nothing. And a copy
that is kept now is where to go back to at any time. -/
theorem run_disciplined (s : Scope) :
    s.walk.run [] = ⟨s.cursor, []⟩ ∧ s.cursor.rest = s.names ∧
    ∀ steps,
      (s.walk.run steps).Continues (fun step => s.walk.run (steps ++ [step])) ∧
      (s.walk.run steps).Within s ∧ (∀ n, (s.walk.run steps).cursor.Disciplined n) ∧
      ∀ further,
        (s.walk.run
          (steps ++ .save :: further ++ [.restore (s.walk.run steps).copies.length])).cursor =
          (s.walk.run steps).cursor := by
  refine ⟨rfl, rfl, fun steps => ⟨?_, (within_walk s).run steps,
    (s.walk.run steps).cursor.disciplined, fun further => ?_⟩⟩
  · simp only [run_concat]
    exact (s.walk.run steps).continues_step
  · rw [List.append_assoc, run_append]
    exact cursor_run_restore _ further

/-- In `a b.x c d` the walk goes to `b`, keeps a copy before `c d`, goes to `d`, where `c` is no
longer found, and back to the copy. There `d` does not come next, but `c` does and is found
again. -/
theorem exists_run_disciplined :
    ∃ (s : Scope) (c d : Name) (steps : List Step) (w : Walk),
      s.names = [⟨["a"]⟩, ⟨["b", "x"]⟩, c, d] ∧
        steps = [.leading ⟨["b"]⟩, .save, .leading ⟨["*"]⟩, .first d, .leading c, .restore 0] ∧
        w = s.walk.run steps ∧ w.copies = [w.cursor] ∧
        w.cursor.rest = [c, d] ∧ w.cursor.rest <:+ s.names ∧
        ((w.cursor.first d).2 = w.cursor ∧ ∀ m ∈ w.cursor.rest.head?, m.refines d = false) ∧
        (w.cursor.first c).1 = true ∧ w.cursor.leading c = w.cursor.first c ∧
        (∃ skipped m, (∀ k ∈ skipped, k.refines d = false) ∧ m.refines d = true ∧
          w.cursor.rest = skipped ++ m :: (w.cursor.leading d).2.rest) ∧
        s.walk.run (steps ++ [.leading d]) = ⟨(w.cursor.leading d).2, [w.cursor]⟩ := by
  let c : Name := ⟨["c"]⟩
  let d : Name := ⟨["d"]⟩
  let s : Scope := ⟨[⟨["a"]⟩, ⟨["b", "x"]⟩, c, d]⟩
  let steps : List Step :=
    [.leading ⟨["b"]⟩, .save, .leading ⟨["*"]⟩, .first d, .leading c, .restore 0]
  obtain ⟨hcontinues, hwithin, hdisciplined, -⟩ := (run_disciplined s).2.2 steps
  have hcopies : (s.walk.run steps).copies = [(s.walk.run steps).cursor] := by decide
  have hfirst : ((s.walk.run steps).cursor.first c).1 = true := by decide
  have hleading := hcontinues.leading d
  rw [hcopies] at hleading
  exact ⟨s, c, d, steps, s.walk.run steps, rfl, rfl, rfl, hcopies, by decide, hwithin.cursor,
    (hdisciplined d).first_failed (by decide), hfirst, (hdisciplined c).leading_of_first hfirst,
    (hdisciplined d).leading_made rfl (by decide), hleading⟩

end Walk

end Highlight
