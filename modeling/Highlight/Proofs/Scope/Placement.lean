import Highlight.Proofs.Scope.Following
import Highlight.Proofs.Selector.RoundTrip

/-!
# The places of a path

Where a path is selected, each of its names has a place in the scope: that of the name taken by its
step. The places are told apart from the cursor that finds them. They lie one behind the other, each
holds a refinement of its name, and a direct step ends right behind the place before. That alone is
a placement of the path. The cursor finds the one in which no transitive step passes over a place
where it could have ended, and there is never more than one of these.
-/

namespace Highlight

/-- The way of a step along a scope: where it sets out, and the place where it ends. -/
structure Leg where
  start : Nat
  place : Nat
deriving DecidableEq

namespace Leg

/-- The ways that end on the places `i₁, i₂, …`: the one from `start` to `i₁`, the one from `i₁ + 1`
to `i₂`, and so on, since a step sets out right behind the name that was taken before. -/
def between (start : Nat) : List Nat → List Leg
  | [] => []
  | place :: places => ⟨start, place⟩ :: between (place + 1) places

/-- Where the next step would set out. -/
def stop (start : Nat) (places : List Nat) : Nat :=
  (places.getLast?.map (· + 1)).getD start

theorem stop_cons (start place : Nat) (places : List Nat) :
    stop start (place :: places) = stop (place + 1) places := by
  rw [stop, stop, List.getLast?_cons]
  cases places.getLast? with
  | none => rfl
  | some last => rfl

end Leg

namespace Scope

/-- Whether the name at a place refines `n`. Where there is no name, nothing does. -/
def refinesAt (s : Scope) (place : Nat) (n : Name) : Bool :=
  s.names[place]?.any fun m => m.refines n

/-- A step may go this way: it ends on a refinement of its name, not before it sets out, and a
direct step where it sets out. -/
structure Admits (s : Scope) (step : Relation × Name) (leg : Leg) : Prop where
  start_le : leg.start ≤ leg.place
  refines : s.refinesAt leg.place step.2 = true
  direct : step.1 = .direct → leg.place = leg.start

/-- A step may go this way, and a transitive one passes over no place where it could have ended. -/
structure AdmitsNearest (s : Scope) (step : Relation × Name) (leg : Leg) : Prop
    extends s.Admits step leg where
  nearest : step.1 = .transitive →
    ∀ place, leg.start ≤ place → place < leg.place → s.refinesAt place step.2 = false

instance (s : Scope) (step : Relation × Name) (leg : Leg) : Decidable (s.Admits step leg) :=
  decidable_of_iff (leg.start ≤ leg.place ∧ s.refinesAt leg.place step.2 = true ∧
      (step.1 = .direct → leg.place = leg.start))
    ⟨fun ⟨hstart, hrefines, hdirect⟩ => ⟨hstart, hrefines, hdirect⟩,
      fun ⟨hstart, hrefines, hdirect⟩ => ⟨hstart, hrefines, hdirect⟩⟩

instance (s : Scope) (step : Relation × Name) (leg : Leg) : Decidable (s.AdmitsNearest step leg) :=
  decidable_of_iff (s.Admits step leg ∧ (step.1 = .transitive →
      ∀ place, leg.start ≤ place → place < leg.place → s.refinesAt place step.2 = false))
    ⟨fun ⟨hadmits, hnearest⟩ => ⟨hadmits, hnearest⟩,
      fun ⟨hadmits, hnearest⟩ => ⟨hadmits, hnearest⟩⟩

/-- The cursor before the name at a place. -/
def cursorAt (s : Scope) (start : Nat) : Cursor := ⟨s.names.drop start⟩

theorem cursorAt_zero (s : Scope) : s.cursorAt 0 = s.cursor := rfl

end Scope

/-- Places for the names of a path, one behind the other. -/
structure Path.Placement (p : Path) (s : Scope) (places : List Nat) : Prop where
  legs : List.Forall₂ s.Admits p.steps (Leg.between 0 places)
  ends : p.endAnchor = true → ∀ place ∈ places.getLast?, place + 1 = s.names.length

/-- Places for the names of a path, none of which is passed over for another. -/
structure Path.NearestPlacement (p : Path) (s : Scope) (places : List Nat) : Prop where
  legs : List.Forall₂ s.AdmitsNearest p.steps (Leg.between 0 places)
  ends : p.endAnchor = true → ∀ place ∈ places.getLast?, place + 1 = s.names.length

namespace Path

variable (p : Path) (s : Scope) (places : List Nat)

instance : Decidable (p.Placement s places) :=
  decidable_of_iff (List.Forall₂ s.Admits p.steps (Leg.between 0 places) ∧
      (p.endAnchor = true → ∀ place ∈ places.getLast?, place + 1 = s.names.length))
    ⟨fun ⟨hlegs, hends⟩ => ⟨hlegs, hends⟩, fun ⟨hlegs, hends⟩ => ⟨hlegs, hends⟩⟩

instance : Decidable (p.NearestPlacement s places) :=
  decidable_of_iff (List.Forall₂ s.AdmitsNearest p.steps (Leg.between 0 places) ∧
      (p.endAnchor = true → ∀ place ∈ places.getLast?, place + 1 = s.names.length))
    ⟨fun ⟨hlegs, hends⟩ => ⟨hlegs, hends⟩, fun ⟨hlegs, hends⟩ => ⟨hlegs, hends⟩⟩

end Path

namespace Scope

variable {s : Scope} {n : Name} {start place : Nat} {c : Cursor} {steps : List (Relation × Name)}
  {places : List Nat}

theorem lt_length_of_refinesAt (h : s.refinesAt place n = true) : place < s.names.length := by
  obtain ⟨m, hm, -⟩ := (Option.any_eq_true _ _).1 h
  exact (List.getElem?_eq_some_iff.1 hm).1

theorem findIdx?_drop_eq_some_iff {i : Nat} :
    (s.names.drop start).findIdx? (fun m => m.refines n) = some i ↔
      s.refinesAt (start + i) n = true ∧ ∀ j < i, s.refinesAt (start + j) n = false := by
  have hat : ∀ j (hj : j < (s.names.drop start).length),
      s.refinesAt (start + j) n = (s.names.drop start)[j].refines n := by
    intro j hj
    rw [refinesAt, ← List.getElem?_drop, List.getElem?_eq_getElem hj]
    rfl
  rw [List.findIdx?_eq_some_iff_getElem]
  constructor
  · rintro ⟨hi, hrefines, hbefore⟩
    refine ⟨by rwa [hat i hi], ?_⟩
    intro j hj
    rw [hat j (Nat.lt_trans hj hi)]
    exact Bool.eq_false_iff.2 (hbefore j hj)
  · rintro ⟨hrefines, hbefore⟩
    have hi : i < (s.names.drop start).length := by
      rw [List.length_drop]
      exact Nat.lt_sub_iff_add_lt'.2 (lt_length_of_refinesAt hrefines)
    refine ⟨hi, by rwa [← hat i hi], ?_⟩
    intro j hj
    rw [← hat j (Nat.lt_trans hj hi)]
    exact Bool.eq_false_iff.1 (hbefore j hj)

theorem first_cursorAt (hn : n.isEmpty = false) (s : Scope) (start : Nat) :
    (s.cursorAt start).first n =
      if s.refinesAt start n then (true, s.cursorAt (start + 1))
      else (false, s.cursorAt start) := by
  rw [refinesAt, ← List.head?_drop, cursorAt, cursorAt, ← List.tail_drop]
  cases s.names.drop start with
  | nil => exact Cursor.first_nil hn
  | cons head tail => exact Cursor.first_cons hn head tail

theorem leading_cursorAt (hn : n.isEmpty = false) (s : Scope) (start : Nat) :
    (s.cursorAt start).leading n =
      ((s.names.drop start).findIdx? fun m => m.refines n).elim (false, s.cursorAt start)
        fun i => (true, s.cursorAt (start + i + 1)) := by
  rw [Cursor.leading, hn, cursorAt, Cursor.behind?_eq_map_findIdx?]
  cases (s.names.drop start).findIdx? fun m => m.refines n with
  | none => rfl
  | some i => simp [cursorAt, List.drop_drop, Nat.add_assoc]

/-- A step is made just if it has a way that passes over nothing, and it is made this way. -/
theorem take_cursorAt_eq_iff {relation : Relation} (hn : n.isEmpty = false) :
    (s.cursorAt start).take relation n = (true, c) ↔
      ∃ place, s.AdmitsNearest (relation, n) ⟨start, place⟩ ∧ c = s.cursorAt (place + 1) := by
  cases relation with
  | direct =>
      rw [Cursor.take, first_cursorAt hn]
      constructor
      · intro h
        split at h
        · next hrefines =>
            refine ⟨start, ⟨⟨Nat.le_refl start, hrefines, fun _ => rfl⟩, ?_⟩,
              (Prod.mk.inj h).2.symm⟩
            rintro ⟨⟩
        · cases h
      · rintro ⟨place, hleg, rfl⟩
        obtain rfl : place = start := hleg.direct rfl
        rw [if_pos hleg.refines]
  | transitive =>
      rw [Cursor.take, leading_cursorAt hn]
      constructor
      · intro h
        cases hi : (s.names.drop start).findIdx? fun m => m.refines n with
        | none => simp [hi] at h
        | some i =>
            rw [hi] at h
            obtain ⟨hrefines, hbefore⟩ := findIdx?_drop_eq_some_iff.1 hi
            refine ⟨start + i, ⟨⟨Nat.le_add_right start i, hrefines, ?_⟩, ?_⟩,
              (Prod.mk.inj h).2.symm⟩
            · rintro ⟨⟩
            · intro _ place hstart hplace
              obtain ⟨j, rfl⟩ := Nat.exists_eq_add_of_le hstart
              exact hbefore j (Nat.add_lt_add_iff_left.1 hplace)
      · rintro ⟨place, hleg, rfl⟩
        have hstart : start ≤ place := hleg.start_le
        obtain ⟨i, rfl⟩ := Nat.exists_eq_add_of_le hstart
        have hi : (s.names.drop start).findIdx? (fun m => m.refines n) = some i := by
          refine findIdx?_drop_eq_some_iff.2 ⟨hleg.refines, ?_⟩
          intro j hj
          exact hleg.nearest rfl _ (Nat.le_add_right start j) (Nat.add_lt_add_left hj start)
        rw [hi]
        rfl

/-- Steps are made one after the other just if there are ways for all of them that pass over
nothing. -/
theorem follow_cursorAt_eq_iff (hsteps : ∀ step ∈ steps, step.2.isEmpty = false) :
    (s.cursorAt start).follow steps = some c ↔
      ∃ places, List.Forall₂ s.AdmitsNearest steps (Leg.between start places) ∧
        c = s.cursorAt (Leg.stop start places) := by
  induction steps generalizing start with
  | nil =>
      rw [Cursor.follow_nil, Option.some.injEq]
      constructor
      · rintro rfl
        exact ⟨[], .nil, rfl⟩
      · rintro ⟨_ | ⟨place, places⟩, hlegs, rfl⟩
        · rfl
        · cases hlegs
  | cons step steps ih =>
      rcases step with ⟨relation, n⟩
      obtain ⟨(hn : n.isEmpty = false), hsteps⟩ := List.forall_mem_cons.1 hsteps
      rw [Cursor.follow_cons_eq_some_iff]
      constructor
      · rintro ⟨next, htake, hfollow⟩
        obtain ⟨place, hleg, rfl⟩ := (take_cursorAt_eq_iff hn).1 htake
        obtain ⟨places, hlegs, rfl⟩ := (ih hsteps).1 hfollow
        exact ⟨place :: places, .cons hleg hlegs, by rw [Leg.stop_cons]⟩
      · rintro ⟨_ | ⟨place, places⟩, hlegs, rfl⟩
        · cases hlegs
        · obtain ⟨hleg, hlegs⟩ := List.forall₂_cons.1 hlegs
          refine ⟨_, (take_cursorAt_eq_iff hn).2 ⟨place, hleg, rfl⟩,
            (ih hsteps).2 ⟨places, hlegs, ?_⟩⟩
          rw [Leg.stop_cons]

/-- Of two nearest places, the one further away would have passed over the other. -/
theorem AdmitsNearest.place_unique {step : Relation × Name} {place' : Nat}
    (h : s.AdmitsNearest step ⟨start, place⟩) (h' : s.AdmitsNearest step ⟨start, place'⟩) :
    place = place' := by
  rcases step with ⟨_ | _, n⟩
  · have hplace : place = start := h.direct rfl
    have hplace' : place' = start := h'.direct rfl
    rw [hplace, hplace']
  · rcases Nat.lt_trichotomy place place' with hlt | heq | hlt
    · have hpassed : s.refinesAt place n = false := h'.nearest rfl place h.start_le hlt
      rw [h.refines] at hpassed
      cases hpassed
    · exact heq
    · have hpassed : s.refinesAt place' n = false := h.nearest rfl place' h'.start_le hlt
      rw [h'.refines] at hpassed
      cases hpassed

theorem legs_unique {places' : List Nat}
    (h : List.Forall₂ s.AdmitsNearest steps (Leg.between start places))
    (h' : List.Forall₂ s.AdmitsNearest steps (Leg.between start places')) : places = places' := by
  induction places generalizing steps start places' with
  | nil =>
      cases h
      cases places' with
      | nil => rfl
      | cons place' places' => cases h'
  | cons place places ih =>
      obtain ⟨step, steps, hleg, hlegs, rfl⟩ := List.forall₂_cons_right_iff.1 h
      cases places' with
      | nil => cases h'
      | cons place' places' =>
          obtain ⟨hleg', hlegs'⟩ := List.forall₂_cons.1 h'
          obtain rfl := hleg.place_unique hleg'
          rw [ih hlegs hlegs']

/-- The places are places of the scope, from `start` on, and one is behind the other. -/
theorem pairwise_lt_of_legs (h : List.Forall₂ s.Admits steps (Leg.between start places)) :
    (∀ place ∈ places, start ≤ place ∧ place < s.names.length) ∧ places.Pairwise (· < ·) := by
  induction places generalizing steps start with
  | nil => exact ⟨List.forall_mem_nil _, .nil⟩
  | cons place places ih =>
      obtain ⟨step, steps, hleg, hlegs, rfl⟩ := List.forall₂_cons_right_iff.1 h
      have hstart : start ≤ place := hleg.start_le
      obtain ⟨hfurther, hpairwise⟩ := ih hlegs
      refine ⟨List.forall_mem_cons.2 ⟨⟨hstart, lt_length_of_refinesAt hleg.refines⟩, ?_⟩,
        List.pairwise_cons.2 ⟨fun further h => (hfurther further h).1, hpairwise⟩⟩
      intro further hmem
      obtain ⟨hplace, hlength⟩ := hfurther further hmem
      exact ⟨by omega, hlength⟩

theorem admits_of_admitsNearest {legs : List Leg} (h : List.Forall₂ s.AdmitsNearest steps legs) :
    List.Forall₂ s.Admits steps legs :=
  h.imp fun _ _ hleg => hleg.toAdmits

/-- Nothing is left behind the last place just if that is the last of the scope. -/
theorem rest_cursorAt_stop_eq_nil_iff (hsteps : steps ≠ [])
    (h : List.Forall₂ s.Admits steps (Leg.between 0 places)) :
    (s.cursorAt (Leg.stop 0 places)).rest = [] ↔
      ∀ place ∈ places.getLast?, place + 1 = s.names.length := by
  rw [cursorAt, List.drop_eq_nil_iff, Leg.stop]
  cases hlast : places.getLast? with
  | none =>
      obtain rfl := List.getLast?_eq_none_iff.1 hlast
      exact absurd (List.forall₂_nil_right_iff.1 h) hsteps
  | some last =>
      have hlength := ((pairwise_lt_of_legs h).1 last (List.mem_of_getLast? hlast)).2
      simp only [Option.map_some, Option.getD_some, Option.mem_some_iff, forall_eq']
      omega

end Scope

namespace Path

variable {p : Path} {s : Scope} {places places' : List Nat}

theorem map_snd_steps (p : Path) : p.steps.map Prod.snd = p.names := by
  simp [steps, names, Function.comp_def]

theorem forall_mem_steps (hp : ∀ n ∈ p.names, n.isEmpty = false) :
    ∀ step ∈ p.steps, step.2.isEmpty = false := by
  rwa [← map_snd_steps, List.forall_mem_map] at hp

theorem Placement.pairwise_lt (h : p.Placement s places) : places.Pairwise (· < ·) :=
  (Scope.pairwise_lt_of_legs h.legs).2

theorem NearestPlacement.placement (h : p.NearestPlacement s places) : p.Placement s places :=
  ⟨Scope.admits_of_admitsNearest h.legs, h.ends⟩

theorem NearestPlacement.unique (h : p.NearestPlacement s places)
    (h' : p.NearestPlacement s places') : places = places' :=
  Scope.legs_unique h.legs h'.legs

theorem exists_nearestPlacement_iff (hp : ∀ n ∈ p.names, n.isEmpty = false)
    (left : Option Scope) (s : Scope) :
    (∃ places, p.NearestPlacement s places) ↔ p.selects ⟨left, s⟩ = true := by
  have hrest (places : List Nat)
      (hlegs : List.Forall₂ s.AdmitsNearest p.steps (Leg.between 0 places)) :=
    Scope.rest_cursorAt_stop_eq_nil_iff (List.cons_ne_nil _ _) (Scope.admits_of_admitsNearest hlegs)
  rw [selects_eq_true_iff, ← Scope.cursorAt_zero]
  simp only [Scope.follow_cursorAt_eq_iff (forall_mem_steps hp)]
  constructor
  · rintro ⟨places, hlegs, hends⟩
    exact ⟨_, ⟨places, hlegs, rfl⟩, fun h => (hrest places hlegs).2 (hends h)⟩
  · rintro ⟨c, ⟨places, hlegs, rfl⟩, hends⟩
    exact ⟨places, hlegs, fun h => (hrest places hlegs).1 (hends h)⟩

/-- A path is selected just if its names have places, one behind the other, so that no transitive
step passes over a place where it could have ended. There is at most one such choice of places, and
what is to the left has no part in it. The names must not be empty, and no name that was read is. -/
theorem selects_iff_nearest_places (p : Path) (hp : ∀ n ∈ p.names, n.isEmpty = false)
    (left : Option Scope) (s : Scope) :
    (p.selects ⟨left, s⟩ = true ↔
      ∃ places, places.Pairwise (· < ·) ∧ p.NearestPlacement s places) ∧
    (∀ places places', p.NearestPlacement s places → p.NearestPlacement s places' →
      places = places') ∧
    (∀ left', p.selects ⟨left', s⟩ = p.selects ⟨left, s⟩) ∧
    ∀ text selector, Selector.parse text = .ok selector →
      ∀ n ∈ selector.names, n.isEmpty = false := by
  refine ⟨?_, fun _ _ h h' => h.unique h', fun _ => rfl,
    fun _ _ h n hn => (Selector.wellFormed_of_parse h n hn).isEmpty_eq_false⟩
  rw [← exists_nearestPlacement_iff hp left s]
  constructor
  · rintro ⟨places, hplaces⟩
    exact ⟨places, hplaces.placement.pairwise_lt, hplaces⟩
  · rintro ⟨places, -, hplaces⟩
    exact ⟨places, hplaces⟩

/-- In `x y a.b c d c`, the path `^x a > c c` has the places 0, 2, 3 and 5 and no others that are
nearest. The path `^x c$` is not selected, for its `c` does not go past the first one. -/
theorem exists_nearest_places :
    ∃ (p q : Path) (s : Scope), (∀ n ∈ p.names, n.isEmpty = false) ∧
      p.selects ⟨none, s⟩ = true ∧
      (∀ places, p.NearestPlacement s places → places = [0, 2, 3, 5]) ∧
      (∀ n ∈ q.names, n.isEmpty = false) ∧ q.Placement s [0, 5] ∧
      ¬ ∃ places, places.Pairwise (· < ·) ∧ q.NearestPlacement s places := by
  let root := (Path.ofRoot ⟨["x"]⟩).anchorBegin
  let p := ((root.append .transitive ⟨["a"]⟩).append .direct ⟨["c"]⟩).append .transitive ⟨["c"]⟩
  let q := (root.append .transitive ⟨["c"]⟩).anchorEnd
  let s : Scope := ⟨[⟨["x"]⟩, ⟨["y"]⟩, ⟨["a", "b"]⟩, ⟨["c"]⟩, ⟨["d"]⟩, ⟨["c"]⟩]⟩
  have hp : ∀ n ∈ p.names, n.isEmpty = false := by decide
  have hq : ∀ n ∈ q.names, n.isEmpty = false := by decide
  have hplaces : p.NearestPlacement s [0, 2, 3, 5] := by decide
  obtain ⟨hselects, hunique, -⟩ := selects_iff_nearest_places p hp none s
  obtain ⟨hrejects, -, -⟩ := selects_iff_nearest_places q hq none s
  refine ⟨p, q, s, hp, hselects.2 ⟨_, by decide, hplaces⟩, ?_, hq, by decide, ?_⟩
  · intro places h
    exact hunique places _ h hplaces
  · rw [← hrejects]
    decide

end Path

end Highlight
