import Highlight.Name
import Mathlib.Order.Defs.Unbundled

/-!
# The order of patterns

Names are ordered by how much they ask: `p` is below `n` if `p`, as a pattern, is a prefix of `n`.
The wildcard is below every component and only itself is below it, so within a component the order
is one of height two, and names are compared component by component. What is below a name is never
longer than it, which is why a pattern can be taken off the front of it, in one piece or in two.
-/

namespace Highlight.Name

/-- The components of one name in front of those of another. -/
instance : Append Name := ⟨fun p q => ⟨p.components ++ q.components⟩⟩

theorem components_append (p q : Name) : (p ++ q).components = p.components ++ q.components := rfl

variable {n m p q : Name} {ps cs ds : List String}

theorem covers_refl (cs : List String) : covers cs cs = true := by
  induction cs with
  | nil => rfl
  | cons c cs ih => rw [covers_cons_cons, ih, beq_self_eq_true, Bool.true_or, Bool.true_and]

/-- What covers a wildcard is a wildcard itself, so nothing is lost on the way. -/
theorem covers_trans (h : covers ps cs = true) (h' : covers cs ds = true) :
    covers ps ds = true := by
  induction ps generalizing cs ds with
  | nil => rfl
  | cons p ps ih =>
      cases cs with
      | nil => cases h
      | cons c cs =>
          cases ds with
          | nil => cases h'
          | cons d ds =>
              rw [covers_cons_cons, Bool.and_eq_true, Bool.or_eq_true, beq_iff_eq,
                beq_iff_eq] at h h' ⊢
              obtain ⟨hp, hps⟩ := h
              obtain ⟨hc, hcs⟩ := h'
              refine ⟨?_, ih hps hcs⟩
              rcases hp with rfl | hwildcard
              · exact hc
              · exact .inr hwildcard

/-- Two components that stand in for each other are both wildcards unless they are the same. -/
theorem covers_antisymm (h : covers ps cs = true) (h' : covers cs ps = true) : ps = cs := by
  induction ps generalizing cs with
  | nil =>
      cases cs with
      | nil => rfl
      | cons c cs => cases h'
  | cons p ps ih =>
      cases cs with
      | nil => cases h
      | cons c cs =>
          rw [covers_cons_cons, Bool.and_eq_true, Bool.or_eq_true, beq_iff_eq, beq_iff_eq] at h h'
          obtain ⟨hp, hps⟩ := h
          obtain ⟨hc, hcs⟩ := h'
          have hhead : p = c := by
            rcases hp with hp | hp
            · exact hp
            · rcases hc with hc | hc
              · exact hc.symm
              · rw [hp, hc]
          rw [hhead, ih hps hcs]

/-- Components are compared in pairs, and none of the pattern may be left without a partner. -/
theorem covers_eq_true_iff (ps cs : List String) :
    covers ps cs = true ↔
      ps.length ≤ cs.length ∧ ∀ pair ∈ ps.zip cs, pair.1 = pair.2 ∨ pair.1 = wildcard := by
  induction ps generalizing cs with
  | nil => simp [covers_nil]
  | cons p ps ih =>
      cases cs with
      | nil => simp [covers_cons_nil]
      | cons c cs =>
          rw [covers_cons_cons, Bool.and_eq_true, Bool.or_eq_true, beq_iff_eq, beq_iff_eq, ih,
            List.zip_cons_cons, List.forall_mem_cons, List.length_cons, List.length_cons,
            Nat.add_le_add_iff_right]
          exact and_left_comm

/-- A pattern in two pieces covers if the first piece does and the second covers what is behind. -/
theorem covers_append (ps qs cs : List String) :
    covers (ps ++ qs) cs = (covers ps cs && covers qs (cs.drop ps.length)) := by
  induction ps generalizing cs with
  | nil => rfl
  | cons p ps ih =>
      cases cs with
      | nil => rfl
      | cons c cs =>
          rw [List.cons_append, covers_cons_cons, covers_cons_cons, ih, Bool.and_assoc,
            List.length_cons, List.drop_succ_cons]

theorem refines_refl (n : Name) : n.refines n = true :=
  covers_refl n.components

theorem refines_trans (h : n.refines m = true) (h' : m.refines p = true) :
    n.refines p = true :=
  covers_trans h' h

theorem isPrefix_antisymm (h : p.isPrefix n = true) (h' : n.isPrefix p = true) : p = n := by
  rcases p with ⟨ps⟩
  rcases n with ⟨ns⟩
  exact congrArg mk (covers_antisymm h h')

theorem length_le_of_isPrefix (h : p.isPrefix n = true) : p.length ≤ n.length :=
  ((covers_eq_true_iff _ _).1 h).1

theorem removePrefix_of_isPrefix (h : p.isPrefix n = true) :
    n.removePrefix p = (true, ⟨n.components.drop p.length⟩) :=
  if_pos h

theorem removePrefix_of_not_isPrefix (h : p.isPrefix n = false) :
    n.removePrefix p = (false, n) :=
  if_neg (Bool.eq_false_iff.1 h)

theorem removePrefix_fst (n p : Name) : (n.removePrefix p).1 = p.isPrefix n := by
  cases h : p.isPrefix n with
  | false => rw [removePrefix_of_not_isPrefix h]
  | true => rw [removePrefix_of_isPrefix h]

/-- Behind a pattern that is a prefix, a longer one is compared with what is left. -/
theorem append_isPrefix (hp : p.isPrefix n = true) (q : Name) :
    (p ++ q).isPrefix n = q.isPrefix (n.removePrefix p).2 := by
  rw [removePrefix_of_isPrefix hp, isPrefix, components_append, covers_append]
  change (p.isPrefix n && _) = _
  rw [hp, Bool.true_and]
  rfl

theorem isPrefix_of_append (h : (p ++ q).isPrefix n = true) : p.isPrefix n = true := by
  rw [isPrefix, components_append, covers_append, Bool.and_eq_true] at h
  exact h.1

theorem removePrefix_append_iff (n p q : Name) :
    (n.removePrefix (p ++ q)).1 = true ↔
      (n.removePrefix p).1 = true ∧ ((n.removePrefix p).2.removePrefix q).1 = true := by
  rw [removePrefix_fst, removePrefix_fst, removePrefix_fst]
  constructor
  · intro h
    have hp := isPrefix_of_append h
    exact ⟨hp, by rwa [← append_isPrefix hp]⟩
  · rintro ⟨hp, hq⟩
    rwa [append_isPrefix hp]

theorem removePrefix_append (h : (n.removePrefix (p ++ q)).1 = true) :
    n.removePrefix (p ++ q) = (n.removePrefix p).2.removePrefix q := by
  rw [removePrefix_fst] at h
  have hp := isPrefix_of_append h
  have hq := append_isPrefix hp q
  rw [h, removePrefix_of_isPrefix hp] at hq
  rw [removePrefix_of_isPrefix h, removePrefix_of_isPrefix hp, removePrefix_of_isPrefix hq.symm,
    List.drop_drop]
  exact congrArg (fun k => (true, mk (n.components.drop k))) List.length_append

/-- Patterns are partially ordered by being a prefix. A pattern that is one is taken off the front,
and what is left are the components behind as many as it has; a pattern that is none changes
nothing. Taking off a pattern in two pieces is taking it off as a whole. -/
theorem prefix_algebra :
    IsPartialOrder Name (fun p n => p.isPrefix n = true) ∧
      ∀ n p q : Name,
        ((n.removePrefix (p ++ q)).1 = true ↔
          (n.removePrefix p).1 = true ∧ ((n.removePrefix p).2.removePrefix q).1 = true) ∧
        ((n.removePrefix (p ++ q)).1 = true →
          (n.removePrefix (p ++ q)).2 = ((n.removePrefix p).2.removePrefix q).2) ∧
        (n.removePrefix p).1 = p.isPrefix n ∧
        ((n.removePrefix p).1 = false → (n.removePrefix p).2 = n) ∧
        ((n.removePrefix p).1 = true →
          p.length ≤ n.length ∧
            (n.removePrefix p).2.components = n.components.drop p.length) := by
  refine ⟨?_, fun n p q => ⟨removePrefix_append_iff n p q,
    fun h => congrArg Prod.snd (removePrefix_append h), removePrefix_fst n p, ?_, ?_⟩⟩
  · exact
      { refl := refines_refl
        trans := fun _ _ _ h h' => covers_trans h h'
        antisymm := fun _ _ => isPrefix_antisymm }
  · intro h
    rw [removePrefix_fst] at h
    rw [removePrefix_of_not_isPrefix h]
  · intro h
    rw [removePrefix_fst] at h
    rw [removePrefix_of_isPrefix h]
    exact ⟨length_le_of_isPrefix h, rfl⟩

/-- From `a.*.b.*` the pattern `a.*.*` is taken off at once, or as `a.*` and then `*`. The pattern
`*.a.*` is not taken off, for the wildcards of the name itself stand in for nothing. -/
theorem exists_prefix_algebra :
    ∃ n p q : Name,
      (n.removePrefix p).1 = true ∧ ((n.removePrefix p).2.removePrefix q).1 = true ∧
        (n.removePrefix (p ++ q)).2 = ((n.removePrefix p).2.removePrefix q).2 ∧
        (n.removePrefix p).2.components = n.components.drop p.length ∧
        (n.removePrefix (q ++ p)).1 = false ∧ (n.removePrefix (q ++ p)).2 = n ∧
        n.isPrefix n = true := by
  let n : Name := ⟨["a", "*", "b", "*"]⟩
  let p : Name := ⟨["a", "*"]⟩
  let q : Name := ⟨["*"]⟩
  obtain ⟨horder, hremove⟩ := prefix_algebra
  obtain ⟨hiff, heq, -, -, hrest⟩ := hremove n p q
  obtain ⟨-, -, -, hnone, -⟩ := hremove n (q ++ p) q
  have hwhole : (n.removePrefix (p ++ q)).1 = true := by decide
  obtain ⟨hp, hq⟩ := hiff.1 hwhole
  exact ⟨n, p, q, hp, hq, heq hwhole, (hrest hp).2, by decide, hnone (by decide), horder.refl n⟩

end Highlight.Name
