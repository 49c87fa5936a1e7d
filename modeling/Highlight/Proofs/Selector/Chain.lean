import Highlight.Selector.Matching

/-!
# What a chain comes to

The operators of a chain are applied from left to right, none of them before another. A union adds
to what the chain selects so far, an intersection or a difference only takes away from it. So a
context is selected just if some expression adds it, the base or the operand of a union, and no
operator behind takes it away again. What is selected before that makes no difference, and neither
do further unions.
-/

namespace Highlight

namespace Composition

/-- Whether what the chain selects so far stays selected. -/
def Keeps (c : Composition) (context : Context) : Prop :=
  (c.operator = .intersection → c.operand.selects context = true) ∧
    (c.operator = .difference → c.operand.selects context = false)

/-- Whether the context is selected whatever the chain selects so far. -/
def Adds (c : Composition) (context : Context) : Prop :=
  c.operator = .union ∧ c.operand.selects context = true

theorem apply_eq_true_iff (c : Composition) (soFar : Bool) (context : Context) :
    c.operator.apply soFar (c.operand.selects context) = true ↔
      (soFar = true ∧ c.Keeps context) ∨ c.Adds context := by
  rcases c with ⟨_ | _ | _, operand⟩
  · simp [Operator.apply, Keeps, Adds]
  · simp [Operator.apply, Keeps, Adds]
  · simp [Operator.apply, Keeps, Adds]

theorem selectsFrom_cons (soFar : Bool) (c : Composition) (cs : List Composition)
    (context : Context) :
    selectsFrom soFar (c :: cs) context =
      selectsFrom (c.operator.apply soFar (c.operand.selects context)) cs context := by
  rcases c with ⟨operator, operand⟩
  rw [selectsFrom]

/-- Either all compositions keep what was selected before them, or all that follow one that adds
the context do. -/
theorem selectsFrom_eq_true_iff (soFar : Bool) (cs : List Composition) (context : Context) :
    selectsFrom soFar cs context = true ↔
      (soFar = true ∧ ∀ c ∈ cs, c.Keeps context) ∨
        ∃ i c, cs[i]? = some c ∧ c.Adds context ∧ ∀ d ∈ cs.drop (i + 1), d.Keeps context := by
  induction cs generalizing soFar with
  | nil => simp [selectsFrom]
  | cons c cs ih =>
      rw [selectsFrom_cons, ih, apply_eq_true_iff, List.forall_mem_cons]
      constructor
      · rintro (⟨⟨hsoFar, hc⟩ | hadds, hcs⟩ | ⟨i, d, hd, hadds, hbehind⟩)
        · exact .inl ⟨hsoFar, hc, hcs⟩
        · exact .inr ⟨0, c, rfl, hadds, hcs⟩
        · exact .inr ⟨i + 1, d, hd, hadds, hbehind⟩
      · rintro (⟨hsoFar, hc, hcs⟩ | ⟨_ | i, d, hd, hadds, hbehind⟩)
        · exact .inl ⟨.inl ⟨hsoFar, hc⟩, hcs⟩
        · obtain rfl := Option.some.inj hd
          exact .inl ⟨.inr hadds, hbehind⟩
        · exact .inr ⟨i, d, hd, hadds, hbehind⟩

end Composition

namespace Composite

/-- The expressions of a chain with the operators in front of them. Nothing is selected in front of
the base, so it counts as joined by a union. -/
def links (c : Composite) : List Composition := ⟨.union, c.base⟩ :: c.compositions

theorem selectsFrom_links (c : Composite) (context : Context) :
    Composition.selectsFrom false c.links context = c.selects context := by
  rcases c with ⟨base, compositions⟩
  rw [links, Composition.selectsFrom_cons, selects]
  rfl

/-- A chain selects a context just if one of its expressions does, the base or the operand of a
union, and behind it the operands of all intersections do and those of all differences do not. -/
theorem selects_iff_exists_kept (c : Composite) (context : Context) :
    c.selects context = true ↔
      ∃ i l, c.links[i]? = some l ∧ (i = 0 ∨ l.operator = .union) ∧
        l.operand.selects context = true ∧
          ∀ k ∈ c.links.drop (i + 1),
            (k.operator = .intersection → k.operand.selects context = true) ∧
              (k.operator = .difference → k.operand.selects context = false) := by
  rw [← selectsFrom_links, Composition.selectsFrom_eq_true_iff]
  constructor
  · rintro (⟨⟨⟩, -⟩ | ⟨i, l, hl, ⟨hunion, hselects⟩, hbehind⟩)
    exact ⟨i, l, hl, .inr hunion, hselects, hbehind⟩
  · rintro ⟨i, l, hl, rfl | hunion, hselects, hbehind⟩
    · obtain rfl := Option.some.inj hl
      exact .inr ⟨0, _, rfl, ⟨rfl, hselects⟩, hbehind⟩
    · exact .inr ⟨i, l, hl, ⟨hunion, hselects⟩, hbehind⟩

end Composite

end Highlight
