import Highlight.Proofs.Lexeme.Layout

/-!
# The nodes of a selector

Two things are asked of a selector that was not read from a text: how deeply groups and filters nest
in it, and which names occur in it. Siblings do not add to the nesting, so it is a maximum over the
ways from the root to a path. The names are listed in the order in which they are written.
-/

namespace Highlight

mutual

/-- The largest number of groups and filters on a way from the node down to a path. -/
def Term.nesting : Term → Nat
  | .filter _ term => term.nesting + 1
  | .group selector => selector.nesting + 1
  | .path _ => 0

def Expression.nesting : Expression → Nat
  | ⟨_, term⟩ => term.nesting

def Composition.nesting : Composition → Nat
  | ⟨_, operand⟩ => operand.nesting

def Composition.chainNesting : List Composition → Nat
  | [] => 0
  | c :: cs => max c.nesting (Composition.chainNesting cs)

def Composite.nesting : Composite → Nat
  | ⟨base, compositions⟩ => max base.nesting (Composition.chainNesting compositions)

def Composite.furtherNesting : List Composite → Nat
  | [] => 0
  | c :: cs => max c.nesting (Composite.furtherNesting cs)

def Selector.nesting : Selector → Nat
  | ⟨composites⟩ => Composite.furtherNesting composites

end

def Path.names (p : Path) : List Name :=
  p.root :: p.descendants.map Descendant.name

mutual

/-- The names of all paths below the node. -/
def Term.names : Term → List Name
  | .filter _ term => term.names
  | .group selector => selector.names
  | .path path => path.names

def Expression.names : Expression → List Name
  | ⟨_, term⟩ => term.names

def Composition.names : Composition → List Name
  | ⟨_, operand⟩ => operand.names

def Composition.chainNames : List Composition → List Name
  | [] => []
  | c :: cs => c.names ++ Composition.chainNames cs

def Composite.names : Composite → List Name
  | ⟨base, compositions⟩ => base.names ++ Composition.chainNames compositions

def Composite.furtherNames : List Composite → List Name
  | [] => []
  | c :: cs => c.names ++ Composite.furtherNames cs

def Selector.names : Selector → List Name
  | ⟨composites⟩ => Composite.furtherNames composites

end

/-- A selector all of whose names could be read from a text. -/
def Selector.WellFormed (s : Selector) : Prop :=
  ∀ n ∈ s.names, n.WellFormed

instance (s : Selector) : Decidable s.WellFormed :=
  inferInstanceAs (Decidable (∀ n ∈ s.names, n.WellFormed))

namespace Token

/-- The marks that selectors are written with. -/
def marks : List Char := ['(', ')', '^', '$', ',', '>', '|', '&', '-']

theorem operator_mem_marks (o : Operator) : o.char ∈ marks := by
  cases o <;> decide

theorem written_mark {c : Char} (h : c ∈ marks) : (Token.mark c).Written := by
  have hmarks : marks.all (fun c => !Text.isBlank c && !isComponentStart c && c != ':') = true :=
    rfl
  have hc := List.all_eq_true.1 hmarks c h
  simpa [Written, and_assoc] using hc

theorem forall_written_mark_cons {c : Char} (h : c ∈ marks) (ts : List Token) :
    (∀ t ∈ .mark c :: ts, t.Written) ↔ ∀ t ∈ ts, t.Written := by
  rw [List.forall_mem_cons, and_iff_right (written_mark h)]

end Token

open Token (written_mark operator_mem_marks forall_written_mark_cons)

theorem Descendant.written_tokens_iff (d : Descendant) :
    (∀ t ∈ d.tokens, t.Written) ↔ d.name.WellFormed := by
  rcases d with ⟨relation, name⟩
  have hname : (∀ t ∈ [Token.name name], t.Written) ↔ name.WellFormed := List.forall_mem_singleton
  cases relation with
  | direct =>
      change (∀ t ∈ [Token.mark '>', Token.name name], t.Written) ↔ _
      rw [forall_written_mark_cons (by decide), hname]
  | transitive => exact hname

theorem Path.written_tokens_iff (p : Path) :
    (∀ t ∈ p.tokens, t.Written) ↔ ∀ n ∈ p.names, n.WellFormed := by
  have hbegin : ∀ t ∈ if p.beginAnchor then [Token.mark '^'] else [], t.Written := by
    split
    · exact List.forall_mem_singleton.2 (written_mark (by decide))
    · exact List.forall_mem_nil _
  have hend : ∀ t ∈ if p.endAnchor then [Token.mark '$'] else [], t.Written := by
    split
    · exact List.forall_mem_singleton.2 (written_mark (by decide))
    · exact List.forall_mem_nil _
  have hdescendants : (∀ t ∈ p.descendants.flatMap Descendant.tokens, t.Written) ↔
      ∀ n ∈ p.descendants.map Descendant.name, n.WellFormed := by
    rw [List.forall_mem_flatMap, List.forall_mem_map]
    exact forall₂_congr fun d _ => d.written_tokens_iff
  rw [tokens, List.forall_mem_append, and_iff_left hend, List.forall_mem_append,
    and_iff_right hbegin, List.forall_mem_cons, hdescendants, names, List.forall_mem_cons]
  exact Iff.rfl

mutual

theorem Term.written_tokens_iff : ∀ t : Term,
    (∀ u ∈ t.tokens, u.Written) ↔ ∀ n ∈ t.names, n.WellFormed
  | .filter side term => by
      rw [Term.tokens, List.forall_mem_cons, Term.names, Term.written_tokens_iff term]
      exact and_iff_right trivial
  | .group selector => by
      have hclose : ∀ t ∈ [Token.mark ')'], t.Written :=
        List.forall_mem_singleton.2 (written_mark (by decide))
      rw [Term.tokens, List.cons_append, forall_written_mark_cons (by decide),
        List.forall_mem_append, and_iff_left hclose, Term.names,
        Selector.written_tokens_iff selector]
      exact Iff.rfl
  | .path path => by
      rw [Term.tokens, Term.names]
      exact path.written_tokens_iff

theorem Expression.written_tokens_iff : ∀ e : Expression,
    (∀ t ∈ e.tokens, t.Written) ↔ ∀ n ∈ e.names, n.WellFormed
  | ⟨complement, term⟩ => by
      rw [Expression.tokens, Expression.names, ← Term.written_tokens_iff term]
      cases complement with
      | false => exact Iff.rfl
      | true => exact forall_written_mark_cons (by decide) _

theorem Composition.written_chainTokens_iff : ∀ cs : List Composition,
    (∀ t ∈ Composition.chainTokens cs, t.Written) ↔
      ∀ n ∈ Composition.chainNames cs, n.WellFormed
  | [] => by simp [Composition.chainTokens, Composition.chainNames]
  | ⟨operator, operand⟩ :: cs => by
      rw [Composition.chainTokens, Composition.tokens, List.cons_append,
        forall_written_mark_cons (operator_mem_marks operator), List.forall_mem_append,
        Expression.written_tokens_iff operand, Composition.written_chainTokens_iff cs,
        Composition.chainNames, Composition.names, List.forall_mem_append]

theorem Composite.written_tokens_iff : ∀ c : Composite,
    (∀ t ∈ c.tokens, t.Written) ↔ ∀ n ∈ c.names, n.WellFormed
  | ⟨base, compositions⟩ => by
      rw [Composite.tokens, List.forall_mem_append, Expression.written_tokens_iff base,
        Composition.written_chainTokens_iff compositions, Composite.names, List.forall_mem_append]

theorem Composite.written_furtherTokens_iff : ∀ cs : List Composite,
    (∀ t ∈ Composite.furtherTokens cs, t.Written) ↔
      ∀ n ∈ Composite.furtherNames cs, n.WellFormed
  | [] => by simp [Composite.furtherTokens, Composite.furtherNames]
  | c :: cs => by
      rw [Composite.furtherTokens, List.cons_append,
        forall_written_mark_cons (by decide), List.forall_mem_append,
        Composite.written_tokens_iff c, Composite.written_furtherTokens_iff cs,
        Composite.furtherNames, List.forall_mem_append]

theorem Selector.written_tokens_iff : ∀ s : Selector,
    (∀ t ∈ s.tokens, t.Written) ↔ s.WellFormed
  | ⟨[]⟩ => by simp [Selector.tokens, Selector.WellFormed, Selector.names, Composite.furtherNames]
  | ⟨c :: cs⟩ => by
      rw [Selector.tokens, List.forall_mem_append, Composite.written_tokens_iff c,
        Composite.written_furtherTokens_iff cs, Selector.WellFormed, Selector.names,
        Composite.furtherNames, List.forall_mem_append]

end

/-- The tokens of a well-formed selector are scanned again from its text. -/
theorem Selector.scan_text {s : Selector} (h : s.WellFormed) :
    Token.scan s.text.toList = s.tokens := by
  rw [Selector.text, Token.text, String.toList_ofList]
  exact Token.scan_layout (s.written_tokens_iff.2 h)

end Highlight
