import Highlight.Proofs.Selector.RoundTrip
import Highlight.Selector.Matching

/-!
# Selectors put together as texts

A text that is read as a selector may become a part of a larger one: behind a comma, or inside the
parentheses of a group. It is scanned there as it is scanned alone, since what comes next to it is a
mark that no name goes on with, so the tokens of the larger text are those of the larger selector.
Only the level of nesting counts from further out.

What the larger text selects is then told by what its parts select.
-/

namespace Highlight

open Token (scan scan_append_mark scan_cons_mark)

/-- What an operator makes of what its two sides say. -/
def Operator.Joins (o : Operator) (p q : Prop) : Prop :=
  match o with
  | .union => p ∨ q
  | .intersection => p ∧ q
  | .difference => p ∧ ¬ q

theorem Operator.apply_eq_true_iff (o : Operator) (a b : Bool) :
    o.apply a b = true ↔ o.Joins (a = true) (b = true) := by
  cases o with
  | union => exact Bool.or_eq_true_iff
  | intersection => exact Bool.and_eq_true_iff
  | difference => simp [apply, Joins]

theorem Composite.furtherTokens_append (cs ds : List Composite) :
    Composite.furtherTokens (cs ++ ds) =
      Composite.furtherTokens cs ++ Composite.furtherTokens ds := by
  induction cs with
  | nil => simp [Composite.furtherTokens]
  | cons c cs ih => simp [Composite.furtherTokens, ih]

theorem Composite.furtherNesting_append (cs ds : List Composite) :
    Composite.furtherNesting (cs ++ ds) =
      max (Composite.furtherNesting cs) (Composite.furtherNesting ds) := by
  induction cs with
  | nil => simp [Composite.furtherNesting]
  | cons c cs ih =>
      rw [List.cons_append, Composite.furtherNesting, ih, Composite.furtherNesting, Nat.max_assoc]

theorem Composite.someSelects_append (cs ds : List Composite) (context : Context) :
    Composite.someSelects (cs ++ ds) context =
      (Composite.someSelects cs context || Composite.someSelects ds context) := by
  induction cs with
  | nil => simp [Composite.someSelects]
  | cons c cs ih =>
      rw [List.cons_append, Composite.someSelects, ih, Composite.someSelects, Bool.or_assoc]

theorem Composition.chainNesting_append (cs ds : List Composition) :
    Composition.chainNesting (cs ++ ds) =
      max (Composition.chainNesting cs) (Composition.chainNesting ds) := by
  induction cs with
  | nil => simp [Composition.chainNesting]
  | cons c cs ih =>
      rw [List.cons_append, Composition.chainNesting, ih, Composition.chainNesting, Nat.max_assoc]

/-- A chain is applied from left to right, so it may be cut anywhere. -/
theorem Composition.selectsFrom_append (soFar : Bool) (cs ds : List Composition)
    (context : Context) :
    Composition.selectsFrom soFar (cs ++ ds) context =
      Composition.selectsFrom (Composition.selectsFrom soFar cs context) ds context := by
  induction cs generalizing soFar with
  | nil => rw [List.nil_append, Composition.selectsFrom]
  | cons c cs ih =>
      rcases c with ⟨operator, operand⟩
      rw [List.cons_append, Composition.selectsFrom, ih, Composition.selectsFrom]

namespace Composite

theorem nesting_ofBase (e : Expression) : (ofBase e).nesting = e.nesting := by
  rw [ofBase, nesting, Composition.chainNesting, Nat.max_zero]

theorem selects_ofBase (e : Expression) (context : Context) :
    (ofBase e).selects context = e.selects context := by
  rw [ofBase, selects, Composition.selectsFrom]

theorem nesting_append (c : Composite) (o : Operator) (e : Expression) :
    (c.append o e).nesting = max c.nesting e.nesting := by
  rcases c with ⟨base, compositions⟩
  rw [append, nesting, Composition.chainNesting_append, nesting, Nat.max_assoc]
  simp [Composition.chainNesting, Composition.nesting]

theorem selects_append (c : Composite) (o : Operator) (e : Expression) (context : Context) :
    (c.append o e).selects context = o.apply (c.selects context) (e.selects context) := by
  rcases c with ⟨base, compositions⟩
  rw [append, selects, Composition.selectsFrom_append, selects, Composition.selectsFrom,
    Composition.selectsFrom]

end Composite

theorem Expression.selects_group (s : Selector) (context : Context) :
    (Expression.mk false (.group s)).selects context = s.selects context := by
  rw [Expression.selects, Term.selects, Bool.bne_false]

namespace Selector

/-- The composites of one selector and, behind them, those of another. -/
def append (s₁ s₂ : Selector) : Selector := ⟨s₁.composites ++ s₂.composites⟩

theorem tokens_cons (c : Composite) (cs : List Composite) :
    (Selector.mk (c :: cs)).tokens = c.tokens ++ Composite.furtherTokens cs := by
  rw [Selector.tokens]

theorem tokens_append {s₁ s₂ : Selector} (h₁ : s₁.isEmpty = false) (h₂ : s₂.isEmpty = false) :
    (s₁.append s₂).tokens = s₁.tokens ++ .mark ',' :: s₂.tokens := by
  rcases s₁ with ⟨_ | ⟨c, cs⟩⟩
  · cases h₁
  rcases s₂ with ⟨_ | ⟨d, ds⟩⟩
  · cases h₂
  rw [append, List.cons_append, tokens_cons, Composite.furtherTokens_append,
    Composite.furtherTokens_cons, tokens_cons c cs, List.append_assoc]

theorem nesting_append (s₁ s₂ : Selector) :
    (s₁.append s₂).nesting = max s₁.nesting s₂.nesting := by
  rcases s₁ with ⟨cs⟩
  rcases s₂ with ⟨ds⟩
  rw [append, Selector.nesting, Composite.furtherNesting_append, Selector.nesting,
    Selector.nesting]

/-- Between selectors that are not empty, a comma stands for a choice. The empty selector already
selects everything. -/
theorem selects_append {s₁ s₂ : Selector} (h₁ : s₁.isEmpty = false) (h₂ : s₂.isEmpty = false)
    (context : Context) :
    (s₁.append s₂).selects context = (s₁.selects context || s₂.selects context) := by
  rcases s₁ with ⟨cs⟩
  rcases s₂ with ⟨ds⟩
  have hcs : cs.isEmpty = false := h₁
  have hds : ds.isEmpty = false := h₂
  have hboth : (cs ++ ds).isEmpty = false := by
    rw [List.isEmpty_eq_false_iff] at hcs ⊢
    exact List.append_ne_nil_of_left_ne_nil hcs ds
  rw [append, Selector.selects, Composite.someSelects_append, Selector.selects, Selector.selects,
    hcs, hds, hboth, Bool.false_or, Bool.false_or, Bool.false_or]

/-- The selector of a single composite. -/
def ofComposite (c : Composite) : Selector := ⟨[c]⟩

theorem tokens_ofComposite (c : Composite) : (ofComposite c).tokens = c.tokens := by
  simp [ofComposite, Selector.tokens, Composite.furtherTokens]

theorem nesting_ofComposite (c : Composite) : (ofComposite c).nesting = c.nesting := by
  simp [ofComposite, Selector.nesting, Composite.furtherNesting]

theorem selects_ofComposite (c : Composite) (context : Context) :
    (ofComposite c).selects context = c.selects context := by
  simp [ofComposite, Selector.selects, Composite.someSelects]

/-- The text is read, and what it is read as selects just the contexts that `p` holds of. -/
def Denotes (text : String) (p : Context → Prop) : Prop :=
  ∃ s, parse text = .ok s ∧ ∀ context, s.selects context = true ↔ p context

theorem denotes_of_scan_composite {text : String} {c : Composite}
    (hscan : scan text.toList = c.tokens) (hnesting : c.nesting ≤ maxNesting)
    {p : Context → Prop} (hp : ∀ context, c.selects context = true ↔ p context) :
    Denotes text p := by
  refine ⟨ofComposite c, parse_of_scan ?_ ?_, ?_⟩
  · rw [tokens_ofComposite, hscan]
  · rwa [nesting_ofComposite]
  · intro context
    rw [selects_ofComposite, hp]

theorem denotes_of_scan_expression {text : String} {e : Expression}
    (hscan : scan text.toList = e.tokens) (hnesting : e.nesting ≤ maxNesting)
    {p : Context → Prop} (hp : ∀ context, e.selects context = true ↔ p context) :
    Denotes text p := by
  refine denotes_of_scan_composite (c := .ofBase e) ?_ ?_ ?_
  · rw [Composite.tokens_ofBase, hscan]
  · rwa [Composite.nesting_ofBase]
  · intro context
    rw [Composite.selects_ofBase, hp]

/-- In parentheses, a text that is read is scanned as the group of what it is read as. -/
theorem scan_group {text : String} {s : Selector} (h : parse text = .ok s) (ds : List Char) :
    scan ('(' :: (text.toList ++ ')' :: ds)) = (Term.group s).tokens ++ scan ds := by
  have hbroken := broken_not_mem_scan_of_parse h
  rw [scan_cons_mark rfl rfl, scan_append_mark rfl rfl (by decide) ds hbroken, scan_of_parse h,
    Term.tokens, List.append_assoc, List.singleton_append]
  rfl

variable {t t₁ t₂ : String} {s s₁ s₂ : Selector}

theorem parse_comma (h₁ : parse t₁ = .ok s₁) (h₂ : parse t₂ = .ok s₂)
    (hne₁ : s₁.isEmpty = false) (hne₂ : s₂.isEmpty = false) :
    parse (t₁ ++ "," ++ t₂) = .ok (s₁.append s₂) := by
  apply parse_of_scan
  · have hchars : (t₁ ++ "," ++ t₂).toList = t₁.toList ++ ',' :: t₂.toList := by simp
    rw [hchars, scan_append_mark rfl rfl (by decide) _ (broken_not_mem_scan_of_parse h₁),
      scan_of_parse h₁, scan_of_parse h₂, tokens_append hne₁ hne₂]
  · rw [nesting_append]
    exact Nat.max_le.2 ⟨nesting_le_of_parse h₁, nesting_le_of_parse h₂⟩

theorem scan_parenthesized (h : parse t = .ok s) :
    scan ("(" ++ t ++ ")").toList = (Term.group s).tokens := by
  have hchars : ("(" ++ t ++ ")").toList = '(' :: (t.toList ++ [')']) := by simp
  rw [hchars, scan_group h, Token.scan_nil, List.append_nil]

theorem denotes_group (h : parse t = .ok s) (hnesting : s.nesting < maxNesting) :
    Denotes ("(" ++ t ++ ")") fun context => s.selects context = true := by
  refine denotes_of_scan_expression (e := ⟨false, .group s⟩) ?_ hnesting ?_
  · exact scan_parenthesized h
  · intro context
    rw [Expression.selects_group]

theorem denotes_complement (h : parse t = .ok s) (hnesting : s.nesting < maxNesting) :
    Denotes ("-(" ++ t ++ ")") fun context => ¬ s.selects context = true := by
  refine denotes_of_scan_expression (e := ⟨true, .group s⟩) ?_ hnesting ?_
  · have hchars : ("-(" ++ t ++ ")").toList = '-' :: ("(" ++ t ++ ")").toList := by simp
    rw [hchars, scan_cons_mark rfl rfl, scan_parenthesized h]
    rfl
  · intro context
    simp [Expression.selects, Term.selects]

theorem denotes_operator (h₁ : parse t₁ = .ok s₁) (h₂ : parse t₂ = .ok s₂)
    (hnesting₁ : s₁.nesting < maxNesting) (hnesting₂ : s₂.nesting < maxNesting) (o : Operator) :
    Denotes ("(" ++ t₁ ++ ")" ++ String.singleton o.char ++ "(" ++ t₂ ++ ")") fun context =>
      o.Joins (s₁.selects context = true) (s₂.selects context = true) := by
  refine denotes_of_scan_composite
    (c := (Composite.ofBase ⟨false, .group s₁⟩).append o ⟨false, .group s₂⟩) ?_ ?_ ?_
  · have hchars : ("(" ++ t₁ ++ ")" ++ String.singleton o.char ++ "(" ++ t₂ ++ ")").toList =
        '(' :: (t₁.toList ++ ')' :: o.char :: ("(" ++ t₂ ++ ")").toList) := by simp
    obtain ⟨hblank, hstart, -⟩ := Token.written_mark (Token.operator_mem_marks o)
    rw [hchars, scan_group h₁, scan_cons_mark hblank hstart, scan_parenthesized h₂,
      Composite.tokens_append, Composite.tokens_ofBase]
    rfl
  · rw [Composite.nesting_append, Composite.nesting_ofBase]
    exact Nat.max_le.2 ⟨hnesting₁, hnesting₂⟩
  · intro context
    rw [Composite.selects_append, Composite.selects_ofBase, o.apply_eq_true_iff,
      Expression.selects_group, Expression.selects_group]

/-- What nests as deeply as it may is too deep in parentheses. -/
theorem exists_parse_group_eq_tooDeep (h : parse t = .ok s) (hnesting : s.nesting = maxNesting) :
    ∃ position, parse ("(" ++ t ++ ")") = .error ⟨position, .tooDeep⟩ := by
  refine exists_parse_eq_tooDeep_of_scan (s := ofComposite (.ofBase ⟨false, .group s⟩)) ?_ ?_
  · rw [tokens_ofComposite, Composite.tokens_ofBase]
    exact scan_parenthesized h
  · rw [nesting_ofComposite, Composite.nesting_ofBase, ← hnesting]
    exact Nat.lt_succ_self s.nesting

theorem denotes_filter (h : parse t = .ok s) (hnesting : s.nesting + 1 < maxNesting)
    (side : Side) :
    Denotes (String.singleton side.letter ++ ":(" ++ t ++ ")") fun context =>
      (Term.filter side (.group s)).selects context = true := by
  refine denotes_of_scan_expression (e := ⟨false, .filter side (.group s)⟩) ?_ hnesting ?_
  · have hchars : (String.singleton side.letter ++ ":(" ++ t ++ ")").toList =
        side.letter :: ':' :: ("(" ++ t ++ ")").toList := by simp
    rw [hchars, Token.scan_of_leads (.side (.refl _)), scan_parenthesized h]
    rfl
  · intro context
    simp [Expression.selects]

/-- Putting texts together puts together what they select: with a comma, in parentheses,
complemented, joined by an operator and behind the side of a filter, as long as nothing nests too
deeply. -/
theorem denotes_combined (h₁ : parse t₁ = .ok s₁) (h₂ : parse t₂ = .ok s₂) :
    (s₁.isEmpty = false → s₂.isEmpty = false →
      parse (t₁ ++ "," ++ t₂) = .ok ⟨s₁.composites ++ s₂.composites⟩ ∧
        Denotes (t₁ ++ "," ++ t₂) fun context =>
          s₁.selects context = true ∨ s₂.selects context = true) ∧
    (s₁.nesting < maxNesting →
      Denotes ("(" ++ t₁ ++ ")") (fun context => s₁.selects context = true) ∧
        Denotes ("-(" ++ t₁ ++ ")") (fun context => ¬ s₁.selects context = true) ∧
          (s₂.nesting < maxNesting → ∀ o : Operator,
            Denotes ("(" ++ t₁ ++ ")" ++ String.singleton o.char ++ "(" ++ t₂ ++ ")")
              fun context => o.Joins (s₁.selects context = true) (s₂.selects context = true))) ∧
    (s₁.nesting = maxNesting →
      ∃ position, parse ("(" ++ t₁ ++ ")") = .error ⟨position, .tooDeep⟩) ∧
    (s₁.nesting + 1 < maxNesting →
      Denotes ("L:(" ++ t₁ ++ ")")
        (fun context => s₁.selects ⟨none, context.left.getD context.main⟩ = true) ∧
      Denotes ("R:(" ++ t₁ ++ ")") fun context => s₁.selects ⟨none, context.main⟩ = true) := by
  refine ⟨?_, ?_, exists_parse_group_eq_tooDeep h₁, ?_⟩
  · intro hne₁ hne₂
    have hparse := parse_comma h₁ h₂ hne₁ hne₂
    refine ⟨hparse, s₁.append s₂, hparse, ?_⟩
    intro context
    rw [selects_append hne₁ hne₂, Bool.or_eq_true]
  · intro hnesting₁
    exact ⟨denotes_group h₁ hnesting₁, denotes_complement h₁ hnesting₁, fun hnesting₂ =>
      denotes_operator h₁ h₂ hnesting₁ hnesting₂⟩
  · intro hnesting
    exact ⟨denotes_filter h₁ hnesting .left, denotes_filter h₁ hnesting .right⟩

theorem exists_denotes_combined :
    (∃ s₁ s₂, parse "L, a-\t" = .ok s₁ ∧ parse "-( )\n" = .ok s₂ ∧
      parse ("L, a-\t" ++ "," ++ "-( )\n") = .ok ⟨s₁.composites ++ s₂.composites⟩ ∧
      Denotes ("-(" ++ "L, a-\t" ++ ")") (fun context => ¬ s₁.selects context = true) ∧
      Denotes ("(" ++ "L, a-\t" ++ ")" ++ String.singleton '-' ++ "(" ++ "-( )\n" ++ ")")
        (fun context => s₁.selects context = true ∧ ¬ s₂.selects context = true) ∧
      Denotes ("L:(" ++ "L, a-\t" ++ ")")
        fun context => s₁.selects ⟨none, context.left.getD context.main⟩ = true) ∧
    ∃ s, parse s.text = .ok s ∧ s.nesting = maxNesting ∧
      ∃ position, parse ("(" ++ s.text ++ ")") = .error ⟨position, .tooDeep⟩ := by
  constructor
  · let s₁ : Selector := ⟨[.ofBase ⟨false, .path (.ofRoot ⟨["L"]⟩)⟩,
      .ofBase ⟨false, .path (.ofRoot ⟨["a-"]⟩)⟩]⟩
    let s₂ : Selector := ⟨[.ofBase ⟨true, .group .universal⟩]⟩
    have h₁ : parse "L, a-\t" = .ok s₁ := by rfl
    have h₂ : parse "-( )\n" = .ok s₂ := by rfl
    obtain ⟨hcomma, hgroup, -, hfilter⟩ := denotes_combined h₁ h₂
    have hlt : s₁.nesting < maxNesting := by decide
    obtain ⟨-, hcomplement, hoperator⟩ := hgroup hlt
    exact ⟨s₁, s₂, h₁, h₂, (hcomma rfl rfl).1, hcomplement, hoperator (by decide) .difference,
      (hfilter (by decide)).1⟩
  · let sides := List.replicate maxNesting Side.right
    let s := ofComposite (.ofBase ⟨false, sides.foldr Term.filter (.path (.ofRoot ⟨["a"]⟩))⟩)
    have hs : s.WellFormed := by decide +kernel
    have hnesting : s.nesting = maxNesting := by decide +kernel
    have h : parse s.text = .ok s := hs.parse_text hnesting.le
    exact ⟨s, h, hnesting, (denotes_combined h h).2.2.1 hnesting⟩

end Selector

end Highlight
