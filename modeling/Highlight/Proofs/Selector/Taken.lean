import Highlight.Proofs.Selector.Reached

/-!
# The tokens a reading has taken

Nothing is lost in a reading: what it has made of its lexemes still has all their tokens, in order.
A step therefore adds the token it takes and nothing else, and the selector that a reading finishes
with is written with exactly the tokens it was read from.
-/

namespace Highlight

theorem Composition.chainTokens_append_singleton (cs : List Composition) (c : Composition) :
    Composition.chainTokens (cs ++ [c]) = Composition.chainTokens cs ++ c.tokens := by
  induction cs with
  | nil => simp [Composition.chainTokens]
  | cons d cs ih =>
      rw [List.cons_append, Composition.chainTokens, ih, Composition.chainTokens,
        List.append_assoc]

theorem Composite.tokens_ofBase (e : Expression) : (Composite.ofBase e).tokens = e.tokens := by
  simp [Composite.ofBase, Composite.tokens, Composition.chainTokens]

theorem Composite.tokens_append (c : Composite) (o : Operator) (e : Expression) :
    (c.append o e).tokens = c.tokens ++ .mark o.char :: e.tokens := by
  rcases c with ⟨base, compositions⟩
  rw [Composite.append, Composite.tokens, Composition.chainTokens_append_singleton,
    Composition.tokens, Composite.tokens, List.append_assoc]

theorem Composite.furtherTokens_cons (c : Composite) (cs : List Composite) :
    Composite.furtherTokens (c :: cs) = .mark ',' :: (Selector.mk (c :: cs)).tokens := by
  rw [Composite.furtherTokens, Selector.tokens, List.cons_append]

/-- Written from its end, a selector has a comma behind every composite but the last. -/
theorem Selector.tokens_append_singleton (cs : List Composite) (c : Composite) :
    (Selector.mk (cs ++ [c])).tokens =
      (cs.flatMap fun d => d.tokens ++ [.mark ',']) ++ c.tokens := by
  induction cs with
  | nil => simp [Selector.tokens, Composite.furtherTokens]
  | cons d cs ih =>
      obtain ⟨e, es, hes⟩ := List.exists_cons_of_ne_nil
        (List.append_ne_nil_of_right_ne_nil cs (List.cons_ne_nil c []))
      rw [List.cons_append, Selector.tokens, hes, Composite.furtherTokens_cons, ← hes, ih]
      simp

theorem Path.tokens_append {p : Path} (hp : p.endAnchor = false) (relation : Relation)
    (n : Name) :
    (p.append relation n).tokens = p.tokens ++ relation.tokens ++ [.name n] := by
  simp [tokens, append, hp, Descendant.tokens]

theorem Path.tokens_anchorEnd {p : Path} (hp : p.endAnchor = false) :
    p.anchorEnd.tokens = p.tokens ++ [.mark '$'] := by
  rw [tokens, tokens, hp, if_neg Bool.false_ne_true, List.append_nil]
  rfl

/-- The tokens in front of the next term. -/
def Frame.tokens (f : Frame) : List Token :=
  (f.composites.flatMap fun c => c.tokens ++ [.mark ',']) ++
    (match f.chain with
      | none => []
      | some (c, o) => c.tokens ++ [.mark o.char]) ++
    (if f.complement then [.mark '-'] else []) ++ f.sides.map Token.side

theorem Term.tokens_filters (sides : List Side) (t : Term) :
    (sides.foldr Term.filter t).tokens = sides.map Token.side ++ t.tokens := by
  induction sides with
  | nil => rfl
  | cons side sides ih => rw [List.foldr_cons, Term.tokens, ih, List.map_cons, List.cons_append]

theorem Frame.tokens_expression (f : Frame) (t : Term) :
    (f.expression t).tokens =
      (if f.complement then [.mark '-'] else []) ++ f.sides.map Token.side ++ t.tokens := by
  rw [expression, Expression.tokens, Term.tokens_filters]
  cases f.complement with
  | true => rfl
  | false => rfl

/-- With the term behind it, a frame is written as its complete composites and the chain. -/
theorem Frame.tokens_composite (f : Frame) (t : Term) :
    (f.composites.flatMap fun c => c.tokens ++ [.mark ',']) ++ (f.composite t).tokens =
      f.tokens ++ t.tokens := by
  rw [composite, tokens]
  cases f.chain with
  | none => simp [Composite.tokens_ofBase, tokens_expression]
  | some co => simp [Composite.tokens_append, tokens_expression]

theorem Frame.tokens_selector (f : Frame) (t : Term) :
    (f.selector t).tokens = f.tokens ++ t.tokens := by
  rw [selector, Selector.tokens_append_singleton, tokens_composite]

theorem Frame.tokens_afterOperator (f : Frame) (t : Term) (o : Operator) :
    (f.afterOperator t o).tokens = f.tokens ++ t.tokens ++ [.mark o.char] := by
  rw [← tokens_composite]
  simp [afterOperator, tokens]

theorem Frame.tokens_afterComma (f : Frame) (t : Term) :
    (f.afterComma t).tokens = f.tokens ++ t.tokens ++ [.mark ','] := by
  rw [← tokens_composite]
  simp [afterComma, tokens]

def Phase.tokens : Phase → List Token
  | .term => []
  | .root => [.mark '^']
  | .child p => p.tokens ++ [.mark '>']
  | .done t => t.tokens

namespace Reading

/-- Everything taken so far, from the outermost frame in. -/
def tokens (r : Reading) : List Token :=
  (r.outer.reverse.flatMap fun f => f.tokens ++ [.mark '(']) ++ r.frame.tokens ++ r.phase.tokens

/-- A path that goes on with a child has no anchor at its end. -/
def Open (r : Reading) : Prop :=
  ∀ p, r.phase = .child p → p.endAnchor = false

theorem Step.open {r r' : Reading} {t : Token} (h : Step r t r') : r'.Open := by
  cases h with
  | direct hp =>
      rintro _ ⟨⟩
      exact hp
  | _ => rintro _ ⟨⟩

theorem Step.tokens_eq {r r' : Reading} {t : Token} (h : Step r t r') (hopen : r.Open) :
    r'.tokens = r.tokens ++ [t] := by
  cases h with
  | name n => simp [tokens, Phase.tokens, Term.tokens, Path.tokens, Path.ofRoot]
  | filter side hdepth => simp [tokens, Phase.tokens, Frame.tokens]
  | group hdepth => simp [tokens, Phase.tokens, Frame.tokens, Frame.fresh]
  | anchorBegin => simp [tokens, Phase.tokens]
  | complement hcomplement hsides => simp [tokens, Phase.tokens, Frame.tokens, hcomplement, hsides]
  | closeEmpty =>
      simp [tokens, Phase.tokens, Frame.tokens, Frame.fresh, Term.tokens, Selector.universal,
        Selector.tokens]
  | root n =>
      simp [tokens, Phase.tokens, Term.tokens, Path.tokens, Path.ofRoot, Path.anchorBegin]
  | child p n =>
      simp [tokens, Phase.tokens, Term.tokens, Path.tokens_append (hopen p rfl), Relation.tokens]
  | descendant hp n =>
      simp [tokens, Phase.tokens, Term.tokens, Path.tokens_append hp, Relation.tokens]
  | direct hp => simp [tokens, Phase.tokens, Term.tokens]
  | anchorEnd hp => simp [tokens, Phase.tokens, Term.tokens, Path.tokens_anchorEnd hp]
  | operator t o => simp [tokens, Phase.tokens, Frame.tokens_afterOperator]
  | comma t => simp [tokens, Phase.tokens, Frame.tokens_afterComma]
  | close t => simp [tokens, Phase.tokens, Term.tokens, Frame.tokens_selector]

theorem Reached.open {cs rest : List Char} {r : Reading} (h : Reached cs r rest) : r.Open := by
  cases h with
  | start => rintro _ ⟨⟩
  | step _ _ _ hstep => exact hstep.open

/-- The tokens of a text are those taken and those still to come. -/
theorem Reached.scan_eq {cs rest : List Char} {r : Reading} (h : Reached cs r rest) :
    Token.scan cs = r.tokens ++ Token.scan rest := by
  induction h with
  | start => rfl
  | step h hskips hleads hstep ih =>
      rw [ih, Token.scan_of_skips hskips, Token.scan_of_leads hleads, hstep.tokens_eq h.open,
        List.append_assoc, List.singleton_append]

theorem tokens_of_finish {r : Reading} {s : Selector} (h : r.finish = .ok s) :
    s.tokens = r.tokens := by
  rcases r with ⟨f, outer, phase⟩
  cases phase with
  | root => cases h
  | child p => cases h
  | term =>
      simp only [finish] at h
      split at h
      · cases h
      · next hfresh =>
          split at h
          · next houter =>
              obtain rfl : Selector.universal = s := Except.ok.inj h
              obtain rfl := Frame.eq_fresh_of_isFresh (by simpa using hfresh)
              obtain rfl := List.isEmpty_iff.1 houter
              rfl
          · cases h
  | done t =>
      simp only [finish] at h
      split at h
      · next houter =>
          obtain rfl : f.selector t = s := Except.ok.inj h
          obtain rfl := List.isEmpty_iff.1 houter
          rw [Frame.tokens_selector]
          rfl
      · cases h

end Reading

/-- A selector is written with the tokens that it was read from. -/
theorem Selector.tokens_of_ofChars {cs : List Char} {s : Selector}
    (h : Selector.ofChars cs = .ok s) : Token.scan cs = s.tokens := by
  obtain ⟨r, rest, hreached, hblank, hfinish⟩ := Reading.exists_reached_of_ofChars_eq_ok h
  have hrest : Token.scan rest = [] := Token.scan_of_skips hblank.skips_nil
  rw [hreached.scan_eq, hrest, List.append_nil, Reading.tokens_of_finish hfinish]

end Highlight
