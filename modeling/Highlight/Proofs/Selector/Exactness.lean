import Highlight.Proofs.Position
import Highlight.Proofs.Selector.Run
import Highlight.Proofs.Selector.Taken

/-!
# Reading is exactly derivation

A text is read as a selector if and only if the grammar derives the selector from it and groups and
filters do not nest too deeply. One half of this is running along a derivation. For the other, the
tokens of the text are those of the selector, and a text whose tokens are those of a node is one
that the node is derived from; that it was read at all then shows that the nesting is bounded.
-/

namespace Highlight

open Text (Blank Skips)
open Token (scan)

theorem exists_skips_of_scan_mark {c : Char} {cs : List Char} {ts : List Token}
    (h : scan cs = .mark c :: ts) : ∃ rest, Skips cs (c :: rest) ∧ scan rest = ts := by
  obtain ⟨_, _, rest, hskips, hleads, hrest⟩ := Token.exists_leads_of_scan_eq_cons h
  cases hleads with
  | mark _ _ => exact ⟨_, hskips, hrest⟩

theorem exists_skips_of_scan_side {side : Side} {cs : List Char} {ts : List Token}
    (h : scan cs = .side side :: ts) :
    ∃ cs₁ rest, Skips cs (side.letter :: cs₁) ∧ Skips cs₁ (':' :: rest) ∧ scan rest = ts := by
  obtain ⟨_, _, rest, hskips, hleads, hrest⟩ := Token.exists_leads_of_scan_eq_cons h
  cases hleads with
  | side hcolon => exact ⟨_, rest, hskips, hcolon, hrest⟩

theorem Name.exists_derives {n : Name} {cs : List Char} {ts : List Token}
    (h : scan cs = .name n :: ts) : ∃ rest, n.Derives cs rest ∧ scan rest = ts := by
  obtain ⟨_, _, rest, hskips, hleads, hrest⟩ := Token.exists_leads_of_scan_eq_cons h
  cases hleads with
  | name hn hends hside =>
      refine ⟨_, ⟨hn, hskips, ?_⟩, hrest⟩
      intro c hc hchar
      have hname := hends c hc
      simp [isNameChar, (isComponentChar_iff c).2 hchar] at hname

theorem exists_markIf {present : Bool} {c : Char} {cs : List Char} {ts : List Token}
    (h : scan cs = (if present then [.mark c] else []) ++ ts) :
    ∃ rest, MarkIf present c cs rest ∧ scan rest = ts := by
  cases present with
  | true => exact exists_skips_of_scan_mark h
  | false => exact ⟨cs, rfl, h⟩

theorem Descendant.exists_derivesAll : ∀ (ds : List Descendant) {cs : List Char}
    {ts : List Token}, scan cs = ds.flatMap Descendant.tokens ++ ts →
      ∃ rest, Descendant.DerivesAll ds cs rest ∧ scan rest = ts
  | [], cs, _, h => ⟨cs, .nil, h⟩
  | ⟨relation, n⟩ :: ds, cs, ts, h => by
      have hmark : scan cs = (if decide (relation = .direct) then [.mark '>'] else []) ++
          .name n :: (ds.flatMap Descendant.tokens ++ ts) := by
        rw [h]
        cases relation with
        | direct => simp [Descendant.tokens, Relation.tokens]
        | transitive => simp [Descendant.tokens, Relation.tokens]
      obtain ⟨cs₁, hmark, hscan₁⟩ := exists_markIf hmark
      obtain ⟨cs₂, hname, hscan₂⟩ := Name.exists_derives hscan₁
      obtain ⟨rest, hds, hrest⟩ := Descendant.exists_derivesAll ds hscan₂
      exact ⟨rest, .cons ⟨cs₁, hmark, hname⟩ hds, hrest⟩

theorem Path.exists_derives (p : Path) {cs : List Char} {ts : List Token}
    (h : scan cs = p.tokens ++ ts) : ∃ rest, p.Derives cs rest ∧ scan rest = ts := by
  rw [tokens, List.append_assoc, List.append_assoc, List.cons_append] at h
  obtain ⟨cs₁, hbegin, hscan₁⟩ := exists_markIf h
  obtain ⟨cs₂, hroot, hscan₂⟩ := Name.exists_derives hscan₁
  obtain ⟨cs₃, hdescendants, hscan₃⟩ := Descendant.exists_derivesAll p.descendants hscan₂
  obtain ⟨rest, hend, hrest⟩ := exists_markIf hscan₃
  exact ⟨rest, .intro hbegin hroot hdescendants hend, hrest⟩

mutual

/-- A text that starts with the tokens of a term starts with a text it is derived from. -/
theorem Term.exists_derives : ∀ (t : Term) (n : Nat) {cs : List Char} {ts : List Token},
    scan cs = t.tokens ++ ts → ∃ rest os, Term.Derives n t cs rest os ∧ scan rest = ts
  | .filter side t, n, cs, ts, h => by
      rw [Term.tokens, List.cons_append] at h
      obtain ⟨cs₁, cs₂, hside, hcolon, hscan₂⟩ := exists_skips_of_scan_side h
      obtain ⟨rest, os, hterm, hrest⟩ := Term.exists_derives t (n + 1) hscan₂
      exact ⟨rest, _, .filter hside hcolon hterm, hrest⟩
  | .group s, n, cs, ts, h => by
      rw [Term.tokens, List.cons_append, List.cons_append, List.append_assoc] at h
      obtain ⟨cs₁, hopen, hscan₁⟩ := exists_skips_of_scan_mark h
      obtain ⟨cs₂, os, hselector, hscan₂⟩ := Selector.exists_derives s (n + 1) hscan₁
      obtain ⟨rest, hclose, hrest⟩ := exists_skips_of_scan_mark hscan₂
      exact ⟨rest, _, .group hopen hselector hclose, hrest⟩
  | .path p, n, cs, ts, h => by
      rw [Term.tokens] at h
      obtain ⟨rest, hpath, hrest⟩ := p.exists_derives h
      exact ⟨rest, [], .path hpath, hrest⟩

theorem Expression.exists_derives : ∀ (e : Expression) (n : Nat) {cs : List Char}
    {ts : List Token}, scan cs = e.tokens ++ ts →
      ∃ rest os, Expression.Derives n e cs rest os ∧ scan rest = ts
  | ⟨complement, t⟩, n, cs, ts, h => by
      have hmark : scan cs = (if complement then [.mark '-'] else []) ++ (t.tokens ++ ts) := by
        rw [h, Expression.tokens]
        cases complement with
        | true => rfl
        | false => rfl
      obtain ⟨cs₁, hcomplement, hscan₁⟩ := exists_markIf hmark
      obtain ⟨rest, os, hterm, hrest⟩ := Term.exists_derives t n hscan₁
      exact ⟨rest, os, .intro hcomplement hterm, hrest⟩

theorem Composition.exists_derivesChain : ∀ (cs' : List Composition) (n : Nat) {cs : List Char}
    {ts : List Token}, scan cs = Composition.chainTokens cs' ++ ts →
      ∃ rest os, Composition.DerivesChain n cs' cs rest os ∧ scan rest = ts
  | [], n, cs, ts, h => ⟨cs, [], .nil, h⟩
  | ⟨operator, operand⟩ :: cs', n, cs, ts, h => by
      rw [Composition.chainTokens, Composition.tokens, List.cons_append, List.cons_append,
        List.append_assoc] at h
      obtain ⟨cs₁, hoperator, hscan₁⟩ := exists_skips_of_scan_mark h
      obtain ⟨cs₂, os, hoperand, hscan₂⟩ := Expression.exists_derives operand n hscan₁
      obtain ⟨rest, os', hchain, hrest⟩ := Composition.exists_derivesChain cs' n hscan₂
      exact ⟨rest, _, .cons hoperator hoperand hchain, hrest⟩

theorem Composite.exists_derives : ∀ (c : Composite) (n : Nat) {cs : List Char}
    {ts : List Token}, scan cs = c.tokens ++ ts →
      ∃ rest os, Composite.Derives n c cs rest os ∧ scan rest = ts
  | ⟨base, compositions⟩, n, cs, ts, h => by
      rw [Composite.tokens, List.append_assoc] at h
      obtain ⟨cs₁, os, hbase, hscan₁⟩ := Expression.exists_derives base n h
      obtain ⟨rest, os', hchain, hrest⟩ := Composition.exists_derivesChain compositions n hscan₁
      exact ⟨rest, _, .intro hbase hchain, hrest⟩

theorem Composite.exists_derivesFurther : ∀ (cs' : List Composite) (n : Nat) {cs : List Char}
    {ts : List Token}, scan cs = Composite.furtherTokens cs' ++ ts →
      ∃ rest os, Composite.DerivesFurther n cs' cs rest os ∧ scan rest = ts
  | [], n, cs, ts, h => ⟨cs, [], .nil, h⟩
  | c :: cs', n, cs, ts, h => by
      rw [Composite.furtherTokens, List.cons_append, List.cons_append, List.append_assoc] at h
      obtain ⟨cs₁, hcomma, hscan₁⟩ := exists_skips_of_scan_mark h
      obtain ⟨cs₂, os, hcomposite, hscan₂⟩ := Composite.exists_derives c n hscan₁
      obtain ⟨rest, os', hfurther, hrest⟩ := Composite.exists_derivesFurther cs' n hscan₂
      exact ⟨rest, _, .cons hcomma hcomposite hfurther, hrest⟩

theorem Selector.exists_derives : ∀ (s : Selector) (n : Nat) {cs : List Char}
    {ts : List Token}, scan cs = s.tokens ++ ts →
      ∃ rest os, Selector.Derives n s cs rest os ∧ scan rest = ts
  | ⟨[]⟩, n, cs, ts, h => by
      rw [Selector.tokens, List.nil_append] at h
      exact ⟨cs, [], .empty, h⟩
  | ⟨c :: cs'⟩, n, cs, ts, h => by
      rw [Selector.tokens, List.append_assoc] at h
      obtain ⟨cs₁, os, hfirst, hscan₁⟩ := Composite.exists_derives c n h
      obtain ⟨rest, os', hfurther, hrest⟩ := Composite.exists_derivesFurther cs' n hscan₁
      exact ⟨rest, _, .composites hfirst hfurther, hrest⟩

end

/-- A text with the tokens of a selector is one that the grammar derives the selector from. -/
theorem Selector.exists_derivesText {s : Selector} {text : String}
    (h : scan text.toList = s.tokens) : ∃ os, s.DerivesText text os := by
  rw [← List.append_nil s.tokens] at h
  obtain ⟨rest, os, hderives, hrest⟩ := s.exists_derives 0 h
  exact ⟨os, rest, hderives, Token.blank_of_scan_eq_nil hrest⟩

namespace Selector

theorem parse_of_ofChars {text : String} {s : Selector} (h : ofChars text.toList = .ok s) :
    parse text = .ok s := by
  rw [parse, h]
  rfl

theorem ofChars_of_parse {text : String} {s : Selector} (h : parse text = .ok s) :
    ofChars text.toList = .ok s := by
  rw [parse] at h
  cases hread : ofChars text.toList with
  | error halt =>
      rw [hread] at h
      cases h
  | ok s' =>
      rw [hread] at h
      exact congrArg Except.ok (Except.ok.inj h)

theorem parse_of_halt {text : String} {before rest : List Char} {reason : Reason}
    (htext : text.toList = before ++ rest) (h : ofChars text.toList = .error ⟨rest, reason⟩) :
    parse text = .error ⟨Position.after before, reason.fault rest⟩ := by
  rw [parse, h, htext, ← Halt.error_append]
  rfl

theorem DerivesText.find?_eq_none_iff {s : Selector} {text : String} {os : List Opener}
    (h : s.DerivesText text os) :
    os.find? (·.level == maxNesting + 1) = none ↔ s.nesting ≤ maxNesting := by
  rcases h with ⟨rest, hderives, -⟩
  have hiff := hderives.forall_level_ne_iff (Nat.zero_le maxNesting)
  rw [Nat.zero_add] at hiff
  simpa using hiff

theorem DerivesText.parse_eq_ok {s : Selector} {text : String} {os : List Opener}
    (h : s.DerivesText text os) (hnesting : s.nesting ≤ maxNesting) : parse text = .ok s := by
  apply parse_of_ofChars
  rw [h.ofChars_eq, Opener.verdict, h.find?_eq_none_iff.2 hnesting]

theorem DerivesText.exists_parse_eq_tooDeep {s : Selector} {text : String} {os : List Opener}
    (h : s.DerivesText text os) (hnesting : maxNesting < s.nesting) :
    ∃ before o, o ∈ os ∧ o.level = maxNesting + 1 ∧
      (∀ o' ∈ os, o'.level = maxNesting + 1 → o'.unread <:+ o.unread) ∧
        text.toList = before ++ o.unread ∧
          parse text = .error ⟨Position.after before, .tooDeep⟩ := by
  cases hfind : os.find? (·.level == maxNesting + 1) with
  | none => exact absurd (h.find?_eq_none_iff.1 hfind) (Nat.not_le.2 hnesting)
  | some o =>
      obtain ⟨rest, hderives, -⟩ := id h
      have hmem := List.mem_of_find?_eq_some hfind
      have hlevel : o.level = maxNesting + 1 := by simpa using List.find?_some hfind
      obtain ⟨before, hbefore⟩ := (hderives.within.forall_suffix o hmem).1
      refine ⟨before, o, hmem, hlevel, hderives.within.suffix_of_find? hfind, hbefore.symm, ?_⟩
      have hread := h.ofChars_eq
      rw [Opener.verdict, hfind] at hread
      exact parse_of_halt hbefore.symm hread

/-- A text with the tokens of a selector is read as that selector, unless it nests too deeply. -/
theorem parse_of_scan {text : String} {s : Selector} (h : scan text.toList = s.tokens)
    (hnesting : s.nesting ≤ maxNesting) : parse text = .ok s := by
  obtain ⟨os, hderives⟩ := exists_derivesText h
  exact hderives.parse_eq_ok hnesting

theorem exists_parse_eq_tooDeep_of_scan {text : String} {s : Selector}
    (h : scan text.toList = s.tokens) (hnesting : maxNesting < s.nesting) :
    ∃ position, parse text = .error ⟨position, .tooDeep⟩ := by
  obtain ⟨os, hderives⟩ := exists_derivesText h
  obtain ⟨before, o, -, -, -, -, herror⟩ := hderives.exists_parse_eq_tooDeep hnesting
  exact ⟨_, herror⟩

theorem scan_of_parse {text : String} {s : Selector} (h : parse text = .ok s) :
    scan text.toList = s.tokens :=
  tokens_of_ofChars (ofChars_of_parse h)

/-- What was read has a derivation, and it nests no deeper than it may. -/
theorem exists_derivesText_of_parse {text : String} {s : Selector} (h : parse text = .ok s) :
    ∃ os, s.DerivesText text os ∧ s.nesting ≤ maxNesting := by
  obtain ⟨os, hderives⟩ := exists_derivesText (scan_of_parse h)
  refine ⟨os, hderives, ?_⟩
  by_cases hnesting : s.nesting ≤ maxNesting
  · exact hnesting
  · obtain ⟨position, herror⟩ :=
      exists_parse_eq_tooDeep_of_scan (scan_of_parse h) (Nat.lt_of_not_le hnesting)
    rw [h] at herror
    cases herror

/-- A text is read as a selector if and only if the grammar derives the selector from the text and
no way into it is longer than it may be. From a text with too long a way in it, reading answers that
the nesting is too deep, at the first opener in the text that is one level past the bound. -/
theorem parse_eq_ok_iff_derives (text : String) (s : Selector) :
    (parse text = .ok s ↔ ∃ os, s.DerivesText text os ∧ s.nesting ≤ maxNesting) ∧
      ∀ os, s.DerivesText text os → maxNesting < s.nesting →
        ∃ before o, o ∈ os ∧ o.level = maxNesting + 1 ∧
          (∀ o' ∈ os, o'.level = maxNesting + 1 → o'.unread <:+ o.unread) ∧
            text.toList = before ++ o.unread ∧
              parse text = .error ⟨Position.after before, .tooDeep⟩ := by
  refine ⟨⟨exists_derivesText_of_parse, ?_⟩, ?_⟩
  · rintro ⟨os, hderives, hnesting⟩
    exact hderives.parse_eq_ok hnesting
  · intro os hderives hnesting
    exact hderives.exists_parse_eq_tooDeep hnesting

theorem exists_tooDeep_filters : ∃ s os, DerivesText s s.text os ∧ maxNesting < s.nesting ∧
    ∃ before o, o ∈ os ∧ o.level = maxNesting + 1 ∧
      (∀ o' ∈ os, o'.level = maxNesting + 1 → o'.unread <:+ o.unread) ∧
        s.text.toList = before ++ o.unread ∧
          parse s.text = .error ⟨Position.after before, .tooDeep⟩ := by
  let sides := List.replicate (maxNesting + 1) Side.left
  let s : Selector := ⟨[.ofBase ⟨false, sides.foldr Term.filter (.path (.ofRoot ⟨["a"]⟩))⟩]⟩
  have hs : s.WellFormed := by decide +kernel
  have hnesting : maxNesting < s.nesting := by decide +kernel
  obtain ⟨os, hderives⟩ := exists_derivesText (scan_text hs)
  exact ⟨s, os, hderives, hnesting, (parse_eq_ok_iff_derives s.text s).2 os hderives hnesting⟩

end Selector

end Highlight
