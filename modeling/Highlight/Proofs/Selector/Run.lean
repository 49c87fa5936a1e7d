import Highlight.Proofs.Selector.Grammar
import Highlight.Proofs.Selector.Step
import Highlight.Selector.Reader

/-!
# Reading along a derivation

A reading that is run on a text takes its lexemes and finishes. What the grammar derives is read as
it was derived: from a reading where a term is due, running on a text that a term is derived from is
running on the rest with that term behind, unless one of the groups and filters opened on the way is
too deep, in which case the first of these is where reading halts. The proof goes along the
derivation; what may follow it does not matter as long as it is neither a colon nor a dot, and
nothing the grammar puts behind a term is.
-/

namespace Highlight

open Text (Blank Skips)

namespace Reading

/-- What comes of a reading when all of a text follows. -/
def run (r : Reading) (cs : List Char) : Except Halt Selector :=
  ((Lexeme.scan cs).foldlM take r).bind finish

theorem run_of_blank (r : Reading) {cs : List Char} (h : Blank cs) : r.run cs = r.finish := by
  rw [run, Lexeme.scan_of_blank h]
  rfl

theorem run_of_skips (r : Reading) {cs start : List Char} (h : Skips cs start) :
    r.run cs = r.run start := by
  rw [run, Lexeme.scan_of_skips h, run]

theorem run_of_leads (r : Reading) {t : Token} {start turn rest : List Char}
    (h : t.Leads start turn rest) :
    r.run start = (r.take ⟨t, start, turn⟩).bind fun r' => r'.run rest := by
  rw [run, Lexeme.scan_of_leads h, List.foldlM_cons]
  cases r.take ⟨t, start, turn⟩ with
  | error halt => rfl
  | ok r' => rfl

theorem Step.run_leads {r r' : Reading} {t : Token} (h : Step r t r')
    {start turn rest : List Char} (hl : t.Leads start turn rest) : r.run start = r'.run rest := by
  rw [r.run_of_leads hl, h.take_eq]
  rfl

theorem Refusal.run_leads {r : Reading} {t : Token} {place : Place} {reason : Reason}
    (h : Refusal r t place reason) {start turn rest : List Char} (hl : t.Leads start turn rest) :
    r.run start = .error ⟨Lexeme.unreadAt ⟨t, start, turn⟩ place, reason⟩ := by
  rw [r.run_of_leads hl, h.take_eq]
  rfl

theorem Step.run_mark {r r' : Reading} {c : Char} (h : Step r (.mark c) r')
    (hc : c ∈ Token.marks) {cs rest : List Char} (hcs : Skips cs (c :: rest)) :
    r.run cs = r'.run rest := by
  obtain ⟨hblank, hstart, -⟩ := Token.written_mark hc
  rw [r.run_of_skips hcs]
  exact h.run_leads (.mark hblank hstart)

theorem Step.run_side {r r' : Reading} {side : Side} (h : Step r (.side side) r')
    {cs cs₁ rest : List Char} (hcs : Skips cs (side.letter :: cs₁))
    (hcolon : Skips cs₁ (':' :: rest)) : r.run cs = r'.run rest := by
  rw [r.run_of_skips hcs]
  exact h.run_leads (.side hcolon)

theorem Refusal.run_mark {r : Reading} {c : Char} {reason : Reason}
    (h : Refusal r (.mark c) .start reason) (hc : c ∈ Token.marks) {cs rest : List Char}
    (hcs : Skips cs (c :: rest)) : r.run cs = .error ⟨c :: rest, reason⟩ := by
  obtain ⟨hblank, hstart, -⟩ := Token.written_mark hc
  rw [r.run_of_skips hcs]
  exact h.run_leads (.mark hblank hstart)

theorem Refusal.run_side {r : Reading} {side : Side} {reason : Reason}
    (h : Refusal r (.side side) .start reason) {cs cs₁ rest : List Char}
    (hcs : Skips cs (side.letter :: cs₁)) (hcolon : Skips cs₁ (':' :: rest)) :
    r.run cs = .error ⟨side.letter :: cs₁, reason⟩ := by
  rw [r.run_of_skips hcs]
  exact h.run_leads (.side hcolon)

end Reading

/-- The next character that is not blank is neither a colon nor a dot. -/
def Clear (cs : List Char) : Prop :=
  ∀ c ∈ (Text.dropBlanks cs).head?, c ≠ ':' ∧ c ≠ '.'

theorem Clear.of_blank {cs : List Char} (h : Blank cs) : Clear cs := by
  intro c hc
  rw [h.skips_nil.dropBlanks_eq] at hc
  cases hc

theorem Clear.of_skips {c : Char} {cs rest : List Char} (h : Skips cs (c :: rest))
    (hc : Text.isBlank c = false) (hcolon : c ≠ ':') (hdot : c ≠ '.') : Clear cs := by
  intro d hd
  rw [h.dropBlanks_eq, Text.dropBlanks_cons hc] at hd
  obtain rfl : c = d := by simpa using hd
  exact ⟨hcolon, hdot⟩

theorem Clear.of_mark {c : Char} {cs rest : List Char} (h : Skips cs (c :: rest))
    (hc : c ∈ Token.marks) : Clear cs :=
  .of_skips h (Token.written_mark hc).1 (Token.written_mark hc).2.2 (by
    rintro rfl
    exact absurd hc (by decide))

theorem Clear.of_markIf {present : Bool} {c : Char} {cs rest : List Char}
    (h : MarkIf present c cs rest) (hc : c ∈ Token.marks)
    (hrest : Clear rest) : Clear cs := by
  cases present with
  | true => exact .of_mark h hc
  | false => exact (h : cs = rest) ▸ hrest

theorem Name.Derives.clear {n : Name} {cs rest : List Char} (h : n.Derives cs rest) :
    Clear cs := by
  rcases h with ⟨hn, hskips, -⟩
  obtain ⟨c, ds, hchars, hc⟩ := hn.exists_chars
  rw [hchars] at hskips
  refine .of_skips hskips (isBlank_of_isComponentStart hc) ?_ ?_
  · rintro rfl
    exact absurd hc (by decide)
  · rintro rfl
    exact absurd hc (by decide)

theorem Descendant.DerivesAll.clear {ds : List Descendant} {cs rest : List Char}
    (h : Descendant.DerivesAll ds cs rest) (hrest : Clear rest) : Clear cs := by
  cases h with
  | nil => exact hrest
  | cons hd _ =>
      rcases hd with ⟨cs₁, hmark, hname⟩
      exact .of_markIf hmark (by decide) hname.clear

theorem Composition.DerivesChain.clear {level : Nat} {cs' : List Composition}
    {cs rest : List Char} {os : List Opener}
    (h : Composition.DerivesChain level cs' cs rest os) (hrest : Clear rest) : Clear cs := by
  cases h with
  | nil => exact hrest
  | cons hoperator _ _ => exact .of_mark hoperator (Token.operator_mem_marks _)

theorem Composite.DerivesFurther.clear {level : Nat} {cs' : List Composite}
    {cs rest : List Char} {os : List Opener}
    (h : Composite.DerivesFurther level cs' cs rest os) (hrest : Clear rest) : Clear cs := by
  cases h with
  | nil => exact hrest
  | cons hcomma _ _ => exact .of_mark hcomma (by decide)

/-- A derived name that nothing changes the kind of is read as a name. -/
theorem Reading.Step.run_name {r r' : Reading} {n : Name} (h : r.Step (.name n) r')
    {cs rest : List Char} (hname : n.Derives cs rest) (hrest : Clear rest) :
    r.run cs = r'.run rest := by
  rcases hname with ⟨hn, hskips, hlongest⟩
  have hends : Name.EndsBefore rest := by
    intro c hc
    obtain ⟨ds, rfl⟩ := List.head?_eq_some_iff.1 hc
    have hdot : c ≠ '.' := by
      rintro rfl
      exact (hrest '.' rfl).2 rfl
    have hchar : isComponentChar c = false :=
      Bool.eq_false_iff.2 fun h => hlongest c hc ((isComponentChar_iff c).1 h)
    simp [isNameChar, hchar, hdot]
  have hcolon : ¬ Lexeme.ColonNext rest := by
    rintro ⟨ds, hds⟩
    have := hrest ':' (by rw [Lexeme.dropBlanks_of_skips_colon hds]; rfl)
    exact this.1 rfl
  rw [r.run_of_skips hskips]
  exact h.run_leads (.name hn hends (Lexeme.sideOf?_of_not_colonNext hcolon))

namespace Reading

variable (f : Frame) (outer : List Frame)

theorem run_descendants {ds : List Descendant} {cs rest : List Char}
    (h : Descendant.DerivesAll ds cs rest) (hrest : Clear rest) {p : Path}
    (hp : p.endAnchor = false) :
    (Reading.mk f outer (.done (.path p))).run cs =
      (Reading.mk f outer (.done (.path { p with descendants := p.descendants ++ ds }))).run
        rest := by
  induction h generalizing p with
  | nil => rw [List.append_nil]
  | @cons d ds cs cs₂ rest hd hds ih =>
      rcases d with ⟨relation, n⟩
      rcases hd with ⟨cs₁, hmark, hname⟩
      have hclear := hds.clear hrest
      have happend (relation : Relation) := ih hrest (p := p.append relation n) hp
      simp only [Path.append, List.append_assoc, List.singleton_append] at happend
      cases relation with
      | direct =>
          rw [(Step.direct hp).run_mark (by decide) hmark,
            (Step.child p n).run_name hname hclear]
          exact happend .direct
      | transitive =>
          obtain rfl : cs = cs₁ := hmark
          rw [(Step.descendant hp n).run_name hname hclear]
          exact happend .transitive

/-- A derived path is read as it was derived. -/
theorem run_path {p : Path} {cs rest : List Char} (h : p.Derives cs rest) (hrest : Clear rest) :
    (Reading.mk f outer .term).run cs = (Reading.mk f outer (.done (.path p))).run rest := by
  rcases p with ⟨beginAnchor, endAnchor, root, descendants⟩
  rcases h with ⟨hbegin, hroot, hdescendants, hend⟩
  rename_i cs₁ cs₂ cs₃
  have hclear₃ : Clear cs₃ := .of_markIf hend (by decide) hrest
  have hclear₂ := hdescendants.clear hclear₃
  have hfirst : (Reading.mk f outer .term).run cs =
      (Reading.mk f outer (.done (.path ⟨beginAnchor, false, root, []⟩))).run cs₂ := by
    cases beginAnchor with
    | true =>
        rw [Step.anchorBegin.run_mark (by decide) hbegin,
          (Step.root root).run_name hroot hclear₂]
        rfl
    | false =>
        obtain rfl : cs = cs₁ := hbegin
        exact (Step.name root).run_name hroot hclear₂
  rw [hfirst, run_descendants f outer hdescendants hclear₃ rfl, List.nil_append]
  cases endAnchor with
  | true =>
      rw [(Step.anchorEnd rfl).run_mark (by decide) hend]
      rfl
  | false =>
      obtain rfl : cs₃ = rest := hend
      rfl

end Reading

/-- What comes of a text whose openers are these, if it would come to `result` were they not too
deep: reading halts at the first that is. -/
def Opener.verdict (os : List Opener) (result : Except Halt Selector) : Except Halt Selector :=
  match os.find? (·.level == maxNesting + 1) with
  | none => result
  | some o => .error ⟨o.unread, .tooDeep⟩

namespace Opener

theorem verdict_append (os os' : List Opener) (result : Except Halt Selector) :
    verdict (os ++ os') result = verdict os (verdict os' result) := by
  simp only [verdict, List.find?_append]
  cases os.find? (·.level == maxNesting + 1) with
  | none => rfl
  | some o => rfl

theorem verdict_cons_of_lt {level : Nat} (h : level < maxNesting) (unread : List Char)
    (os : List Opener) (result : Except Halt Selector) :
    verdict (⟨level + 1, unread⟩ :: os) result = verdict os result := by
  have hne : (level + 1 == maxNesting + 1) = false := by
    simpa using Nat.ne_of_lt h
  simp only [verdict, List.find?_cons, hne]

theorem verdict_cons_of_eq {level : Nat} (h : level = maxNesting) (unread : List Char)
    (os : List Opener) (result : Except Halt Selector) :
    verdict (⟨level + 1, unread⟩ :: os) result = .error ⟨unread, .tooDeep⟩ := by
  simp [verdict, h]

end Opener

namespace Reading

variable {f : Frame} {outer : List Frame}

/-- The reading has come to the end of a selector inside the frames, of which it has everything. -/
inductive Holds : Reading → List Frame → Selector → Prop
  | empty {outer : List Frame} : Holds ⟨.fresh, outer, .term⟩ outer .universal
  | complete {f : Frame} {outer : List Frame} {t : Term} :
      Holds ⟨f, outer, .done t⟩ outer (f.selector t)

theorem Holds.step_close {r : Reading} {s : Selector} (h : r.Holds (f :: outer) s) :
    Step r (.mark ')') ⟨f, outer, .done (.group s)⟩ := by
  cases h with
  | empty => exact .closeEmpty
  | complete => exact .close _

theorem Holds.finish_eq {r : Reading} {s : Selector} (h : r.Holds [] s) : r.finish = .ok s := by
  cases h with
  | empty => rfl
  | complete => rfl

/-- A frame with a term behind it that says as much as another frame with another term: filters are
kept on either side of the boundary. -/
structure Matches (f : Frame) (t : Term) (f' : Frame) (t' : Term) : Prop where
  composites : f'.composites = f.composites
  chain : f'.chain = f.chain
  expression : f'.expression t' = f.expression t

theorem Matches.refl (f : Frame) (t : Term) : Matches f t f t := ⟨rfl, rfl, rfl⟩

end Reading

open Opener (verdict verdict_append verdict_cons_of_lt verdict_cons_of_eq)
open Reading (Holds Matches Refusal Step)
open Highlight.Frame (level)

mutual

/-- Behind a derived term, its reading goes on with the term. -/
theorem Term.Derives.run {n : Nat} {t : Term} {cs rest : List Char} {os : List Opener}
    (h : Term.Derives n t cs rest os) : Clear rest → n ≤ maxNesting →
      ∀ (f : Frame) (outer : List Frame), (Reading.mk f outer .term).depth = n →
        ∃ f' t', Matches f t f' t' ∧ (Reading.mk f outer .term).run cs =
          verdict os ((Reading.mk f' outer (.done t')).run rest) := by
  intro hrest hn f outer hdepth
  match h with
  | @Term.Derives.filter n side t cs cs₁ cs₂ rest os hside hcolon hterm =>
      rcases Nat.eq_or_lt_of_le hn with hn | hn
      -- too deep: what is inside does not matter, this opener comes before those in it
      · refine ⟨f, .filter side t, .refl _ _, ?_⟩
        rw [verdict_cons_of_eq hn]
        exact (Refusal.filter side (by omega)).run_side hside hcolon
      · have hdepth' : (Reading.mk { f with sides := f.sides ++ [side] } outer .term).depth =
            n + 1 := by
          rw [← hdepth]
          simp [Reading.depth]
          omega
        obtain ⟨f', t', hmatches, hrun⟩ := hterm.run hrest hn _ outer hdepth'
        refine ⟨f', t', ⟨hmatches.composites, hmatches.chain, ?_⟩, ?_⟩
        · rw [hmatches.expression]
          simp [Frame.expression]
        · rw [(Step.filter side (by omega)).run_side hside hcolon, verdict_cons_of_lt hn, hrun]
  | @Term.Derives.group n s cs cs₁ cs₂ rest os hopen hselector hclose =>
      rcases Nat.eq_or_lt_of_le hn with hn | hn
      · refine ⟨f, .group s, .refl _ _, ?_⟩
        rw [verdict_cons_of_eq hn]
        exact (Refusal.group (by omega)).run_mark (by decide) hopen
      · have hlevel : level (f :: outer) = n + 1 := by
          rw [← hdepth]
          simp [Reading.depth, level]
          omega
        have hclear : Clear cs₂ := .of_mark hclose (by decide)
        obtain ⟨r, hholds, hrun⟩ := hselector.run hclear hn _ hlevel
        refine ⟨f, .group s, .refl _ _, ?_⟩
        rw [(Step.group (by omega)).run_mark (by decide) hopen, verdict_cons_of_lt hn, hrun,
          hholds.step_close.run_mark (by decide) hclose]
  | @Term.Derives.path n p cs rest hpath =>
      exact ⟨f, .path p, .refl _ _, Reading.run_path f outer hpath hrest⟩

theorem Expression.Derives.run {n : Nat} {e : Expression} {cs rest : List Char} {os : List Opener}
    (h : Expression.Derives n e cs rest os) : Clear rest → n ≤ maxNesting →
      ∀ (composites : List Composite) (chain : Option (Composite × Operator))
        (outer : List Frame), level outer = n →
        ∃ f t, f.composites = composites ∧ f.chain = chain ∧ f.expression t = e ∧
          (Reading.mk ⟨composites, chain, false, []⟩ outer .term).run cs =
            verdict os ((Reading.mk f outer (.done t)).run rest) := by
  intro hrest hn composites chain outer hlevel
  match h with
  | @Expression.Derives.intro n complement t cs cs₁ rest os hcomplement hterm =>
      have hdepth : (Reading.mk ⟨composites, chain, complement, []⟩ outer .term).depth = n := by
        rw [← hlevel]
        simp [Reading.depth]
      obtain ⟨f, t', hmatches, hrun⟩ := hterm.run hrest hn _ outer hdepth
      refine ⟨f, t', hmatches.composites, hmatches.chain, hmatches.expression, ?_⟩
      rw [← hrun]
      cases complement with
      | true =>
          rw [(Step.complement rfl rfl).run_mark (by decide) hcomplement]
      | false =>
          obtain rfl : cs = cs₁ := hcomplement
          rfl

theorem Composition.DerivesChain.run {n : Nat} {cs' : List Composition} {cs rest : List Char}
    {os : List Opener} (h : Composition.DerivesChain n cs' cs rest os) : Clear rest →
      n ≤ maxNesting → ∀ (f : Frame) (t : Term) (outer : List Frame), level outer = n →
        ∃ f' t', f'.composites = f.composites ∧
          f'.composite t' = ⟨(f.composite t).base, (f.composite t).compositions ++ cs'⟩ ∧
          (Reading.mk f outer (.done t)).run cs =
            verdict os ((Reading.mk f' outer (.done t')).run rest) := by
  intro hrest hn f t outer hlevel
  match h with
  | .nil => exact ⟨f, t, rfl, by cases f.composite t; simp, rfl⟩
  | @Composition.DerivesChain.cons n operator operand cs' cs cs₁ cs₂ rest os os' hoperator
      hoperand hchain =>
      obtain ⟨f₁, t₁, hcomposites₁, hchain₁, hexpression₁, hrun₁⟩ :=
        hoperand.run (hchain.clear hrest) hn f.composites (some (f.composite t, operator)) outer
          hlevel
      obtain ⟨f₂, t₂, hcomposites₂, hcomposite₂, hrun₂⟩ :=
        hchain.run hrest hn f₁ t₁ outer hlevel
      refine ⟨f₂, t₂, hcomposites₂.trans hcomposites₁, ?_, ?_⟩
      · rw [hcomposite₂]
        simp [Frame.composite, hchain₁, hexpression₁, Composite.append]
      · rw [(Step.operator t operator).run_mark (Token.operator_mem_marks operator) hoperator,
          verdict_append, ← hrun₂]
        exact hrun₁

theorem Composite.Derives.run {n : Nat} {c : Composite} {cs rest : List Char} {os : List Opener}
    (h : Composite.Derives n c cs rest os) : Clear rest → n ≤ maxNesting →
      ∀ (composites : List Composite) (outer : List Frame), level outer = n →
        ∃ f t, f.composites = composites ∧ f.composite t = c ∧
          (Reading.mk ⟨composites, none, false, []⟩ outer .term).run cs =
            verdict os ((Reading.mk f outer (.done t)).run rest) := by
  intro hrest hn composites outer hlevel
  match h with
  | @Composite.Derives.intro n base compositions cs cs₁ rest os os' hbase hchain =>
      obtain ⟨f₁, t₁, hcomposites₁, hchain₁, hexpression₁, hrun₁⟩ :=
        hbase.run (hchain.clear hrest) hn composites none outer hlevel
      obtain ⟨f₂, t₂, hcomposites₂, hcomposite₂, hrun₂⟩ :=
        hchain.run hrest hn f₁ t₁ outer hlevel
      refine ⟨f₂, t₂, hcomposites₂.trans hcomposites₁, ?_, ?_⟩
      · rw [hcomposite₂]
        simp [Frame.composite, hchain₁, hexpression₁, Composite.ofBase]
      · rw [hrun₁, hrun₂, verdict_append]

theorem Composite.DerivesFurther.run {n : Nat} {cs' : List Composite} {cs rest : List Char}
    {os : List Opener} (h : Composite.DerivesFurther n cs' cs rest os) : Clear rest →
      n ≤ maxNesting → ∀ (f : Frame) (t : Term) (outer : List Frame), level outer = n →
        ∃ f' t', f'.selector t' = ⟨(f.selector t).composites ++ cs'⟩ ∧
          (Reading.mk f outer (.done t)).run cs =
            verdict os ((Reading.mk f' outer (.done t')).run rest) := by
  intro hrest hn f t outer hlevel
  match h with
  | .nil => exact ⟨f, t, by cases f.selector t; simp, rfl⟩
  | @Composite.DerivesFurther.cons n c cs' cs cs₁ cs₂ rest os os' hcomma hcomposite hfurther =>
      obtain ⟨f₁, t₁, hcomposites₁, hcomposite₁, hrun₁⟩ :=
        hcomposite.run (hfurther.clear hrest) hn (f.composites ++ [f.composite t]) outer hlevel
      obtain ⟨f₂, t₂, hselector₂, hrun₂⟩ := hfurther.run hrest hn f₁ t₁ outer hlevel
      refine ⟨f₂, t₂, ?_, ?_⟩
      · rw [hselector₂]
        simp [Frame.selector, hcomposites₁, hcomposite₁]
      · rw [(Step.comma t).run_mark (by decide) hcomma, verdict_append, ← hrun₂]
        exact hrun₁

theorem Selector.Derives.run {n : Nat} {s : Selector} {cs rest : List Char} {os : List Opener}
    (h : Selector.Derives n s cs rest os) : Clear rest → n ≤ maxNesting →
      ∀ outer : List Frame, level outer = n →
        ∃ r : Reading, r.Holds outer s ∧
          (Reading.mk .fresh outer .term).run cs = verdict os (r.run rest) := by
  intro hrest hn outer hlevel
  match h with
  | .empty => exact ⟨_, .empty, rfl⟩
  | @Selector.Derives.composites n c cs' cs cs₁ rest os os' hfirst hfurther =>
      obtain ⟨f₁, t₁, hcomposites₁, hcomposite₁, hrun₁⟩ :=
        hfirst.run (hfurther.clear hrest) hn [] outer hlevel
      obtain ⟨f₂, t₂, hselector₂, hrun₂⟩ := hfurther.run hrest hn f₁ t₁ outer hlevel
      have hselector : f₂.selector t₂ = ⟨c :: cs'⟩ := by
        rw [hselector₂]
        simp [Frame.selector, hcomposites₁, hcomposite₁]
      have hholds : (Reading.mk f₂ outer (.done t₂)).Holds outer ⟨c :: cs'⟩ :=
        hselector ▸ .complete
      refine ⟨_, hholds, ?_⟩
      rw [verdict_append, ← hrun₂]
      exact hrun₁

end

/-- What the grammar derives from a text is what reading comes to, unless it nests too deeply. -/
theorem Selector.DerivesText.ofChars_eq {s : Selector} {text : String} {os : List Opener}
    (h : s.DerivesText text os) : Selector.ofChars text.toList = verdict os (.ok s) := by
  rcases h with ⟨rest, hderives, hblank⟩
  obtain ⟨r, hholds, hrun⟩ :=
    hderives.run (.of_blank hblank) (Nat.zero_le _) [] rfl
  rw [← hholds.finish_eq, ← r.run_of_blank hblank, ← hrun]
  rfl

end Highlight
