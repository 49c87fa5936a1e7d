import Highlight.Proofs.Selector.Nodes

/-!
# The grammar of selectors

    selector   := ε | composite (',' composite)*
    composite  := expression (operator expression)*
    operator   := '|' | '&' | '-'
    expression := '-'? term
    term       := filter | group | path
    filter     := side ':' term
    side       := 'L' | 'R' | 'B'
    group      := '(' selector ')'
    path       := '^'? name descendant* '$'?
    descendant := '>'? name
    name       := component ('.' component)*
    component  := [A-Za-z0-9_*] [A-Za-z0-9_*-]*

Blanks may stand before any token and at the end of the text. A name is a single token, and its
components are as long as they can be.

Every rule is a relation between a node, the text it is derived from and the text that is left
behind it. The rules know nothing of a reader: there is no lookahead, no order in which they are
tried and no bound on the nesting. What they do keep is a list of the groups and filters in the
order of the text, each with its level, so that a place in the text can be named through them.
-/

namespace Highlight

open Text (Blank Skips)

/-- The beginning of a group or filter: its level, counted from one, and the text from its
parenthesis or its letter on. -/
structure Opener where
  level : Nat
  unread : List Char

/-- A mark that is either there or left out. -/
def MarkIf (present : Bool) (c : Char) (cs rest : List Char) : Prop :=
  if present then Skips cs (c :: rest) else cs = rest

/-- A single token, the last component of which is as long as it can be. -/
def Name.Derives (n : Name) (cs rest : List Char) : Prop :=
  n.WellFormed ∧ Skips cs (n.chars ++ rest) ∧ ∀ c ∈ rest.head?, ¬ ContinuesComponent c

def Descendant.Derives (d : Descendant) (cs rest : List Char) : Prop :=
  ∃ cs₁, MarkIf (d.relation = .direct) '>' cs cs₁ ∧ d.name.Derives cs₁ rest

inductive Descendant.DerivesAll : List Descendant → List Char → List Char → Prop
  | nil {cs : List Char} : DerivesAll [] cs cs
  | cons {d : Descendant} {ds : List Descendant} {cs cs₁ rest : List Char}
      (hd : d.Derives cs cs₁) (hds : DerivesAll ds cs₁ rest) : DerivesAll (d :: ds) cs rest

inductive Path.Derives (p : Path) (cs rest : List Char) : Prop
  | intro {cs₁ cs₂ cs₃ : List Char} (hbegin : MarkIf p.beginAnchor '^' cs cs₁)
      (hroot : p.root.Derives cs₁ cs₂) (hdescendants : Descendant.DerivesAll p.descendants cs₂ cs₃)
      (hend : MarkIf p.endAnchor '$' cs₃ rest)

mutual

/-- A term inside `level` groups and filters. -/
inductive Term.Derives : Nat → Term → List Char → List Char → List Opener → Prop
  | filter {level : Nat} {side : Side} {term : Term} {cs cs₁ cs₂ rest : List Char}
      {os : List Opener} (hside : Skips cs (side.letter :: cs₁)) (hcolon : Skips cs₁ (':' :: cs₂))
      (hterm : Term.Derives (level + 1) term cs₂ rest os) :
      Term.Derives level (.filter side term) cs rest (⟨level + 1, side.letter :: cs₁⟩ :: os)
  | group {level : Nat} {selector : Selector} {cs cs₁ cs₂ rest : List Char}
      {os : List Opener} (hopen : Skips cs ('(' :: cs₁))
      (hselector : Selector.Derives (level + 1) selector cs₁ cs₂ os)
      (hclose : Skips cs₂ (')' :: rest)) :
      Term.Derives level (.group selector) cs rest (⟨level + 1, '(' :: cs₁⟩ :: os)
  | path {level : Nat} {path : Path} {cs rest : List Char} (hpath : path.Derives cs rest) :
      Term.Derives level (.path path) cs rest []

inductive Expression.Derives : Nat → Expression → List Char → List Char → List Opener → Prop
  | intro {level : Nat} {complement : Bool} {term : Term} {cs cs₁ rest : List Char}
      {os : List Opener} (hcomplement : MarkIf complement '-' cs cs₁)
      (hterm : Term.Derives level term cs₁ rest os) :
      Expression.Derives level ⟨complement, term⟩ cs rest os

/-- The operators of a chain, each with the expression to its right. -/
inductive Composition.DerivesChain :
    Nat → List Composition → List Char → List Char → List Opener → Prop
  | nil {level : Nat} {cs : List Char} : Composition.DerivesChain level [] cs cs []
  | cons {level : Nat} {operator : Operator} {operand : Expression} {cs' : List Composition}
      {cs cs₁ cs₂ rest : List Char} {os os' : List Opener}
      (hoperator : Skips cs (operator.char :: cs₁))
      (hoperand : Expression.Derives level operand cs₁ cs₂ os)
      (hchain : Composition.DerivesChain level cs' cs₂ rest os') :
      Composition.DerivesChain level (⟨operator, operand⟩ :: cs') cs rest (os ++ os')

inductive Composite.Derives : Nat → Composite → List Char → List Char → List Opener → Prop
  | intro {level : Nat} {base : Expression} {compositions : List Composition}
      {cs cs₁ rest : List Char} {os os' : List Opener}
      (hbase : Expression.Derives level base cs cs₁ os)
      (hchain : Composition.DerivesChain level compositions cs₁ rest os') :
      Composite.Derives level ⟨base, compositions⟩ cs rest (os ++ os')

/-- The composites behind the first, each with the comma in front of it. -/
inductive Composite.DerivesFurther :
    Nat → List Composite → List Char → List Char → List Opener → Prop
  | nil {level : Nat} {cs : List Char} : Composite.DerivesFurther level [] cs cs []
  | cons {level : Nat} {c : Composite} {cs' : List Composite} {cs cs₁ cs₂ rest : List Char}
      {os os' : List Opener} (hcomma : Skips cs (',' :: cs₁))
      (hcomposite : Composite.Derives level c cs₁ cs₂ os)
      (hfurther : Composite.DerivesFurther level cs' cs₂ rest os') :
      Composite.DerivesFurther level (c :: cs') cs rest (os ++ os')

inductive Selector.Derives : Nat → Selector → List Char → List Char → List Opener → Prop
  | empty {level : Nat} {cs : List Char} : Selector.Derives level ⟨[]⟩ cs cs []
  | composites {level : Nat} {c : Composite} {cs' : List Composite} {cs cs₁ rest : List Char}
      {os os' : List Opener} (hfirst : Composite.Derives level c cs cs₁ os)
      (hfurther : Composite.DerivesFurther level cs' cs₁ rest os') :
      Selector.Derives level ⟨c :: cs'⟩ cs rest (os ++ os')

end

/-- A selector derived from the whole of a text. -/
def Selector.DerivesText (s : Selector) (text : String) (os : List Opener) : Prop :=
  ∃ rest, s.Derives 0 text.toList rest os ∧ Blank rest

/-! ### The openers of a derivation -/

namespace Opener

/-- Inside an opener that does not pass the bound itself, the bound is passed as it is outside. -/
theorem forall_cons_level_ne_iff {n m k : Nat} {os : List Opener} (hn : n ≤ m)
    (h : n + 1 ≤ m → ((∀ o ∈ os, o.level ≠ m + 1) ↔ n + 1 + k ≤ m)) (unread : List Char) :
    (∀ o ∈ (⟨n + 1, unread⟩ : Opener) :: os, o.level ≠ m + 1) ↔ n + (k + 1) ≤ m := by
  rw [List.forall_mem_cons]
  constructor
  · rintro ⟨hne, hos⟩
    have hlt : n + 1 ≤ m := by
      have : n + 1 ≠ m + 1 := hne
      omega
    have := (h hlt).1 hos
    omega
  · intro hle
    refine ⟨?_, (h (by omega)).2 (by omega)⟩
    show n + 1 ≠ m + 1
    omega

/-- A part of a text with its openers: what is left behind it, and that they begin in between, in
the order in which they are listed. -/
structure Within (cs rest : List Char) (os : List Opener) : Prop where
  rest_suffix : rest <:+ cs
  forall_suffix : ∀ o ∈ os, o.unread <:+ cs ∧ rest <:+ o.unread
  ordered : os.Pairwise fun o o' => o'.unread <:+ o.unread

theorem Within.of_suffix {cs rest : List Char} (h : rest <:+ cs) : Within cs rest [] :=
  ⟨h, by simp, .nil⟩

theorem Within.mono {ds cs cs' rest : List Char} {os : List Opener} (h : Within cs cs' os)
    (hcs : cs <:+ ds) (hrest : rest <:+ cs') : Within ds rest os :=
  ⟨hrest.trans (h.rest_suffix.trans hcs), fun o ho =>
    ⟨(h.forall_suffix o ho).1.trans hcs, hrest.trans (h.forall_suffix o ho).2⟩, h.ordered⟩

theorem Within.append {cs cs₁ rest : List Char} {os os' : List Opener} (h : Within cs cs₁ os)
    (h' : Within cs₁ rest os') : Within cs rest (os ++ os') := by
  refine ⟨h'.rest_suffix.trans h.rest_suffix, ?_, ?_⟩
  · rw [List.forall_mem_append]
    exact ⟨(h.mono (List.suffix_refl cs) h'.rest_suffix).forall_suffix,
      (h'.mono h.rest_suffix (List.suffix_refl rest)).forall_suffix⟩
  · rw [List.pairwise_append]
    exact ⟨h.ordered, h'.ordered, fun o ho o' ho' =>
      (h'.forall_suffix o' ho').1.trans (h.forall_suffix o ho).2⟩

/-- The opener that a group or filter begins with comes in front of those inside it. -/
theorem Within.cons {cs start inside rest : List Char} {os : List Opener} {n : Nat}
    (hstart : start <:+ cs) (h : Within inside rest os) (hinside : inside <:+ start) :
    Within cs rest (⟨n, start⟩ :: os) := by
  have hmono := h.mono (hinside.trans hstart) (List.suffix_refl rest)
  refine ⟨hmono.rest_suffix, ?_, ?_⟩
  · rw [List.forall_mem_cons]
    exact ⟨⟨hstart, h.rest_suffix.trans hinside⟩, hmono.forall_suffix⟩
  · rw [List.pairwise_cons]
    exact ⟨fun o ho => (h.forall_suffix o ho).1.trans hinside, h.ordered⟩

/-- The first opener that is listed with a level is the first in the text that has it. -/
theorem Within.suffix_of_find? {cs rest : List Char} {os : List Opener} (h : Within cs rest os)
    {m : Nat} {o : Opener} (ho : os.find? (·.level == m) = some o) :
    ∀ o' ∈ os, o'.level = m → o'.unread <:+ o.unread := by
  obtain ⟨-, before, behind, rfl, hbefore⟩ := List.find?_eq_some_iff_append.1 ho
  have hordered := (List.pairwise_append.1 h.ordered).2.1
  intro o' ho' hlevel
  rcases List.mem_append.1 ho' with ho' | ho'
  · have := hbefore o' ho'
    simp [hlevel] at this
  · rcases List.mem_cons.1 ho' with rfl | ho'
    · exact List.suffix_refl _
    · exact (List.pairwise_cons.1 hordered).1 o' ho'

end Opener

mutual

/-- Levels are nestings: a level just past a bound occurs if and only if the nesting passes it. -/
theorem Term.Derives.forall_level_ne_iff {n : Nat} {t : Term} {cs rest : List Char}
    {os : List Opener} (h : Term.Derives n t cs rest os) : ∀ {m : Nat}, n ≤ m →
      ((∀ o ∈ os, o.level ≠ m + 1) ↔ n + t.nesting ≤ m) := by
  intro m hn
  match h with
  | .filter hside hcolon hterm =>
      exact Opener.forall_cons_level_ne_iff hn (fun hlt => hterm.forall_level_ne_iff hlt) _
  | .group hopen hselector hclose =>
      exact Opener.forall_cons_level_ne_iff hn (fun hlt => hselector.forall_level_ne_iff hlt) _
  | .path hpath => simpa [Term.nesting] using hn

theorem Expression.Derives.forall_level_ne_iff {n : Nat} {e : Expression} {cs rest : List Char}
    {os : List Opener} (h : Expression.Derives n e cs rest os) : ∀ {m : Nat}, n ≤ m →
      ((∀ o ∈ os, o.level ≠ m + 1) ↔ n + e.nesting ≤ m) := by
  intro m hn
  match h with
  | .intro hcomplement hterm => exact hterm.forall_level_ne_iff hn

theorem Composition.DerivesChain.forall_level_ne_iff {n : Nat} {cs' : List Composition}
    {cs rest : List Char} {os : List Opener} (h : Composition.DerivesChain n cs' cs rest os) :
    ∀ {m : Nat}, n ≤ m →
      ((∀ o ∈ os, o.level ≠ m + 1) ↔ n + Composition.chainNesting cs' ≤ m) := by
  intro m hn
  match h with
  | .nil => simpa [Composition.chainNesting] using hn
  | .cons hoperator hoperand hchain =>
      rw [List.forall_mem_append, hoperand.forall_level_ne_iff hn, hchain.forall_level_ne_iff hn,
        Composition.chainNesting, Composition.nesting]
      omega

theorem Composite.Derives.forall_level_ne_iff {n : Nat} {c : Composite} {cs rest : List Char}
    {os : List Opener} (h : Composite.Derives n c cs rest os) : ∀ {m : Nat}, n ≤ m →
      ((∀ o ∈ os, o.level ≠ m + 1) ↔ n + c.nesting ≤ m) := by
  intro m hn
  match h with
  | .intro hbase hchain =>
      rw [List.forall_mem_append, hbase.forall_level_ne_iff hn, hchain.forall_level_ne_iff hn,
        Composite.nesting]
      omega

theorem Composite.DerivesFurther.forall_level_ne_iff {n : Nat} {cs' : List Composite}
    {cs rest : List Char} {os : List Opener} (h : Composite.DerivesFurther n cs' cs rest os) :
    ∀ {m : Nat}, n ≤ m →
      ((∀ o ∈ os, o.level ≠ m + 1) ↔ n + Composite.furtherNesting cs' ≤ m) := by
  intro m hn
  match h with
  | .nil => simpa [Composite.furtherNesting] using hn
  | .cons hcomma hcomposite hfurther =>
      rw [List.forall_mem_append, hcomposite.forall_level_ne_iff hn,
        hfurther.forall_level_ne_iff hn, Composite.furtherNesting]
      omega

theorem Selector.Derives.forall_level_ne_iff {n : Nat} {s : Selector} {cs rest : List Char}
    {os : List Opener} (h : Selector.Derives n s cs rest os) : ∀ {m : Nat}, n ≤ m →
      ((∀ o ∈ os, o.level ≠ m + 1) ↔ n + s.nesting ≤ m) := by
  intro m hn
  match h with
  | .empty => simpa [Selector.nesting, Composite.furtherNesting] using hn
  | .composites hfirst hfurther =>
      rw [List.forall_mem_append, hfirst.forall_level_ne_iff hn,
        hfurther.forall_level_ne_iff hn, Selector.nesting, Composite.furtherNesting]
      omega

end

theorem suffix_of_skips_cons {cs rest : List Char} {c : Char} (h : Skips cs (c :: rest)) :
    rest <:+ cs :=
  (List.suffix_cons c rest).trans h.suffix

theorem MarkIf.suffix {present : Bool} {c : Char} {cs rest : List Char}
    (h : MarkIf present c cs rest) : rest <:+ cs := by
  cases present with
  | true => exact suffix_of_skips_cons h
  | false => exact (h : cs = rest) ▸ List.suffix_refl cs

theorem Name.Derives.suffix {n : Name} {cs rest : List Char} (h : n.Derives cs rest) :
    rest <:+ cs :=
  (List.suffix_append _ rest).trans h.2.1.suffix

theorem Descendant.DerivesAll.suffix {ds : List Descendant} {cs rest : List Char}
    (h : Descendant.DerivesAll ds cs rest) : rest <:+ cs := by
  induction h with
  | nil => exact List.suffix_refl _
  | cons hd _ ih =>
      rcases hd with ⟨cs₁, hmark, hname⟩
      exact ih.trans (hname.suffix.trans hmark.suffix)

theorem Path.Derives.suffix {p : Path} {cs rest : List Char} (h : p.Derives cs rest) :
    rest <:+ cs := by
  rcases h with ⟨hbegin, hroot, hdescendants, hend⟩
  exact hend.suffix.trans (hdescendants.suffix.trans (hroot.suffix.trans hbegin.suffix))

mutual

/-- Every opener of a derivation stands in the text that is derived from. -/
theorem Term.Derives.within {n : Nat} {t : Term} {cs rest : List Char} {os : List Opener}
    (h : Term.Derives n t cs rest os) : Opener.Within cs rest os := by
  match h with
  | .filter hside hcolon hterm =>
      exact .cons hside.suffix hterm.within
        ((suffix_of_skips_cons hcolon).trans (List.suffix_cons _ _))
  | .group hopen hselector hclose =>
      exact .cons hopen.suffix
        (hselector.within.mono (List.suffix_refl _) (suffix_of_skips_cons hclose))
        (List.suffix_cons _ _)
  | .path hpath => exact .of_suffix hpath.suffix

theorem Expression.Derives.within {n : Nat} {e : Expression} {cs rest : List Char}
    {os : List Opener} (h : Expression.Derives n e cs rest os) : Opener.Within cs rest os := by
  match h with
  | .intro hcomplement hterm => exact hterm.within.mono hcomplement.suffix (List.suffix_refl _)

theorem Composition.DerivesChain.within {n : Nat} {cs' : List Composition} {cs rest : List Char}
    {os : List Opener} (h : Composition.DerivesChain n cs' cs rest os) :
    Opener.Within cs rest os := by
  match h with
  | .nil => exact .of_suffix (List.suffix_refl _)
  | .cons hoperator hoperand hchain =>
      exact (hoperand.within.append hchain.within).mono (suffix_of_skips_cons hoperator)
        (List.suffix_refl _)

theorem Composite.Derives.within {n : Nat} {c : Composite} {cs rest : List Char}
    {os : List Opener} (h : Composite.Derives n c cs rest os) : Opener.Within cs rest os := by
  match h with
  | .intro hbase hchain => exact hbase.within.append hchain.within

theorem Composite.DerivesFurther.within {n : Nat} {cs' : List Composite} {cs rest : List Char}
    {os : List Opener} (h : Composite.DerivesFurther n cs' cs rest os) :
    Opener.Within cs rest os := by
  match h with
  | .nil => exact .of_suffix (List.suffix_refl _)
  | .cons hcomma hcomposite hfurther =>
      exact (hcomposite.within.append hfurther.within).mono (suffix_of_skips_cons hcomma)
        (List.suffix_refl _)

theorem Selector.Derives.within {n : Nat} {s : Selector} {cs rest : List Char}
    {os : List Opener} (h : Selector.Derives n s cs rest os) : Opener.Within cs rest os := by
  match h with
  | .empty => exact .of_suffix (List.suffix_refl _)
  | .composites hfirst hfurther => exact hfirst.within.append hfurther.within

end

end Highlight
