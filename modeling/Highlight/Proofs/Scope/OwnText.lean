import Highlight.Proofs.Scope.Following
import Highlight.Proofs.Selector.Combined

/-!
# The text of a scope as a selector

A scope is written as its names with spaces in between, and this is also how the path of its names
is written. So the text of a scope can be read as a selector, which selects the scope. Written with
anchors and with `>` between the names, the path asks for a scope of just as many names, each of
which refines the one it is compared with.
-/

namespace Highlight

open Token (layout layout_cons_cons)

namespace Token

theorem layout_name_name (n m : Name) (ts : List Token) :
    layout (name n :: name m :: ts) = n.chars ++ [' '] ++ layout (name m :: ts) := rfl

theorem layout_name_child (n m : Name) (ts : List Token) :
    layout (name n :: mark '>' :: name m :: ts) =
      n.chars ++ [' ', '>', ' '] ++ layout (name m :: ts) := by
  simp [layout_cons_cons, chars, gap, opens, closes]

theorem layout_name_end (n : Name) : layout [name n, mark '$'] = n.chars ++ ['$'] := by
  simp [layout_cons_cons, layout_singleton, chars, gap, opens, closes]

/-- Names behind each other are laid out as a scope is written. -/
theorem layout_names (n : Name) (ns : List Name) :
    layout ((n :: ns).map name) = List.intercalate [' '] ((n :: ns).map Name.chars) := by
  induction ns generalizing n with
  | nil =>
      rw [List.map_singleton, List.map_singleton, List.intercalate_singleton, layout_singleton,
        chars]
  | cons m ns ih =>
      rw [List.map_cons, List.map_cons, layout_name_name, ← List.map_cons, ih]
      exact List.intercalate_cons_cons.symm

/-- Direct descendants are laid out with `>` between them, and the end close behind them. -/
theorem layout_children (n : Name) (ns : List Name) :
    layout (name n :: (ns.flatMap fun m => [mark '>', name m]) ++ [mark '$']) =
      List.intercalate [' ', '>', ' '] ((n :: ns).map Name.chars) ++ ['$'] := by
  induction ns generalizing n with
  | nil =>
      rw [List.map_singleton, List.intercalate_singleton]
      exact layout_name_end n
  | cons m ns ih =>
      simp only [List.flatMap_cons, List.cons_append, List.nil_append] at ih ⊢
      rw [layout_name_child, ih, ← List.append_assoc]
      exact congrArg (· ++ ['$']) List.intercalate_cons_cons.symm

end Token

namespace Path

theorem tokens_loose (n : Name) (ns : List Name) :
    (loose n ns).tokens = (n :: ns).map Token.name := by
  simp [tokens, loose, Descendant.tokens, Relation.tokens, List.flatMap_map,
    ← List.map_eq_flatMap]

theorem tokens_strict (n : Name) (ns : List Name) :
    (strict n ns).tokens =
      Token.mark '^' :: Token.name n ::
        (ns.flatMap fun m => [Token.mark '>', Token.name m]) ++ [Token.mark '$'] := by
  simp [tokens, strict, Descendant.tokens, Relation.tokens, List.flatMap_map]

theorem text_loose (n : Name) (ns : List Name) : (loose n ns).text = Scope.text ⟨n :: ns⟩ := by
  rw [text, Token.text, tokens_loose, Token.layout_names]
  rfl

theorem text_strict (n : Name) (ns : List Name) :
    (strict n ns).text = "^" ++ " > ".intercalate ((n :: ns).map Name.text) ++ "$" := by
  have hchars : String.toList ∘ Name.text = Name.chars := by
    funext m
    exact String.toList_ofList
  rw [← String.toList_inj, text, Token.text, String.toList_ofList, tokens_strict,
    List.cons_append, List.cons_append, layout_cons_cons, ← List.cons_append,
    Token.layout_children, String.toList_append, String.toList_append, String.toList_intercalate,
    List.map_map, hchars]
  rfl

theorem names_loose (n : Name) (ns : List Name) : (loose n ns).names = n :: ns := by
  simp [names, loose, Function.comp_def]

theorem names_strict (n : Name) (ns : List Name) : (strict n ns).names = n :: ns := by
  simp [names, strict, Function.comp_def]

end Path

namespace Selector

/-- The selector of a path alone. -/
def ofPath (p : Path) : Selector := ofComposite (.ofBase ⟨false, .path p⟩)

theorem text_ofPath (p : Path) : (ofPath p).text = p.text := by
  rw [text, ofPath, tokens_ofComposite, Composite.tokens_ofBase]
  rfl

theorem selects_ofPath (p : Path) (context : Context) :
    (ofPath p).selects context = p.selects context := by
  rw [ofPath, selects_ofComposite, Composite.selects_ofBase, Expression.selects, Term.selects,
    Bool.bne_false]

/-- A path with well-formed names is read from its own text. -/
theorem parse_text_path {p : Path} (h : ∀ n ∈ p.names, n.WellFormed) :
    parse p.text = .ok (ofPath p) := by
  have hnames : (ofPath p).names = p.names := by
    simp [ofPath, ofComposite, Composite.ofBase, Selector.names, Composite.furtherNames,
      Composite.names, Composition.chainNames, Expression.names, Term.names]
  rw [← text_ofPath]
  apply WellFormed.parse_text
  · rwa [WellFormed, hnames]
  · rw [ofPath, nesting_ofComposite, Composite.nesting_ofBase]
    exact Nat.zero_le maxNesting

end Selector

namespace Scope

open Selector (ofPath)

/-- The text of a scope is read as the path of its names, which selects the scope wherever it
stands. Tied to both ends, the path selects just the scopes that refine it name by name. -/
theorem selects_of_text (n : Name) (ns : List Name) (h : ∀ m ∈ n :: ns, m.WellFormed) :
    (Selector.parse (Scope.text ⟨n :: ns⟩) =
        .ok (ofPath ⟨false, false, n, ns.map (Descendant.mk .transitive)⟩) ∧
      ∀ left, (ofPath ⟨false, false, n, ns.map (Descendant.mk .transitive)⟩).selects
        ⟨left, ⟨n :: ns⟩⟩ = true) ∧
    Selector.Denotes ("^" ++ " > ".intercalate ((n :: ns).map Name.text) ++ "$") fun context =>
      List.Forall₂ (fun m p => m.refines p = true) context.main.names (n :: ns) := by
  have hne : ∀ m ∈ n :: ns, m.isEmpty = false := fun m hm => (h m hm).isEmpty_eq_false
  refine ⟨⟨?_, ?_⟩, ofPath (.strict n ns), ?_, ?_⟩
  · rw [← Path.text_loose]
    apply Selector.parse_text_path
    rwa [Path.names_loose]
  · intro left
    rw [Selector.selects_ofPath]
    exact Path.selects_loose_self hne left
  · rw [← Path.text_strict]
    apply Selector.parse_text_path
    rwa [Path.names_strict]
  · intro context
    rw [Selector.selects_ofPath]
    exact Path.selects_strict_iff hne context

theorem exists_selects_of_text_side_letters :
    ∃ n ns, (∀ m ∈ n :: ns, m.WellFormed) ∧
      (Selector.parse "L a-.b * L" =
          .ok (ofPath ⟨false, false, n, ns.map (Descendant.mk .transitive)⟩) ∧
        ∀ left, (ofPath ⟨false, false, n, ns.map (Descendant.mk .transitive)⟩).selects
          ⟨left, ⟨n :: ns⟩⟩ = true) ∧
      Selector.Denotes "^L > a-.b > * > L$" fun context =>
        List.Forall₂ (fun m p => m.refines p = true) context.main.names (n :: ns) := by
  let ns : List Name := [⟨["a-", "b"]⟩, ⟨["*"]⟩, ⟨["L"]⟩]
  have h : ∀ m ∈ ⟨["L"]⟩ :: ns, m.WellFormed := by decide
  have htext : Scope.text ⟨⟨["L"]⟩ :: ns⟩ = "L a-.b * L" := by rfl
  have hstrict : "^" ++ " > ".intercalate ((⟨["L"]⟩ :: ns).map Name.text) ++ "$" =
      "^L > a-.b > * > L$" := by rfl
  refine ⟨⟨["L"]⟩, ns, h, ?_⟩
  rw [← htext, ← hstrict]
  exact selects_of_text ⟨["L"]⟩ ns h

end Scope

end Highlight
