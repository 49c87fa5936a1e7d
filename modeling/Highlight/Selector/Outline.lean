import Highlight.Selector
import Highlight.Text.Outline
import Highlight.Text.Quoted

/-!
# Selectors as outlines

The outline of a selector names every node and every part of it, down to the components of the
names.
-/

namespace Highlight

open Text (Outline)

def Name.outline (n : Name) : Outline :=
  .record "ScopeName" [⟨"components", .list (n.components.map fun c => .leaf (Text.quoted c))⟩]

def Side.outline (s : Side) : Outline :=
  .leaf (match s with
    | .left => "Left"
    | .right => "Right"
    | .both => "Both")

def Relation.outline (r : Relation) : Outline :=
  .leaf (match r with
    | .direct => "Direct"
    | .transitive => "Transitive")

def Operator.outline (o : Operator) : Outline :=
  .leaf (match o with
    | .union => "Union"
    | .intersection => "Intersection"
    | .difference => "Difference")

/-- A truth value as a leaf. -/
def flagOutline (b : Bool) : Outline := .leaf (if b then "true" else "false")

def Descendant.outline (d : Descendant) : Outline :=
  .record "Descendant" [⟨"relation", d.relation.outline⟩, ⟨"name", d.name.outline⟩]

def Path.outline (p : Path) : Outline :=
  .record "Path" [⟨"begin_anchor", flagOutline p.beginAnchor⟩,
    ⟨"end_anchor", flagOutline p.endAnchor⟩, ⟨"root", p.root.outline⟩,
    ⟨"descendants", .list (p.descendants.map Descendant.outline)⟩]

mutual

def Term.outline : Term → Outline
  | .filter side term =>
      .wrapped "Filter" (.record "Filter" [⟨"side", side.outline⟩, ⟨"term", term.outline⟩])
  | .group selector => .wrapped "Group" (.record "Group" [⟨"selector", selector.outline⟩])
  | .path path => .wrapped "Path" path.outline

def Expression.outline : Expression → Outline
  | ⟨complement, term⟩ =>
      .record "Expression" [⟨"complement", flagOutline complement⟩, ⟨"term", term.outline⟩]

def Composition.outline : Composition → Outline
  | ⟨operator, operand⟩ =>
      .record "Composition" [⟨"operator", operator.outline⟩, ⟨"operand", operand.outline⟩]

def Composition.outlines : List Composition → List Outline
  | [] => []
  | c :: cs => c.outline :: Composition.outlines cs

def Composite.outline : Composite → Outline
  | ⟨base, compositions⟩ =>
      .record "Composite" [⟨"base", base.outline⟩,
        ⟨"compositions", .list (Composition.outlines compositions)⟩]

def Composite.outlines : List Composite → List Outline
  | [] => []
  | c :: cs => c.outline :: Composite.outlines cs

def Selector.outline : Selector → Outline
  | ⟨composites⟩ => .record "Selector" [⟨"composites", .list (Composite.outlines composites)⟩]

end

end Highlight
