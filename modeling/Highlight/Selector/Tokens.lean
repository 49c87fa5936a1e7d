import Highlight.Lexeme
import Highlight.Selector

/-!
# Selectors as text

Every node of a selector is written as a sequence of tokens, and tokens are laid out the same way
wherever they stand: a single space between any two, except behind what opens something and in
front of what closes something. The text of a node is therefore fixed by its tokens alone, and so is
its place in the text of a larger node.
-/

namespace Highlight

namespace Token

/-- Tokens that the next one is written close to. -/
def opens (t : Token) : Bool :=
  t == .mark '(' || t == .mark '^'

/-- Tokens that are written close to the one before. -/
def closes (t : Token) : Bool :=
  t == .mark ')' || t == .mark ',' || t == .mark '$'

/-- What is written between two neighbours. -/
def gap (t u : Token) : List Char :=
  if t.opens || u.closes then [] else [' ']

/-- The characters of tokens that follow each other. -/
def layout : List Token → List Char
  | [] => []
  | [t] => t.chars
  | t :: u :: ts => t.chars ++ gap t u ++ layout (u :: ts)

theorem layout_nil : layout [] = [] := rfl

theorem layout_singleton (t : Token) : layout [t] = t.chars := rfl

theorem layout_cons_cons (t u : Token) (ts : List Token) :
    layout (t :: u :: ts) = t.chars ++ gap t u ++ layout (u :: ts) := rfl

end Token

/-- A direct relation is written as a mark, a transitive one not at all. -/
def Relation.tokens : Relation → List Token
  | .direct => [.mark '>']
  | .transitive => []

def Descendant.tokens (d : Descendant) : List Token :=
  d.relation.tokens ++ [.name d.name]

def Path.tokens (p : Path) : List Token :=
  (if p.beginAnchor then [.mark '^'] else []) ++ .name p.root ::
    p.descendants.flatMap Descendant.tokens ++ (if p.endAnchor then [.mark '$'] else [])

mutual

def Term.tokens : Term → List Token
  | .filter side term => .side side :: term.tokens
  | .group selector => .mark '(' :: selector.tokens ++ [.mark ')']
  | .path path => path.tokens

def Expression.tokens : Expression → List Token
  | ⟨complement, term⟩ => if complement then .mark '-' :: term.tokens else term.tokens

def Composition.tokens : Composition → List Token
  | ⟨operator, operand⟩ => .mark operator.char :: operand.tokens

def Composition.chainTokens : List Composition → List Token
  | [] => []
  | c :: cs => c.tokens ++ Composition.chainTokens cs

def Composite.tokens : Composite → List Token
  | ⟨base, compositions⟩ => base.tokens ++ Composition.chainTokens compositions

/-- The composites behind the first, each with the comma in front of it. -/
def Composite.furtherTokens : List Composite → List Token
  | [] => []
  | c :: cs => .mark ',' :: c.tokens ++ Composite.furtherTokens cs

def Selector.tokens : Selector → List Token
  | ⟨[]⟩ => []
  | ⟨c :: cs⟩ => c.tokens ++ Composite.furtherTokens cs

end

/-- The text of tokens. -/
def Token.text (ts : List Token) : String := String.ofList (Token.layout ts)

def Descendant.text (d : Descendant) : String := Token.text d.tokens

def Path.text (p : Path) : String := Token.text p.tokens

def Term.text (t : Term) : String := Token.text t.tokens

def Expression.text (e : Expression) : String := Token.text e.tokens

def Composition.text (c : Composition) : String := Token.text c.tokens

def Composite.text (c : Composite) : String := Token.text c.tokens

def Selector.text (s : Selector) : String := Token.text s.tokens

end Highlight
