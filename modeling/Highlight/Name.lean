/-!
# Scope names

A scope name is a dotted sequence of components, outermost first: `string.quoted.double`. A name
used as a pattern is satisfied by every name it is a prefix of, and its wildcard component `*`
stands in for any single component. The wildcard counts on the pattern's side only, so the
relation is not symmetric even between names of equal length.
-/

namespace Highlight

/-- A scope name. Nothing is asked of the components here: a name that was not read from a text may
have empty ones, or none at all. -/
structure Name where
  components : List String
deriving DecidableEq

namespace Name

/-- The component that stands in for any single component. -/
def wildcard : String := "*"

def length (n : Name) : Nat := n.components.length

def isEmpty (n : Name) : Bool := n.components.isEmpty

/-- The characters of a name, its components joined by dots. -/
def chars (n : Name) : List Char :=
  List.intercalate ['.'] (n.components.map String.toList)

def text (n : Name) : String := String.ofList n.chars

/-- Whether the pattern components `ps` agree, one by one, with the first of the components. -/
def covers : List String → List String → Bool
  | [], _ => true
  | _ :: _, [] => false
  | p :: ps, c :: cs => (p == c || p == wildcard) && covers ps cs

theorem covers_nil (cs : List String) : covers [] cs = true := rfl

theorem covers_cons_nil (p : String) (ps : List String) : covers (p :: ps) [] = false := rfl

theorem covers_cons_cons (p c : String) (ps cs : List String) :
    covers (p :: ps) (c :: cs) = ((p == c || p == wildcard) && covers ps cs) := rfl

/-- Whether `n` is at least as specific as the pattern `p`: every component of `p` is the component
of `n` at the same place, or a wildcard. -/
def isPrefix (p n : Name) : Bool := covers p.components n.components

def refines (n p : Name) : Bool := p.isPrefix n

/-- Takes the pattern `p` off the front of `n`, if `n` refines it. Answers whether it does, with
the name that is left. -/
def removePrefix (n p : Name) : Bool × Name :=
  if n.refines p then (true, ⟨n.components.drop p.length⟩) else (false, n)

end Name

end Highlight
