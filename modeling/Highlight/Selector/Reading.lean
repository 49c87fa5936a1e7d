import Highlight.Lexeme
import Highlight.Selector

/-!
# Selectors half read

A `Reading` is what is known of a selector after some of its lexemes: a frame for the selector being
read, a frame for each group around it, and the phase, which says what is to come next. One lexeme
is taken at a time and none is looked at twice, so what a reading does depends on the lexemes before
it only through what it has made of them.

The phase alone decides what a lexeme means. A hyphen is a complement where a term is due and an
operator behind a complete term; the side of a filter is a side where a term is due, and elsewhere a
name that ends where its colon stands.
-/

namespace Highlight

/-- What has been read of one selector, up to where its next term goes: the composites already
complete, the chain the term continues and the operator in between, whether the term is
complemented, and the sides it is filtered by, outermost first. -/
structure Frame where
  composites : List Composite
  chain : Option (Composite × Operator)
  complement : Bool
  sides : List Side

namespace Frame

/-- The frame of a selector nothing of which has been read. -/
def fresh : Frame := ⟨[], none, false, []⟩

def isFresh (f : Frame) : Bool :=
  f.composites.isEmpty && f.chain.isNone && !f.complement && f.sides.isEmpty

/-- The number of groups and filters that a selector inside these frames is in. -/
def level : List Frame → Nat
  | [] => 0
  | f :: outer => f.sides.length + 1 + level outer

/-- The expression that a term completes. -/
def expression (f : Frame) (t : Term) : Expression :=
  ⟨f.complement, f.sides.foldr Term.filter t⟩

/-- The chain that a term continues or begins. -/
def composite (f : Frame) (t : Term) : Composite :=
  match f.chain with
  | none => .ofBase (f.expression t)
  | some (chain, operator) => chain.append operator (f.expression t)

/-- The selector whose last term this is. -/
def selector (f : Frame) (t : Term) : Selector :=
  ⟨f.composites ++ [f.composite t]⟩

/-- The frame behind a term and an operator. -/
def afterOperator (f : Frame) (t : Term) (operator : Operator) : Frame :=
  ⟨f.composites, some (f.composite t, operator), false, []⟩

/-- The frame behind a term and a comma. -/
def afterComma (f : Frame) (t : Term) : Frame :=
  ⟨f.composites ++ [f.composite t], none, false, []⟩

end Frame

/-- What comes next: a term, the root of an anchored path, the name of a direct descendant, or,
behind a term that could be complete, whatever may follow it. -/
inductive Phase
  | term
  | root
  | child (path : Path)
  | done (term : Term)

structure Reading where
  frame : Frame
  /-- The frames of the groups that are open around the selector, innermost first. -/
  outer : List Frame
  phase : Phase

namespace Reading

def start : Reading := ⟨.fresh, [], .term⟩

/-- The number of groups and filters around the next term. -/
def depth (r : Reading) : Nat :=
  r.frame.sides.length + Frame.level r.outer

/-- What the selector being read would have to be followed by in the end. -/
def closing (r : Reading) : Expected :=
  if r.outer.isEmpty then .endOfSelector else .closeParen

/-- Ends the innermost group at the parenthesis `l`. -/
def close (r : Reading) (s : Selector) (l : Lexeme) : Except Halt Reading :=
  match r.outer with
  | [] => .error ⟨l.start, .expecting .endOfSelector⟩
  | f :: outer => .ok ⟨f, outer, .done (.group s)⟩

/-- A lexeme where a term is due. -/
def takeTerm (r : Reading) (l : Lexeme) : Except Halt Reading :=
  match l.token with
  | .name n => .ok { r with phase := .done (.path (.ofRoot n)) }
  | .broken _ => .error ⟨l.turn, .expecting .component⟩
  | .side side =>
      if maxNesting ≤ r.depth then .error ⟨l.start, .tooDeep⟩
      else .ok { r with frame := { r.frame with sides := r.frame.sides ++ [side] } }
  | .mark c =>
      if c = '(' then
        if maxNesting ≤ r.depth then .error ⟨l.start, .tooDeep⟩
        else .ok ⟨.fresh, r.frame :: r.outer, .term⟩
      else if c = '^' then .ok { r with phase := .root }
      else if c = '-' ∧ r.frame.complement = false ∧ r.frame.sides.isEmpty then
        .ok { r with frame := { r.frame with complement := true } }
      else if c = ')' ∧ r.frame.isFresh then r.close .universal l
      else .error ⟨l.start, .expecting .term⟩

/-- A lexeme where a path goes on with a name. -/
def takeName (r : Reading) (path : Name → Path) (l : Lexeme) : Except Halt Reading :=
  match l.token with
  | .name n => .ok { r with phase := .done (.path (path n)) }
  | .broken _ => .error ⟨l.turn, .expecting .component⟩
  | .side _ => .error ⟨l.turn, .expecting r.closing⟩
  | .mark _ => .error ⟨l.start, .expecting .component⟩

/-- A lexeme behind the term `t`, which it cannot be part of. -/
def takeAfter (r : Reading) (t : Term) (l : Lexeme) : Except Halt Reading :=
  match l.token with
  | .mark c =>
      match Operator.ofChar? c with
      | some operator => .ok { r with frame := r.frame.afterOperator t operator, phase := .term }
      | none =>
          if c = ',' then .ok { r with frame := r.frame.afterComma t, phase := .term }
          else if c = ')' then r.close (r.frame.selector t) l
          else .error ⟨l.start, .expecting r.closing⟩
  | _ => .error ⟨l.start, .expecting r.closing⟩

/-- A lexeme behind a path, which may still be part of it. -/
def takePath (r : Reading) (p : Path) (l : Lexeme) : Except Halt Reading :=
  if p.endAnchor then r.takeAfter (.path p) l
  else if l.token = .mark '>' then .ok { r with phase := .child p }
  else if l.token = .mark '$' then .ok { r with phase := .done (.path p.anchorEnd) }
  else
    match l.token with
    | .mark _ => r.takeAfter (.path p) l
    | _ => r.takeName (p.append .transitive) l

/-- The reading after one more lexeme. -/
def take (r : Reading) (l : Lexeme) : Except Halt Reading :=
  match r.phase with
  | .term => r.takeTerm l
  | .root => r.takeName (fun n => (Path.ofRoot n).anchorBegin) l
  | .child p => r.takeName (p.append .direct) l
  | .done (.path p) => r.takePath p l
  | .done t => r.takeAfter t l

/-- The selector, if nothing follows. -/
def finish (r : Reading) : Except Halt Selector :=
  match r.phase with
  | .term =>
      if r.frame.isFresh = false then .error ⟨[], .expecting .term⟩
      else if r.outer.isEmpty then .ok .universal
      else .error ⟨[], .expecting .closeParen⟩
  | .root | .child _ => .error ⟨[], .expecting .component⟩
  | .done t =>
      if r.outer.isEmpty then .ok (r.frame.selector t)
      else .error ⟨[], .expecting .closeParen⟩

end Reading

end Highlight
