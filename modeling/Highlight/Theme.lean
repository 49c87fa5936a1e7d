import Highlight.Log
import Highlight.Selector.Matching
import Highlight.Selector.Reader
import Highlight.Style

/-!
# Themes

A theme is a list of styles, of which later ones take precedence. It is loaded from styles whose
selectors are still text. A text that is no selector only costs its own style: the style is left
out and reported, and all others are kept in order.
-/

namespace Highlight

/-- A style as found in a theme file. -/
structure RawStyle where
  name : Option String
  scope : Option String
  settings : Settings

/-- A style left out of a theme, with its place among the raw styles and the error of its
selector. -/
structure Rejection where
  index : Nat
  name : Option String
  error : SyntaxError
deriving DecidableEq

structure Theme where
  metadata : Metadata
  styles : List Style

/-- Whether a style applies to a context. -/
def Style.applies (s : Style) (context : Context) : Bool :=
  s.scope.all fun selector => selector.selects context

/-- What comes of loading a theme. -/
structure LoadedTheme where
  theme : Theme
  rejected : List Rejection
  log : List Event

/-- How far the loading of a theme has come. -/
structure Loading where
  kept : Array Style
  rejected : Array Rejection
  log : Array Event

namespace Loading

def start : Loading := ⟨#[], #[], #[]⟩

def keep (l : Loading) (s : Style) : Loading := { l with kept := l.kept.push s }

def reject (l : Loading) (r : Rejection) : Loading := { l with rejected := l.rejected.push r }

def tell (l : Loading) (e : Event) : Loading := { l with log := l.log.push e }

/-- Goes on with the next style. It is kept unless its selector is malformed, and the log is told of
nothing but its selector. -/
def step (l : Loading) (index : Nat) (raw : RawStyle) : Loading :=
  match raw.scope with
  | none => l.keep ⟨raw.name, none, raw.settings⟩
  | some text =>
      let result := Selector.parse text
      let l := l.tell (.ofParse text result)
      match result with
      | .ok selector => l.keep ⟨raw.name, some selector, raw.settings⟩
      | .error error => (l.tell (.skipped index raw.name error)).reject ⟨index, raw.name, error⟩

/-- Ends with what was kept. -/
def finish (l : Loading) (metadata : Metadata) : LoadedTheme :=
  let l := l.tell (.loaded l.kept.size l.rejected.size metadata)
  ⟨⟨metadata, l.kept.toList⟩, l.rejected.toList, l.log.toList⟩

end Loading

namespace Theme

/-- Loads a theme from the styles of a theme file, one after the other. -/
def load (metadata : Metadata) (raws : List RawStyle) : LoadedTheme :=
  (raws.zipIdx.foldl (fun l (raw, index) => l.step index raw) Loading.start).finish metadata

def name (t : Theme) : Option String := t.metadata.name

/-- The styles that apply to a context, in order of precedence. -/
def applicable (t : Theme) (context : Context) : List Style :=
  t.styles.filter fun s => s.applies context

/-- The attributes of all styles that apply, laid over each other. -/
def attributes {Font : Type} (t : Theme) (context : Context) (font : FontChoice Font) :
    Except ColorError (Attributes Font) :=
  (t.applicable context).foldlM (fun soFar s => soFar.merge <$> s.attributes font) .empty

/-- The attributes where nothing is to the left. -/
def attributesAt {Font : Type} (t : Theme) (scope : Scope) (font : FontChoice Font) :
    Except ColorError (Attributes Font) :=
  t.attributes ⟨none, scope⟩ font

end Theme

end Highlight
