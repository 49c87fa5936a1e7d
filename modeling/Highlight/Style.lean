import Highlight.Color
import Highlight.Selector
import Highlight.Text.Blank
import Std.Data.TreeMap

/-!
# Styles

A style is a rule of a theme: the raw settings found in a theme file, and the selector that decides
where they apply. What the settings come to are `Attributes`, of which a style sets any number. The
fonts are the host's own: it is asked for one by the traits that the font is to have.
-/

namespace Highlight

/-- How text is underlined. -/
inductive Underline
  | single
deriving DecidableEq

/-- What text looks like, as far as it has been settled. -/
structure Attributes (Font : Type) where
  foreground : Option Color
  background : Option Color
  underline : Option Underline
  font : Option Font
deriving DecidableEq

namespace Attributes

variable {Font : Type}

/-- Nothing is settled. -/
def empty : Attributes Font := ⟨none, none, none, none⟩

/-- Lays `b` over `a`: whatever `b` settles wins. -/
def merge (a b : Attributes Font) : Attributes Font where
  foreground := b.foreground <|> a.foreground
  background := b.background <|> a.background
  underline := b.underline <|> a.underline
  font := b.font <|> a.font

theorem empty_merge (a : Attributes Font) : empty.merge a = a := by
  simp [merge, empty]

theorem merge_empty (a : Attributes Font) : a.merge empty = a := by
  simp [merge, empty]

theorem merge_assoc (a b c : Attributes Font) : (a.merge b).merge c = a.merge (b.merge c) := by
  simp [merge, Option.or_assoc]

end Attributes

/-- The raw settings of a style, each under its key. -/
abbrev Settings := Std.TreeMap String String

/-- The host's choice of a font for bold and italic text. -/
abbrev FontChoice (Font : Type) := Bool → Bool → Font

structure Style where
  name : Option String
  /-- Where the style applies. One without a selector applies everywhere. -/
  scope : Option Selector
  settings : Settings

namespace Style

/-- Whether a word occurs among those of a font style. -/
def mentions (fontStyle : String) (flag : String) : Bool :=
  (Text.words fontStyle.toList).contains flag.toList

/-- What one more setting makes of the attributes. Keys of any other name mean nothing. A font style
always asks for a font, so an empty one undoes what an earlier style has asked for. -/
def settle {Font : Type} (font : FontChoice Font) (soFar : Attributes Font) (key value : String) :
    Except ColorError (Attributes Font) :=
  if key = "foreground" then
    (Color.parse value).map fun c => { soFar with foreground := some c }
  else if key = "background" then
    (Color.parse value).map fun c => { soFar with background := some c }
  else if key = "fontStyle" then
    .ok { soFar with
      underline := if mentions value "underline" then some .single else soFar.underline
      font := some (font (mentions value "bold") (mentions value "italic")) }
  else .ok soFar

/-- What the settings come to. They are gone through in the order of their keys, up to the first one
that is at fault. -/
def attributes {Font : Type} (font : FontChoice Font) (s : Style) :
    Except ColorError (Attributes Font) :=
  s.settings.foldlM (settle font) .empty

end Style

end Highlight
