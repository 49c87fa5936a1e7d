import Highlight.Selector.Reading

/-!
# Reading selectors

The whole text must be one selector. A text of blanks alone is the universal selector.
-/

namespace Highlight.Selector

def ofLexemes (ls : List Lexeme) : Except Halt Selector :=
  (ls.foldlM Reading.take Reading.start).bind Reading.finish

def ofChars (cs : List Char) : Except Halt Selector :=
  ofLexemes (Lexeme.scan cs)

def parse (text : String) : Except SyntaxError Selector :=
  (ofChars text.toList).mapError (Halt.error text.toList)

end Highlight.Selector
