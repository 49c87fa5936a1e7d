import Highlight.Lexeme

/-!
# Reading scopes

A scope is written as its names, separated by blanks. Since a name goes on as long as it can, no
two names ever follow each other without a blank, and a text is a scope exactly when all of its
lexemes are names.
-/

namespace Highlight.Scope

def ofChars (cs : List Char) : Except Halt Scope :=
  ((Lexeme.scan cs).mapM Lexeme.name).map Scope.mk

def parse (text : String) : Except SyntaxError Scope :=
  (ofChars text.toList).mapError (Halt.error text.toList)

end Highlight.Scope
