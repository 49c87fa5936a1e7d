/-!
# Blanks

Blanks are the characters with the Unicode property White_Space. They separate the words of a
text and mean nothing else, so a reader skips them wherever a new word may start.

`words` cuts a text into its maximal runs of other characters. Everything about it follows from
`words_append_blank`: a text splits at every blank.
-/

namespace Highlight.Text

/-- Whether a character has the property White_Space. -/
def isBlank (c : Char) : Bool :=
  let n := c.toNat
  (0x9 ≤ n && n ≤ 0xd) || n == 0x20 || n == 0x85 || n == 0xa0 || n == 0x1680 ||
    (0x2000 ≤ n && n ≤ 0x200a) || n == 0x2028 || n == 0x2029 || n == 0x202f || n == 0x205f ||
    n == 0x3000

/-- A text without the blanks it starts with. -/
def dropBlanks (cs : List Char) : List Char :=
  cs.dropWhile isBlank

/-- A text without the blanks it ends with. -/
def trimEnd (text : String) : String :=
  String.ofList (dropBlanks text.toList.reverse).reverse

/-- The maximal runs of characters that are not blank, in order. -/
def words (cs : List Char) : List (List Char) :=
  (cs.splitOnP isBlank).filter (!·.isEmpty)

theorem words_nil : words [] = [] := rfl

theorem words_append_blank {c : Char} (h : isBlank c = true) (before after : List Char) :
    words (before ++ c :: after) = words before ++ words after := by
  simp [words, List.splitOnP_append_cons, h]

end Highlight.Text
