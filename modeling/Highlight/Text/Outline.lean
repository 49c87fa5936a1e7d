/-!
# Outlines

An outline shows a tree of records in full: every field and every item stands on lines of its own,
indented by four columns from what it belongs to and followed by a comma.
-/

namespace Highlight.Text

mutual

inductive Outline
  | leaf (text : String)
  | list (items : List Outline)
  | record (name : String) (fields : List Field)
  /-- A name with a single item in parentheses. -/
  | wrapped (name : String) (item : Outline)

structure Field where
  key : String
  value : Outline

end

namespace Outline

/-- The lines of a member of something else. -/
def member (lines : List String) : List String :=
  (lines.dropLast ++ [lines.getLast?.getD "" ++ ","]).map ("    " ++ ·)

/-- Puts a text in front of the first line. -/
def labelled (label : String) : List String → List String
  | [] => [label]
  | line :: lines => (label ++ line) :: lines

end Outline

mutual

def Outline.lines : Outline → List String
  | .leaf text => [text]
  | .list [] => ["[]"]
  | .list (item :: items) =>
      "[" :: (Outline.member item.lines ++ Outline.itemLines items) ++ ["]"]
  | .record name fields => (name ++ " \x7b") :: Outline.fieldLines fields ++ ["\x7d"]
  | .wrapped name item => (name ++ "(") :: Outline.member item.lines ++ [")"]

def Outline.itemLines : List Outline → List String
  | [] => []
  | item :: items => Outline.member item.lines ++ Outline.itemLines items

def Field.lines : Field → List String
  | ⟨key, value⟩ => Outline.member (Outline.labelled (key ++ ": ") value.lines)

def Outline.fieldLines : List Field → List String
  | [] => []
  | field :: fields => field.lines ++ Outline.fieldLines fields

end

def Outline.text (o : Outline) : String := "\n".intercalate o.lines

end Highlight.Text
