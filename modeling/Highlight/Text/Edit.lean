/-!
# Edit scripts

An edit script turns one list into another: it goes through both from the front and says of each
item whether it is kept, deleted or inserted. `Edit.between` finds a script with as few deletions
and insertions as there can be. Items that agree are kept as soon as possible, and where deleting
is as good as inserting, the deletion comes first.

The scripts for all suffixes of both lists are found together. A row holds those for one suffix of
the old list, with one script for each suffix of the new list, the longest first.
-/

namespace Highlight.Text

inductive Edit (α : Type)
  | keep (a : α)
  | delete (a : α)
  | insert (a : α)
deriving DecidableEq

namespace Edit

variable {α : Type}

/-- A script with the number of its deletions and insertions. -/
structure Script (α : Type) where
  cost : Nat
  edits : List (Edit α)

/-- The scripts of a row: the one for the whole new list, and those for its proper suffixes. -/
abbrev Row (α : Type) := Script α × List (Script α)

/-- The row behind the old list, where all that is left of the new one is inserted. -/
def lastRow : List α → Row α
  | [] => (⟨0, []⟩, [])
  | b :: bs =>
      let (script, scripts) := lastRow bs
      (⟨script.cost + 1, .insert b :: script.edits⟩, script :: scripts)

/-- The script for lists that begin with `a` and `b`, from the scripts where both, only `a` and
only `b` have been dealt with. -/
def extend [DecidableEq α] (a b : α) (both onlyOld onlyNew : Script α) : Script α :=
  if a = b then ⟨both.cost, .keep a :: both.edits⟩
  else if onlyOld.cost ≤ onlyNew.cost then ⟨onlyOld.cost + 1, .delete a :: onlyOld.edits⟩
  else ⟨onlyNew.cost + 1, .insert b :: onlyNew.edits⟩

/-- The row in front of another one, where the old list begins with `a`. -/
def rowBefore [DecidableEq α] (a : α) : List α → Row α → Row α
  | b :: bs, (below, diagonal :: scripts) =>
      let (right, row) := rowBefore a bs (diagonal, scripts)
      (extend a b diagonal below right, right :: row)
  | _, (below, _) => (⟨below.cost + 1, .delete a :: below.edits⟩, [])

/-- A shortest edit script that turns `old` into `new`. -/
def between [DecidableEq α] (old new : List α) : List (Edit α) :=
  (old.foldr (fun a row => rowBefore a new row) (lastRow new)).1.edits

end Edit

end Highlight.Text
