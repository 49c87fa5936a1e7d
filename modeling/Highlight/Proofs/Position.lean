import Highlight.Proofs.Text.Boundary
import Highlight.SyntaxError
import Mathlib.Data.List.Induction
import Mathlib.Data.List.TakeWhile

/-!
# Positions of errors

The position behind some characters has as many lines as there are line breaks among them, and one
more, and its column is told by what is behind the last of these. So it can be found again by the
number of bytes. A halt is told in the text it was not read to the end of: its error stands at the
position behind what was read, and names the first character that was not.
-/

namespace Highlight

namespace Text

theorem lastLine_append_of_mem {ds : List Char} (h : '\n' ∈ ds) (cs : List Char) :
    lastLine (cs ++ ds) = lastLine ds := by
  have hshort : (ds.reverse.takeWhile (· != '\n')).length ≠ ds.reverse.length := by
    intro hlength
    have hall := List.takeWhile_eq_self_iff.1 ((List.takeWhile_prefix _).eq_of_length hlength)
    simpa using hall '\n' (List.mem_reverse.2 h)
  rw [lastLine, lastLine, List.reverse_append, List.takeWhile_append, if_neg hshort]

theorem lastLine_append_of_notMem {ds : List Char} (h : '\n' ∉ ds) (cs : List Char) :
    lastLine (cs ++ ds) = lastLine cs ++ ds := by
  have hall : ∀ c ∈ ds.reverse, (c != '\n') = true := by
    intro c hc
    simp only [bne_iff_ne]
    rintro rfl
    exact h (List.mem_reverse.1 hc)
  rw [lastLine, lastLine, List.reverse_append, List.takeWhile_append_of_pos hall,
    List.reverse_append, List.reverse_reverse]

end Text

namespace Position

theorem offset_foldl_advance (cs : List Char) (p : Position) :
    (cs.foldl advance p).offset = p.offset + Text.byteLength cs := by
  induction cs generalizing p with
  | nil => rfl
  | cons c cs ih =>
      have hoffset : (p.advance c).offset = p.offset + c.utf8Size := by
        unfold advance
        split <;> rfl
      rw [List.foldl_cons, ih, hoffset, Text.byteLength_cons, Nat.add_assoc]

/-- The offset behind some characters is the number of bytes they take. -/
theorem offset_after (cs : List Char) : (after cs).offset = Text.byteLength cs := by
  rw [after, offset_foldl_advance, start, Nat.zero_add]

theorem after_append_singleton (cs : List Char) (c : Char) :
    after (cs ++ [c]) = (after cs).advance c := by
  rw [after_append]
  rfl

theorem line_after (cs : List Char) : (after cs).line = cs.count '\n' + 1 := by
  induction cs using List.reverseRecOn with
  | nil => rfl
  | append_singleton cs c ih =>
      rw [after_append_singleton, advance, List.count_append]
      by_cases hc : c = '\n'
      · subst hc
        rw [if_pos rfl, List.count_singleton_self, ← ih]
      · rw [if_neg hc, List.count_singleton]
        simp [hc, ih]

theorem column_after (cs : List Char) : (after cs).column = (Text.lastLine cs).length + 1 := by
  induction cs using List.reverseRecOn with
  | nil => rfl
  | append_singleton cs c ih =>
      rw [after_append_singleton, advance]
      by_cases hc : c = '\n'
      · subst hc
        rw [if_pos rfl, Text.lastLine_append_of_mem List.mem_cons_self]
        rfl
      · have hmem : '\n' ∉ [c] := by simpa using Ne.symm hc
        rw [if_neg hc, Text.lastLine_append_of_notMem hmem, List.length_append]
        simp [ih]

/-- A place in a text is located by the number of bytes before it. -/
theorem locate_byteLength {text : String} {before rest : List Char}
    (h : text.toList = before ++ rest) :
    locate text (Text.byteLength before) = after before := by
  have hmin : min (Text.byteLength before) (Text.byteLength (before ++ rest)) =
      Text.byteLength before := by
    rw [Text.byteLength_append]
    exact Nat.min_eq_left (Nat.le_add_right _ _)
  simp only [locate, h, hmin, Text.takeBytes?_byteLength, Option.getD_some]
  rw [← offset_after, ← line_after, ← column_after]

end Position

/-- What a halt in front of `rest` finds fault with. -/
def Reason.fault (reason : Reason) (rest : List Char) : Fault :=
  match reason with
  | .expecting expected => .unexpected rest.head? expected
  | .tooDeep => .tooDeep

theorem Halt.error_append (before rest : List Char) (reason : Reason) :
    Halt.error (before ++ rest) ⟨rest, reason⟩ =
      ⟨Position.after before, reason.fault rest⟩ := by
  have htake : (before ++ rest).take ((before ++ rest).length - rest.length) = before := by
    rw [List.length_append, Nat.add_sub_cancel, List.take_left]
  simp only [Halt.error, htake]
  cases reason with
  | expecting expected => rfl
  | tooDeep => rfl

end Highlight
