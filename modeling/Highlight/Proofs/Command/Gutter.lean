import Highlight.Proofs.Command.Diff

/-!
# The gutters of a diff

A gutter is made as wide as the number of lines demands, where only `\n` ends a line. The numbers in
it go up to the number of lines that a lone `\r` ends as well. So the gutters line up if every `\r`
is followed by `\n`, and in other texts as long as the lines that were not counted do not lead to
another digit. What is written out for a selector is a single line, and its gutter is wide enough.
-/

namespace Highlight.Command

open Text (Edit breakLines trimEnd lineCount loneReturns)
open Text.Edit (Turns)

/-- How many digits a number has. -/
def digits (n : Nat) : Nat := (Nat.toDigits 10 n).length

theorem digits_pos (n : Nat) : 0 < digits n :=
  Nat.length_toDigits_pos

theorem digits_le_digits {m n : Nat} (h : m ≤ n) : digits m ≤ digits n := by
  rw [digits, Nat.length_toDigits_le_iff (by decide) (digits_pos n)]
  exact h.trans_lt ((Nat.length_toDigits_le_iff (by decide) (digits_pos n)).1 (Nat.le_refl _))

namespace DiffLine

variable {old new : List (List Char)} {edits : List (Edit (List Char))} {oldWidth newWidth : Nat}

/-- No number is wider than its gutter, and the bar behind the gutters is always in the same
column. -/
structure LinesUp (oldWidth newWidth : Nat) (shown : List DiffLine) : Prop where
  left : ∀ l ∈ shown, ∀ n ∈ l.oldNumber, digits n ≤ oldWidth
  right : ∀ l ∈ shown, ∀ n ∈ l.newNumber, digits n ≤ newWidth
  bar : ∀ l ∈ shown, (l.chars oldWidth newWidth).idxOf '|' = oldWidth + newWidth + 2

theorem idxOf_bar (l : DiffLine) (oldWidth newWidth : Nat) :
    (l.chars oldWidth newWidth).idxOf '|' =
      (gutter oldWidth l.oldNumber).length + (gutter newWidth l.newNumber).length + 2 := by
  rw [chars_eq, List.append_assoc, List.idxOf_append_of_notMem (fills_gutter _ _).bar_notMem,
    List.cons_append, List.idxOf_cons_ne _ (by decide),
    List.idxOf_append_of_notMem (fills_gutter _ _).bar_notMem, List.idxOf_cons_ne _ (by decide),
    List.idxOf_cons_self]
  omega

theorem length_gutter {width : Nat} {number : Option Nat} (h : ∀ n ∈ number, digits n ≤ width) :
    (gutter width number).length = width := by
  rw [gutter, List.length_leftpad]
  cases number with
  | none => exact Nat.max_eq_left (Nat.zero_le width)
  | some n => exact Nat.max_eq_left (h n rfl)

/-- The numbers in both gutters, from top to bottom. -/
theorem filterMap_number (h : Turns old new edits) (i j : Nat) :
    (number i j edits).filterMap oldNumber = List.range' i old.length ∧
      (number i j edits).filterMap newNumber = List.range' j new.length := by
  induction h generalizing i j with
  | nil => exact ⟨rfl, rfl⟩
  | keep a h ih =>
      obtain ⟨hold, hnew⟩ := ih (i + 1) (j + 1)
      exact ⟨congrArg (i :: ·) hold, congrArg (j :: ·) hnew⟩
  | delete a h ih =>
      obtain ⟨hold, hnew⟩ := ih (i + 1) j
      exact ⟨congrArg (i :: ·) hold, hnew⟩
  | insert b h ih =>
      obtain ⟨hold, hnew⟩ := ih i (j + 1)
      exact ⟨hold, congrArg (j :: ·) hnew⟩

/-- Where a gutter counts up to `n`, it is the last of its numbers that has to fit. -/
theorem forall_digits_le_iff {shown : List DiffLine} {number? : DiffLine → Option Nat}
    {n width : Nat} (h : shown.filterMap number? = List.range' 1 n) (hwidth : 0 < width) :
    (∀ l ∈ shown, ∀ k ∈ number? l, digits k ≤ width) ↔ digits n ≤ width := by
  have hmem (k : Nat) : (∃ l ∈ shown, number? l = some k) ↔ 1 ≤ k ∧ k < 1 + n := by
    rw [← List.mem_filterMap, h, List.mem_range'_1]
  constructor
  · intro hall
    cases n with
    | zero => exact hwidth
    | succ n =>
        obtain ⟨l, hl, hk⟩ := (hmem (n + 1)).2 ⟨Nat.le_add_left 1 n, by omega⟩
        exact hall l hl (n + 1) hk
  · intro hn l hl k hk
    obtain ⟨-, hlt⟩ := (hmem k).1 ⟨l, hl, hk⟩
    have hle : k ≤ n := by omega
    exact (digits_le_digits hle).trans hn

theorem linesUp_iff (h : Turns old new edits) (hold : 0 < oldWidth) (hnew : 0 < newWidth) :
    LinesUp oldWidth newWidth (number 1 1 edits) ↔
      digits old.length ≤ oldWidth ∧ digits new.length ≤ newWidth := by
  obtain ⟨hleft, hright⟩ := filterMap_number h 1 1
  rw [← forall_digits_le_iff hleft hold, ← forall_digits_le_iff hright hnew]
  constructor
  · exact fun h => ⟨h.left, h.right⟩
  · rintro ⟨hleft, hright⟩
    refine ⟨hleft, hright, fun l hl => ?_⟩
    rw [idxOf_bar, length_gutter (hleft l hl), length_gutter (hright l hl)]

theorem gutterWidth_pos (cs : List Char) : 0 < gutterWidth cs :=
  digits_pos _

/-- A gutter is wide enough for all the lines that were counted. -/
theorem digits_lineCount_le (cs : List Char) : digits (lineCount cs) ≤ gutterWidth cs :=
  digits_le_digits (Nat.le_max_left _ _)

end DiffLine

open DiffLine

variable {files : String → File} {args : List String} {source : Source} {text : String}
  {s : Selector}

theorem length_breakLines_trimEnd (text : String) :
    (breakLines (trimEnd text).toList).length =
      lineCount (trimEnd text).toList + loneReturns (trimEnd text).toList := by
  apply Text.length_breakLines
  intro hlast
  exact absurd (Text.isBlank_of_getLast?_trimEnd text '\r' hlast) (by decide)

theorem length_breakLines_text (hparse : Selector.parse text = .ok s) :
    (breakLines s.text.toList).length = lineCount s.text.toList := by
  have hunbroken := unbroken_text hparse
  rw [Text.length_breakLines, Text.loneReturns_of_unbroken hunbroken, Nat.add_zero]
  intro hlast
  exact (hunbroken '\r' (List.mem_of_getLast? hlast)).2 rfl

/-- The gutters of what is printed for a diff, and of every edit script between the text and what is
written out for it, line up just if the lines that end with a lone `\r` do not make for another
digit, and so they do if there are none. The right gutter is wide enough in any case. -/
theorem gutters_line_up_iff (h : Asks files args ⟨source, .dump true⟩ text)
    (hparse : Selector.parse text = .ok s) :
    (∃ edits, Turns (breakLines (trimEnd text).toList) (breakLines s.text.toList) edits ∧
      run files args = .success
        ((number 1 1 edits).map (printed (trimEnd text).toList s.text.toList))) ∧
    ∀ edits, Turns (breakLines (trimEnd text).toList) (breakLines s.text.toList) edits →
      (LinesUp (gutterWidth (trimEnd text).toList) (gutterWidth s.text.toList)
          (number 1 1 edits) ↔
        digits (lineCount (trimEnd text).toList + loneReturns (trimEnd text).toList) ≤
          gutterWidth (trimEnd text).toList) ∧
      (loneReturns (trimEnd text).toList = 0 →
        LinesUp (gutterWidth (trimEnd text).toList) (gutterWidth s.text.toList)
          (number 1 1 edits)) ∧
      ∀ l ∈ number 1 1 edits, ∀ n ∈ l.newNumber, digits n ≤ gutterWidth s.text.toList := by
  refine ⟨⟨Edit.between _ _, (Edit.isDiff_between _ _).turns, ?_⟩, fun edits hedits => ?_⟩
  · rw [h.run_diff hparse, between]
  · have hright : digits (breakLines s.text.toList).length ≤ gutterWidth s.text.toList := by
      rw [length_breakLines_text hparse]
      exact digits_lineCount_le _
    have hiff := linesUp_iff hedits (gutterWidth_pos (trimEnd text).toList)
      (gutterWidth_pos s.text.toList)
    rw [and_iff_left hright, length_breakLines_trimEnd] at hiff
    refine ⟨hiff, fun hlone => hiff.2 ?_, ?_⟩
    · rw [hlone, Nat.add_zero]
      exact digits_lineCount_le _
    · exact (forall_digits_le_iff (filterMap_number hedits 1 1).2 (gutterWidth_pos _)).2 hright

/-- The ten lines of `\n\n\n\n\n\n\n\n\r\na` have a gutter for two digits. -/
theorem exists_gutters_line_up :
    ∃ (files : String → File) (text : String) (s : Selector) (shown : List DiffLine),
      run files ["ouroboros", "--diff", "--expr=" ++ text] = .success
        (shown.map (printed (trimEnd text).toList s.text.toList)) ∧
      gutterWidth (trimEnd text).toList = 2 ∧
      LinesUp (gutterWidth (trimEnd text).toList) (gutterWidth s.text.toList) shown := by
  let files : String → File := fun _ => .missing
  let text := "\n\n\n\n\n\n\n\n\r\na"
  let s : Selector := ⟨[.ofBase ⟨false, .path (.ofRoot ⟨["a"]⟩)⟩]⟩
  have hparse : Selector.parse text = .ok s := by decide +kernel
  have hwidth : gutterWidth (trimEnd text).toList = 2 := by decide +kernel
  have hlone : loneReturns (trimEnd text).toList = 0 := by decide +kernel
  obtain ⟨⟨edits, hturns, hrun⟩, hshown⟩ := gutters_line_up_iff (asks_diff files text) hparse
  obtain ⟨-, hlinesUp, -⟩ := hshown edits hturns
  exact ⟨files, text, s, number 1 1 edits, hrun, hwidth, hlinesUp hlone⟩

/-- The ten lines of `\r\r\r\r\r\r\r\r\ra` are counted as one, so the bar of the tenth is out of
line. -/
theorem exists_bar_out_of_line :
    ∃ (files : String → File) (args : List String) (source : Source) (text : String)
      (s : Selector),
      Asks files args ⟨source, .dump true⟩ text ∧ Selector.parse text = .ok s ∧
        (between (trimEnd text).toList s.text.toList).map (fun l =>
          (l.oldNumber,
            (l.chars (gutterWidth (trimEnd text).toList)
              (gutterWidth s.text.toList)).idxOf '|')) =
          [(some 1, 4), (some 2, 4), (some 3, 4), (some 4, 4), (some 5, 4), (some 6, 4),
            (some 7, 4), (some 8, 4), (some 9, 4), (some 10, 5)] ∧
        ¬LinesUp (gutterWidth (trimEnd text).toList) (gutterWidth s.text.toList)
          (between (trimEnd text).toList s.text.toList) := by
  let text := "\r\r\r\r\r\r\r\r\ra"
  let s : Selector := ⟨[.ofBase ⟨false, .path (.ofRoot ⟨["a"]⟩)⟩]⟩
  have hparse : Selector.parse text = .ok s := by decide +kernel
  have hdigits : ¬digits (breakLines (trimEnd text).toList).length ≤
      gutterWidth (trimEnd text).toList := by decide +kernel
  refine ⟨fun _ => .missing, _, _, text, s, asks_diff _ text, hparse, by decide +kernel, ?_⟩
  intro hlinesUp
  have hturns := (Edit.isDiff_between (breakLines (trimEnd text).toList)
    (breakLines s.text.toList)).turns
  exact hdigits ((linesUp_iff hturns (gutterWidth_pos _) (gutterWidth_pos _)).1 hlinesUp).1

end Highlight.Command
