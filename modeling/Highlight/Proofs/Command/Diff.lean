import Highlight.Proofs.Command.PrintedLine
import Highlight.Proofs.Command.SelfCheck
import Highlight.Proofs.Selector.Spacing
import Highlight.Proofs.Text.Edit
import Highlight.Proofs.Text.Lines

/-!
# What a diff shows

The diff of a text and of what is written out for it leaves nothing out, and all of it can be read
off what is printed. What is written out is a single line, so the diff is this line at the very end,
and before it the lines of the text, all of them deleted. Only the last line of the text may be
kept: the others have a break in them. And if it is kept, it has all the tokens of the text, so that
the lines before it are blank.
-/

namespace Highlight.Command

open Text (Edit breakLines trimEnd withoutBlanks Unbroken)
open Text.Edit (Turns IsDiff)

/-- What is printed for a line is all of it, but for the `\n` that ends the line that is printed. -/
def PrintedLine.Carries (l : PrintedLine) (line : List Char) : Prop :=
  '\n' ∉ l.text ∧ (line = l.text ∨ line = l.text ++ ['\n'])

namespace DiffLine

variable {old new : List (List Char)} {edits : List (Edit (List Char))} {line : List Char}

theorem withoutNewline_of_notMem (h : '\n' ∉ line) : withoutNewline line = line := by
  have hdrop : line.reverse.dropWhile (· == '\n') = line.reverse := by
    cases hline : line.reverse with
    | nil => rfl
    | cons c cs =>
        have hc : c ∈ line := List.mem_reverse.1 (hline ▸ List.mem_cons_self)
        have hnewline : c ≠ '\n' := fun heq => h (heq ▸ hc)
        simp [hnewline]
  rw [withoutNewline, hdrop, List.reverse_reverse]

theorem withoutNewline_append_newline (h : '\n' ∉ line) :
    withoutNewline (line ++ ['\n']) = line := by
  have hdrop : withoutNewline (line ++ ['\n']) = withoutNewline line := by
    simp [withoutNewline]
  rw [hdrop, withoutNewline_of_notMem h]

theorem carries_toPrinted (l : DiffLine) (h : '\n' ∉ l.line.dropLast) :
    l.toPrinted.Carries l.line := by
  have htext : l.toPrinted.text = withoutNewline l.line := rfl
  rw [PrintedLine.Carries, htext]
  rcases List.eq_nil_or_concat' l.line with hline | ⟨front, last, hline⟩
  · rw [hline]
    exact ⟨List.not_mem_nil, .inl rfl⟩
  · rw [hline] at h ⊢
    rw [List.dropLast_concat] at h
    by_cases hlast : last = '\n'
    · rw [hlast, withoutNewline_append_newline h]
      exact ⟨h, .inr rfl⟩
    · have hnewline : '\n' ∉ front ++ [last] := by
        rw [List.mem_append, List.mem_singleton, not_or]
        exact ⟨h, fun heq => hlast heq.symm⟩
      rw [withoutNewline_of_notMem hnewline]
      exact ⟨hnewline, .inl rfl⟩

/-- The lines of the old text are numbered in order, whatever is inserted between them. -/
theorem forall₂_number_old (h : Turns old new edits) (hold : ∀ line ∈ old, '\n' ∉ line.dropLast)
    (i j : Nat) :
    List.Forall₂ (fun l p => l.Carries p.1 ∧ l.left = some p.2)
      (((number i j edits).map toPrinted).filter fun l => l.sign = ' ' ∨ l.sign = '-')
      (old.zipIdx i) := by
  induction h generalizing i j with
  | nil => exact .nil
  | keep a h ih =>
      obtain ⟨ha, hold⟩ := List.forall_mem_cons.1 hold
      exact .cons ⟨carries_toPrinted ⟨some i, some j, .keep a⟩ ha, rfl⟩ (ih hold (i + 1) (j + 1))
  | delete a h ih =>
      obtain ⟨ha, hold⟩ := List.forall_mem_cons.1 hold
      exact .cons ⟨carries_toPrinted ⟨some i, none, .delete a⟩ ha, rfl⟩ (ih hold (i + 1) j)
  | insert b h ih => exact ih hold i (j + 1)

theorem number_map_delete_append (i j : Nat) (lines : List (List Char))
    (edits : List (Edit (List Char))) :
    number i j (lines.map .delete ++ edits) =
      (lines.zipIdx i).map (fun p => ⟨some p.2, none, .delete p.1⟩) ++
        number (i + lines.length) j edits := by
  induction lines generalizing i with
  | nil => rfl
  | cons line lines ih =>
      rw [List.map_cons, List.cons_append, number, ih, List.zipIdx_cons, List.map_cons,
        List.cons_append, List.length_cons, Nat.add_right_comm i 1, Nat.add_assoc i]

/-- What a diff shows of a text, which has these lines if the blanks at its end are left out, and of
a dump: each line with its number in the left gutter, and at the end, but nowhere else, the dump
with its number in the right one. The last line is shown together with the dump if they are the
same. -/
structure ShowsAll (text : List Char) (lines : List (List Char)) (dump : List Char)
    (shown : List PrintedLine) : Prop where
  complete : ∃ trimmed blanks, text = trimmed ++ blanks ∧ Text.Blank blanks ∧
    (∀ c ∈ trimmed.getLast?, Text.isBlank c = false) ∧ Text.BreaksInto trimmed lines
  old : List.Forall₂ (fun l p => l.Carries p.1 ∧ l.left = some p.2)
    (shown.filter fun l => l.sign = ' ' ∨ l.sign = '-') (lines.zipIdx 1)
  new : ∃ front last, shown = front ++ [last] ∧
    (∀ l ∈ front, l.sign = '-' ∧ l.right = none) ∧
    (last.sign = ' ' ∨ last.sign = '+') ∧ last.right = some 1 ∧ last.text = dump ∧
    (last.sign = ' ' ↔ lines.getLast? = some dump)
  blank : lines.getLast? = some dump → ∀ line ∈ lines.dropLast, Text.Blank line

/-- Where the last line is the dump, the lines before it have only the blanks that the dump
lacks. -/
theorem blank_of_getLast?_breakLines {text dump line : List Char}
    (hblanks : withoutBlanks text = withoutBlanks dump)
    (hlast : (breakLines text).getLast? = some dump) (hline : line ∈ (breakLines text).dropLast) :
    Text.Blank line := by
  obtain ⟨front, hfront⟩ := List.getLast?_eq_some_iff.1 hlast
  rw [hfront, List.dropLast_concat] at hline
  have htext : text = front.flatten ++ dump := by
    rw [← Text.flatten_breakLines text, hfront, List.flatten_append, List.flatten_singleton]
  rw [htext, Text.withoutBlanks_append, List.append_left_eq_self, withoutBlanks,
    List.filter_eq_nil_iff] at hblanks
  intro c hc
  simpa using hblanks c (List.mem_flatten_of_mem hline hc)

/-- A diff against a dump that is none of the inner lines comes down to deletions and the dump. -/
theorem exists_front_last {dump : List Char} (h : IsDiff old [dump] edits)
    (hinner : dump ∉ old.dropLast) (hdump : '\n' ∉ dump) :
    ∃ front last, (number 1 1 edits).map toPrinted = front ++ [last] ∧
      (∀ l ∈ front, l.sign = '-' ∧ l.right = none) ∧
      (last.sign = ' ' ∨ last.sign = '+') ∧ last.right = some 1 ∧ last.text = dump ∧
      (last.sign = ' ' ↔ old.getLast? = some dump) := by
  have hdeleted : ∀ lines : List (List Char),
      ∀ l ∈ ((lines.zipIdx 1).map fun p => DiffLine.mk (some p.2) none (.delete p.1)).map toPrinted,
        l.sign = '-' ∧ l.right = none :=
    fun lines => List.forall_mem_map.2 (List.forall_mem_map.2 fun _ _ => ⟨rfl, rfl⟩)
  have htext : withoutNewline dump = dump := withoutNewline_of_notMem hdump
  rcases h.eq_of_singleton hinner with ⟨hlast, rfl⟩ | ⟨hlast, rfl⟩
  · rw [number_map_delete_append, List.map_append]
    exact ⟨_, _, rfl, hdeleted _, .inl rfl, rfl, htext, fun _ => hlast, fun _ => rfl⟩
  · rw [number_map_delete_append, List.map_append]
    exact ⟨_, _, rfl, hdeleted _, .inr rfl, rfl, htext, nofun, fun h => absurd h hlast⟩

theorem showsAll_of_isDiff {text : String} {dump : List Char}
    (h : IsDiff (breakLines (trimEnd text).toList) [dump] edits) (hdump : Unbroken dump)
    (hblanks : withoutBlanks (trimEnd text).toList = withoutBlanks dump) :
    ShowsAll text.toList (breakLines (trimEnd text).toList) dump
      ((number 1 1 edits).map toPrinted) := by
  have hlines := Text.breaksInto_breakLines (trimEnd text).toList
  obtain ⟨blanks, hblank, htext⟩ := Text.exists_toList_trimEnd text
  have hinner : dump ∉ (breakLines (trimEnd text).toList).dropLast :=
    fun hmem => hlines.not_unbroken_of_mem_dropLast dump hmem hdump
  exact
    { complete := ⟨_, blanks, htext, hblank, Text.isBlank_of_getLast?_trimEnd text, hlines⟩
      old := forall₂_number_old h.turns hlines.newline_notMem_dropLast 1 1
      new := exists_front_last h hinner fun hmem => (hdump _ hmem).1 rfl
      blank := fun hlast line hline => blank_of_getLast?_breakLines hblanks hlast hline }

end DiffLine

variable {files : String → File} {args : List String} {source : Source} {text : String}
  {s : Selector}

theorem withoutBlanks_trimEnd (text : String) :
    withoutBlanks (trimEnd text).toList = withoutBlanks text.toList := by
  obtain ⟨bs, hbs, heq⟩ := Text.exists_toList_trimEnd text
  rw [heq, Text.withoutBlanks_append, hbs.withoutBlanks_eq_nil, List.append_nil]

/-- What is written out for a selector has no blanks but spaces, so it is on one line. -/
theorem unbroken_text (hparse : Selector.parse text = .ok s) : Unbroken s.text.toList := by
  have hspace := (Selector.singlySpaced_text hparse).eq_space
  intro c hc
  constructor
  · rintro rfl
    exact absurd (hspace _ hc rfl) (by decide)
  · rintro rfl
    exact absurd (hspace _ hc rfl) (by decide)

theorem text_ne_nil (hparse : Selector.parse text = .ok s) (hs : s.isEmpty = false) :
    s.text.toList ≠ [] := by
  intro hnil
  have hempty : Selector.parse "" = .ok .universal := by decide +kernel
  have hagain := parse_text_again hparse
  rw [String.toList_eq_nil_iff.1 hnil, hempty] at hagain
  rw [← Except.ok.inj hagain] at hs
  cases hs

theorem Asks.run_diff (h : Asks files args ⟨source, .dump true⟩ text)
    (hparse : Selector.parse text = .ok s) :
    run files args = .success
      ((DiffLine.between (trimEnd text).toList s.text.toList).map
        (DiffLine.printed (trimEnd text).toList s.text.toList)) := by
  have hanswer : Request.answer files ⟨source, .dump true⟩ =
      .ok (.success (diff (trimEnd text) s.text)) := by
    rw [Request.answer, h.parse_source, hparse]
    rfl
  simp only [run, h.request, hanswer]
  rfl

/-- Every text can be given as an expression to be diffed. -/
theorem asks_diff (files : String → File) (text : String) :
    Asks files ["ouroboros", "--diff", "--expr=" ++ text] ⟨.expression text, .dump true⟩ text := by
  have hread : Arguments.empty.read none ["--diff", "--expr=" ++ text] =
      some ⟨some text, none, none, none, true⟩ := by
    have hdiff : Arguments.Word.ofString "--diff" = .diff := rfl
    simp only [Arguments.read, hdiff, Arguments.ofString_expr]
    rfl
  refine ⟨?_, rfl⟩
  rw [Request.ofArguments, hread]
  rfl

/-- With the option for a diff, what is printed for a selector that is not empty is a diff of its
text and of what is written out for it. Whichever diff of these is printed, its lines can be read in
one way only, and show both of them completely. -/
theorem diff_shows_all (h : Asks files args ⟨source, .dump true⟩ text)
    (hparse : Selector.parse text = .ok s) (hs : s.isEmpty = false) :
    (∃ edits, IsDiff (breakLines (trimEnd text).toList) (breakLines s.text.toList) edits ∧
      run files args =
        ⟨0, (DiffLine.number 1 1 edits).map
          (DiffLine.printed (trimEnd text).toList s.text.toList), []⟩) ∧
    ∀ edits, IsDiff (breakLines (trimEnd text).toList) (breakLines s.text.toList) edits →
      ∃ shown,
        PrintedLine.ReadAs
          ((DiffLine.number 1 1 edits).map
            (DiffLine.printed (trimEnd text).toList s.text.toList)) shown ∧
        DiffLine.ShowsAll text.toList (breakLines (trimEnd text).toList) s.text.toList shown := by
  have hdump := unbroken_text hparse
  constructor
  · refine ⟨Edit.between _ _, Edit.isDiff_between _ _, ?_⟩
    rw [h.run_diff hparse, DiffLine.between, Outcome.success]
  · intro edits hedits
    rw [Text.breakLines_of_unbroken hdump (text_ne_nil hparse hs)] at hedits
    refine ⟨_, DiffLine.readAs_printed _ _ _, DiffLine.showsAll_of_isDiff hedits hdump ?_⟩
    rw [withoutBlanks_trimEnd, Selector.withoutBlanks_text hparse]

/-- Of the text `\n \r\na, b\n` the line breaks at the end are not shown. Its last line is kept, as
it is written out just so, and the two lines before it are blank. -/
theorem exists_diff_shows_all :
    ∃ (files : String → File) (text : String) (s : Selector) (printed : List String)
      (shown : List PrintedLine),
      run files ["ouroboros", "--diff", "--expr=" ++ text] = ⟨0, printed, []⟩ ∧
        printed =
          ["\x1b[31m1   |-\x1b[0m", "\x1b[31m2   |- \r\x1b[0m", "\x1b[2m3 1 | a, b\x1b[0m"] ∧
        PrintedLine.ReadAs printed shown ∧
        breakLines (trimEnd text).toList = [['\n'], [' ', '\r', '\n'], s.text.toList] ∧
        DiffLine.ShowsAll text.toList (breakLines (trimEnd text).toList) s.text.toList shown := by
  let files : String → File := fun _ => .missing
  let text := "\n \r\na, b\n"
  let s : Selector := ⟨[.ofBase ⟨false, .path (.ofRoot ⟨["a"]⟩)⟩,
    .ofBase ⟨false, .path (.ofRoot ⟨["b"]⟩)⟩]⟩
  have hparse : Selector.parse text = .ok s := by decide +kernel
  have hlines : breakLines (trimEnd text).toList =
      [['\n'], [' ', '\r', '\n'], s.text.toList] := by decide +kernel
  have hprinted : run files ["ouroboros", "--diff", "--expr=" ++ text] =
      ⟨0, ["\x1b[31m1   |-\x1b[0m", "\x1b[31m2   |- \r\x1b[0m", "\x1b[2m3 1 | a, b\x1b[0m"],
        []⟩ := by
    rw [(asks_diff files text).run_diff hparse]
    decide +kernel
  obtain ⟨⟨edits, hdiff, hrun⟩, hshows⟩ := diff_shows_all (asks_diff files text) hparse rfl
  obtain ⟨shown, hread, hall⟩ := hshows edits hdiff
  obtain ⟨-, heq, -⟩ := Outcome.mk.inj (hprinted.symm.trans hrun)
  rw [← heq] at hread
  exact ⟨files, text, s, _, shown, hprinted, rfl, hread, hlines, hall⟩

end Highlight.Command
