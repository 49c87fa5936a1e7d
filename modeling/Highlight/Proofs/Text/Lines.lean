import Highlight.Proofs.Lexeme.Leading
import Highlight.Text.Lines

/-!
# The lines of a text

A text is broken behind every `\n`, every `\r\n` and every lone `\r`, and nowhere else. A line that
is not the last one ends with a break, so a text without breaks is a single line, and it is none of
the earlier lines of any text. Who counts lines by `\n` alone misses those that end with a lone
`\r`, and no others.
-/

namespace Highlight.Text

variable {c : Char} {cs line : List Char} {lines : List (List Char)}

/-- A text in which no line is broken. -/
def Unbroken (cs : List Char) : Prop :=
  ∀ c ∈ cs, c ≠ '\n' ∧ c ≠ '\r'

/-- A line may end so if it is in front of the given text. -/
inductive Break : List Char → List Char → Prop
  | newline (cs : List Char) : Break ['\n'] cs
  | returnNewline (cs : List Char) : Break ['\r', '\n'] cs
  | loneReturn {cs : List Char} : cs.head? ≠ some '\n' → Break ['\r'] cs

/-- The lines of a text, each with its break. What is behind the last break is a line as well. -/
inductive BreaksInto : List Char → List (List Char) → Prop
  | nil : BreaksInto [] []
  | last {line : List Char} : line ≠ [] → Unbroken line → BreaksInto line [line]
  | cons {line ends cs : List Char} {lines : List (List Char)} : Unbroken line → Break ends cs →
      BreaksInto cs lines → BreaksInto (line ++ (ends ++ cs)) ((line ++ ends) :: lines)

/-- The number of `\r` without a `\n` behind. -/
def loneReturns : List Char → Nat
  | [] => 0
  | c :: cs => loneReturns cs + if c = '\r' ∧ cs.head? ≠ some '\n' then 1 else 0

theorem endsLine_eq_true_iff (c : Char) (cs : List Char) :
    endsLine c cs = true ↔ c = '\n' ∨ c = '\r' ∧ cs.head? ≠ some '\n' := by
  simp [endsLine]

theorem breakLines_singleton (c : Char) : breakLines [c] = [[c]] := by
  rw [breakLines]
  split
  · rfl
  · rfl

theorem breakLines_cons_of_endsLine (h : endsLine c cs = true) :
    breakLines (c :: cs) = [c] :: breakLines cs :=
  if_pos h

theorem breakLines_cons_of_not_endsLine (h : endsLine c cs = false)
    (hlines : breakLines cs = line :: lines) : breakLines (c :: cs) = (c :: line) :: lines := by
  rw [breakLines, if_neg (Bool.eq_false_iff.1 h), hlines]

theorem exists_breakLines_cons (c : Char) (cs : List Char) :
    ∃ line lines, breakLines (c :: cs) = line :: lines := by
  apply List.exists_cons_of_ne_nil
  intro h
  have hflatten := flatten_breakLines (c :: cs)
  rw [h] at hflatten
  cases hflatten

theorem breakLines_of_unbroken (h : Unbroken cs) (hcs : cs ≠ []) : breakLines cs = [cs] := by
  induction cs with
  | nil => exact absurd rfl hcs
  | cons c cs ih =>
      obtain ⟨⟨hnewline, hreturn⟩, h⟩ := List.forall_mem_cons.1 h
      cases cs with
      | nil => exact breakLines_singleton c
      | cons d ds =>
          have hends : endsLine c (d :: ds) = false := by simp [endsLine, hnewline, hreturn]
          exact breakLines_cons_of_not_endsLine hends (ih h (List.cons_ne_nil d ds))

theorem Unbroken.cons (hnewline : c ≠ '\n') (hreturn : c ≠ '\r') (h : Unbroken cs) :
    Unbroken (c :: cs) :=
  List.forall_mem_cons.2 ⟨⟨hnewline, hreturn⟩, h⟩

theorem BreaksInto.cons_cons (h : BreaksInto cs (line :: lines)) (hnewline : c ≠ '\n')
    (hreturn : c ≠ '\r') : BreaksInto (c :: cs) ((c :: line) :: lines) := by
  cases h with
  | last _ hline => exact .last (List.cons_ne_nil _ _) (hline.cons hnewline hreturn)
  | cons hline hbreak h => exact .cons (hline.cons hnewline hreturn) hbreak h

theorem Break.breaksInto_cons {ends : List Char} (hbreak : Break ends cs)
    (h : BreaksInto cs lines) : BreaksInto (ends ++ cs) (ends :: lines) :=
  .cons (List.forall_mem_nil _) hbreak h

theorem break_of_endsLine (h : endsLine c cs = true) : Break [c] cs := by
  rcases (endsLine_eq_true_iff c cs).1 h with rfl | ⟨rfl, hhead⟩
  · exact .newline cs
  · exact .loneReturn hhead

/-- Two characters have to be seen at a time, as a `\r` and a `\n` are one break. -/
theorem breaksInto_breakLines : ∀ cs : List Char, BreaksInto cs (breakLines cs)
  | [] => .nil
  | [c] => by
      rw [breakLines_singleton]
      cases hends : endsLine c [] with
      | true => exact (break_of_endsLine hends).breaksInto_cons .nil
      | false =>
          obtain ⟨hnewline, hreturn⟩ : c ≠ '\n' ∧ c ≠ '\r' := by simpa [endsLine] using hends
          exact .last (List.cons_ne_nil c []) (.cons hnewline hreturn (List.forall_mem_nil _))
  | c :: d :: ds => by
      cases hends : endsLine c (d :: ds) with
      | true =>
          rw [breakLines_cons_of_endsLine hends]
          exact (break_of_endsLine hends).breaksInto_cons (breaksInto_breakLines (d :: ds))
      | false =>
          have hnewline : c ≠ '\n' := by
            rintro rfl
            cases hends
          by_cases hreturn : c = '\r'
          · have hhead : d = '\n' := by simpa [endsLine, hreturn] using hends
            rw [hreturn, hhead] at hends ⊢
            rw [breakLines_cons_of_not_endsLine hends (breakLines_cons_of_endsLine rfl)]
            exact (Break.returnNewline ds).breaksInto_cons (breaksInto_breakLines ds)
          · obtain ⟨line, lines, hlines⟩ := exists_breakLines_cons d ds
            have h := breaksInto_breakLines (d :: ds)
            rw [hlines] at h
            rw [breakLines_cons_of_not_endsLine hends hlines]
            exact h.cons_cons hnewline hreturn

/-- A line has no `\n` in it but at its end. -/
theorem BreaksInto.newline_notMem_dropLast (h : BreaksInto cs lines) :
    ∀ line ∈ lines, '\n' ∉ line.dropLast := by
  induction h with
  | nil => exact List.forall_mem_nil _
  | last _ hline =>
      rw [List.forall_mem_singleton]
      exact fun hmem => (hline _ (List.dropLast_subset _ hmem)).1 rfl
  | @cons line ends cs lines hline hbreak _ ih =>
      refine List.forall_mem_cons.2 ⟨?_, ih⟩
      have hmem : '\n' ∉ line := fun hmem => (hline _ hmem).1 rfl
      cases hbreak with
      | newline => simpa [List.dropLast_append] using hmem
      | returnNewline => simpa [List.dropLast_append] using hmem
      | loneReturn => simpa [List.dropLast_append] using hmem

/-- All lines but the last have a break in them. -/
theorem BreaksInto.not_unbroken_of_mem_dropLast (h : BreaksInto cs lines) :
    ∀ line ∈ lines.dropLast, ¬Unbroken line := by
  induction h with
  | nil => exact List.forall_mem_nil _
  | last _ _ => exact List.forall_mem_nil _
  | @cons line ends cs lines hline hbreak _ ih =>
      cases lines with
      | nil => exact List.forall_mem_nil _
      | cons next lines =>
          refine List.forall_mem_cons.2 ⟨?_, ih⟩
          intro h
          have hends (c : Char) (hc : c ∈ ends) := h c (List.mem_append_right line hc)
          cases hbreak with
          | newline => exact (hends '\n' List.mem_cons_self).1 rfl
          | returnNewline => exact (hends '\r' List.mem_cons_self).2 rfl
          | loneReturn => exact (hends '\r' List.mem_cons_self).2 rfl

theorem length_breakLines_cons_cons (c d : Char) (cs : List Char) :
    (breakLines (c :: d :: cs)).length =
      (breakLines (d :: cs)).length + if endsLine c (d :: cs) then 1 else 0 := by
  obtain ⟨line, lines, hlines⟩ := exists_breakLines_cons d cs
  cases hends : endsLine c (d :: cs) with
  | true =>
      rw [breakLines_cons_of_endsLine hends]
      rfl
  | false =>
      rw [breakLines_cons_of_not_endsLine hends hlines, hlines]
      rfl

theorem lineCount_cons_cons (c d : Char) (cs : List Char) :
    lineCount (c :: d :: cs) = lineCount (d :: cs) + if c = '\n' then 1 else 0 := by
  rw [lineCount, lineCount, List.getLast?_cons_cons, List.count_cons (a := '\n') (b := c)]
  simp only [beq_iff_eq]
  omega

/-- A line ends with one kind of break or the other. -/
theorem ite_endsLine (c : Char) (cs : List Char) :
    (if endsLine c cs then 1 else 0) =
      (if c = '\n' then 1 else 0) + if c = '\r' ∧ cs.head? ≠ some '\n' then 1 else 0 := by
  simp only [endsLine_eq_true_iff]
  by_cases hnewline : c = '\n'
  · simp [hnewline]
  · simp [hnewline]

/-- Where the text does not end with a `\r`, the lines that a count by `\n` misses are those that
end with a lone one. -/
theorem length_breakLines (h : cs.getLast? ≠ some '\r') :
    (breakLines cs).length = lineCount cs + loneReturns cs := by
  induction cs with
  | nil => rfl
  | cons c cs ih =>
      cases cs with
      | nil =>
          have hreturn : c ≠ '\r' := fun hc => h (congrArg some hc)
          rw [breakLines_singleton]
          by_cases hnewline : c = '\n'
          · rw [hnewline]
            rfl
          · simp [lineCount, loneReturns, hnewline, hreturn]
      | cons d ds =>
          rw [List.getLast?_cons_cons] at h
          rw [length_breakLines_cons_cons, ih h, ite_endsLine, lineCount_cons_cons, loneReturns]
          exact Nat.add_add_add_comm _ _ _ _

theorem loneReturns_of_unbroken (h : Unbroken cs) : loneReturns cs = 0 := by
  induction cs with
  | nil => rfl
  | cons c cs ih =>
      obtain ⟨⟨-, hreturn⟩, h⟩ := List.forall_mem_cons.1 h
      rw [loneReturns, ih h, if_neg fun hc => hreturn hc.1]

/-! ## The end of a text -/

theorem exists_toList_trimEnd (text : String) :
    ∃ bs, Blank bs ∧ text.toList = (trimEnd text).toList ++ bs := by
  obtain ⟨bs, hbs, heq⟩ := skips_dropBlanks text.toList.reverse
  refine ⟨bs.reverse, fun b hb => hbs b (List.mem_reverse.1 hb), ?_⟩
  rw [trimEnd, String.toList_ofList, ← List.reverse_append, ← heq, List.reverse_reverse]

theorem isBlank_of_getLast?_trimEnd (text : String) :
    ∀ c ∈ (trimEnd text).toList.getLast?, isBlank c = false := by
  intro c hc
  have hhead := List.head?_dropWhile_not isBlank text.toList.reverse
  rw [trimEnd, String.toList_ofList, List.getLast?_reverse, dropBlanks, Option.mem_def] at hc
  rwa [hc] at hhead

end Highlight.Text
