import Highlight.Proofs.Position

/-!
# Lines and columns as coordinates

The line of a position is told by the line breaks before it, and the column by the characters behind
the last of them. So a place further on in a text has a later line, or a later column in the same
line, and a text that is put behind another one is located from where that one ends.
-/

namespace Highlight

namespace Text

/-- An offset falls between two characters of a text or on one of its ends, so that the text can be
cut there. -/
def IsBoundary (cs : List Char) (n : Nat) : Prop := ∃ before, takeBytes? cs n = some before

end Text

namespace Position

/-- The line and the column, of which the line counts first. -/
def place (p : Position) : Nat × Nat := (p.line, p.column)

/-- Further on in a text, the place is a later one. -/
theorem place_after_append (cs : List Char) {ds : List Char} (h : ds ≠ []) :
    Prod.Lex (· < ·) (· < ·) (after cs).place (after (cs ++ ds)).place := by
  rw [Prod.lex_def]
  simp only [place, line_after, column_after, List.count_append]
  by_cases hmem : '\n' ∈ ds
  · have := List.count_pos_iff.2 hmem
    left
    omega
  · have := List.length_pos_iff.2 h
    rw [List.count_eq_zero_of_not_mem hmem, Text.lastLine_append_of_notMem hmem,
      List.length_append]
    right
    omega

/-- Behind another text, lines go on and so does the column, up to the first line break. -/
theorem line_after_append (cs ds : List Char) :
    (after (cs ++ ds)).line = (after cs).line + (after ds).line - 1 := by
  rw [line_after, line_after, line_after, List.count_append]
  omega

theorem column_after_append (cs ds : List Char) :
    (after (cs ++ ds)).column =
      if '\n' ∈ ds then (after ds).column else (after cs).column + (after ds).column - 1 := by
  rw [column_after, column_after, column_after]
  split
  · next hmem => rw [Text.lastLine_append_of_mem hmem]
  · next hmem =>
      have hds : Text.lastLine ds = ds := Text.lastLine_append_of_notMem hmem []
      rw [Text.lastLine_append_of_notMem hmem, List.length_append, hds]
      omega

section Locate

variable {text : String} {o o₁ o₂ : Nat} {before : List Char}

theorem locate_of_takeBytes? (h : Text.takeBytes? text.toList o = some before) :
    locate text o = after before := by
  obtain ⟨rest, htext, rfl⟩ := Text.exists_append_of_takeBytes? h
  exact locate_byteLength htext

theorem locate_of_byteLength_le (h : Text.byteLength text.toList ≤ o) :
    locate text o = locate text (Text.byteLength text.toList) := by
  simp only [locate, Nat.min_eq_right h, Nat.min_self]

theorem place_locate_lt (h₁ : Text.IsBoundary text.toList o₁) (h₂ : Text.IsBoundary text.toList o₂)
    (hlt : o₁ < o₂) :
    Prod.Lex (· < ·) (· < ·) (locate text o₁).place (locate text o₂).place := by
  obtain ⟨before₁, hbefore₁⟩ := h₁
  obtain ⟨before₂, hbefore₂⟩ := h₂
  rw [locate_of_takeBytes? hbefore₁, locate_of_takeBytes? hbefore₂]
  obtain ⟨rest₁, htext₁, rfl⟩ := Text.exists_append_of_takeBytes? hbefore₁
  obtain ⟨rest₂, htext₂, rfl⟩ := Text.exists_append_of_takeBytes? hbefore₂
  rcases List.append_eq_append_iff.1 (htext₁.symm.trans htext₂) with
    ⟨ds, rfl, -⟩ | ⟨ds, rfl, -⟩
  · refine place_after_append before₁ ?_
    rintro rfl
    rw [List.append_nil] at hlt
    exact Nat.lt_irrefl _ hlt
  · rw [Text.byteLength_append] at hlt
    omega

/-- Places are in the order of their offsets, so a place is that of one offset only. -/
theorem eq_of_place_locate_eq (h₁ : Text.IsBoundary text.toList o₁)
    (h₂ : Text.IsBoundary text.toList o₂)
    (hplace : (locate text o₁).place = (locate text o₂).place) : o₁ = o₂ := by
  rcases Nat.lt_trichotomy o₁ o₂ with hlt | heq | hgt
  · have hlex := place_locate_lt h₁ h₂ hlt
    rw [hplace, Prod.lex_def] at hlex
    omega
  · exact heq
  · have hlex := place_locate_lt h₂ h₁ hgt
    rw [hplace, Prod.lex_def] at hlex
    omega

theorem locate_append {a b : String} (h : Text.takeBytes? b.toList o = some before) :
    locate (a ++ b) (Text.byteLength a.toList + o) = after (a.toList ++ before) ∧
      locate a (Text.byteLength a.toList) = after a.toList ∧ locate b o = after before := by
  obtain ⟨rest, hb, rfl⟩ := Text.exists_append_of_takeBytes? h
  refine ⟨?_, locate_byteLength (List.append_nil _).symm, locate_byteLength hb⟩
  rw [← Text.byteLength_append]
  exact locate_byteLength (by rw [String.toList_append, hb, List.append_assoc])

end Locate

/-- Lines and columns are coordinates of a text: they grow with the offset, so they determine it.
Of two texts put together, the second has the coordinates that it has on its own, counted from where
the first one ends. Past the end there are no others. -/
theorem locate_faithful :
    (∀ text o₁ o₂, Text.IsBoundary text.toList o₁ → Text.IsBoundary text.toList o₂ →
      (o₁ < o₂ → Prod.Lex (· < ·) (· < ·) (locate text o₁).place (locate text o₂).place) ∧
      ((locate text o₁).place = (locate text o₂).place → o₁ = o₂)) ∧
    (∀ (a b : String) o before, Text.takeBytes? b.toList o = some before →
      (locate (a ++ b) (Text.byteLength a.toList + o)).line =
        (locate a (Text.byteLength a.toList)).line + (locate b o).line - 1 ∧
      (locate (a ++ b) (Text.byteLength a.toList + o)).column =
        if '\n' ∈ before then (locate b o).column
        else (locate a (Text.byteLength a.toList)).column + (locate b o).column - 1) ∧
    ∀ text o, Text.byteLength text.toList ≤ o →
      locate text o = locate text (Text.byteLength text.toList) := by
  refine ⟨fun text o₁ o₂ h₁ h₂ => ⟨place_locate_lt h₁ h₂, eq_of_place_locate_eq h₁ h₂⟩, ?_,
    fun _ _ => locate_of_byteLength_le⟩
  intro a b o before h
  obtain ⟨happend, ha, hb⟩ := locate_append (a := a) h
  rw [happend, ha, hb]
  exact ⟨line_after_append _ _, column_after_append _ _⟩

/-- Two characters of several bytes around a line break, once in one text and once in two. The
offset 1 is no boundary, since it falls into the first of them. -/
theorem exists_locate_faithful :
    (Text.IsBoundary "é\n日b".toList 3 ∧ Text.IsBoundary "é\n日b".toList 6 ∧
      ¬ Text.IsBoundary "é\n日b".toList 1) ∧
    ((locate "é\n日b" 3).place = (2, 1) ∧ (locate "é\n日b" 6).place = (2, 2) ∧
      Prod.Lex (· < ·) (· < ·) (locate "é\n日b" 3).place (locate "é\n日b" 6).place) ∧
    (Text.takeBytes? "\n日b".toList 4 = some ['\n', '日'] ∧
      (locate ("é" ++ "\n日b") (Text.byteLength "é".toList + 4)).line =
        (locate "é" (Text.byteLength "é".toList)).line + (locate "\n日b" 4).line - 1 ∧
      (locate ("é" ++ "\n日b") (Text.byteLength "é".toList + 4)).column = 2) ∧
    (Text.byteLength "é\n日b".toList ≤ 9 ∧ locate "é\n日b" 9 = ⟨7, 2, 3⟩) := by
  obtain ⟨horder, happend, hend⟩ := locate_faithful
  have hthree : Text.IsBoundary "é\n日b".toList 3 := ⟨['é', '\n'], by decide +kernel⟩
  have hsix : Text.IsBoundary "é\n日b".toList 6 := ⟨['é', '\n', '日'], by decide +kernel⟩
  have htake : Text.takeBytes? "\n日b".toList 4 = some ['\n', '日'] := by decide +kernel
  have hlong : Text.byteLength "é\n日b".toList ≤ 9 := by decide +kernel
  refine ⟨⟨hthree, hsix, ?_⟩, ⟨by decide +kernel, by decide +kernel,
    (horder _ _ _ hthree hsix).1 (by decide)⟩, ⟨htake, (happend _ _ _ _ htake).1, ?_⟩, hlong, ?_⟩
  · rintro ⟨before, hbefore⟩
    rw [show Text.takeBytes? "é\n日b".toList 1 = none by decide +kernel] at hbefore
    cases hbefore
  · rw [(happend _ _ _ _ htake).2]
    decide +kernel
  · rw [hend _ _ hlong]
    decide +kernel

end Position

end Highlight
