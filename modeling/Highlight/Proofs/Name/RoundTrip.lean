import Highlight.Proofs.Except
import Highlight.Proofs.Name.WellFormed

/-!
# Names written and read again

Reading a name takes pieces that are components, so what it gives is well-formed, and a well-formed
name with nothing behind it is read as it stands. The one other name that a text stands for is the
empty name, for which nothing is written. As the pieces are joined by what they were cut at, a name
is read from no text but its own.
-/

namespace Highlight.Name

/-- A name is read if the run of name characters is one of components between dots, and then it is
these components. -/
theorem read_eq_ok_iff {cs rest : List Char} {n : Name} :
    read cs = .ok (n, rest) ↔ (∀ k ∈ pieces cs, Component k) ∧
      n = ⟨(pieces cs).map String.ofList⟩ ∧ rest = cs.dropWhile isNameChar := by
  have hall : (pieces cs).all isComponent = true ↔ ∀ k ∈ pieces cs, Component k := by
    simp only [List.all_eq_true, isComponent_iff]
  rw [read, ← hall]
  split
  · next h => simp [h, eq_comm]
  · next h => simp [h]

theorem wellFormed_of_read {cs rest : List Char} {n : Name} (h : read cs = .ok (n, rest)) :
    n.WellFormed := by
  obtain ⟨hpieces, rfl, -⟩ := read_eq_ok_iff.1 h
  have hne : pieces cs ≠ [] := List.splitOn_ne_nil '.' _
  refine ⟨by simpa using hne, ?_⟩
  intro k hk
  obtain ⟨piece, hpiece, rfl⟩ := List.mem_map.1 hk
  rw [String.toList_ofList]
  exact hpieces piece hpiece

/-- Joined by the dots they were cut at, the components are what was read. -/
theorem eq_append_of_read {cs rest : List Char} {n : Name} (h : read cs = .ok (n, rest)) :
    cs = n.chars ++ rest := by
  obtain ⟨-, rfl, rfl⟩ := read_eq_ok_iff.1 h
  have hpieces : ((pieces cs).map String.ofList).map String.toList = pieces cs := by
    rw [List.map_map, String.toList_comp_ofList, List.map_id]
  rw [chars, hpieces, pieces, List.intercalate_splitOn, List.takeWhile_append_dropWhile]

/-- A text that is one name is empty or is read to its end. -/
theorem ofChars_eq_ok_iff {cs : List Char} {n : Name} :
    ofChars cs = .ok n ↔ (cs = [] ∧ n = ⟨[]⟩) ∨ read cs = .ok (n, []) := by
  cases cs with
  | nil =>
      have hread : read [] = .error ⟨[], .expecting .component⟩ := rfl
      simp [ofChars, hread, eq_comm]
  | cons c cs =>
      rw [ofChars, List.isEmpty_cons]
      cases hread : read (c :: cs) with
      | error halt => simp
      | ok result =>
          rcases result with ⟨m, _ | ⟨d, rest⟩⟩
          · simp
          · simp

/-- A text is only read as the empty name, or as one that is well-formed. -/
theorem eq_empty_or_wellFormed_of_ofChars {cs : List Char} {n : Name} (h : ofChars cs = .ok n) :
    n = ⟨[]⟩ ∨ n.WellFormed := by
  rcases ofChars_eq_ok_iff.1 h with ⟨-, rfl⟩ | hread
  · exact .inl rfl
  · exact .inr (wellFormed_of_read hread)

theorem chars_eq_of_ofChars {cs : List Char} {n : Name} (h : ofChars cs = .ok n) :
    n.chars = cs := by
  rcases ofChars_eq_ok_iff.1 h with ⟨rfl, rfl⟩ | hread
  · rfl
  · rw [eq_append_of_read hread, List.append_nil]

theorem ofChars_chars {n : Name} (h : n.WellFormed) : ofChars n.chars = .ok n := by
  have hread := read_append h endsBefore_nil
  rw [List.append_nil] at hread
  exact ofChars_eq_ok_iff.2 (.inr hread)

theorem parse_ofList_eq_ok_iff {cs : List Char} {n : Name} :
    parse (String.ofList cs) = .ok n ↔ ofChars cs = .ok n := by
  rw [parse, mapError_eq_ok_iff, String.toList_ofList]

/-- A text is read as a name if it is the text of the name and the components are such as can be
read. The empty name has none, and only the empty text is read as it. -/
theorem parse_eq_ok_iff {text : String} {n : Name} :
    parse text = .ok n ↔ n.text = text ∧ ∀ k ∈ n.components, Component k.toList := by
  constructor
  · intro h
    have hread : ofChars text.toList = .ok n := mapError_eq_ok_iff.1 h
    refine ⟨by rw [Name.text, chars_eq_of_ofChars hread, String.ofList_toList], ?_⟩
    rcases eq_empty_or_wellFormed_of_ofChars hread with rfl | hn
    · exact List.forall_mem_nil _
    · exact hn.2
  · rintro ⟨rfl, hn⟩
    rw [Name.text, parse_ofList_eq_ok_iff]
    rcases n with ⟨_ | ⟨k, ks⟩⟩
    · rfl
    · exact ofChars_chars ⟨List.cons_ne_nil k ks, hn⟩

/-- A name that was read is read again from its own text. -/
theorem parse_text_eq_ok {text : String} {n : Name} (h : parse text = .ok n) :
    parse n.text = .ok n :=
  parse_eq_ok_iff.2 ⟨rfl, (parse_eq_ok_iff.1 h).2⟩

end Highlight.Name
