import Highlight.Proofs.Lexeme.Leading
import Mathlib.Data.List.Basic

/-!
# Where the words of a text stand

`words` lists the words of a text and forgets where they were. `IsWord before w after` keeps that:
`w` is a maximal run of characters that are not blank, between what is before it and what is after
it. Every text that is not blank starts, behind its blanks, with a word, and the list is cut at each
of its words as the text is.
-/

namespace Highlight.Text

/-- A run of characters that are not blank, with no such character next to it on either side. -/
structure IsWord (before w after : List Char) : Prop where
  ne_nil : w ≠ []
  not_blank : ∀ c ∈ w, isBlank c = false
  blank_before : ∀ c ∈ before.getLast?, isBlank c = true
  blank_after : ∀ c ∈ after.head?, isBlank c = true

theorem words_cons_blank {c : Char} (h : isBlank c = true) (cs : List Char) :
    words (c :: cs) = words cs := by
  rw [← List.nil_append (c :: cs), words_append_blank h, words_nil, List.nil_append]

theorem Skips.words_eq {cs start : List Char} (h : Skips cs start) : words cs = words start := by
  rcases h with ⟨bs, hbs, rfl⟩
  induction bs with
  | nil => rfl
  | cons b bs ih =>
      rw [List.cons_append, words_cons_blank (hbs b List.mem_cons_self)]
      exact ih fun d hd => hbs d (List.mem_cons_of_mem b hd)

theorem words_of_forall {w : List Char} (hne : w ≠ []) (hw : ∀ c ∈ w, isBlank c = false) :
    words w = [w] := by
  have hsplit : w.splitOnP isBlank = [w] :=
    List.splitOnP_eq_singleton fun c hc => by simp [hw c hc]
  rw [words, hsplit]
  simp [hne]

/-- Behind its blanks, a text that is not blank starts with a word. -/
theorem blank_or_isWord (cs : List Char) :
    Blank cs ∨ ∃ bs w after, cs = bs ++ (w ++ after) ∧ Blank bs ∧ IsWord bs w after := by
  rcases blank_or_skips cs with hblank | ⟨c, ds, ⟨bs, hbs, rfl⟩, hc⟩
  · exact .inl hblank
  · refine .inr ⟨bs, (c :: ds).takeWhile fun d => !isBlank d,
      (c :: ds).dropWhile fun d => !isBlank d, by rw [List.takeWhile_append_dropWhile], hbs,
      ?_, ?_, ?_, ?_⟩
    · simp [hc]
    · intro d hd
      simpa using List.all_eq_true.1 List.all_takeWhile d hd
    · intro b hb
      exact hbs b (List.mem_of_getLast? hb)
    · intro d hd
      have := List.head?_dropWhile_not (fun d => !isBlank d) (c :: ds)
      rw [Option.mem_def.1 hd] at this
      simpa using this

namespace IsWord

variable {front before w after back : List Char}

theorem words_append (h : IsWord before w after) : words (w ++ after) = w :: words after := by
  cases after with
  | nil => rw [List.append_nil, words_of_forall h.ne_nil h.not_blank, words_nil]
  | cons c cs =>
      have hc : isBlank c = true := h.blank_after c rfl
      rw [words_append_blank hc, words_of_forall h.ne_nil h.not_blank, words_cons_blank hc,
        List.singleton_append]

/-- The words of a text are those before a word, the word itself, and those after it. -/
theorem words_eq (h : IsWord before w after) :
    words (before ++ (w ++ after)) = words before ++ w :: words after := by
  rcases List.eq_nil_or_concat before with rfl | ⟨front, b, rfl⟩
  · rw [List.nil_append, h.words_append, words_nil, List.nil_append]
  · have hb : isBlank b = true := h.blank_before b (by simp)
    rw [List.concat_eq_append, List.append_assoc, List.singleton_append, words_append_blank hb,
      h.words_append, words_append_blank hb, words_nil, List.append_nil]

/-- Behind a word, the next one has something before it. -/
theorem before_ne_nil (h : IsWord before w after)
    (hblank : ∀ c ∈ (before ++ (w ++ after)).head?, isBlank c = true) : before ≠ [] := by
  rintro rfl
  obtain ⟨c, cs, rfl⟩ := List.exists_cons_of_ne_nil h.ne_nil
  have hc := h.not_blank c List.mem_cons_self
  rw [hblank c rfl] at hc
  cases hc

theorem append (h : IsWord before w after) (hne : before ≠ []) (front : List Char) :
    IsWord (front ++ before) w after where
  ne_nil := h.ne_nil
  not_blank := h.not_blank
  blank_before c hc := h.blank_before c (by rwa [List.getLast?_append_of_ne_nil _ hne] at hc)
  blank_after := h.blank_after

theorem of_append (h : IsWord before w (after ++ back)) (hne : after ≠ []) :
    IsWord before w after where
  ne_nil := h.ne_nil
  not_blank := h.not_blank
  blank_before := h.blank_before
  blank_after c hc := h.blank_after c (by rwa [List.head?_append_of_ne_nil _ hne])

end IsWord

theorem words_of_blank {cs : List Char} (h : Blank cs) : words cs = [] := by
  rw [h.skips_nil.words_eq, words_nil]

/-- The words in the list are just those that stand somewhere in the text. -/
theorem mem_words_iff {cs w : List Char} :
    w ∈ words cs ↔ ∃ before after, cs = before ++ (w ++ after) ∧ IsWord before w after := by
  constructor
  · intro h
    -- on the length of the text, from its first word to what is behind that
    induction hlength : cs.length using Nat.strongRecOn generalizing cs with
    | ind n ih =>
        rcases blank_or_isWord cs with hblank | ⟨bs, v, rest, rfl, hbs, hv⟩
        · rw [words_of_blank hblank] at h
          cases h
        · rw [hv.words_eq, words_of_blank hbs, List.nil_append, List.mem_cons] at h
          rcases h with rfl | hmem
          · exact ⟨bs, rest, rfl, hv⟩
          · have hshorter : rest.length < n := by
              have := List.length_pos_of_ne_nil hv.ne_nil
              simp only [List.length_append] at hlength
              omega
            obtain ⟨before, after, rfl, hw⟩ := ih _ hshorter hmem rfl
            refine ⟨bs ++ v ++ before, after, by simp, ?_⟩
            exact hw.append (hw.before_ne_nil hv.blank_after) (bs ++ v)
  · rintro ⟨before, after, rfl, h⟩
    rw [h.words_eq]
    exact List.mem_append_right _ List.mem_cons_self

end Highlight.Text
