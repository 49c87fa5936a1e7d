import Highlight.Proofs.Lexeme.Leading
import Highlight.Selector.Tokens

/-!
# Tokens laid out and scanned again

Tokens that could have been scanned are scanned again from their layout. The gaps see to that: a
name is followed by a space, by something that closes, or by nothing, and none of these prolongs it;
and since no token is a colon, it does not become the side of a filter either.
-/

namespace Highlight

open Lexeme (ColonNext)

namespace Token

/-- Tokens that a text can be read as, apart from broken names and colons on their own. -/
def Written : Token → Prop
  | .name n => n.WellFormed
  | .broken _ => False
  | .side _ => True
  | .mark c => Text.isBlank c = false ∧ isComponentStart c = false ∧ c ≠ ':'

theorem Written.exists_chars {t : Token} (h : t.Written) :
    ∃ c cs, t.chars = c :: cs ∧ Text.isBlank c = false ∧ c ≠ ':' := by
  cases t with
  | name n =>
      obtain ⟨c, cs, hchars, hc⟩ := Name.WellFormed.exists_chars h
      refine ⟨c, cs, hchars, isBlank_of_isComponentStart hc, ?_⟩
      rintro rfl
      exact absurd hc (by decide)
  | broken n => exact absurd h id
  | side side => exact ⟨side.letter, [':'], rfl, by cases side <;> rfl, by cases side <;> decide⟩
  | mark c => exact ⟨c, [], rfl, h.1, h.2.2⟩

theorem layout_cons (t : Token) (ts : List Token) :
    ∃ rest, layout (t :: ts) = t.chars ++ rest := by
  cases ts with
  | nil => exact ⟨[], by rw [layout_singleton, List.append_nil]⟩
  | cons u ts => exact ⟨gap t u ++ layout (u :: ts), by rw [layout_cons_cons, List.append_assoc]⟩

theorem isNameChar_of_closes {u : Token} (h : u.closes = true) :
    ∃ c, u = .mark c ∧ isNameChar c = false := by
  simp only [closes, Bool.or_eq_true, beq_iff_eq] at h
  rcases h with (rfl | rfl) | rfl
  · exact ⟨')', rfl, rfl⟩
  · exact ⟨',', rfl, rfl⟩
  · exact ⟨'$', rfl, rfl⟩

/-- What is laid out behind a name does not prolong it. -/
theorem endsBefore_gap (n : Name) (u : Token) (us : List Token) :
    Name.EndsBefore (gap (.name n) u ++ layout (u :: us)) := by
  have hopens : (Token.name n).opens = false := rfl
  by_cases hcloses : u.closes = true
  · obtain ⟨c, rfl, hc⟩ := isNameChar_of_closes hcloses
    obtain ⟨rest, hrest⟩ := layout_cons (.mark c) us
    rw [gap, hcloses, Bool.or_true, if_pos rfl, hrest]
    exact Name.endsBefore_cons hc rest
  · rw [gap, hopens, Bool.false_or, if_neg hcloses]
    intro c hc
    obtain rfl : ' ' = c := by simpa using hc
    rfl

theorem skips_gap (t u : Token) (rest : List Char) :
    Text.Skips (gap t u ++ rest) rest := by
  refine ⟨gap t u, ?_, rfl⟩
  unfold gap
  split
  · exact Text.blank_nil
  · simp only [Text.Blank, List.mem_singleton, forall_eq]
    rfl

theorem not_colonNext_layout {u : Token} (hu : u.Written) (us : List Token) {cs : List Char}
    (h : Text.Skips cs (layout (u :: us))) : ¬ ColonNext cs := by
  obtain ⟨c, cs, hchars, hblank, hne⟩ := hu.exists_chars
  obtain ⟨rest, hrest⟩ := layout_cons u us
  rw [Lexeme.colonNext_of_skips h, hrest, hchars, List.cons_append,
    Lexeme.colonNext_cons_iff hblank]
  exact hne

/-- A token leads a text that starts with its characters if nothing behind it changes its kind. -/
theorem Written.leads {t : Token} (h : t.Written) {rest : List Char}
    (hrest : ∀ n, t = .name n → Name.EndsBefore rest ∧ ¬ ColonNext rest) :
    ∃ turn, t.Leads (t.chars ++ rest) turn rest := by
  cases t with
  | name n =>
      obtain ⟨hends, hcolon⟩ := hrest n rfl
      exact ⟨rest, .name h hends (Lexeme.sideOf?_of_not_colonNext hcolon)⟩
  | broken n => exact absurd h id
  | side side => exact ⟨':' :: rest, .side (.refl _)⟩
  | mark c => exact ⟨rest, .mark h.1 h.2.1⟩

theorem scan_layout : ∀ {ts : List Token}, (∀ t ∈ ts, t.Written) →
    scan (layout ts) = ts
  | [], _ => rfl
  | [t], h => by
      obtain ⟨turn, hleads⟩ := (h t List.mem_cons_self).leads fun _ _ =>
        ⟨Name.endsBefore_nil, Lexeme.not_colonNext_nil⟩
      rw [List.append_nil] at hleads
      rw [layout_singleton, scan_of_leads hleads, scan_nil]
  | t :: u :: ts, h => by
      have ih := scan_layout fun v hv => h v (List.mem_cons_of_mem t hv)
      have hu : u.Written := h u (by simp)
      have hskips := skips_gap t u (layout (u :: ts))
      obtain ⟨turn, hleads⟩ := (h t List.mem_cons_self).leads fun n hn =>
        ⟨hn ▸ endsBefore_gap n u ts, not_colonNext_layout hu ts hskips⟩
      rw [layout_cons_cons, List.append_assoc, scan_of_leads hleads, scan_of_skips hskips, ih]

end Token

end Highlight
