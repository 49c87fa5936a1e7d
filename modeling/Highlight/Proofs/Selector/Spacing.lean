import Highlight.Proofs.Selector.RoundTrip
import Mathlib.Data.List.Chain

/-!
# Blanks in what is read and in what is written

A token that is not broken has the same characters wherever it stands, and everything between two
tokens is blank. So a text and the layout of its tokens differ in their blanks alone, and of a
selector that was read both have the tokens. The blanks of a layout are its gaps: there is at most
one space between two tokens, and tokens have no blanks in them.
-/

namespace Highlight

namespace Text

/-- A text with all of its blanks taken out. -/
def withoutBlanks (cs : List Char) : List Char :=
  cs.filter fun c => !isBlank c

/-- A text whose only blanks are spaces, every one of them alone between two other characters. -/
structure SinglySpaced (cs : List Char) : Prop where
  eq_space : ∀ c ∈ cs, isBlank c = true → c = ' '
  head : ∀ c ∈ cs.head?, isBlank c = false
  last : ∀ c ∈ cs.getLast?, isBlank c = false
  alone : cs.IsChain fun c d => isBlank c = true → isBlank d = false

theorem withoutBlanks_append (cs ds : List Char) :
    withoutBlanks (cs ++ ds) = withoutBlanks cs ++ withoutBlanks ds :=
  List.filter_append cs ds

theorem Blank.withoutBlanks_eq_nil {bs : List Char} (h : Blank bs) : withoutBlanks bs = [] := by
  rw [withoutBlanks, List.filter_eq_nil_iff]
  intro b hb
  simp [h b hb]

theorem Skips.withoutBlanks_eq {cs start : List Char} (h : Skips cs start) :
    withoutBlanks cs = withoutBlanks start := by
  rcases h with ⟨bs, hbs, rfl⟩
  rw [withoutBlanks_append, hbs.withoutBlanks_eq_nil, List.nil_append]

theorem withoutBlanks_eq_self {cs : List Char} (h : ∀ c ∈ cs, isBlank c = false) :
    withoutBlanks cs = cs := by
  rw [withoutBlanks, List.filter_eq_self]
  intro c hc
  rw [h c hc, Bool.not_false]

/-- Where there are no blanks at all, all of them are single spaces. -/
theorem singlySpaced_of_forall {cs : List Char} (h : ∀ c ∈ cs, isBlank c = false) :
    SinglySpaced cs where
  eq_space c hc hblank := by
    rw [h c hc] at hblank
    cases hblank
  head c hc := h c (List.mem_of_mem_head? hc)
  last c hc := h c (List.mem_of_mem_getLast? hc)
  alone := by
    apply List.Pairwise.isChain
    exact List.pairwise_of_forall_mem_list fun _ _ d hd _ => h d hd

theorem SinglySpaced.append {cs ds : List Char} (h : SinglySpaced cs) (h' : SinglySpaced ds) :
    SinglySpaced (cs ++ ds) where
  eq_space := List.forall_mem_append.2 ⟨h.eq_space, h'.eq_space⟩
  head c hc := by
    rw [List.head?_append, Option.mem_def, Option.or_eq_some_iff] at hc
    rcases hc with hc | ⟨-, hc⟩
    · exact h.head c hc
    · exact h'.head c hc
  last c hc := by
    rw [List.getLast?_append, Option.mem_def, Option.or_eq_some_iff] at hc
    rcases hc with hc | ⟨-, hc⟩
    · exact h'.last c hc
    · exact h.last c hc
  alone := List.isChain_append.2 ⟨h.alone, h'.alone, fun _ _ d hd _ => h'.head d hd⟩

/-- A space may stand between two texts that are not empty. -/
theorem SinglySpaced.append_space {cs ds : List Char} (h : SinglySpaced cs) (hcs : cs ≠ [])
    (h' : SinglySpaced ds) (hds : ds ≠ []) : SinglySpaced (cs ++ [' '] ++ ds) where
  eq_space := by
    rw [List.append_assoc, List.forall_mem_append, List.singleton_append, List.forall_mem_cons]
    exact ⟨h.eq_space, fun _ => rfl, h'.eq_space⟩
  head c hc := by
    rw [List.append_assoc, List.head?_append_of_ne_nil cs hcs] at hc
    exact h.head c hc
  last c hc := by
    rw [List.getLast?_append_of_ne_nil _ hds] at hc
    exact h'.last c hc
  alone := by
    rw [List.append_assoc, List.singleton_append, List.isChain_append, List.isChain_cons]
    refine ⟨h.alone, ⟨fun d hd _ => h'.head d hd, h'.alone⟩, ?_⟩
    intro c hc d _ hblank
    rw [h.last c hc] at hblank
    cases hblank

end Text

open Text (withoutBlanks SinglySpaced)

namespace Token

/-- A token that could be scanned and is not broken has no blanks in it. -/
theorem Written.isBlank_eq_false {t : Token} (h : t.Written) :
    ∀ c ∈ t.chars, Text.isBlank c = false := by
  cases t with
  | name n => exact fun c hc => isBlank_of_isNameChar (Name.isNameChar_of_mem_chars h.2 c hc)
  | broken n => exact absurd h id
  | side side =>
      have hletter := isBlank_of_isComponentStart side.isComponentStart_letter
      exact List.forall_mem_cons.2 ⟨hletter, List.forall_mem_singleton.2 rfl⟩
  | mark c => exact List.forall_mem_singleton.2 h.1

theorem Leads.withoutBlanks_eq {t : Token} {start turn rest : List Char}
    (h : t.Leads start turn rest) (ht : t.Written) :
    withoutBlanks start = t.chars ++ withoutBlanks rest := by
  rw [← Text.withoutBlanks_eq_self ht.isBlank_eq_false, ← Text.withoutBlanks_append]
  cases h with
  | name hn hrest hside => rfl
  | broken hn hturn => exact absurd ht id
  | @side side cs rest hcs =>
      change withoutBlanks ([side.letter] ++ cs) = withoutBlanks ([side.letter] ++ ':' :: rest)
      rw [Text.withoutBlanks_append, Text.withoutBlanks_append, hcs.withoutBlanks_eq]
  | mark hblank hstart => rfl

/-- But for its blanks, a text is the characters of its tokens. -/
theorem withoutBlanks_eq_flatMap_scan {cs : List Char} (h : ∀ t ∈ scan cs, t.Written) :
    withoutBlanks cs = (scan cs).flatMap chars := by
  generalize hscan : scan cs = ts at h
  induction ts generalizing cs with
  | nil => exact (blank_of_scan_eq_nil hscan).withoutBlanks_eq_nil
  | cons t ts ih =>
      obtain ⟨start, turn, rest, hskips, hleads, hrest⟩ := exists_leads_of_scan_eq_cons hscan
      rw [hskips.withoutBlanks_eq, hleads.withoutBlanks_eq (h t List.mem_cons_self),
        ih hrest fun u hu => h u (List.mem_cons_of_mem t hu), List.flatMap_cons]

theorem layout_ne_nil {t : Token} (ht : t.Written) (ts : List Token) : layout (t :: ts) ≠ [] := by
  obtain ⟨c, cs, hchars, -⟩ := ht.exists_chars
  obtain ⟨rest, hrest⟩ := layout_cons t ts
  rw [hrest, hchars, List.cons_append]
  exact List.cons_ne_nil _ _

/-- The gaps of a layout are its only blanks. -/
theorem singlySpaced_layout : ∀ {ts : List Token}, (∀ t ∈ ts, t.Written) →
    SinglySpaced (layout ts)
  | [], _ => Text.singlySpaced_of_forall (List.forall_mem_nil _)
  | [t], h => Text.singlySpaced_of_forall (h t List.mem_cons_self).isBlank_eq_false
  | t :: u :: ts, h => by
      have ih := singlySpaced_layout fun v hv => h v (List.mem_cons_of_mem t hv)
      have ht : t.Written := h t List.mem_cons_self
      have hu : u.Written := h u (by simp)
      have hchars := Text.singlySpaced_of_forall ht.isBlank_eq_false
      rw [layout_cons_cons, gap]
      split
      · rw [List.append_nil]
        exact hchars.append ih
      · obtain ⟨c, cs, hcs, -⟩ := ht.exists_chars
        exact hchars.append_space (hcs ▸ List.cons_ne_nil c cs) ih (layout_ne_nil hu ts)

end Token

namespace Selector

theorem withoutBlanks_of_scan {cs : List Char} {s : Selector} (hscan : Token.scan cs = s.tokens)
    (hs : s.WellFormed) : withoutBlanks cs = s.tokens.flatMap Token.chars := by
  rw [← hscan]
  apply Token.withoutBlanks_eq_flatMap_scan
  rw [hscan]
  exact s.written_tokens_iff.2 hs

theorem withoutBlanks_text {text : String} {s : Selector} (h : parse text = .ok s) :
    withoutBlanks s.text.toList = withoutBlanks text.toList := by
  have hs := wellFormed_of_parse h
  rw [withoutBlanks_of_scan (scan_text hs) hs, withoutBlanks_of_scan (scan_of_parse h) hs]

theorem singlySpaced_text {text : String} {s : Selector} (h : parse text = .ok s) :
    SinglySpaced s.text.toList := by
  rw [Selector.text, Token.text, String.toList_ofList]
  exact Token.singlySpaced_layout (written_of_parse h)

/-- What is written differs from what was read in its blanks only, and of those it has no more than
single spaces between other characters. -/
theorem text_respaced_of_parse {text : String} {s : Selector} (h : parse text = .ok s) :
    withoutBlanks s.text.toList = withoutBlanks text.toList ∧ SinglySpaced s.text.toList :=
  ⟨withoutBlanks_text h, singlySpaced_text h⟩

theorem exists_respaced_wide_blanks :
    ∃ s, parse "\u3000^a\n> b.c $\u2003|- R\t:( ),d-\r" = .ok s ∧
      s.text = "^a > b.c$ | - R: (), d-" ∧
        withoutBlanks s.text.toList =
          withoutBlanks "\u3000^a\n> b.c $\u2003|- R\t:( ),d-\r".toList ∧
            SinglySpaced s.text.toList := by
  let path := (((Path.ofRoot ⟨["a"]⟩).append .direct ⟨["b", "c"]⟩).anchorBegin).anchorEnd
  let filter : Term := .filter .right (.group .universal)
  let s : Selector := ⟨[(Composite.ofBase ⟨false, .path path⟩).append .union ⟨true, filter⟩,
    .ofBase ⟨false, .path (.ofRoot ⟨["d-"]⟩)⟩]⟩
  have h : parse "\u3000^a\n> b.c $\u2003|- R\t:( ),d-\r" = .ok s := by rfl
  exact ⟨s, h, by rfl, text_respaced_of_parse h⟩

end Selector

end Highlight
