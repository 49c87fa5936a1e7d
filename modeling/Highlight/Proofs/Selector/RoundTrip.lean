import Highlight.Proofs.Selector.Exactness

/-!
# Selectors written and read again

The selectors that can be read are those whose names are well-formed and that nest no deeper than
they may. Each of them is read again from its own text; any other selector is not even read from
some text, so that its own cannot pass for one it was read from.
-/

namespace Highlight

open Token (written_mark operator_mem_marks)

namespace Reading

/-- A reading goes on with tokens that could be written, and with no others. -/
theorem Step.written {r r' : Reading} {t : Token} (h : Step r t r') {start turn rest : List Char}
    (hl : t.Leads start turn rest) : t.Written := by
  have hname : ∀ n, t = .name n → n.WellFormed := by
    rintro n rfl
    cases hl with
    | name hn _ _ => exact hn
  cases h with
  | name n => exact hname n rfl
  | root n => exact hname n rfl
  | child p n => exact hname n rfl
  | descendant hp n => exact hname n rfl
  | filter side hdepth => trivial
  | operator t operator => exact written_mark (operator_mem_marks operator)
  | _ => exact written_mark (by decide)

theorem Reached.written {cs rest : List Char} {r : Reading} (h : Reached cs r rest) :
    ∀ t ∈ r.tokens, t.Written := by
  induction h with
  | start => exact List.forall_mem_nil _
  | step h hskips hleads hstep ih =>
      rw [hstep.tokens_eq h.open, List.forall_mem_append, List.forall_mem_singleton]
      exact ⟨ih, hstep.written hleads⟩

end Reading

namespace Selector

theorem wellFormed_of_parse {text : String} {s : Selector} (h : parse text = .ok s) :
    s.WellFormed := by
  obtain ⟨r, rest, hreached, -, hfinish⟩ :=
    Reading.exists_reached_of_ofChars_eq_ok (ofChars_of_parse h)
  rw [← s.written_tokens_iff, Reading.tokens_of_finish hfinish]
  exact hreached.written

theorem written_of_parse {text : String} {s : Selector} (h : parse text = .ok s) :
    ∀ t ∈ s.tokens, t.Written :=
  s.written_tokens_iff.2 (wellFormed_of_parse h)

theorem broken_not_mem_scan_of_parse {text : String} {s : Selector} (h : parse text = .ok s) :
    ∀ n, .broken n ∉ Token.scan text.toList := by
  rw [scan_of_parse h]
  exact fun n hn => written_of_parse h _ hn

theorem nesting_le_of_parse {text : String} {s : Selector} (h : parse text = .ok s) :
    s.nesting ≤ maxNesting := by
  obtain ⟨os, -, hnesting⟩ := exists_derivesText_of_parse h
  exact hnesting

/-- A selector that could have been read is read from its own text. -/
theorem WellFormed.parse_text {s : Selector} (h : s.WellFormed)
    (hnesting : s.nesting ≤ maxNesting) : parse s.text = .ok s :=
  parse_of_scan (scan_text h) hnesting

/-- Writing and reading again gives back what was read. -/
theorem parse_text_of_parse {text : String} {s : Selector} (h : parse text = .ok s) :
    parse s.text = .ok s :=
  (wellFormed_of_parse h).parse_text (nesting_le_of_parse h)

theorem exists_parse_eq_ok_spaced :
    ∃ s, parse " - L\t:(a>b.c $-( ))" = .ok s ∧ parse s.text = .ok s := by
  let path := ((Path.ofRoot ⟨["a"]⟩).append .direct ⟨["b", "c"]⟩).anchorEnd
  let inner := (Composite.ofBase ⟨false, .path path⟩).append .difference ⟨false, .group .universal⟩
  let s : Selector := ⟨[.ofBase ⟨true, .filter .left (.group ⟨[inner]⟩)⟩]⟩
  have h : parse " - L\t:(a>b.c $-( ))" = .ok s := by rfl
  exact ⟨s, h, parse_text_of_parse h⟩

/-- A selector is read from its own text, or from any at all, just if it is well-formed and nests no
deeper than it may. -/
theorem parse_text_eq_ok_iff (s : Selector) :
    (parse s.text = .ok s ↔ s.WellFormed ∧ s.nesting ≤ maxNesting) ∧
      ((∃ text, parse text = .ok s) ↔ s.WellFormed ∧ s.nesting ≤ maxNesting) := by
  have hread : ∀ text, parse text = .ok s → s.WellFormed ∧ s.nesting ≤ maxNesting :=
    fun _ h => ⟨wellFormed_of_parse h, nesting_le_of_parse h⟩
  constructor
  · constructor
    · exact hread s.text
    · exact fun ⟨h, hnesting⟩ => h.parse_text hnesting
  · constructor
    · exact fun ⟨text, h⟩ => hread text h
    · exact fun ⟨h, hnesting⟩ => ⟨s.text, h.parse_text hnesting⟩

end Selector

end Highlight
