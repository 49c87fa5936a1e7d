import Highlight.Proofs.Lexeme.Prefix

/-!
# Places that the scanner comes to

The scanner goes on behind every blank it skips and behind every lexeme it finds, and it keeps two
places of each lexeme. Whatever stands behind a place, the places are parts of the text as it is
given: each is left of the text behind some of its characters.
-/

namespace Highlight

theorem Token.Leads.turn_suffix {t : Token} {start turn rest : List Char}
    (h : t.Leads start turn rest) : turn <:+ start := by
  cases h with
  | name hn hrest hside => exact List.suffix_append _ _
  | broken hn hturn => exact (List.suffix_cons _ _).trans (List.suffix_append _ _)
  | side hcs => exact hcs.suffix.trans (List.suffix_cons _ _)
  | mark hblank hstart => exact List.suffix_cons _ _

namespace Lexeme

/-- What is left of a text where its scanner goes on. -/
inductive Scans (cs : List Char) : List Char → Prop
  | start : Scans cs cs
  | blank {c : Char} {rest : List Char} (h : Scans cs (c :: rest))
      (hc : Text.isBlank c = true) : Scans cs rest
  | lexeme {c : Char} {rest : List Char} (h : Scans cs (c :: rest))
      (hc : Text.isBlank c = false) : Scans cs (rest.drop (ofCons c rest).2)

theorem Scans.suffix {cs rest : List Char} (h : Scans cs rest) : rest <:+ cs := by
  induction h with
  | start => exact List.suffix_refl _
  | blank h hc ih => exact (List.suffix_cons _ _).trans ih
  | lexeme h hc ih => exact (List.drop_suffix _ _).trans ((List.suffix_cons _ _).trans ih)

/-- A lexeme stands somewhere in the text, with all of the text behind it. -/
theorem exists_leads_of_mem_scan {cs : List Char} {l : Lexeme} (h : l ∈ scan cs) :
    ∃ rest, l.start <:+ cs ∧ l.token.Leads l.start l.turn rest := by
  generalize hscan : scan cs = ls at h
  induction ls generalizing cs with
  | nil => cases h
  | cons m ls ih =>
      rcases scan_cases cs with ⟨-, hnil⟩ | ⟨t, start, turn, rest, hskips, hleads, hcons⟩
      · rw [hnil] at hscan
        cases hscan
      · rw [hcons] at hscan
        obtain ⟨rfl, hrest⟩ := List.cons.inj hscan
        rcases List.mem_cons.1 h with rfl | h
        · exact ⟨rest, hskips.suffix, hleads⟩
        · obtain ⟨rest', hsuffix, hleads'⟩ := ih hrest h
          obtain ⟨c, ds, -, rfl, -⟩ := hleads.exists_append
          exact ⟨rest', hsuffix.trans ((List.suffix_append _ _).trans hskips.suffix), hleads'⟩

end Lexeme

end Highlight
