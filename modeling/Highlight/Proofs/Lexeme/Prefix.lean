import Highlight.Proofs.Lexeme.Leading

/-!
# A text with another end

What a token is depends on the text behind it, but not on much of it. A mark or a side ends where it
ends whatever follows. A name stays what it is as long as what follows neither prolongs it nor is
the colon that makes it a side.
-/

namespace Highlight

open Text (Skips)

namespace Lexeme

/-- What a name is followed by may be replaced without the name becoming something else. -/
structure Fits (rest rest' : List Char) : Prop where
  endsBefore : Name.EndsBefore rest → Name.EndsBefore rest'
  colonNext : ColonNext rest' → ColonNext rest

/-- Whatever stands first in both texts, it is all that matters unless it is a blank. -/
theorem fits_cons {c : Char} (hc : Text.isBlank c = false) (cs cs' : List Char) :
    Fits (c :: cs) (c :: cs') := by
  constructor
  · exact id
  · intro h
    exact (colonNext_cons_iff hc cs).2 ((colonNext_cons_iff hc cs').1 h)

theorem Fits.cons {rest rest' : List Char} (h : Fits rest rest') (c : Char) :
    Fits (c :: rest) (c :: rest') := by
  cases hc : Text.isBlank c with
  | false => exact fits_cons hc rest rest'
  | true =>
      constructor
      · exact id
      · intro hcolon
        rw [colonNext_of_skips ((Skips.refl rest').cons hc)] at hcolon
        rw [colonNext_of_skips ((Skips.refl rest).cons hc)]
        exact h.colonNext hcolon

theorem Fits.append {rest rest' : List Char} (h : Fits rest rest') (cs : List Char) :
    Fits (cs ++ rest) (cs ++ rest') := by
  induction cs with
  | nil => exact h
  | cons c cs ih => exact ih.cons c

/-- The end of the text may follow a name, whatever the text was. -/
theorem fits_nil (rest : List Char) : Fits rest [] := by
  constructor
  · exact fun _ => Name.endsBefore_nil
  · exact fun h => absurd h not_colonNext_nil

theorem fits_mark {c : Char} (hblank : Text.isBlank c = false) (hname : isNameChar c = false)
    (hcolon : c ≠ ':') (rest cs : List Char) : Fits rest (c :: cs) := by
  constructor
  · exact fun _ => Name.endsBefore_cons hname cs
  · exact fun h => absurd ((colonNext_cons_iff hblank cs).1 h) hcolon

end Lexeme

open Lexeme (Fits ColonNext)

namespace Token

/-- Whether a text starts with a mark depends on its first character alone. -/
theorem Leads.exists_mark_iff {t : Token} {c : Char} {cs turn rest : List Char}
    (h : t.Leads (c :: cs) turn rest) : (∃ d, t = .mark d) ↔ isComponentStart c = false := by
  have hname : ∀ {n : Name} {ds : List Char}, n.WellFormed → c :: cs = n.chars ++ ds →
      isComponentStart c = true := by
    intro n ds hn hstart
    obtain ⟨d, es, hchars, hd⟩ := hn.exists_chars
    rw [hchars, List.cons_append] at hstart
    rwa [(List.cons.inj hstart).1]
  generalize hstart : c :: cs = start at h
  cases h with
  | name hn _ _ => simp [hname hn hstart]
  | broken hn _ => simp [hname hn hstart]
  | side _ => simp [(List.cons.inj hstart).1, Side.isComponentStart_letter]
  | mark _ hmark => simp [(List.cons.inj hstart).1, hmark]

/-- What may stand behind a token in place of `rest`. Nothing is read behind a broken name. -/
def Admits (t : Token) (rest rest' : List Char) : Prop :=
  match t with
  | .name _ => Fits rest rest'
  | .broken _ => False
  | .side _ | .mark _ => True

theorem Leads.exists_append {t : Token} {start turn rest : List Char}
    (h : t.Leads start turn rest) :
    ∃ c cs, Text.isBlank c = false ∧ start = c :: cs ++ rest ∧
      ∀ rest', t.Admits rest rest' → ∃ turn', t.Leads (c :: cs ++ rest') turn' rest' := by
  cases h with
  | @name n rest hn hrest hside =>
      obtain ⟨c, cs, hchars, hc⟩ := hn.exists_chars
      rw [hchars]
      refine ⟨c, cs, isBlank_of_isComponentStart hc, rfl, ?_⟩
      intro rest' hfits
      have hside' : Lexeme.sideOf? n rest' = none := by
        cases hside' : Lexeme.sideOf? n rest' with
        | none => rfl
        | some side =>
            obtain ⟨rfl, hcolon⟩ := Lexeme.eq_name_of_sideOf? hside'
            obtain ⟨ds, hds⟩ := hfits.colonNext hcolon
            rw [Lexeme.sideOf?_name hds] at hside
            cases hside
      rw [← hchars]
      exact ⟨rest', .name hn (hfits.endsBefore hrest) hside'⟩
  | @broken n turn hn hturn =>
      obtain ⟨c, cs, hchars, hc⟩ := hn.exists_chars
      refine ⟨c, cs ++ '.' :: turn.takeWhile isNameChar, isBlank_of_isComponentStart hc, ?_,
        fun rest' hadmits => absurd hadmits id⟩
      rw [hchars, List.cons_append, List.cons_append, List.append_assoc, List.cons_append,
        List.takeWhile_append_dropWhile]
  | @side side cs rest hcs =>
      rcases hcs with ⟨bs, hbs, rfl⟩
      refine ⟨side.letter, bs ++ [':'], isBlank_of_isComponentStart side.isComponentStart_letter,
        by rw [List.cons_append, List.append_assoc, List.singleton_append], ?_⟩
      intro rest' _
      refine ⟨':' :: rest', .side ⟨bs, hbs, ?_⟩⟩
      rw [List.append_eq, List.append_assoc, List.singleton_append]
  | @mark c rest hblank hstart =>
      exact ⟨c, [], hblank, rfl, fun rest' _ => ⟨rest', .mark hblank hstart⟩⟩

theorem scan_cons_mark {c : Char} (hblank : Text.isBlank c = false)
    (hstart : isComponentStart c = false) (cs : List Char) :
    scan (c :: cs) = .mark c :: scan cs :=
  scan_of_leads (.mark hblank hstart)

/-- A text in which no name is broken is scanned in front of a mark as it is scanned alone: unless
the mark is a colon, it makes no side of a name. -/
theorem scan_append_mark {c : Char} (hblank : Text.isBlank c = false)
    (hname : isNameChar c = false) (hcolon : c ≠ ':') (ds : List Char) {cs : List Char}
    (hcs : ∀ n, .broken n ∉ scan cs) : scan (cs ++ c :: ds) = scan cs ++ .mark c :: scan ds := by
  generalize hscan : scan cs = ts at hcs
  induction ts generalizing cs with
  | nil =>
      have hskips : Skips (cs ++ c :: ds) (c :: ds) := ⟨cs, blank_of_scan_eq_nil hscan, rfl⟩
      rw [scan_of_skips hskips,
        scan_cons_mark hblank (Name.isComponentStart_of_not_isNameChar hname), List.nil_append]
  | cons t ts ih =>
      obtain ⟨_, turn, rest, ⟨bs, hbs, rfl⟩, hleads, hrest⟩ :=
        exists_leads_of_scan_eq_cons hscan
      obtain ⟨d, es, -, rfl, hreplace⟩ := hleads.exists_append
      have hadmits : t.Admits rest (rest ++ c :: ds) := by
        cases t with
        | name n =>
            have hfits := (Lexeme.fits_mark hblank hname hcolon [] ds).append rest
            rw [List.append_nil] at hfits
            exact hfits
        | broken n => exact absurd List.mem_cons_self (hcs n)
        | side side => exact trivial
        | mark d => exact trivial
      obtain ⟨turn', hleads'⟩ := hreplace _ hadmits
      have hskips : Skips (bs ++ (d :: es ++ rest) ++ c :: ds) (d :: es ++ (rest ++ c :: ds)) :=
        ⟨bs, hbs, by simp⟩
      rw [scan_of_skips hskips, scan_of_leads hleads',
        ih hrest fun n hn => hcs n (List.mem_cons_of_mem t hn), List.cons_append]

/-- In front of a token nothing is changed by what stands behind its first character. -/
theorem Leads.fits {t : Token} {front back turn rest : List Char}
    (h : t.Leads (front ++ back) turn rest) (hfront : front ≠ []) (back' : List Char) :
    Fits (front ++ back) (front ++ back') := by
  obtain ⟨c, cs, hc, hstart, -⟩ := h.exists_append
  obtain ⟨d, ds, rfl⟩ := List.exists_cons_of_ne_nil hfront
  obtain rfl : d = c := (List.cons.inj hstart).1
  exact Lexeme.fits_cons hc _ _

end Token

end Highlight
