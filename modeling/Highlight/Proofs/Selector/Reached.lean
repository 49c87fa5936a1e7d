import Highlight.Proofs.Lexeme.Prefix
import Highlight.Proofs.Selector.Run

/-!
# Readings of the beginning of a text

`Reached cs r rest` says that `r` is what has been made of the text `cs` up to `rest`. It goes on
token by token, and comes to an end where the rest is blank or starts with a token that is refused.
Only the beginning matters: in front of another rest the same reading is reached, unless the last
token was a name and is one no longer.
-/

namespace Highlight

open Text (Blank Skips)
open Lexeme (Fits)

namespace Reading

inductive Reached (cs : List Char) : Reading → List Char → Prop
  | start : Reached cs .start cs
  | step {r r' : Reading} {t : Token} {mid start turn rest : List Char} (h : Reached cs r mid)
      (hskips : Skips mid start) (hleads : t.Leads start turn rest) (hstep : Step r t r') :
      Reached cs r' rest

theorem Reached.ofChars_eq {cs rest : List Char} {r : Reading} (h : Reached cs r rest) :
    Selector.ofChars cs = r.run rest := by
  induction h with
  | start => rfl
  | step h hskips hleads hstep ih =>
      rw [ih, run_of_skips _ hskips]
      exact hstep.run_leads hleads

/-- From anywhere in a text, reading goes on to the last token or to one that is refused. -/
theorem Reached.exists_stop {cs mid : List Char} {r : Reading} (h : Reached cs r mid) :
    ∃ r rest, Reached cs r rest ∧
      (Blank rest ∨ ∃ t start turn rest', Skips rest start ∧ Token.Leads t start turn rest' ∧
        ∃ place reason, Refusal r t place reason) := by
  -- by induction on the tokens still to come, which become fewer with every step
  generalize hscan : Token.scan mid = ts
  induction ts generalizing r mid with
  | nil => exact ⟨r, mid, h, .inl (Token.blank_of_scan_eq_nil hscan)⟩
  | cons t ts ih =>
      obtain ⟨start, turn, rest, hskips, hleads, hrest⟩ :=
        Token.exists_leads_of_scan_eq_cons hscan
      rcases step_or_refusal r t with ⟨r', hstep⟩ | hrefusal
      · exact ih (h.step hskips hleads hstep) hrest
      · exact ⟨r, mid, h, .inr ⟨t, start, turn, rest, hskips, hleads, hrefusal⟩⟩

theorem exists_reached_of_ofChars_eq_ok {cs : List Char} {s : Selector}
    (h : Selector.ofChars cs = .ok s) :
    ∃ r rest, Reached cs r rest ∧ Blank rest ∧ r.finish = .ok s := by
  have hstart : Reached cs .start cs := .start
  obtain ⟨r, rest, hreached, hstop⟩ := hstart.exists_stop
  rw [hreached.ofChars_eq] at h
  rcases hstop with hblank | ⟨t, start, turn, rest', hskips, hleads, place, reason, hrefusal⟩
  · rw [r.run_of_blank hblank] at h
    exact ⟨r, rest, hreached, hblank, h⟩
  · rw [r.run_of_skips hskips, hrefusal.run_leads hleads] at h
    cases h

/-- A text that is not read is read up to its end or up to a token that is refused. -/
theorem exists_reached_of_ofChars_eq_error {cs : List Char} {halt : Halt}
    (h : Selector.ofChars cs = .error halt) :
    ∃ r rest, Reached cs r rest ∧
      (Blank rest ∧ r.finish = .error halt ∨
        ∃ t start turn rest' place reason, Skips rest start ∧ Token.Leads t start turn rest' ∧
          Refusal r t place reason ∧
            halt = ⟨Lexeme.unreadAt ⟨t, start, turn⟩ place, reason⟩) := by
  have hstart : Reached cs .start cs := .start
  obtain ⟨r, rest, hreached, hstop⟩ := hstart.exists_stop
  refine ⟨r, rest, hreached, ?_⟩
  rw [hreached.ofChars_eq] at h
  rcases hstop with hblank | ⟨t, start, turn, rest', hskips, hleads, place, reason, hrefusal⟩
  · rw [r.run_of_blank hblank] at h
    exact .inl ⟨hblank, h⟩
  · rw [r.run_of_skips hskips, hrefusal.run_leads hleads] at h
    exact .inr ⟨t, start, turn, rest', place, reason, hskips, hleads, hrefusal,
      (Except.error.inj h).symm⟩

/-- Something is due, without which the selector would not be complete. -/
def Due (r : Reading) : Prop :=
  match r.phase with
  | .done _ => False
  | _ => True

theorem Step.admits {r r' : Reading} {t : Token} (h : Step r t r') {rest rest' : List Char}
    (hrest : r'.Due ∨ Fits rest rest') : t.Admits rest rest' := by
  have hname : ∀ f outer u, r' = ⟨f, outer, .done u⟩ → Fits rest rest' := by
    rintro f outer u rfl
    exact hrest.resolve_left id
  cases h with
  | name n => exact hname _ _ _ rfl
  | root n => exact hname _ _ _ rfl
  | child p n => exact hname _ _ _ rfl
  | descendant hp n => exact hname _ _ _ rfl
  | _ => exact trivial

/-- What a reading was reached over is followed by `rest`, and might be followed by another. -/
theorem Reached.exists_append {cs rest : List Char} {r : Reading} (h : Reached cs r rest) :
    ∃ before, cs = before ++ rest ∧
      ∀ rest', r.Due ∨ Fits rest rest' → Reached (before ++ rest') r rest' := by
  induction h with
  | start => exact ⟨[], rfl, fun rest' _ => .start⟩
  | @step r r' t mid start turn rest h hskips hleads hstep ih =>
      rcases ih with ⟨before, rfl, hbefore⟩
      rcases hskips with ⟨bs, hbs, rfl⟩
      obtain ⟨c, cs, hc, rfl, hreplace⟩ := hleads.exists_append
      refine ⟨before ++ bs ++ c :: cs, by simp, ?_⟩
      intro rest' hrest'
      obtain ⟨turn', hleads'⟩ := hreplace rest' (hstep.admits hrest')
      -- the first character of the token stays, so the tokens before it see no difference
      have hfits : Fits (bs ++ (c :: cs ++ rest)) (bs ++ (c :: cs ++ rest')) :=
        (Lexeme.fits_cons hc (cs ++ rest) (cs ++ rest')).append bs
      have hreached := hbefore _ (.inr hfits)
      rw [List.append_assoc, List.append_assoc]
      exact .step hreached ⟨bs, hbs, rfl⟩ hleads' hstep

/-- The end of the text may be replaced from any place on behind what was reached. -/
theorem Reached.exists_cut {cs rest front back : List Char} {r : Reading} (h : Reached cs r rest)
    (hskips : Skips rest (front ++ back)) :
    ∃ before, cs = before ++ back ∧
      ∀ back', r.Due ∨ Fits (front ++ back) (front ++ back') →
        Selector.ofChars (before ++ back') = r.run (front ++ back') := by
  obtain ⟨before, rfl, hbefore⟩ := h.exists_append
  rcases hskips with ⟨bs, hbs, rfl⟩
  refine ⟨before ++ bs ++ front, by simp, ?_⟩
  intro back' hback'
  have hfits : r.Due ∨ Fits (bs ++ (front ++ back)) (bs ++ (front ++ back')) :=
    hback'.imp_right fun hfits => hfits.append bs
  rw [List.append_assoc, List.append_assoc, (hbefore _ hfits).ofChars_eq]
  exact run_of_skips r ⟨bs, hbs, rfl⟩

end Reading

end Highlight
