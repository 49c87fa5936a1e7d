import Highlight.Proofs.Selector.Exactness

/-!
# Errors of selectors

Reading halts as early as it can: what was read up to there is the beginning of a selector, and
what it halts at already shows that the whole is none, whatever follows. For both, the text is cut
where reading halted and given another end, over which the same reading is run.
-/

namespace Highlight

open Text (Blank Skips)
open Lexeme (Fits)

/-- The ways into groups and filters. -/
inductive Opening : List Char → Prop
  | group : Opening ['(']
  | filter (side : Side) {bs : List Char} (hbs : Blank bs) : Opening (side.letter :: bs ++ [':'])

/-- What a reason to halt shows in: a single character, or the opening of what is too deep. -/
def Reason.Shows (reason : Reason) (cs : List Char) : Prop :=
  match reason with
  | .expecting _ => ∃ c, cs = [c]
  | .tooDeep => Opening cs

/-- What may be put in place of the rest to complete the selector, in front of how many closing
parentheses. A selector is never found fault with for the end of a name. -/
def Fault.Mends (fault : Fault) (cs : List Char) (k : Nat) : Prop :=
  match fault with
  | .unexpected _ .endOfSelector => cs = [] ∧ k = 0
  | .unexpected _ .closeParen => cs = [] ∧ 1 ≤ k
  | .unexpected _ .term | .unexpected _ .component | .tooDeep => cs = ['a']
  | .unexpected _ .endOfName => False

theorem Reason.Shows.ne_nil {reason : Reason} {cs : List Char} (h : reason.Shows cs) :
    cs ≠ [] := by
  cases reason with
  | expecting expected =>
      rcases h with ⟨c, rfl⟩
      exact List.cons_ne_nil c []
  | tooDeep =>
      cases h with
      | group => exact List.cons_ne_nil _ _
      | filter side hbs => exact List.cons_ne_nil _ _

theorem Reason.Shows.fault_append {reason : Reason} {cs : List Char} (h : reason.Shows cs)
    (rest rest' : List Char) : reason.fault (cs ++ rest) = reason.fault (cs ++ rest') := by
  cases reason with
  | expecting expected =>
      rcases h with ⟨c, rfl⟩
      rfl
  | tooDeep => rfl

namespace Reading

/-- Behind `front`, the text `unread` shows that there is nothing to be read, whatever comes behind
what it shows in. -/
def Settled (r : Reading) (front unread : List Char) (reason : Reason) : Prop :=
  ∃ cs back, unread = cs ++ back ∧ reason.Shows cs ∧
    ∀ back', r.run (front ++ (cs ++ back')) = .error ⟨cs ++ back', reason⟩

theorem Refusal.shows_mark {r : Reading} {c : Char} {place : Place} {reason : Reason}
    (h : Refusal r (.mark c) place reason) : place = .start ∧ reason.Shows [c] := by
  cases h with
  | group hdepth => exact ⟨rfl, .group⟩
  | noPart hname hmark => exact absurd rfl (hmark _)
  | _ => exact ⟨rfl, _, rfl⟩

theorem settled_filter {f : Frame} {outer : List Frame} (side : Side)
    (hdepth : maxNesting ≤ depth ⟨f, outer, .term⟩) {cs rest : List Char}
    (hcs : Skips cs (':' :: rest)) :
    Settled ⟨f, outer, .term⟩ [] (side.letter :: cs) .tooDeep := by
  rcases hcs with ⟨bs, hbs, rfl⟩
  refine ⟨side.letter :: bs ++ [':'], rest, by simp, .filter side hbs, ?_⟩
  intro back'
  have hcolon : Skips (bs ++ [':'] ++ back') (':' :: back') := ⟨bs, hbs, by simp⟩
  exact (Refusal.filter side hdepth).run_leads (.side hcolon)

/-- Behind a dot, a character that cannot begin a component settles it. -/
theorem NameMayFollow.settled_broken {r : Reading} (h : r.NameMayFollow) {n : Name}
    (hn : n.WellFormed) {c : Char} {back : List Char} (hturn : Name.BreaksBefore (c :: back)) :
    r.Settled (n.chars ++ ['.']) (c :: back) (.expecting .component) := by
  refine ⟨[c], back, rfl, ⟨c, rfl⟩, ?_⟩
  intro back'
  have hturn' : Name.BreaksBefore (c :: back') := hturn
  rw [List.append_assoc]
  exact (Refusal.broken n h).run_leads (.broken hn hturn')

/-- Where a name may follow and a term may not, the colon of a side settles it. -/
theorem NameMayFollow.settled_colon {r : Reading} (h : r.NameMayFollow) (hterm : r.phase ≠ .term)
    (side : Side) {bs : List Char} (hbs : Blank bs) (rest : List Char) :
    r.Settled (side.letter :: bs) (':' :: rest) (.expecting r.closing) := by
  refine ⟨[':'], rest, rfl, ⟨':', rfl⟩, ?_⟩
  intro back'
  exact (Refusal.colon side h hterm).run_leads (.side ⟨bs, hbs, rfl⟩)

/-- Behind a term that no name may follow, the first character of any token but a mark
settles it. -/
theorem settled_noPart {f : Frame} {outer : List Frame} {t : Term}
    (hname : ¬ NameMayFollow ⟨f, outer, .done t⟩) {token : Token} (hmark : ∀ c, token ≠ .mark c)
    {start turn rest : List Char} (hl : token.Leads start turn rest) :
    Settled ⟨f, outer, .done t⟩ [] start (.expecting (closing ⟨f, outer, .done t⟩)) := by
  obtain ⟨c, cs, hc, rfl, -⟩ := hl.exists_append
  have hstart : isComponentStart c = true := by
    rw [← Bool.not_eq_false, ← hl.exists_mark_iff]
    rintro ⟨d, hd⟩
    exact hmark d hd
  refine ⟨[c], cs ++ rest, rfl, ⟨c, rfl⟩, ?_⟩
  intro back'
  -- the token may be another one now, but it is still no mark
  obtain ⟨token', turn', rest', hl'⟩ := Lexeme.exists_leads hc back'
  have hmark' : ∀ d, token' ≠ .mark d := by
    intro d hd
    have hstart' := hl'.exists_mark_iff.1 ⟨d, hd⟩
    rw [hstart] at hstart'
    cases hstart'
  exact (Refusal.noPart hname hmark').run_leads hl'

theorem Refusal.exists_settled {r : Reading} {t : Token} {place : Place} {reason : Reason}
    (h : Refusal r t place reason) {start turn rest unread : List Char}
    (hl : t.Leads start turn rest) (hunread : Lexeme.unreadAt ⟨t, start, turn⟩ place = unread)
    (hfound : ∀ expected, reason.fault unread ≠ .unexpected none expected) :
    ∃ front, start = front ++ unread ∧ r.Settled front unread reason := by
  subst hunread
  cases t with
  | mark c =>
      obtain ⟨rfl, hshows⟩ := h.shows_mark
      cases hl with
      | mark hblank hstart =>
          exact ⟨[], rfl, [c], _, rfl, hshows, fun _ => h.run_leads (.mark hblank hstart)⟩
  | name n =>
      cases h with
      | noPart hname hmark => exact ⟨[], rfl, settled_noPart hname hmark hl⟩
  | broken n =>
      cases h with
      | noPart hname hmark => exact ⟨[], rfl, settled_noPart hname hmark hl⟩
      | broken _ hname =>
          cases hl with
          | broken hn hturn =>
              -- something was found, so the text does not end behind the dot
              have hne : turn ≠ [] := fun hturn => hfound .component (congrArg _ hturn)
              obtain ⟨c, back, rfl⟩ := List.exists_cons_of_ne_nil hne
              exact ⟨n.chars ++ ['.'], by simp [Lexeme.unreadAt], hname.settled_broken hn hturn⟩
  | side side =>
      cases h with
      | noPart hname hmark => exact ⟨[], rfl, settled_noPart hname hmark hl⟩
      | filter _ hdepth =>
          cases hl with
          | side hcs => exact ⟨[], rfl, settled_filter side hdepth hcs⟩
      | colon _ hname hterm =>
          cases hl with
          | side hcs =>
              rcases hcs with ⟨bs, hbs, rfl⟩
              exact ⟨side.letter :: bs, rfl, hname.settled_colon hterm side hbs _⟩

theorem fits_closings (rest : List Char) (k : Nat) : Fits rest (List.replicate k ')') := by
  cases k with
  | zero => exact Lexeme.fits_nil rest
  | succ k =>
      rw [List.replicate_succ]
      exact Lexeme.fits_mark (by decide) (by decide) (by decide) rest _

/-- A complete term is the last one needed: its groups need only be closed. -/
theorem exists_run_closings (f : Frame) (outer : List Frame) (t : Term) :
    ∃ s, run ⟨f, outer, .done t⟩ (List.replicate outer.length ')') = .ok s := by
  induction outer generalizing f t with
  | nil => exact ⟨f.selector t, rfl⟩
  | cons g outer ih =>
      obtain ⟨s, hs⟩ := ih g (.group (f.selector t))
      refine ⟨s, ?_⟩
      rw [List.length_cons, List.replicate_succ,
        (Step.close t).run_mark (by decide) (Skips.refl _), hs]

theorem NameMayFollow.exists_step {r : Reading} (h : r.NameMayFollow) (n : Name) :
    ∃ t, Step r (.name n) ⟨r.frame, r.outer, .done t⟩ := by
  rcases r with ⟨f, outer, phase⟩
  cases phase with
  | term => exact ⟨_, .name n⟩
  | root => exact ⟨_, .root n⟩
  | child p => exact ⟨_, .child p n⟩
  | done t =>
      obtain ⟨p, rfl, hp⟩ := exists_path_of_nameMayFollow h
      exact ⟨_, .descendant hp n⟩

/-- A name completes a term, if one may follow. -/
theorem NameMayFollow.exists_run_closings {r : Reading} (h : r.NameMayFollow) {n : Name}
    (hn : n.WellFormed) {bs : List Char} (hbs : Blank bs) :
    ∃ s, r.run (n.chars ++ (bs ++ List.replicate r.outer.length ')')) = .ok s := by
  obtain ⟨t, hstep⟩ := h.exists_step n
  obtain ⟨s, hs⟩ := Reading.exists_run_closings r.frame r.outer t
  have hskips : Skips (bs ++ List.replicate r.outer.length ')') _ := ⟨bs, hbs, rfl⟩
  have hfits := fits_closings [] r.outer.length
  have hends := hskips.endsBefore (hfits.endsBefore Name.endsBefore_nil)
  have hcolon : ¬ Lexeme.ColonNext (bs ++ List.replicate r.outer.length ')') := by
    rw [Lexeme.colonNext_of_skips hskips]
    exact fun h => Lexeme.not_colonNext_nil (hfits.colonNext h)
  refine ⟨s, ?_⟩
  rw [hstep.run_leads (.name hn hends (Lexeme.sideOf?_of_not_colonNext hcolon)),
    run_of_skips _ hskips, hs]

/-- Behind `front`, the text `unread` may be replaced by what mends the fault. -/
def Mendable (r : Reading) (front unread : List Char) (fault : Fault) : Prop :=
  ∃ cs k, fault.Mends cs k ∧
    (r.Due ∨ Fits (front ++ unread) (front ++ (cs ++ List.replicate k ')'))) ∧
      ∃ s, r.run (front ++ (cs ++ List.replicate k ')')) = .ok s

theorem Due.nameMayFollow {r : Reading} (h : r.Due) : r.NameMayFollow := by
  rcases r with ⟨f, outer, phase⟩
  cases phase with
  | done t => exact absurd h id
  | _ => exact trivial

theorem Due.mendable {r : Reading} (h : r.Due) (fault : Fault) (hfault : ∀ k, fault.Mends ['a'] k)
    (unread : List Char) : r.Mendable [] unread fault := by
  have hname : Name.WellFormed ⟨["a"]⟩ := by decide
  obtain ⟨s, hs⟩ := h.nameMayFollow.exists_run_closings hname Text.blank_nil
  exact ⟨['a'], r.outer.length, hfault _, .inl h, s, hs⟩

theorem mends_closing (r : Reading) (found : Option Char) :
    (Fault.unexpected found r.closing).Mends [] r.outer.length := by
  rcases r with ⟨f, outer, phase⟩
  cases outer with
  | nil => exact ⟨rfl, rfl⟩
  | cons g outer => exact ⟨rfl, Nat.le_add_left 1 outer.length⟩

theorem mendable_done (f : Frame) (outer : List Frame) (t : Term) (found : Option Char)
    (unread : List Char) :
    Mendable ⟨f, outer, .done t⟩ [] unread (.unexpected found (closing ⟨f, outer, .done t⟩)) :=
  ⟨[], outer.length, mends_closing _ found, .inr (fits_closings unread outer.length),
    exists_run_closings f outer t⟩

theorem NameMayFollow.mendable_broken {r : Reading} (h : r.NameMayFollow) {n : Name}
    (hn : n.WellFormed) (found : Option Char) (unread : List Char) :
    r.Mendable (n.chars ++ ['.']) unread (.unexpected found .component) := by
  have hn' := hn.concat (k := ['a']) (by decide)
  obtain ⟨s, hs⟩ := h.exists_run_closings hn' Text.blank_nil
  rw [Name.chars_append_singleton hn.1] at hs
  refine ⟨['a'], r.outer.length, rfl, .inr ?_, s, by simpa using hs⟩
  obtain ⟨c, cs, hchars, hc⟩ := hn.exists_chars
  rw [hchars]
  exact Lexeme.fits_cons (isBlank_of_isComponentStart hc) _ _

theorem NameMayFollow.mendable_colon {r : Reading} (h : r.NameMayFollow) (side : Side)
    {bs : List Char} (hbs : Blank bs) (found : Option Char) (unread : List Char) :
    r.Mendable (side.letter :: bs) unread (.unexpected found r.closing) := by
  obtain ⟨s, hs⟩ := h.exists_run_closings side.wellFormed_name hbs
  rw [side.chars_name] at hs
  refine ⟨[], r.outer.length, mends_closing r found, .inr ?_, s, hs⟩
  exact Lexeme.fits_cons (isBlank_of_isComponentStart side.isComponentStart_letter) _ _

theorem Refusal.exists_mendable {r : Reading} {t : Token} {place : Place} {reason : Reason}
    (h : Refusal r t place reason) {start turn rest unread : List Char}
    (hl : t.Leads start turn rest) (hunread : Lexeme.unreadAt ⟨t, start, turn⟩ place = unread) :
    ∃ front, start = front ++ unread ∧ r.Mendable front unread (reason.fault unread) := by
  subst hunread
  cases h with
  | @filter f outer side hdepth =>
      have hdue : Due ⟨f, outer, .term⟩ := trivial
      exact ⟨[], rfl, hdue.mendable .tooDeep (fun _ => rfl) start⟩
  | @group f outer hdepth =>
      have hdue : Due ⟨f, outer, .term⟩ := trivial
      exact ⟨[], rfl, hdue.mendable .tooDeep (fun _ => rfl) start⟩
  | @noTerm f outer c hgroup hanchor hcomplement hclose =>
      have hdue : Due ⟨f, outer, .term⟩ := trivial
      exact ⟨[], rfl, hdue.mendable (.unexpected start.head? .term) (fun _ => rfl) start⟩
  | surplus => exact ⟨[], rfl, [], 0, ⟨rfl, rfl⟩, .inl trivial, .universal, rfl⟩
  | noComponent c hphase =>
      have hdue : Due r := by
        rcases hphase with hphase | ⟨p, hphase⟩
        · simp [Due, hphase]
        · simp [Due, hphase]
      exact ⟨[], rfl, hdue.mendable (.unexpected start.head? .component) (fun _ => rfl) start⟩
  | broken n hname =>
      cases hl with
      | broken hn hturn =>
          exact ⟨n.chars ++ ['.'], by simp [Lexeme.unreadAt], hname.mendable_broken hn _ _⟩
  | colon side hname hterm =>
      cases hl with
      | side hcs =>
          rcases hcs with ⟨bs, hbs, rfl⟩
          exact ⟨side.letter :: bs, rfl, hname.mendable_colon side hbs _ _⟩
  | noPart hname hmark => exact ⟨[], rfl, mendable_done _ _ _ _ start⟩
  | noOperator => exact ⟨[], rfl, mendable_done _ _ _ _ start⟩

/-- What is missing at the end of a text can be supplied. -/
theorem exists_mendable_of_finish {r : Reading} {halt : Halt} (h : r.finish = .error halt) :
    ∃ expected, halt = ⟨[], .expecting expected⟩ ∧
      r.Mendable [] [] (.unexpected none expected) := by
  rcases r with ⟨f, outer, phase⟩
  cases phase with
  | root =>
      have hdue : Due ⟨f, outer, .root⟩ := trivial
      exact ⟨.component, (Except.error.inj h).symm,
        hdue.mendable (.unexpected none .component) (fun _ => rfl) []⟩
  | child p =>
      have hdue : Due ⟨f, outer, .child p⟩ := trivial
      exact ⟨.component, (Except.error.inj h).symm,
        hdue.mendable (.unexpected none .component) (fun _ => rfl) []⟩
  | term =>
      have hdue : Due ⟨f, outer, .term⟩ := trivial
      simp only [finish] at h
      split at h
      · exact ⟨.term, (Except.error.inj h).symm,
          hdue.mendable (.unexpected none .term) (fun _ => rfl) []⟩
      · next hfresh =>
          obtain rfl := Frame.eq_fresh_of_isFresh (by simpa using hfresh)
          cases outer with
          | nil => cases h
          | cons g outer =>
              obtain ⟨s, hs⟩ := exists_run_closings g outer (.group .universal)
              rw [← Step.closeEmpty.run_mark (by decide) (.refl _), ← List.replicate_succ] at hs
              exact ⟨.closeParen, (Except.error.inj h).symm, [], outer.length + 1,
                ⟨rfl, Nat.le_add_left 1 _⟩, .inl hdue, s, hs⟩
  | done t =>
      cases outer with
      | nil => cases h
      | cons g outer =>
          exact ⟨.closeParen, (Except.error.inj h).symm, mendable_done f (g :: outer) t none []⟩

theorem Mendable.exists_ofChars_eq_ok {r : Reading} {front unread : List Char} {fault : Fault}
    (h : r.Mendable front unread fault) {cs rest : List Char} (hr : Reached cs r rest)
    (hskips : Skips rest (front ++ unread)) :
    ∃ before ds k, cs = before ++ unread ∧ fault.Mends ds k ∧
      ∃ s, Selector.ofChars (before ++ (ds ++ List.replicate k ')')) = .ok s := by
  rcases h with ⟨ds, k, hmends, hfits, s, hs⟩
  obtain ⟨before, hcs, hbefore⟩ := hr.exists_cut hskips
  refine ⟨before, ds, k, hcs, hmends, s, ?_⟩
  rw [hbefore _ hfits, hs]

end Reading

namespace Selector

open Reading

/-- What was read up to a halt is the beginning of a selector, and it is known how it may go on. -/
theorem exists_mends_of_ofChars {cs : List Char} {halt : Halt} (h : ofChars cs = .error halt) :
    ∃ before ds k, cs = before ++ halt.unread ∧ (halt.reason.fault halt.unread).Mends ds k ∧
      ∃ s, ofChars (before ++ (ds ++ List.replicate k ')')) = .ok s := by
  obtain ⟨r, rest, hreached, ⟨hblank, hfinish⟩ | ⟨t, start, turn, rest', place, reason, hskips,
    hleads, hrefusal, rfl⟩⟩ := exists_reached_of_ofChars_eq_error h
  · obtain ⟨expected, rfl, hmendable⟩ := exists_mendable_of_finish hfinish
    exact hmendable.exists_ofChars_eq_ok hreached hblank.skips_nil
  · obtain ⟨front, hstart, hmendable⟩ := hrefusal.exists_mendable hleads rfl
    rw [hstart] at hskips
    exact hmendable.exists_ofChars_eq_ok hreached hskips

/-- What a reading halts at shows that nothing can be read, whatever comes behind it. -/
theorem exists_shows_of_ofChars {cs : List Char} {halt : Halt} (h : ofChars cs = .error halt)
    (hfound : ∀ expected, halt.reason.fault halt.unread ≠ .unexpected none expected) :
    ∃ before ds back, cs = before ++ halt.unread ∧ halt.unread = ds ++ back ∧
      halt.reason.Shows ds ∧
        ∀ back', ofChars (before ++ (ds ++ back')) = .error ⟨ds ++ back', halt.reason⟩ := by
  obtain ⟨r, rest, hreached, ⟨hblank, hfinish⟩ | ⟨t, start, turn, rest', place, reason, hskips,
    hleads, hrefusal, rfl⟩⟩ := exists_reached_of_ofChars_eq_error h
  · obtain ⟨expected, rfl, -⟩ := exists_mendable_of_finish hfinish
    exact absurd rfl (hfound expected)
  · obtain ⟨front, hstart, ds, back, hunread, hshows, hrun⟩ :=
      hrefusal.exists_settled hleads rfl hfound
    rw [hstart] at hskips
    obtain ⟨before, hcs, hbefore⟩ := hreached.exists_cut hskips
    refine ⟨before, ds, back, hcs, hunread, hshows, ?_⟩
    intro back'
    have hfits : Fits (front ++ (ds ++ back)) (front ++ (ds ++ back')) := by
      rw [hstart, hunread, ← List.append_assoc] at hleads
      rw [← List.append_assoc, ← List.append_assoc]
      exact hleads.fits (List.append_ne_nil_of_right_ne_nil front hshows.ne_nil) back'
    rw [← hunread] at hfits
    rw [hbefore _ (.inr hfits), hrun]

theorem exists_halt_of_parse {text : String} {e : SyntaxError} (h : parse text = .error e) :
    ∃ before rest reason, text.toList = before ++ rest ∧
      ofChars text.toList = .error ⟨rest, reason⟩ ∧
        e = ⟨Position.after before, reason.fault rest⟩ := by
  cases hread : ofChars text.toList with
  | ok s =>
      rw [parse_of_ofChars hread] at h
      cases h
  | error halt =>
      obtain ⟨before, ds, k, htext, -⟩ := exists_mends_of_ofChars hread
      exact ⟨before, halt.unread, halt.reason, htext, rfl,
        Except.error.inj (h.symm.trans (parse_of_halt htext hread))⟩

/-- Told in the text: with what shows at an error, the error is the same whatever comes behind. -/
theorem exists_shows_of_halt {text : String} {before rest : List Char} {reason : Reason}
    (htext : text.toList = before ++ rest) (h : ofChars text.toList = .error ⟨rest, reason⟩)
    (hfound : ∀ expected, reason.fault rest ≠ .unexpected none expected) :
    ∃ ds, reason.Shows ds ∧ ds <+: rest ∧
      ∀ cs, parse (String.ofList (before ++ (ds ++ cs))) =
        .error ⟨Position.after before, reason.fault rest⟩ := by
  obtain ⟨before', ds, back, htext', hrest, hshows, hread⟩ := exists_shows_of_ofChars h hfound
  obtain rfl : before = before' := List.append_cancel_right (htext.symm.trans htext')
  obtain rfl : rest = ds ++ back := hrest
  refine ⟨ds, hshows, ⟨back, rfl⟩, ?_⟩
  intro cs
  rw [hshows.fault_append back cs]
  apply parse_of_halt
  · rw [String.toList_ofList]
  · rw [String.toList_ofList, hread]

/-- An error stands as early as it can. The text before it can be completed to a selector in the way
the error tells; with what stands at it, or with the opening of what is too deep, there is the same
error whatever comes behind. -/
theorem earliest_of_parse_eq_error {text : String} {e : SyntaxError} (h : parse text = .error e) :
    ∃ before rest, text.toList = before ++ rest ∧ e.position.offset = Text.byteLength before ∧
      (∀ c expected, e.fault = .unexpected (some c) expected →
        ∀ cs, parse (String.ofList (before ++ c :: cs)) = .error e) ∧
      (e.fault = .tooDeep → ∃ opening, Opening opening ∧ opening <+: rest ∧
        ∀ cs, parse (String.ofList (before ++ (opening ++ cs))) = .error e) ∧
      ∃ cs k, e.fault.Mends cs k ∧
        ∃ s, parse (String.ofList (before ++ (cs ++ List.replicate k ')'))) = .ok s := by
  obtain ⟨before, rest, reason, htext, hread, rfl⟩ := exists_halt_of_parse h
  refine ⟨before, rest, htext, Position.offset_after before, ?_, ?_, ?_⟩
  · intro c expected hfault cs
    cases reason with
    | tooDeep => cases hfault
    | expecting expected' =>
        obtain ⟨back, rfl⟩ := List.head?_eq_some_iff.1 (Fault.unexpected.inj hfault).1
        have hfound : ∀ expected, (Reason.expecting expected').fault (c :: back) ≠
            .unexpected none expected := by rintro _ ⟨⟩
        obtain ⟨ds, ⟨d, rfl⟩, hprefix, hparse⟩ := exists_shows_of_halt htext hread hfound
        obtain ⟨rfl, -⟩ := List.cons_prefix_cons.1 hprefix
        exact hparse cs
  · intro hfault
    cases reason with
    | tooDeep => exact exists_shows_of_halt htext hread (by rintro _ ⟨⟩)
    | expecting expected' => cases hfault
  · obtain ⟨before', ds, k, htext', hmends, s, hs⟩ := exists_mends_of_ofChars hread
    obtain rfl : before = before' := List.append_cancel_right (htext.symm.trans htext')
    refine ⟨ds, k, hmends, s, parse_of_ofChars ?_⟩
    rw [String.toList_ofList, hs]

theorem exists_earliest_second_comma : ∃ before rest, "(a,,b".toList = before ++ rest ∧
    Text.byteLength before = 3 ∧
      (∀ cs, parse (String.ofList (before ++ ',' :: cs)) =
        .error ⟨⟨3, 1, 4⟩, .unexpected (some ',') .term⟩) ∧
      ∃ k s, parse (String.ofList (before ++ (['a'] ++ List.replicate k ')'))) = .ok s := by
  have h : parse "(a,,b" = .error ⟨⟨3, 1, 4⟩, .unexpected (some ',') .term⟩ := by rfl
  obtain ⟨before, rest, htext, hoffset, hfound, -, cs, k, rfl, s, hs⟩ :=
    earliest_of_parse_eq_error h
  exact ⟨before, rest, htext, hoffset.symm, hfound ',' .term rfl, k, s, hs⟩

end Selector

end Highlight
