import Highlight.Proofs.Name.Rejected
import Highlight.Proofs.Position
import Highlight.Proofs.Scope.RoundTrip
import Highlight.Proofs.Text.Words

/-!
# Scopes read word by word

A scope is scanned without ever looking for the words of its text, and its lexemes need not be
words: `a:b` has three of them, and in `L :a` the first reaches into the second word. All the same,
reading a scope is reading its words as names, one after the other. A word that is a name is taken
off the front of the text; at one that is not, the scope is given up where the name is.
-/

namespace Highlight.Scope

open Text (Blank Skips IsWord words)

/-- The scope with one more name around all others. -/
def within (n : Name) (s : Scope) : Scope := ⟨n :: s.names⟩

theorem ofChars_of_skips {cs start : List Char} (h : Skips cs start) :
    ofChars cs = ofChars start := by
  rw [ofChars, Lexeme.scan_of_skips h, ofChars]

theorem ofChars_of_leads_name {n : Name} {start turn rest : List Char}
    (h : Token.Leads (.name n) start turn rest) :
    ofChars start = (ofChars rest).map (within n) := by
  have hname : Lexeme.name ⟨.name n, start, turn⟩ = .ok n := rfl
  rw [ofChars, Lexeme.scan_of_leads h, mapM_cons_of_ok hname, ofChars]
  cases (Lexeme.scan rest).mapM Lexeme.name with
  | error halt => rfl
  | ok ns => rfl

theorem ofChars_of_leads_error {t : Token} {start turn rest : List Char} {halt : Halt}
    (h : t.Leads start turn rest) (hname : Lexeme.name ⟨t, start, turn⟩ = .error halt) :
    ofChars start = .error halt := by
  rw [ofChars, Lexeme.scan_of_leads h, mapM_cons_of_error hname]
  rfl

/-- Where no component starts and nothing is skipped, the reading of a scope halts. -/
theorem ofChars_cons_of_breaks {c : Char} (hblank : Text.isBlank c = false)
    (hstart : isComponentStart c = false) (cs : List Char) :
    ofChars (c :: cs) = .error ⟨c :: cs, .expecting .component⟩ :=
  ofChars_of_leads_error (.mark hblank hstart) rfl

/-- A name that nothing prolongs is the first of the scope. This is so even of the letter of a side,
since the colon behind it stops the reading at the same place. -/
theorem ofChars_append_name {n : Name} (hn : n.WellFormed) {rest : List Char}
    (hrest : Name.EndsBefore rest) :
    ofChars (n.chars ++ rest) = (ofChars rest).map (within n) := by
  cases hside : Lexeme.sideOf? n rest with
  | none => exact ofChars_of_leads_name (.name hn hrest hside)
  | some side =>
      obtain ⟨rfl, ds, hcolon⟩ := Lexeme.eq_name_of_sideOf? hside
      rw [side.chars_name, List.singleton_append,
        ofChars_of_leads_error (.side hcolon) rfl, ofChars_of_skips hcolon,
        ofChars_cons_of_breaks (by decide) (by decide)]
      rfl

theorem ofChars_append_dot {n : Name} (hn : n.WellFormed) {turn : List Char}
    (hturn : Name.BreaksBefore turn) :
    ofChars (n.chars ++ '.' :: turn) = .error ⟨turn, .expecting .component⟩ :=
  ofChars_of_leads_error (.broken hn hturn) rfl

variable {before w after : List Char}

/-- A word that is a name is the first name of the scope. -/
theorem ofChars_append_of_ok (h : IsWord before w after) {n : Name}
    (hn : Name.ofChars w = .ok n) : ofChars (w ++ after) = (ofChars after).map (within n) := by
  rcases Name.eq_empty_or_wellFormed_of_ofChars hn with rfl | hwell
  · exact absurd (Name.chars_eq_of_ofChars hn).symm h.ne_nil
  · rw [← Name.chars_eq_of_ofChars hn]
    exact ofChars_append_name hwell fun c hc => isNameChar_of_isBlank (h.blank_after c hc)

/-- At a word that is no name, the reading of the scope halts where that of the name does. -/
theorem ofChars_append_of_error (h : IsWord before w after) {halt : Halt}
    (hw : Name.ofChars w = .error halt) :
    ofChars (w ++ after) = .error ⟨halt.unread ++ after, .expecting .component⟩ := by
  have hafter : Name.BreaksBefore after := by
    have hends : Name.EndsBefore after := fun c hc => isNameChar_of_isBlank (h.blank_after c hc)
    exact hends.breaksBefore
  cases Name.rejected_of_ofChars hw with
  | unstarted hne hbreaks =>
      obtain ⟨c, cs, rfl⟩ := List.exists_cons_of_ne_nil hne
      exact ofChars_cons_of_breaks (h.not_blank c List.mem_cons_self) (hbreaks c rfl) _
  | @prolonged n rest hn hne hrest =>
      obtain ⟨c, cs, rfl⟩ := List.exists_cons_of_ne_nil hne
      have hblank := h.not_blank c (List.mem_append_right _ List.mem_cons_self)
      have hends : Name.EndsBefore (c :: cs ++ after) := hrest
      rw [List.append_assoc, ofChars_append_name hn hends, List.cons_append,
        ofChars_cons_of_breaks hblank (hrest.breaksBefore c rfl)]
      rfl
  | @broken n turn hn hturn =>
      -- The dot may be the last of the word, and then the blank behind the word breaks the name.
      have hturn' : Name.BreaksBefore (turn ++ after) := by
        cases turn with
        | nil => exact hafter
        | cons c cs => exact hturn
      rw [List.append_assoc, List.cons_append]
      exact ofChars_append_dot hn hturn'

/-- The first word of a text that is not a name, with what is before and what is after it. -/
structure FirstRejected (cs before w after : List Char) : Prop where
  eq_append : cs = before ++ (w ++ after)
  isWord : IsWord before w after
  accepted : ∀ v ∈ words before, ∃ n, Name.parse (String.ofList v) = .ok n
  rejected : ∀ n, Name.parse (String.ofList w) ≠ .ok n

theorem FirstRejected.mem_words {cs : List Char} (h : FirstRejected cs before w after) :
    w ∈ words cs := by
  rw [h.eq_append, h.isWord.words_eq]
  exact List.mem_append_right _ List.mem_cons_self

/-- Behind one more name, the first word that is none remains the first. -/
theorem FirstRejected.cons {rest bs v : List Char} (h : FirstRejected rest before w after)
    (hbs : Blank bs) (hv : IsWord bs v rest) {n : Name} (hn : Name.ofChars v = .ok n) :
    FirstRejected (bs ++ (v ++ rest)) (bs ++ v ++ before) w after := by
  obtain ⟨rfl, hw, haccepted, hrejected⟩ := h
  have hne := hw.before_ne_nil hv.blank_after
  refine ⟨by simp, hw.append hne (bs ++ v), ?_, hrejected⟩
  rw [List.append_assoc, (hv.of_append hne).words_eq, hbs.skips_nil.words_eq]
  exact List.forall_mem_cons.2 ⟨⟨n, Name.parse_ofList_eq_ok_iff.2 hn⟩, haccepted⟩

/-- The words of a text are all names, or reading halts in the first that is none. -/
theorem ofChars_cases (cs : List Char) :
    (∃ ns, List.Forall₂ (fun w n => Name.ofChars w = .ok n) (words cs) ns ∧
        ofChars cs = .ok ⟨ns⟩) ∨
      ∃ before w after halt, FirstRejected cs before w after ∧ Name.ofChars w = .error halt ∧
        ofChars cs = .error ⟨halt.unread ++ after, .expecting .component⟩ := by
  rcases Text.blank_or_isWord cs with hblank | ⟨bs, w, rest, rfl, hbs, hw⟩
  · refine .inl ⟨[], ?_, ofChars_of_skips hblank.skips_nil⟩
    rw [hblank.skips_nil.words_eq]
    exact .nil
  · have hskips : Skips (bs ++ (w ++ rest)) (w ++ rest) := ⟨bs, hbs, rfl⟩
    rw [hskips.words_eq, hw.words_append, ofChars_of_skips hskips]
    cases hread : Name.ofChars w with
    | error halt =>
        refine .inr ⟨bs, w, rest, halt, ⟨rfl, hw, ?_, ?_⟩, hread, ofChars_append_of_error hw hread⟩
        · rw [hbs.skips_nil.words_eq]
          exact List.forall_mem_nil _
        · intro n hn
          rw [Name.parse_ofList_eq_ok_iff, hread] at hn
          cases hn
    | ok n =>
        have hlength : rest.length < (bs ++ (w ++ rest)).length := by
          have := List.length_pos_of_ne_nil hw.ne_nil
          simp
          omega
        -- What is left behind the word is shorter, and it is read without regard to the word.
        rw [ofChars_append_of_ok hw hread]
        rcases ofChars_cases rest with ⟨ns, hns, hrest⟩ |
          ⟨before, v, after, halt, hfirst, hrejected, hrest⟩
        · rw [hrest]
          exact .inl ⟨n :: ns, .cons hread hns, rfl⟩
        · rw [hrest]
          exact .inr ⟨bs ++ w ++ before, v, after, halt, hfirst.cons hbs hw hread, hrejected, rfl⟩
termination_by cs.length

/-- The place in a word where reading halts is the place in the text, counted from the word on. -/
theorem offset_error_append (before after : List Char) {halt : Halt} (h : Name.Rejected w halt)
    (reason : Reason) :
    (Halt.error (before ++ (w ++ after)) ⟨halt.unread ++ after, reason⟩).position.offset =
      Text.byteLength before + (Halt.error w halt).position.offset := by
  obtain ⟨front, hfront⟩ := h.exists_append
  have hword : Halt.error w halt = ⟨Position.after front, halt.reason.fault halt.unread⟩ := by
    rw [hfront]
    exact Halt.error_append front halt.unread halt.reason
  have htext : before ++ (w ++ after) = before ++ front ++ (halt.unread ++ after) := by
    simp [hfront]
  rw [hword, htext, Halt.error_append, Position.offset_after, Position.offset_after,
    Text.byteLength_append]

/-- The words of a text are all names, or reading ends in the error of the first that is none, with
the offset counted from the beginning of the text. -/
theorem parse_cases (text : String) :
    (∃ ns, List.Forall₂ (fun w n => Name.parse (String.ofList w) = .ok n) (words text.toList) ns ∧
        parse text = .ok ⟨ns⟩) ∨
      ∃ before w after d e, FirstRejected text.toList before w after ∧
        Name.parse (String.ofList w) = .error d ∧ parse text = .error e ∧
          e.position.offset = Text.byteLength before + d.position.offset := by
  rcases ofChars_cases text.toList with ⟨ns, hns, hread⟩ |
    ⟨before, w, after, halt, hfirst, hw, hread⟩
  · exact .inl ⟨ns, hns.imp fun _ _ => Name.parse_ofList_eq_ok_iff.2, mapError_eq_ok_iff.2 hread⟩
  · have hname : Name.parse (String.ofList w) = .error (Halt.error w halt) := by
      rw [Name.parse, String.toList_ofList, hw]
      rfl
    refine .inr ⟨before, w, after, _, _, hfirst, hname,
      mapError_eq_error_iff.2 ⟨_, hread, rfl⟩, ?_⟩
    rw [hfirst.eq_append]
    exact offset_error_append before after (Name.rejected_of_ofChars hw) _

/-- Reading a scope is reading its words as names. It succeeds if every word is a name, with these
names in order; else it fails in the first word that is none, at the place where that word fails. -/
theorem parse_word_by_word (text : String) :
    ((∃ s, parse text = .ok s) ↔
        ∀ w ∈ words text.toList, ∃ n, Name.parse (String.ofList w) = .ok n) ∧
      (∀ s, parse text = .ok s →
        List.Forall₂ (fun w n => Name.parse (String.ofList w) = .ok n) (words text.toList)
          s.names) ∧
      ∀ e, parse text = .error e → ∃ before w after d,
        FirstRejected text.toList before w after ∧ Name.parse (String.ofList w) = .error d ∧
          e.position.offset = Text.byteLength before + d.position.offset := by
  rcases parse_cases text with ⟨ns, hns, hparse⟩ |
    ⟨before, w, after, d, e, hfirst, hname, hparse, hoffset⟩
  · have hall : ∀ w ∈ words text.toList, ∃ n, Name.parse (String.ofList w) = .ok n :=
      ((List.forall₂_and_left _ _).1 (hns.imp fun _ n h => ⟨⟨n, h⟩, h⟩)).1
    rw [hparse]
    refine ⟨iff_of_true ⟨_, rfl⟩ hall, ?_, ?_⟩
    · intro s hs
      rwa [← Except.ok.inj hs]
    · intro e he
      cases he
  · rw [hparse]
    refine ⟨iff_of_false ?_ ?_, ?_, ?_⟩
    · rintro ⟨s, hs⟩
      cases hs
    · intro hall
      obtain ⟨n, hn⟩ := hall w hfirst.mem_words
      exact hfirst.rejected n hn
    · intro s hs
      cases hs
    · intro e' he
      rw [← Except.error.inj he]
      exact ⟨before, w, after, d, hfirst, hname, hoffset⟩

/-- In the text of three words with wide blanks in between, the second lacks a component behind its
dot, where the text goes on with a blank and the word does not. -/
theorem exists_first_rejected_broken : ∃ before w after d,
    FirstRejected "a.b\u3000c.\u2003d".toList before w after ∧
      Name.parse (String.ofList w) = .error d ∧
        Text.byteLength before + d.position.offset = 8 := by
  have h : parse "a.b\u3000c.\u2003d" =
      .error ⟨⟨8, 1, 7⟩, .unexpected (some '\u2003') .component⟩ := by rfl
  obtain ⟨before, w, after, d, hfirst, hw, hoffset⟩ := (parse_word_by_word _).2.2 _ h
  exact ⟨before, w, after, d, hfirst, hw, hoffset.symm⟩

end Highlight.Scope
