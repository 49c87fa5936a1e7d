import Highlight.Proofs.Lexeme.Places
import Highlight.Proofs.Name.Rejected
import Highlight.Proofs.Name.RoundTrip
import Highlight.Proofs.Selector.Errors
import Highlight.Scope.Reader

/-!
# Where errors point

Names, scopes and selectors are read by three readers, whose errors are told in one way. What an
error says about its place is true of the text: the place is between two characters, it has the line
and the column of the offset, and what is said to be found there is there. A reader that skips
blanks halts in front of a blank only where a component is missing behind a dot.
-/

namespace Highlight

open Text (Blank Skips)

/-- The places that the readers hold in a text: where its scanner goes on, the places of each
lexeme, those that are passed from there through blanks and through a name, and where the reading of
a name, a scope or a selector halts. -/
inductive Held (cs : List Char) : List Char → Prop
  | scanner {rest : List Char} (h : Lexeme.Scans cs rest) : Held cs rest
  | start {l : Lexeme} (h : l ∈ Lexeme.scan cs) : Held cs l.start
  | turn {l : Lexeme} (h : l ∈ Lexeme.scan cs) : Held cs l.turn
  | passed {c : Char} {rest : List Char} (h : Held cs (c :: rest))
      (hc : Text.isBlank c = true ∨ isNameChar c = true) : Held cs rest
  | behindName {n : Name} {start rest : List Char} (h : Held cs start)
      (hname : Name.read start = .ok (n, rest)) : Held cs rest
  | name {halt : Halt} (h : Name.ofChars cs = .error halt) : Held cs halt.unread
  | scope {halt : Halt} (h : Scope.ofChars cs = .error halt) : Held cs halt.unread
  | selector {halt : Halt} (h : Selector.ofChars cs = .error halt) : Held cs halt.unread

namespace SyntaxError

/-- The error stands between two characters of the text and is right about what is there. -/
structure PointsInto (e : SyntaxError) (text : String) : Prop where
  position_eq : e.position = Position.locate text e.position.offset
  offset_le : e.position.offset ≤ Text.byteLength text.toList
  boundary : ∃ rest, Text.dropBytes? text.toList e.position.offset = some rest
  found : ∀ c expected, e.fault = .unexpected (some c) expected →
    e.position.offset < Text.byteLength text.toList ∧
      ∃ rest, Text.dropBytes? text.toList e.position.offset = some (c :: rest)
  ended : ∀ expected, e.fault = .unexpected none expected →
    e.position.offset = Text.byteLength text.toList
  opening : e.fault = .tooDeep → ∃ cs rest, Opening cs ∧
    Text.dropBytes? text.toList e.position.offset = some (cs ++ rest)

/-- A blank is found only right behind a dot. -/
def SkipsBlanks (e : SyntaxError) (text : String) : Prop :=
  ∀ c expected, e.fault = .unexpected (some c) expected → Text.isBlank c = true →
    ∃ n rest, e.position.offset = n + 1 ∧
      Text.dropBytes? text.toList n = some ('.' :: c :: rest)

end SyntaxError

namespace Reason

variable {reason : Reason} {rest : List Char} {expected : Expected}

theorem exists_cons_of_fault {c : Char} (h : reason.fault rest = .unexpected (some c) expected) :
    ∃ back, rest = c :: back := by
  cases reason with
  | expecting _ => exact List.head?_eq_some_iff.1 (Fault.unexpected.inj h).1
  | tooDeep => cases h

theorem eq_nil_of_fault (h : reason.fault rest = .unexpected none expected) : rest = [] := by
  cases reason with
  | expecting _ => exact List.head?_eq_none_iff.1 (Fault.unexpected.inj h).1
  | tooDeep => cases h

theorem eq_tooDeep_of_fault (h : reason.fault rest = .tooDeep) : reason = .tooDeep := by
  cases reason with
  | expecting _ => cases h
  | tooDeep => rfl

end Reason

/-- Nothing blank comes next, unless there is a dot right before it. -/
def Text.Skipped (before rest : List Char) : Prop :=
  ∀ c ∈ rest.head?, isBlank c = true → ∃ front, before = front ++ ['.']

theorem Text.Skipped.append {before rest : List Char} (h : Skipped before rest)
    (front : List Char) : Skipped (front ++ before) rest := by
  intro c hc hblank
  obtain ⟨ds, rfl⟩ := h c hc hblank
  exact ⟨front ++ ds, by rw [List.append_assoc]⟩

namespace Halt

variable {text : String} {before : List Char} {halt : Halt}

theorem error_eq (htext : text.toList = before ++ halt.unread) :
    halt.error text.toList = ⟨Position.after before, halt.reason.fault halt.unread⟩ := by
  rw [htext]
  exact error_append before halt.unread halt.reason

theorem dropBytes?_offset (htext : text.toList = before ++ halt.unread) :
    Text.dropBytes? text.toList (halt.error text.toList).position.offset = some halt.unread := by
  rw [error_eq htext, Position.offset_after, Text.dropBytes?_eq_some_iff]
  exact ⟨before, htext, rfl⟩

/-- What is said of a place holds if the text there is as the reader left it. -/
theorem error_pointsInto (htext : text.toList = before ++ halt.unread)
    (hdeep : halt.reason = .tooDeep → ∃ cs rest, Opening cs ∧ halt.unread = cs ++ rest) :
    (halt.error text.toList).PointsInto text := by
  have hdrop := dropBytes?_offset htext
  have hlength : Text.byteLength text.toList =
      (halt.error text.toList).position.offset + Text.byteLength halt.unread := by
    rw [error_eq htext, Position.offset_after, htext, Text.byteLength_append]
  have hfault : (halt.error text.toList).fault = halt.reason.fault halt.unread := by
    rw [error_eq htext]
  refine ⟨?_, ?_, ⟨_, hdrop⟩, ?_, ?_, ?_⟩
  · rw [error_eq htext, Position.offset_after, Position.locate_byteLength htext]
  · rw [hlength]
    exact Nat.le_add_right _ _
  · intro c expected hfound
    obtain ⟨back, hback⟩ := Reason.exists_cons_of_fault (hfault ▸ hfound)
    rw [hback, Text.byteLength_cons] at hlength
    rw [hback] at hdrop
    refine ⟨?_, back, hdrop⟩
    have := c.utf8Size_pos
    omega
  · intro expected hended
    have hnil := Reason.eq_nil_of_fault (hfault ▸ hended)
    rw [hlength, hnil, Text.byteLength_nil, Nat.add_zero]
  · intro htooDeep
    obtain ⟨cs, rest, hopening, hunread⟩ := hdeep (Reason.eq_tooDeep_of_fault (hfault ▸ htooDeep))
    exact ⟨cs, rest, hopening, hunread ▸ hdrop⟩

theorem error_skipsBlanks (htext : text.toList = before ++ halt.unread)
    (hskipped : Text.Skipped before halt.unread) : (halt.error text.toList).SkipsBlanks text := by
  intro c expected hfound hblank
  rw [error_eq htext] at hfound ⊢
  obtain ⟨back, hback⟩ := Reason.exists_cons_of_fault hfound
  rw [hback] at htext hskipped
  obtain ⟨front, rfl⟩ := hskipped c rfl hblank
  refine ⟨Text.byteLength front, back, ?_, Text.dropBytes?_eq_some_iff.2 ⟨front, ?_, rfl⟩⟩
  · rw [Position.offset_after, Text.byteLength_append]
    rfl
  · rw [htext, List.append_assoc, List.singleton_append]

end Halt

/-- Where reading may halt in a token: where it begins, or where it turns out to be no name. -/
def Token.HaltsAt : Token → Place → Prop
  | _, .start => True
  | .broken _, .turn => True
  | .side _, .turn => True
  | .name _, .turn => False
  | .mark _, .turn => False

/-- Where reading may halt in a token, it is not in front of a blank, but for a broken name. -/
theorem Token.Leads.exists_skipped {t : Token} {start turn rest : List Char} {place : Place}
    (h : t.Leads start turn rest) (hplace : t.HaltsAt place) :
    ∃ front, start = front ++ Lexeme.unreadAt ⟨t, start, turn⟩ place ∧
      Text.Skipped front (Lexeme.unreadAt ⟨t, start, turn⟩ place) := by
  have hstart : Text.Skipped [] start := by
    obtain ⟨c, cs, hc, rfl, -⟩ := h.exists_append
    intro d hd hblank
    obtain rfl : c = d := by simpa using hd
    rw [hc] at hblank
    cases hblank
  cases place with
  | start => exact ⟨[], rfl, hstart⟩
  | turn =>
      cases h with
      | name hn hrest hside => exact absurd hplace id
      | @broken n turn hn hturn =>
          -- The one place behind which blanks are not skipped.
          exact ⟨n.chars ++ ['.'], by simp [Lexeme.unreadAt], fun _ _ _ => ⟨n.chars, rfl⟩⟩
      | @side side cs rest hcs =>
          rcases hcs with ⟨bs, hbs, rfl⟩
          refine ⟨side.letter :: bs, rfl, ?_⟩
          intro c hc hblank
          obtain rfl : ':' = c := by simpa [Lexeme.unreadAt] using hc
          cases hblank
      | mark hblank hstart => exact absurd hplace id

theorem Reading.Refusal.haltsAt {r : Reading} {t : Token} {place : Place} {reason : Reason}
    (h : Refusal r t place reason) : t.HaltsAt place := by
  cases h <;> trivial

theorem Lexeme.exists_haltsAt_of_name {l : Lexeme} {halt : Halt} (h : l.name = .error halt) :
    ∃ place, l.token.HaltsAt place ∧ halt = ⟨l.unreadAt place, .expecting .component⟩ := by
  rcases l with ⟨token, start, turn⟩
  cases token with
  | name n => cases h
  | broken n => exact ⟨.turn, trivial, (Except.error.inj h).symm⟩
  | side side => exact ⟨.turn, trivial, (Except.error.inj h).symm⟩
  | mark c => exact ⟨.start, trivial, (Except.error.inj h).symm⟩

theorem Name.Rejected.reason_ne_tooDeep {cs : List Char} {halt : Halt}
    (h : Name.Rejected cs halt) : halt.reason ≠ .tooDeep := by
  cases h <;> exact Reason.noConfusion

/-- A scope is given up at a lexeme that is no name. -/
theorem Scope.exists_skipped_of_ofChars {cs : List Char} {halt : Halt}
    (h : Scope.ofChars cs = .error halt) :
    halt.reason ≠ .tooDeep ∧
      ∃ before, cs = before ++ halt.unread ∧ Text.Skipped before halt.unread := by
  obtain ⟨earlier, l, later, hscan, -, hname⟩ := mapM_eq_error_iff.1 (map_eq_error_iff.1 h)
  have hmem : l ∈ Lexeme.scan cs := by
    rw [hscan]
    exact List.mem_append_right _ List.mem_cons_self
  obtain ⟨rest, ⟨before, rfl⟩, hleads⟩ := Lexeme.exists_leads_of_mem_scan hmem
  obtain ⟨place, hplace, rfl⟩ := Lexeme.exists_haltsAt_of_name hname
  obtain ⟨front, hfront, hskipped⟩ := hleads.exists_skipped hplace
  refine ⟨Reason.noConfusion, before ++ front, ?_, hskipped.append before⟩
  rw [List.append_assoc, ← hfront]

/-- A selector is given up at its end or in a token that is refused. -/
theorem Selector.exists_skipped_of_ofChars {cs : List Char} {halt : Halt}
    (h : Selector.ofChars cs = .error halt) :
    ∃ before, cs = before ++ halt.unread ∧ Text.Skipped before halt.unread := by
  obtain ⟨r, rest, hreached, ⟨hblank, hfinish⟩ | ⟨t, start, turn, rest', place, reason, hskips,
    hleads, hrefusal, rfl⟩⟩ := Reading.exists_reached_of_ofChars_eq_error h
  · obtain ⟨expected, rfl, -⟩ := Reading.exists_mendable_of_finish hfinish
    refine ⟨cs, (List.append_nil cs).symm, ?_⟩
    intro c hc
    cases hc
  · obtain ⟨before, rfl, -⟩ := hreached.exists_append
    obtain ⟨front, hfront, hskipped⟩ := hleads.exists_skipped hrefusal.haltsAt
    rcases hskips with ⟨bs, hbs, rfl⟩
    refine ⟨before ++ (bs ++ front), ?_, (hskipped.append bs).append before⟩
    rw [List.append_assoc, List.append_assoc, ← hfront]

theorem Held.suffix {cs rest : List Char} (h : Held cs rest) : rest <:+ cs := by
  induction h with
  | scanner h => exact h.suffix
  | start h =>
      obtain ⟨rest, hstart, -⟩ := Lexeme.exists_leads_of_mem_scan h
      exact hstart
  | turn h =>
      obtain ⟨rest, hstart, hleads⟩ := Lexeme.exists_leads_of_mem_scan h
      exact hleads.turn_suffix.trans hstart
  | passed h hc ih => exact (List.suffix_cons _ _).trans ih
  | behindName h hname ih =>
      rw [Name.eq_append_of_read hname] at ih
      exact (List.suffix_append _ _).trans ih
  | name h =>
      obtain ⟨front, hfront⟩ := (Name.rejected_of_ofChars h).exists_append
      exact ⟨front, hfront.symm⟩
  | scope h =>
      obtain ⟨-, before, hbefore, -⟩ := Scope.exists_skipped_of_ofChars h
      exact ⟨before, hbefore.symm⟩
  | selector h =>
      obtain ⟨before, hbefore, -⟩ := Selector.exists_skipped_of_ofChars h
      exact ⟨before, hbefore.symm⟩

namespace SyntaxError

theorem pointsInto_of_name {text : String} {e : SyntaxError} (h : Name.parse text = .error e) :
    e.PointsInto text := by
  obtain ⟨halt, hread, rfl⟩ := mapError_eq_error_iff.1 h
  have hrejected := Name.rejected_of_ofChars hread
  obtain ⟨before, htext⟩ := hrejected.exists_append
  exact halt.error_pointsInto htext fun hdeep => absurd hdeep hrejected.reason_ne_tooDeep

theorem pointsInto_of_scope {text : String} {e : SyntaxError} (h : Scope.parse text = .error e) :
    e.PointsInto text ∧ e.SkipsBlanks text := by
  obtain ⟨halt, hread, rfl⟩ := mapError_eq_error_iff.1 h
  obtain ⟨hreason, before, htext, hskipped⟩ := Scope.exists_skipped_of_ofChars hread
  exact ⟨halt.error_pointsInto htext fun hdeep => absurd hdeep hreason,
    halt.error_skipsBlanks htext hskipped⟩

theorem pointsInto_of_selector {text : String} {e : SyntaxError}
    (h : Selector.parse text = .error e) : e.PointsInto text ∧ e.SkipsBlanks text := by
  obtain ⟨halt, hread, rfl⟩ := mapError_eq_error_iff.1 h
  obtain ⟨before, htext, hskipped⟩ := Selector.exists_skipped_of_ofChars hread
  refine ⟨halt.error_pointsInto htext ?_, halt.error_skipsBlanks htext hskipped⟩
  intro hdeep
  rcases halt with ⟨unread, reason⟩
  obtain rfl : reason = .tooDeep := hdeep
  obtain ⟨before', cs, back, -, hunread, hopening, -⟩ :=
    Selector.exists_shows_of_ofChars hread (by rintro expected ⟨⟩)
  exact ⟨cs, back, hopening, hunread⟩

/-- The readers hold no place inside of a character or past the end, and their errors are right
about the place they name. -/
theorem points_into_text (text : String) :
    (∀ rest, Held text.toList rest → Text.IsPlace text.toList rest) ∧
      (∀ e, Name.parse text = .error e → e.PointsInto text) ∧
      (∀ e, Scope.parse text = .error e → e.PointsInto text ∧ e.SkipsBlanks text) ∧
      ∀ e, Selector.parse text = .error e → e.PointsInto text ∧ e.SkipsBlanks text :=
  ⟨fun _ h => Text.isPlace_of_suffix h.suffix, fun _ => pointsInto_of_name,
    fun _ => pointsInto_of_scope, fun _ => pointsInto_of_selector⟩

/-- Behind a line break and a wide blank, which are no part of a name, a component is missing: a
scope and a selector are given up at the blank behind the dot. -/
theorem exists_points_behind_dot : ∃ e e',
    Name.parse "\n\u3000a.\u00a0b" = .error e ∧ e.PointsInto "\n\u3000a.\u00a0b" ∧
      Scope.parse "\n\u3000a.\u00a0b" = .error e' ∧
      Selector.parse "\n\u3000a.\u00a0b" = .error e' ∧ e'.position = ⟨6, 2, 4⟩ ∧
        (e'.PointsInto "\n\u3000a.\u00a0b" ∧ e'.SkipsBlanks "\n\u3000a.\u00a0b") ∧
          Text.IsPlace "\n\u3000a.\u00a0b".toList ['\u00a0', 'b'] := by
  have hname : Name.parse "\n\u3000a.\u00a0b" =
      .error ⟨⟨0, 1, 1⟩, .unexpected (some '\n') .component⟩ := by rfl
  have hscope : Scope.parse "\n\u3000a.\u00a0b" =
      .error ⟨⟨6, 2, 4⟩, .unexpected (some '\u00a0') .component⟩ := by rfl
  have hselector : Selector.parse "\n\u3000a.\u00a0b" =
      .error ⟨⟨6, 2, 4⟩, .unexpected (some '\u00a0') .component⟩ := by rfl
  have hread : Selector.ofChars "\n\u3000a.\u00a0b".toList =
      .error ⟨['\u00a0', 'b'], .expecting .component⟩ := by rfl
  exact ⟨_, _, hname, (points_into_text _).2.1 _ hname, hscope, hselector, rfl,
    (points_into_text _).2.2.2 _ hselector, (points_into_text _).1 _ (.selector hread)⟩

end SyntaxError

end Highlight
