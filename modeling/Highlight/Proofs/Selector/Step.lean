import Highlight.Selector.Reading

/-!
# What a reading does with a token

`Step r t r'` lists, clause by clause, the tokens that a reading goes on with and what becomes of
it. `Refusal r t place reason` lists those it halts at, with the place in the lexeme and the reason.
Taking a lexeme is one or the other. The rest of the lexeme matters to a reading only where it
halts.
-/

namespace Highlight

/-- The two places of a lexeme at which reading may halt. -/
inductive Place
  | start
  | turn
deriving DecidableEq

def Lexeme.unreadAt (l : Lexeme) : Place → List Char
  | .start => l.start
  | .turn => l.turn

theorem Frame.eq_fresh_of_isFresh {f : Frame} (h : f.isFresh = true) : f = .fresh := by
  rcases f with ⟨composites, chain, complement, sides⟩
  simp only [isFresh, Bool.and_eq_true, List.isEmpty_iff, Option.isNone_iff_eq_none,
    Bool.not_eq_true'] at h
  rcases h with ⟨⟨⟨rfl, rfl⟩, rfl⟩, rfl⟩
  rfl

namespace Operator

theorem eq_char_of_ofChar? {c : Char} {o : Operator} (h : ofChar? c = some o) : c = o.char := by
  by_cases hu : c = '|'
  · simp only [ofChar?, if_pos hu, Option.some.injEq] at h
    rw [hu, ← h, char]
  · by_cases hi : c = '&'
    · simp only [ofChar?, if_neg hu, if_pos hi, Option.some.injEq] at h
      rw [hi, ← h, char]
    · by_cases hd : c = '-'
      · simp only [ofChar?, if_neg hu, if_neg hi, if_pos hd, Option.some.injEq] at h
        rw [hd, ← h, char]
      · simp [ofChar?, hu, hi, hd] at h

theorem ofChar?_eq_none {c : Char} (h : ∀ o : Operator, c ≠ o.char) : ofChar? c = none := by
  cases ho : ofChar? c with
  | none => rfl
  | some o => exact absurd (eq_char_of_ofChar? ho) (h o)

end Operator

namespace Reading

inductive Step : Reading → Token → Reading → Prop
  | name {f : Frame} {outer : List Frame} (n : Name) :
      Step ⟨f, outer, .term⟩ (.name n) ⟨f, outer, .done (.path (.ofRoot n))⟩
  | filter {f : Frame} {outer : List Frame} (side : Side)
      (hdepth : depth ⟨f, outer, .term⟩ < maxNesting) :
      Step ⟨f, outer, .term⟩ (.side side) ⟨{ f with sides := f.sides ++ [side] }, outer, .term⟩
  | group {f : Frame} {outer : List Frame} (hdepth : depth ⟨f, outer, .term⟩ < maxNesting) :
      Step ⟨f, outer, .term⟩ (.mark '(') ⟨.fresh, f :: outer, .term⟩
  | anchorBegin {f : Frame} {outer : List Frame} :
      Step ⟨f, outer, .term⟩ (.mark '^') ⟨f, outer, .root⟩
  | complement {f : Frame} {outer : List Frame} (hcomplement : f.complement = false)
      (hsides : f.sides = []) :
      Step ⟨f, outer, .term⟩ (.mark '-') ⟨{ f with complement := true }, outer, .term⟩
  | closeEmpty {f : Frame} {outer : List Frame} :
      Step ⟨.fresh, f :: outer, .term⟩ (.mark ')') ⟨f, outer, .done (.group .universal)⟩
  | root {f : Frame} {outer : List Frame} (n : Name) :
      Step ⟨f, outer, .root⟩ (.name n) ⟨f, outer, .done (.path (Path.ofRoot n).anchorBegin)⟩
  | child {f : Frame} {outer : List Frame} (p : Path) (n : Name) :
      Step ⟨f, outer, .child p⟩ (.name n) ⟨f, outer, .done (.path (p.append .direct n))⟩
  | descendant {f : Frame} {outer : List Frame} {p : Path} (hp : p.endAnchor = false) (n : Name) :
      Step ⟨f, outer, .done (.path p)⟩ (.name n)
        ⟨f, outer, .done (.path (p.append .transitive n))⟩
  | direct {f : Frame} {outer : List Frame} {p : Path} (hp : p.endAnchor = false) :
      Step ⟨f, outer, .done (.path p)⟩ (.mark '>') ⟨f, outer, .child p⟩
  | anchorEnd {f : Frame} {outer : List Frame} {p : Path} (hp : p.endAnchor = false) :
      Step ⟨f, outer, .done (.path p)⟩ (.mark '$') ⟨f, outer, .done (.path p.anchorEnd)⟩
  | operator {f : Frame} {outer : List Frame} (t : Term) (operator : Operator) :
      Step ⟨f, outer, .done t⟩ (.mark operator.char) ⟨f.afterOperator t operator, outer, .term⟩
  | comma {f : Frame} {outer : List Frame} (t : Term) :
      Step ⟨f, outer, .done t⟩ (.mark ',') ⟨f.afterComma t, outer, .term⟩
  | close {f g : Frame} {outer : List Frame} (t : Term) :
      Step ⟨f, g :: outer, .done t⟩ (.mark ')') ⟨g, outer, .done (.group (f.selector t))⟩

/-- A name may come next, be it as a term or as a part of a path. -/
def NameMayFollow (r : Reading) : Prop :=
  match r.phase with
  | .done (.path p) => p.endAnchor = false
  | .done _ => False
  | _ => True

inductive Refusal : Reading → Token → Place → Reason → Prop
  | filter {f : Frame} {outer : List Frame} (side : Side)
      (hdepth : maxNesting ≤ depth ⟨f, outer, .term⟩) :
      Refusal ⟨f, outer, .term⟩ (.side side) .start .tooDeep
  | group {f : Frame} {outer : List Frame} (hdepth : maxNesting ≤ depth ⟨f, outer, .term⟩) :
      Refusal ⟨f, outer, .term⟩ (.mark '(') .start .tooDeep
  | noTerm {f : Frame} {outer : List Frame} {c : Char} (hgroup : c ≠ '(') (hanchor : c ≠ '^')
      (hcomplement : ¬ (c = '-' ∧ f.complement = false ∧ f.sides = []))
      (hclose : ¬ (c = ')' ∧ f = .fresh)) :
      Refusal ⟨f, outer, .term⟩ (.mark c) .start (.expecting .term)
  | surplus : Refusal ⟨.fresh, [], .term⟩ (.mark ')') .start (.expecting .endOfSelector)
  | noComponent {r : Reading} (c : Char) (hphase : r.phase = .root ∨ ∃ p, r.phase = .child p) :
      Refusal r (.mark c) .start (.expecting .component)
  | broken {r : Reading} (n : Name) (hname : r.NameMayFollow) :
      Refusal r (.broken n) .turn (.expecting .component)
  | colon {r : Reading} (side : Side) (hname : r.NameMayFollow) (hterm : r.phase ≠ .term) :
      Refusal r (.side side) .turn (.expecting r.closing)
  | noPart {f : Frame} {outer : List Frame} {t : Term} {token : Token}
      (hname : ¬ NameMayFollow ⟨f, outer, .done t⟩) (hmark : ∀ c, token ≠ .mark c) :
      Refusal ⟨f, outer, .done t⟩ token .start (.expecting (closing ⟨f, outer, .done t⟩))
  | noOperator {f : Frame} {outer : List Frame} {t : Term} {c : Char}
      (hpath : NameMayFollow ⟨f, outer, .done t⟩ → c ≠ '>' ∧ c ≠ '$')
      (hoperator : ∀ o : Operator, c ≠ o.char) (hcomma : c ≠ ',')
      (hclose : c = ')' → outer = []) :
      Refusal ⟨f, outer, .done t⟩ (.mark c) .start (.expecting (closing ⟨f, outer, .done t⟩))

/-- Behind any term at all, a mark that does not continue a path is not part of the term. -/
theorem take_done_mark (f : Frame) (outer : List Frame) {t : Term} {c : Char}
    (hpath : NameMayFollow ⟨f, outer, .done t⟩ → c ≠ '>' ∧ c ≠ '$') (start turn : List Char) :
    (Reading.mk f outer (.done t)).take ⟨.mark c, start, turn⟩ =
      (Reading.mk f outer (.done t)).takeAfter t ⟨.mark c, start, turn⟩ := by
  cases t with
  | filter side t => rfl
  | group s => rfl
  | path p =>
      simp only [take, takePath]
      split
      · rfl
      · next hp =>
          obtain ⟨hdirect, hend⟩ := hpath (show p.endAnchor = false by simpa using hp)
          rw [if_neg (by simpa using hdirect), if_neg (by simpa using hend)]

/-- A token that is not a mark is no part of a term that no name may follow. -/
theorem take_done_of_ne_mark (f : Frame) (outer : List Frame) {t : Term} {token : Token}
    (hname : ¬ NameMayFollow ⟨f, outer, .done t⟩) (hmark : ∀ c, token ≠ .mark c)
    (start turn : List Char) :
    (Reading.mk f outer (.done t)).take ⟨token, start, turn⟩ =
      .error ⟨start, .expecting (closing ⟨f, outer, .done t⟩)⟩ := by
  have hafter : (Reading.mk f outer (.done t)).takeAfter t ⟨token, start, turn⟩ =
      .error ⟨start, .expecting (closing ⟨f, outer, .done t⟩)⟩ := by
    cases token with
    | mark c => exact absurd rfl (hmark c)
    | name n => rfl
    | broken n => rfl
    | side side => rfl
  cases t with
  | filter side t => exact hafter
  | group s => exact hafter
  | path p =>
      have hp : p.endAnchor = true := by simpa [NameMayFollow] using hname
      simp only [take, takePath, hp, if_pos]
      exact hafter

theorem exists_path_of_nameMayFollow {f : Frame} {outer : List Frame} {t : Term}
    (h : NameMayFollow ⟨f, outer, .done t⟩) : ∃ p, t = .path p ∧ p.endAnchor = false := by
  cases t with
  | filter side t => exact absurd h id
  | group s => exact absurd h id
  | path p => exact ⟨p, rfl, h⟩

/-- Where a name may follow and a term may not, every token but a mark is taken as a name. -/
theorem NameMayFollow.exists_takeName {r : Reading} (h : r.NameMayFollow) (hterm : r.phase ≠ .term)
    {l : Lexeme} (hmark : ∀ c, l.token ≠ .mark c) : ∃ path, r.take l = r.takeName path l := by
  rcases r with ⟨f, outer, phase⟩
  cases phase with
  | term => exact absurd rfl hterm
  | root => exact ⟨_, rfl⟩
  | child p => exact ⟨_, rfl⟩
  | done t =>
      obtain ⟨p, rfl, hp⟩ := exists_path_of_nameMayFollow h
      refine ⟨p.append .transitive, ?_⟩
      rcases l with ⟨token, start, turn⟩
      cases token with
      | mark c => exact absurd rfl (hmark c)
      | name n => simp [take, takePath, hp]
      | broken n => simp [take, takePath, hp]
      | side side => simp [take, takePath, hp]

theorem Step.take_eq {r r' : Reading} {t : Token} (h : Step r t r') (start turn : List Char) :
    r.take ⟨t, start, turn⟩ = .ok r' := by
  cases h with
  | name n => rfl
  | filter side hdepth => simp [take, takeTerm, Nat.not_le.2 hdepth]
  | group hdepth => simp [take, takeTerm, Nat.not_le.2 hdepth]
  | anchorBegin => rfl
  | complement hcomplement hsides => simp [take, takeTerm, hcomplement, hsides]
  | closeEmpty => rfl
  | root n => rfl
  | child p n => rfl
  | descendant hp n => simp [take, takePath, takeName, hp]
  | direct hp => simp [take, takePath, hp]
  | anchorEnd hp => simp [take, takePath, hp]
  | operator t operator =>
      rw [take_done_mark _ _ fun _ => by cases operator <;> decide]
      simp [takeAfter, Operator.ofChar?_char]
  | comma t => exact take_done_mark _ _ (fun _ => by decide) start turn
  | close t => exact take_done_mark _ _ (fun _ => by decide) start turn

theorem Refusal.take_eq {r : Reading} {t : Token} {place : Place} {reason : Reason}
    (h : Refusal r t place reason) (start turn : List Char) :
    r.take ⟨t, start, turn⟩ = .error ⟨Lexeme.unreadAt ⟨t, start, turn⟩ place, reason⟩ := by
  cases h with
  | filter side hdepth => simp [take, takeTerm, hdepth, Lexeme.unreadAt]
  | group hdepth => simp [take, takeTerm, hdepth, Lexeme.unreadAt]
  | @noTerm f outer c hgroup hanchor hcomplement hclose =>
      have hfresh : ¬ (c = ')' ∧ f.isFresh = true) :=
        fun h => hclose ⟨h.1, Frame.eq_fresh_of_isFresh h.2⟩
      simp only [take, takeTerm, if_neg hgroup, if_neg hanchor, List.isEmpty_iff,
        if_neg hcomplement, if_neg hfresh]
      rfl
  | surplus => rfl
  | @noComponent r c hphase =>
      rcases r with ⟨f, outer, phase⟩
      rcases hphase with rfl | ⟨p, rfl⟩
      · rfl
      · rfl
  | @broken r n hname =>
      by_cases hterm : r.phase = .term
      · rcases r with ⟨f, outer, phase⟩
        obtain rfl : phase = .term := hterm
        rfl
      · obtain ⟨path, htake⟩ := hname.exists_takeName hterm
          (l := ⟨.broken n, start, turn⟩) fun _ => Token.noConfusion
        rw [htake]
        rfl
  | @colon r side hname hterm =>
      obtain ⟨path, htake⟩ := hname.exists_takeName hterm
        (l := ⟨.side side, start, turn⟩) fun _ => Token.noConfusion
      rw [htake]
      rfl
  | noPart hname hmark => exact take_done_of_ne_mark _ _ hname hmark start turn
  | @noOperator f outer t c hpath hoperator hcomma hclose =>
      rw [take_done_mark _ _ hpath]
      simp only [takeAfter, Operator.ofChar?_eq_none hoperator, if_neg hcomma]
      split
      · next h =>
          obtain rfl := hclose h
          rfl
      · rfl

theorem step_or_refusal_term (f : Frame) (outer : List Frame) (t : Token) :
    (∃ r', Step ⟨f, outer, .term⟩ t r') ∨
      ∃ place reason, Refusal ⟨f, outer, .term⟩ t place reason := by
  have hdepth := Nat.lt_or_ge (depth ⟨f, outer, .term⟩) maxNesting
  cases t with
  | name n => exact .inl ⟨_, .name n⟩
  | broken n => exact .inr ⟨_, _, .broken n trivial⟩
  | side side =>
      rcases hdepth with hdepth | hdepth
      · exact .inl ⟨_, .filter side hdepth⟩
      · exact .inr ⟨_, _, .filter side hdepth⟩
  | mark c =>
      by_cases hgroup : c = '('
      · obtain rfl := hgroup
        rcases hdepth with hdepth | hdepth
        · exact .inl ⟨_, .group hdepth⟩
        · exact .inr ⟨_, _, .group hdepth⟩
      by_cases hanchor : c = '^'
      · obtain rfl := hanchor
        exact .inl ⟨_, .anchorBegin⟩
      by_cases hcomplement : c = '-' ∧ f.complement = false ∧ f.sides = []
      · rcases hcomplement with ⟨rfl, hcomplement, hsides⟩
        exact .inl ⟨_, .complement hcomplement hsides⟩
      by_cases hclose : c = ')' ∧ f = .fresh
      · rcases hclose with ⟨rfl, rfl⟩
        cases outer with
        | nil => exact .inr ⟨_, _, .surplus⟩
        | cons g outer => exact .inl ⟨_, .closeEmpty⟩
      exact .inr ⟨_, _, .noTerm hgroup hanchor hcomplement hclose⟩

/-- Where a name must come next, nothing else may. -/
theorem step_or_refusal_name {r : Reading} (hphase : r.phase = .root ∨ ∃ p, r.phase = .child p)
    (t : Token) : (∃ r', Step r t r') ∨ ∃ place reason, Refusal r t place reason := by
  rcases r with ⟨f, outer, phase⟩
  have hname : NameMayFollow ⟨f, outer, phase⟩ := by
    rcases hphase with rfl | ⟨p, rfl⟩ <;> exact trivial
  have hterm : phase ≠ .term := by
    rcases hphase with rfl | ⟨p, rfl⟩ <;> exact Phase.noConfusion
  cases t with
  | name n =>
      rcases hphase with rfl | ⟨p, rfl⟩
      · exact .inl ⟨_, .root n⟩
      · exact .inl ⟨_, .child p n⟩
  | broken n => exact .inr ⟨_, _, .broken n hname⟩
  | side side => exact .inr ⟨_, _, .colon side hname hterm⟩
  | mark c => exact .inr ⟨_, _, .noComponent c hphase⟩

theorem step_or_refusal_mark (f : Frame) (outer : List Frame) (t : Term) (c : Char) :
    (∃ r', Step ⟨f, outer, .done t⟩ (.mark c) r') ∨
      ∃ place reason, Refusal ⟨f, outer, .done t⟩ (.mark c) place reason := by
  by_cases hpath : NameMayFollow ⟨f, outer, .done t⟩ → c ≠ '>' ∧ c ≠ '$'
  · by_cases hoperator : ∃ o : Operator, c = o.char
    · rcases hoperator with ⟨o, rfl⟩
      exact .inl ⟨_, .operator t o⟩
    by_cases hcomma : c = ','
    · obtain rfl := hcomma
      exact .inl ⟨_, .comma t⟩
    have hoperator : ∀ o : Operator, c ≠ o.char := fun o h => hoperator ⟨o, h⟩
    cases outer with
    | nil => exact .inr ⟨_, _, .noOperator hpath hoperator hcomma fun _ => rfl⟩
    | cons g outer =>
        by_cases hclose : c = ')'
        · obtain rfl := hclose
          exact .inl ⟨_, .close t⟩
        · exact .inr ⟨_, _, .noOperator hpath hoperator hcomma fun h => absurd h hclose⟩
  · obtain ⟨hname, hmark⟩ := Classical.not_imp.1 hpath
    obtain ⟨p, rfl, hp⟩ := exists_path_of_nameMayFollow hname
    by_cases hdirect : c = '>'
    · obtain rfl := hdirect
      exact .inl ⟨_, .direct hp⟩
    · obtain rfl : c = '$' := Classical.not_not.1 fun hend => hmark ⟨hdirect, hend⟩
      exact .inl ⟨_, .anchorEnd hp⟩

theorem step_or_refusal_done (f : Frame) (outer : List Frame) (t : Term) (token : Token) :
    (∃ r', Step ⟨f, outer, .done t⟩ token r') ∨
      ∃ place reason, Refusal ⟨f, outer, .done t⟩ token place reason := by
  by_cases hmark : ∃ c, token = .mark c
  · rcases hmark with ⟨c, rfl⟩
    exact step_or_refusal_mark f outer t c
  by_cases hname : NameMayFollow ⟨f, outer, .done t⟩
  · obtain ⟨p, rfl, hp⟩ := exists_path_of_nameMayFollow hname
    cases token with
    | mark c => exact absurd ⟨c, rfl⟩ hmark
    | name n => exact .inl ⟨_, .descendant hp n⟩
    | broken n => exact .inr ⟨_, _, .broken n hname⟩
    | side side => exact .inr ⟨_, _, .colon side hname Phase.noConfusion⟩
  · exact .inr ⟨_, _, .noPart hname fun c hc => hmark ⟨c, hc⟩⟩

/-- There is nothing else that a reading does. -/
theorem step_or_refusal (r : Reading) (t : Token) :
    (∃ r', Step r t r') ∨ ∃ place reason, Refusal r t place reason := by
  rcases r with ⟨f, outer, phase⟩
  cases phase with
  | term => exact step_or_refusal_term f outer t
  | root => exact step_or_refusal_name (.inl rfl) t
  | child p => exact step_or_refusal_name (.inr ⟨p, rfl⟩) t
  | done t' => exact step_or_refusal_done f outer t' t

end Reading

end Highlight
