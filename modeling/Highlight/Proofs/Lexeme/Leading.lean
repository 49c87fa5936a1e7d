import Highlight.Lexeme
import Highlight.Proofs.Name.WellFormed

/-!
# What a text starts with

`t.Leads start turn rest` says that the token `t` stands right at the beginning of the text `start`
and that `rest` is behind it, all of it judged with the text that really follows, so that a longest
match cannot be split. There is one clause for each kind of token, none of which mentions how a
scanner proceeds. Scanning is then two statements: a leading token is the first one scanned, and
every text is blank or, behind its blanks, has a leading token.
-/

namespace Highlight

namespace Text

/-- A run of blanks. -/
def Blank (bs : List Char) : Prop :=
  ∀ b ∈ bs, isBlank b = true

/-- The text `start` is what is left of `cs` behind some blanks. -/
def Skips (cs start : List Char) : Prop :=
  ∃ bs, Blank bs ∧ cs = bs ++ start

theorem blank_nil : Blank [] := by
  simp [Blank]

theorem Skips.refl (cs : List Char) : Skips cs cs :=
  ⟨[], blank_nil, rfl⟩

theorem Blank.skips_nil {cs : List Char} (h : Blank cs) : Skips cs [] :=
  ⟨cs, h, by rw [List.append_nil]⟩

theorem Skips.cons {c : Char} (hc : isBlank c = true) {cs start : List Char}
    (h : Skips cs start) : Skips (c :: cs) start := by
  rcases h with ⟨bs, hbs, rfl⟩
  refine ⟨c :: bs, ?_, rfl⟩
  intro b hb
  rcases List.mem_cons.1 hb with rfl | hb
  · exact hc
  · exact hbs b hb

theorem Skips.trans {cs ds es : List Char} (h : Skips cs ds) (h' : Skips ds es) :
    Skips cs es := by
  rcases h with ⟨bs, hbs, rfl⟩
  rcases h' with ⟨bs', hbs', rfl⟩
  refine ⟨bs ++ bs', ?_, by rw [List.append_assoc]⟩
  intro b hb
  rcases List.mem_append.1 hb with hb | hb
  · exact hbs b hb
  · exact hbs' b hb

theorem Skips.suffix {cs start : List Char} (h : Skips cs start) : start <:+ cs := by
  rcases h with ⟨bs, -, rfl⟩
  exact List.suffix_append bs start

theorem Skips.dropBlanks_eq {cs start : List Char} (h : Skips cs start) :
    dropBlanks cs = dropBlanks start := by
  rcases h with ⟨bs, hbs, rfl⟩
  exact List.dropWhile_append_of_pos hbs

theorem dropBlanks_cons {c : Char} (h : isBlank c = false) (cs : List Char) :
    dropBlanks (c :: cs) = c :: cs := by
  simp [dropBlanks, h]

theorem skips_dropBlanks (cs : List Char) : Skips cs (dropBlanks cs) := by
  refine ⟨cs.takeWhile isBlank, ?_, List.takeWhile_append_dropWhile.symm⟩
  intro b hb
  exact List.all_eq_true.1 List.all_takeWhile b hb

/-- A text is blank, or some character in it is the first that is not. -/
theorem blank_or_skips (cs : List Char) :
    Blank cs ∨ ∃ c ds, Skips cs (c :: ds) ∧ isBlank c = false := by
  induction cs with
  | nil => exact .inl blank_nil
  | cons c cs ih =>
      by_cases hc : isBlank c = true
      · rcases ih with hblank | ⟨d, ds, hskips, hd⟩
        · exact .inl (by simpa [Blank, hc] using hblank)
        · exact .inr ⟨d, ds, hskips.cons hc, hd⟩
      · exact .inr ⟨c, cs, .refl _, by simpa using hc⟩

end Text

theorem toNat_of_startsComponent {c : Char} (h : StartsComponent c) :
    42 ≤ c.toNat ∧ c.toNat ≤ 122 := by
  simp only [StartsComponent, Char.le_def, UInt32.le_iff_toNat_le, Char.toNat_val] at h
  rcases h with ⟨hl, hu⟩ | ⟨hl, hu⟩ | ⟨hl, hu⟩ | rfl | rfl
  · exact ⟨Nat.le_trans (by decide) hl, Nat.le_trans hu (by decide)⟩
  · exact ⟨Nat.le_trans (by decide) hl, Nat.le_trans hu (by decide)⟩
  · exact ⟨Nat.le_trans (by decide) hl, Nat.le_trans hu (by decide)⟩
  · decide
  · decide

theorem isBlank_of_isComponentStart {c : Char} (h : isComponentStart c = true) :
    Text.isBlank c = false := by
  have hrange := toNat_of_startsComponent ((isComponentStart_iff c).1 h)
  simp only [Text.isBlank, Bool.or_eq_false_iff, Bool.and_eq_false_iff, beq_eq_false_iff_ne,
    decide_eq_false_iff_not]
  omega

theorem isBlank_of_isNameChar {c : Char} (h : isNameChar c = true) : Text.isBlank c = false := by
  simp only [isNameChar, isComponentChar, Bool.or_eq_true, beq_iff_eq] at h
  rcases h with (h | rfl) | rfl
  · exact isBlank_of_isComponentStart h
  · decide
  · decide

theorem isNameChar_of_isBlank {c : Char} (h : Text.isBlank c = true) : isNameChar c = false := by
  rw [← Bool.not_eq_true]
  intro hname
  rw [isBlank_of_isNameChar hname] at h
  cases h

/-- Blanks do not prolong a name. -/
theorem Text.Skips.endsBefore {cs start : List Char} (h : Text.Skips cs start)
    (hstart : Name.EndsBefore start) : Name.EndsBefore cs := by
  rcases h with ⟨bs, hbs, rfl⟩
  cases bs with
  | nil => exact hstart
  | cons b bs =>
      exact Name.endsBefore_cons (isNameChar_of_isBlank (hbs b List.mem_cons_self)) (bs ++ start)

namespace Side

theorem isComponentStart_letter (side : Side) : isComponentStart side.letter = true := by
  cases side <;> rfl

theorem eq_letter_of_ofLetter? {c : Char} {side : Side} (h : ofLetter? c = some side) :
    c = side.letter := by
  by_cases hl : c = 'L'
  · simp only [ofLetter?, if_pos hl, Option.some.injEq] at h
    rw [hl, ← h, letter]
  · by_cases hr : c = 'R'
    · simp only [ofLetter?, if_neg hl, if_pos hr, Option.some.injEq] at h
      rw [hr, ← h, letter]
    · by_cases hb : c = 'B'
      · simp only [ofLetter?, if_neg hl, if_neg hr, if_pos hb, Option.some.injEq] at h
        rw [hb, ← h, letter]
      · simp [ofLetter?, hl, hr, hb] at h

/-- The name that a side would be without its colon. -/
def name (side : Side) : Name := ⟨[String.ofList [side.letter]]⟩

theorem wellFormed_name (side : Side) : side.name.WellFormed :=
  Name.wellFormed_singleton
    ⟨side.letter, [], rfl, (isComponentStart_iff _).1 side.isComponentStart_letter, by simp⟩

theorem chars_name (side : Side) : side.name.chars = [side.letter] := by
  rw [name, Name.chars_singleton, String.toList_ofList]

end Side

namespace Lexeme

/-- A colon comes next, with or without blanks before it. -/
def ColonNext (rest : List Char) : Prop :=
  ∃ cs, Text.Skips rest (':' :: cs)

theorem dropBlanks_of_skips_colon {rest cs : List Char} (h : Text.Skips rest (':' :: cs)) :
    Text.dropBlanks rest = ':' :: cs := by
  rw [h.dropBlanks_eq, Text.dropBlanks_cons (by decide)]

theorem not_colonNext_nil : ¬ ColonNext [] := by
  rintro ⟨cs, bs, -, hbs⟩
  exact absurd hbs.symm (List.append_ne_nil_of_right_ne_nil bs (List.cons_ne_nil _ cs))

theorem colonNext_cons_iff {c : Char} (hc : Text.isBlank c = false) (cs : List Char) :
    ColonNext (c :: cs) ↔ c = ':' := by
  constructor
  · rintro ⟨ds, hds⟩
    have hdrop := dropBlanks_of_skips_colon hds
    rw [Text.dropBlanks_cons hc] at hdrop
    exact (List.cons.inj hdrop).1
  · rintro rfl
    exact ⟨cs, .refl _⟩

theorem colonNext_of_skips {cs start : List Char} (h : Text.Skips cs start) :
    ColonNext cs ↔ ColonNext start := by
  constructor
  · rintro ⟨ds, hds⟩
    have hdrop := dropBlanks_of_skips_colon hds
    rw [h.dropBlanks_eq] at hdrop
    exact ⟨ds, hdrop ▸ Text.skips_dropBlanks start⟩
  · rintro ⟨ds, hds⟩
    exact ⟨ds, h.trans hds⟩

theorem sideOf?_name {side : Side} {rest cs : List Char} (h : Text.Skips rest (':' :: cs)) :
    sideOf? side.name rest = some side := by
  simp [sideOf?, Side.name, dropBlanks_of_skips_colon h, Side.ofLetter?_letter]

theorem eq_name_of_sideOf? {n : Name} {rest : List Char} {side : Side}
    (h : sideOf? n rest = some side) :
    n = side.name ∧ ColonNext rest := by
  unfold sideOf? at h
  split at h
  · next letter cs hn hrest =>
      rcases n with ⟨ks⟩
      obtain ⟨k, rfl, hk⟩ := List.map_eq_singleton_iff.1 hn
      refine ⟨?_, cs, ?_⟩
      · rw [Side.name, ← Side.eq_letter_of_ofLetter? h, ← hk, String.ofList_toList]
      · rw [← hrest]
        exact Text.skips_dropBlanks rest
  · cases h

theorem sideOf?_of_not_colonNext {n : Name} {rest : List Char} (h : ¬ ColonNext rest) :
    sideOf? n rest = none := by
  cases hside : sideOf? n rest with
  | none => rfl
  | some side => exact absurd (eq_name_of_sideOf? hside).2 h

end Lexeme

/-- A token at the beginning of a text: the text, what is left of it where the token ceases to be a
name, and what is left behind the token. -/
inductive Token.Leads : Token → List Char → List Char → List Char → Prop
  | name {n : Name} {rest : List Char} (hn : n.WellFormed) (hrest : Name.EndsBefore rest)
      (hside : Lexeme.sideOf? n rest = none) : Leads (.name n) (n.chars ++ rest) rest rest
  | broken {n : Name} {turn : List Char} (hn : n.WellFormed) (hturn : Name.BreaksBefore turn) :
      Leads (.broken n) (n.chars ++ '.' :: turn) turn (turn.dropWhile isNameChar)
  | side {side : Side} {cs rest : List Char} (hcs : Text.Skips cs (':' :: rest)) :
      Leads (.side side) (side.letter :: cs) (':' :: rest) rest
  | mark {c : Char} {rest : List Char} (hblank : Text.isBlank c = false)
      (hstart : isComponentStart c = false) : Leads (.mark c) (c :: rest) rest rest

namespace Lexeme

theorem drop_length_takeWhile (p : Char → Bool) (cs : List Char) :
    cs.drop (cs.takeWhile p).length = cs.dropWhile p := by
  calc cs.drop (cs.takeWhile p).length
      = (cs.takeWhile p ++ cs.dropWhile p).drop (cs.takeWhile p).length := by
        rw [List.takeWhile_append_dropWhile]
    _ = cs.dropWhile p := List.drop_left

/-- A leading token is the first one that is scanned. -/
theorem scan_of_leads {t : Token} {start turn rest : List Char} (h : t.Leads start turn rest) :
    scan start = ⟨t, start, turn⟩ :: scan rest := by
  cases h with
  | @name n _ hn hrest hside =>
      obtain ⟨c, cs, hchars, hc⟩ := hn.exists_chars
      have hread := Name.read_append hn hrest
      have hlength : (cs ++ turn).dropWhile isNameChar = turn := by
        have := Name.dropWhile_isNameChar hn turn
        rwa [hrest.dropWhile_eq_self, hchars, List.cons_append,
          List.dropWhile_cons_of_pos (Name.isNameChar_of_isComponentStart hc)] at this
      rw [hchars, List.cons_append] at hread ⊢
      rw [scan_cons (isBlank_of_isComponentStart hc), ofCons, if_pos hc]
      simp only [hread, hside, drop_length_takeWhile, hlength]
  | @broken n turn hn hturn =>
      obtain ⟨c, cs, hchars, hc⟩ := hn.exists_chars
      have hread := Name.read_append_dot hn hturn
      have hgood := Name.takeWhile_pieces_append_dot hn hturn
      have hlength : (cs ++ '.' :: turn).dropWhile isNameChar = turn.dropWhile isNameChar := by
        have := Name.dropWhile_isNameChar hn ('.' :: turn)
        rwa [hchars, List.cons_append,
          List.dropWhile_cons_of_pos (Name.isNameChar_of_isComponentStart hc),
          List.dropWhile_cons_of_pos (by decide)] at this
      rw [hchars, List.cons_append] at hread hgood ⊢
      rw [scan_cons (isBlank_of_isComponentStart hc), ofCons, if_pos hc]
      simp only [hread, hgood, drop_length_takeWhile, hlength]
      simp
  | @side side cs rest hcs =>
      have hends := hcs.endsBefore (Name.endsBefore_cons rfl rest)
      have hread := Name.read_append side.wellFormed_name hends
      rw [side.chars_name, List.singleton_append] at hread
      have hstart := side.isComponentStart_letter
      have hlength : cs.drop ((cs.takeWhile Text.isBlank).length + 1) = rest := by
        rw [← List.drop_drop, drop_length_takeWhile]
        exact congrArg (List.drop 1) (dropBlanks_of_skips_colon hcs)
      rw [scan_cons (isBlank_of_isComponentStart hstart), ofCons, if_pos hstart]
      simp only [hread, sideOf?_name hcs, dropBlanks_of_skips_colon hcs, hlength]
  | @mark c rest hblank hstart =>
      rw [scan_cons hblank, ofCons, if_neg (by simp [hstart])]
      rfl

/-- Behind its blanks, a text that is not blank has a leading token. -/
theorem exists_leads {c : Char} (hc : Text.isBlank c = false) (cs : List Char) :
    ∃ t turn rest, Token.Leads t (c :: cs) turn rest := by
  by_cases hstart : isComponentStart c = true
  · rcases Name.exists_wellFormed hstart cs with
      ⟨n, rest, hcs, hn, hrest⟩ | ⟨n, turn, hcs, hn, hturn⟩
    · cases hside : sideOf? n rest with
      | none =>
          rw [hcs]
          exact ⟨_, _, _, .name hn hrest hside⟩
      | some side =>
          obtain ⟨rfl, ds, hskips⟩ := eq_name_of_sideOf? hside
          rw [hcs, side.chars_name, List.singleton_append]
          exact ⟨_, _, _, .side hskips⟩
    · rw [hcs]
      exact ⟨_, _, _, .broken hn hturn⟩
  · exact ⟨_, _, _, .mark hc (by simpa using hstart)⟩

theorem scan_of_skips {cs start : List Char} (h : Text.Skips cs start) :
    scan cs = scan start := by
  rcases h with ⟨bs, hbs, rfl⟩
  induction bs with
  | nil => rfl
  | cons b bs ih =>
      rw [List.cons_append, scan_cons_blank (hbs b List.mem_cons_self)]
      exact ih fun d hd => hbs d (List.mem_cons_of_mem b hd)

theorem scan_of_blank {cs : List Char} (h : Text.Blank cs) : scan cs = [] :=
  scan_of_skips h.skips_nil

/-- Every text is blank or starts, behind its blanks, with a token. -/
theorem scan_cases (cs : List Char) :
    (Text.Blank cs ∧ scan cs = []) ∨
      ∃ t start turn rest, Text.Skips cs start ∧ Token.Leads t start turn rest ∧
        scan cs = ⟨t, start, turn⟩ :: scan rest := by
  rcases Text.blank_or_skips cs with hblank | ⟨c, ds, hskips, hc⟩
  · exact .inl ⟨hblank, scan_of_blank hblank⟩
  · obtain ⟨t, turn, rest, hleads⟩ := exists_leads hc ds
    refine .inr ⟨t, c :: ds, turn, rest, hskips, hleads, ?_⟩
    rw [scan_of_skips hskips, scan_of_leads hleads]

end Lexeme

namespace Token

/-- The tokens of a text, in order. -/
def scan (cs : List Char) : List Token :=
  (Lexeme.scan cs).map Lexeme.token

theorem scan_nil : scan [] = [] := rfl

theorem scan_of_leads {t : Token} {start turn rest : List Char} (h : t.Leads start turn rest) :
    scan start = t :: scan rest := by
  rw [scan, Lexeme.scan_of_leads h, List.map_cons, scan]

theorem scan_of_skips {cs start : List Char} (h : Text.Skips cs start) :
    scan cs = scan start := by
  rw [scan, Lexeme.scan_of_skips h, scan]

theorem blank_of_scan_eq_nil {cs : List Char} (h : scan cs = []) : Text.Blank cs := by
  rcases Lexeme.scan_cases cs with ⟨hblank, -⟩ | ⟨t, start, turn, rest, -, -, hscan⟩
  · exact hblank
  · rw [scan, hscan] at h
    cases h

/-- The first token of a text leads it behind its blanks. -/
theorem exists_leads_of_scan_eq_cons {cs : List Char} {t : Token} {ts : List Token}
    (h : scan cs = t :: ts) :
    ∃ start turn rest, Text.Skips cs start ∧ t.Leads start turn rest ∧ scan rest = ts := by
  rcases Lexeme.scan_cases cs with ⟨-, hscan⟩ | ⟨u, start, turn, rest, hskips, hleads, hscan⟩
  · rw [scan, hscan] at h
    cases h
  · rw [scan, hscan, List.map_cons] at h
    obtain ⟨rfl, hrest⟩ := List.cons.inj h
    exact ⟨start, turn, rest, hskips, hleads, hrest⟩

end Token

end Highlight
