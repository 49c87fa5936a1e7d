import Highlight.Name.Reader

/-!
# Well-formed names

A name is well formed if it has components at all and each of them could be read from a text. The
characters are spelled out here once more, apart from the tests a reader makes, and the two are
compared at the end of the first section.

Reading is then described by what stands at the beginning of a text: a well-formed name that
nothing prolongs is read as that name, and one behind whose dot no component starts is where
reading halts. One of the two is the case wherever a component starts.
-/

namespace Highlight

/-- The characters of the class `[A-Za-z0-9_*]`. -/
def StartsComponent (c : Char) : Prop :=
  ('A' ≤ c ∧ c ≤ 'Z') ∨ ('a' ≤ c ∧ c ≤ 'z') ∨ ('0' ≤ c ∧ c ≤ '9') ∨ c = '_' ∨ c = '*'

/-- The characters of the class `[A-Za-z0-9_*-]`. -/
def ContinuesComponent (c : Char) : Prop :=
  StartsComponent c ∨ c = '-'

/-- The texts that match `[A-Za-z0-9_*][A-Za-z0-9_*-]*`. -/
def Component (cs : List Char) : Prop :=
  ∃ c ds, cs = c :: ds ∧ StartsComponent c ∧ ∀ d ∈ ds, ContinuesComponent d

/-- A name with components, all of which match the pattern of a component. -/
def Name.WellFormed (n : Name) : Prop :=
  n.components ≠ [] ∧ ∀ k ∈ n.components, Component k.toList

theorem isComponentStart_iff (c : Char) : isComponentStart c = true ↔ StartsComponent c := by
  have hupper : c.isUpper = true ↔ 'A' ≤ c ∧ c ≤ 'Z' := decide_eq_true_iff
  have hlower : c.isLower = true ↔ 'a' ≤ c ∧ c ≤ 'z' :=
    Bool.and_eq_true_iff.trans (and_congr decide_eq_true_iff decide_eq_true_iff)
  have hdigit : c.isDigit = true ↔ '0' ≤ c ∧ c ≤ '9' :=
    Bool.and_eq_true_iff.trans (and_congr decide_eq_true_iff decide_eq_true_iff)
  change (c.isUpper || c.isLower || c.isDigit || c == '_' || c == '*') = true ↔ _
  simp only [Bool.or_eq_true, beq_iff_eq, hupper, hlower, hdigit, or_assoc]
  exact Iff.rfl

theorem isComponentChar_iff (c : Char) : isComponentChar c = true ↔ ContinuesComponent c := by
  simp [isComponentChar, ContinuesComponent, isComponentStart_iff]

theorem isComponent_iff (cs : List Char) : isComponent cs = true ↔ Component cs := by
  cases cs with
  | nil => simp [isComponent_nil, Component]
  | cons c cs =>
      constructor
      · intro h
        simp only [isComponent_cons, Bool.and_eq_true, List.all_eq_true, isComponentStart_iff,
          isComponentChar_iff] at h
        exact ⟨c, cs, rfl, h⟩
      · rintro ⟨d, ds, hcons, hstart, hcontinue⟩
        obtain ⟨rfl, rfl⟩ := List.cons.inj hcons
        simp only [isComponent_cons, Bool.and_eq_true, List.all_eq_true, isComponentStart_iff,
          isComponentChar_iff]
        exact ⟨hstart, hcontinue⟩

instance (c : Char) : Decidable (StartsComponent c) :=
  decidable_of_iff _ (isComponentStart_iff c)

instance (c : Char) : Decidable (ContinuesComponent c) :=
  decidable_of_iff _ (isComponentChar_iff c)

instance (cs : List Char) : Decidable (Component cs) :=
  decidable_of_iff _ (isComponent_iff cs)

instance (n : Name) : Decidable n.WellFormed :=
  inferInstanceAs (Decidable (_ ∧ _))

namespace Name

/-- Nothing that prolongs a name stands at the beginning of the text. -/
def EndsBefore (rest : List Char) : Prop :=
  ∀ c ∈ rest.head?, isNameChar c = false

/-- No component stands at the beginning of the text. -/
def BreaksBefore (rest : List Char) : Prop :=
  ∀ c ∈ rest.head?, isComponentStart c = false

theorem endsBefore_nil : EndsBefore [] := by
  intro c hc
  cases hc

theorem endsBefore_cons {c : Char} (hc : isNameChar c = false) (cs : List Char) :
    EndsBefore (c :: cs) := by
  intro d hd
  obtain rfl : c = d := by simpa using hd
  exact hc

theorem breaksBefore_cons {c : Char} (hc : isComponentStart c = false) (cs : List Char) :
    BreaksBefore (c :: cs) := by
  intro d hd
  obtain rfl : c = d := by simpa using hd
  exact hc

theorem isNameChar_of_isComponentStart {c : Char} (h : isComponentStart c = true) :
    isNameChar c = true := by
  simp [isNameChar, isComponentChar, h]

/-- What does not prolong a name does not begin one either. -/
theorem isComponentStart_of_not_isNameChar {c : Char} (h : isNameChar c = false) :
    isComponentStart c = false := by
  rw [← Bool.not_eq_true] at h ⊢
  exact mt isNameChar_of_isComponentStart h

theorem EndsBefore.breaksBefore {rest : List Char} (h : EndsBefore rest) : BreaksBefore rest :=
  fun c hc => isComponentStart_of_not_isNameChar (h c hc)

theorem isNameChar_of_component {k : List Char} (h : Component k) {c : Char} (hc : c ∈ k) :
    isNameChar c = true := by
  rcases h with ⟨d, ds, rfl, hd, hds⟩
  rcases List.mem_cons.1 hc with rfl | hc
  · exact isNameChar_of_isComponentStart ((isComponentStart_iff c).2 hd)
  · simp [isNameChar, (isComponentChar_iff c).2 (hds c hc)]

theorem not_mem_component_dot {k : List Char} (h : Component k) : '.' ∉ k := by
  rcases h with ⟨d, ds, rfl, hd, hds⟩
  intro hdot
  rcases List.mem_cons.1 hdot with rfl | hdot
  · exact absurd hd (by decide)
  · exact absurd (hds _ hdot) (by decide)

theorem chars_singleton (k : String) : chars ⟨[k]⟩ = k.toList := by
  simp [chars]

theorem chars_cons {ks : List String} (h : ks ≠ []) (k : String) :
    chars ⟨k :: ks⟩ = k.toList ++ '.' :: chars ⟨ks⟩ := by
  obtain ⟨l, ls, rfl⟩ := List.exists_cons_of_ne_nil h
  simp [chars, List.intercalate_cons_cons]

theorem WellFormed.isEmpty_eq_false {n : Name} (h : n.WellFormed) : n.isEmpty = false :=
  List.isEmpty_eq_false_iff.2 h.1

theorem wellFormed_singleton {k : List Char} (h : Component k) :
    WellFormed ⟨[String.ofList k]⟩ := by
  simpa [WellFormed] using h

theorem WellFormed.cons {n : Name} (h : n.WellFormed) {k : List Char} (hk : Component k) :
    WellFormed ⟨String.ofList k :: n.components⟩ := by
  refine ⟨by simp, ?_⟩
  intro l hl
  rcases List.mem_cons.1 hl with rfl | hl
  · simpa using hk
  · exact h.2 l hl

theorem chars_append_singleton {ks : List String} (h : ks ≠ []) (k : String) :
    chars ⟨ks ++ [k]⟩ = chars ⟨ks⟩ ++ '.' :: k.toList := by
  induction ks with
  | nil => exact absurd rfl h
  | cons l ls ih =>
      by_cases hls : ls = []
      · rw [hls, List.singleton_append, chars_cons (List.cons_ne_nil k []), chars_singleton,
          chars_singleton]
      · rw [List.cons_append, chars_cons (List.append_ne_nil_of_left_ne_nil hls [k]), ih hls,
          chars_cons hls, List.append_assoc, List.cons_append]

theorem WellFormed.concat {n : Name} (h : n.WellFormed) {k : List Char} (hk : Component k) :
    WellFormed ⟨n.components ++ [String.ofList k]⟩ := by
  refine ⟨by simp, ?_⟩
  intro l hl
  rcases List.mem_append.1 hl with hl | hl
  · exact h.2 l hl
  · obtain rfl := List.mem_singleton.1 hl
    rwa [String.toList_ofList]

theorem WellFormed.exists_chars {n : Name} (h : n.WellFormed) :
    ∃ c cs, n.chars = c :: cs ∧ isComponentStart c = true := by
  rcases n with ⟨ks⟩
  obtain ⟨k, ks, rfl⟩ := List.exists_cons_of_ne_nil h.1
  obtain ⟨c, cs, hk, hc, -⟩ := h.2 k List.mem_cons_self
  have hstart := (isComponentStart_iff c).2 hc
  cases ks with
  | nil => exact ⟨c, cs, by rw [chars_singleton, hk], hstart⟩
  | cons l ls =>
      refine ⟨c, cs ++ '.' :: chars ⟨l :: ls⟩, ?_, hstart⟩
      rw [chars_cons (by simp), hk, List.cons_append]

theorem isNameChar_of_mem_chars {ks : List String} (h : ∀ k ∈ ks, Component k.toList) :
    ∀ c ∈ chars ⟨ks⟩, isNameChar c = true := by
  induction ks with
  | nil => simp [chars]
  | cons k ks ih =>
      intro c hc
      have hk := h k List.mem_cons_self
      by_cases hks : ks = []
      · rw [hks, chars_singleton] at hc
        exact isNameChar_of_component hk hc
      · rw [chars_cons hks, List.mem_append, List.mem_cons] at hc
        rcases hc with hc | rfl | hc
        · exact isNameChar_of_component hk hc
        · decide
        · exact ih (fun l hl => h l (List.mem_cons_of_mem k hl)) c hc

/-- With a dot behind each component, the name has a dot behind it. -/
theorem flatMap_append_dot {ks : List String} (h : ks ≠ []) :
    (ks.map String.toList).flatMap (fun k => k ++ ['.']) = chars ⟨ks⟩ ++ ['.'] := by
  induction ks with
  | nil => exact absurd rfl h
  | cons k ks ih =>
      by_cases hks : ks = []
      · simp [hks, chars_singleton]
      · rw [chars_cons hks, List.map_cons, List.flatMap_cons, ih hks]
        simp

theorem takeWhile_isNameChar {n : Name} (h : n.WellFormed) (rest : List Char) :
    (n.chars ++ rest).takeWhile isNameChar = n.chars ++ rest.takeWhile isNameChar :=
  List.takeWhile_append_of_pos (isNameChar_of_mem_chars h.2)

theorem dropWhile_isNameChar {n : Name} (h : n.WellFormed) (rest : List Char) :
    (n.chars ++ rest).dropWhile isNameChar = rest.dropWhile isNameChar :=
  List.dropWhile_append_of_pos (isNameChar_of_mem_chars h.2)

theorem EndsBefore.takeWhile_eq_nil {rest : List Char} (h : EndsBefore rest) :
    rest.takeWhile isNameChar = [] := by
  cases rest with
  | nil => rfl
  | cons c cs => simp [h c rfl]

theorem EndsBefore.dropWhile_eq_self {rest : List Char} (h : EndsBefore rest) :
    rest.dropWhile isNameChar = rest := by
  cases rest with
  | nil => rfl
  | cons c cs => simp [h c rfl]

theorem splitOn_chars {n : Name} (h : n.WellFormed) :
    n.chars.splitOn '.' = n.components.map String.toList := by
  apply List.splitOn_intercalate
  · intro k hk
    obtain ⟨l, hl, rfl⟩ := List.mem_map.1 hk
    exact not_mem_component_dot (h.2 l hl)
  · simpa using h.1

/-- A well-formed name that nothing prolongs is read as it stands. -/
theorem read_append {n : Name} (h : n.WellFormed) {rest : List Char} (hrest : EndsBefore rest) :
    read (n.chars ++ rest) = .ok (n, rest) := by
  have hpieces : pieces (n.chars ++ rest) = n.components.map String.toList := by
    rw [pieces, takeWhile_isNameChar h, hrest.takeWhile_eq_nil, List.append_nil, splitOn_chars h]
  have hall : (pieces (n.chars ++ rest)).all isComponent = true := by
    rw [hpieces, List.all_map, List.all_eq_true]
    exact fun k hk => (isComponent_iff _).2 (h.2 k hk)
  rw [read, if_pos hall, hpieces, dropWhile_isNameChar h, hrest.dropWhile_eq_self]
  simp

/-- The run of name characters behind a broken name starts with a piece that is no component. -/
theorem BreaksBefore.exists_pieces {turn : List Char} (h : BreaksBefore turn) :
    ∃ p ps, pieces turn = p :: ps ∧ isComponent p = false := by
  cases turn with
  | nil => exact ⟨[], [], rfl, rfl⟩
  | cons c cs =>
      have hc : isComponentStart c = false := h c rfl
      by_cases hname : isNameChar c = true
      · rw [pieces, List.takeWhile_cons_of_pos hname, List.splitOn_cons_eq_if_modifyHead]
        split
        · exact ⟨_, _, rfl, rfl⟩
        · obtain ⟨p, ps, hps⟩ := List.exists_cons_of_ne_nil
            (List.splitOn_ne_nil '.' (cs.takeWhile isNameChar))
          exact ⟨c :: p, ps, by rw [hps, List.modifyHead_cons], by simp [isComponent_cons, hc]⟩
      · rw [pieces, List.takeWhile_cons_of_neg hname]
        exact ⟨[], [], rfl, rfl⟩

theorem pieces_append_dot {n : Name} (h : n.WellFormed) (turn : List Char) :
    pieces (n.chars ++ '.' :: turn) = n.components.map String.toList ++ pieces turn := by
  rw [pieces, takeWhile_isNameChar h, List.takeWhile_cons_of_pos (by decide),
    List.splitOn_append_cons_self, splitOn_chars h, pieces]

/-- The good pieces of a broken name are those before the dot that it breaks at. -/
theorem takeWhile_pieces_append_dot {n : Name} (h : n.WellFormed) {turn : List Char}
    (hturn : BreaksBefore turn) :
    (pieces (n.chars ++ '.' :: turn)).takeWhile isComponent = n.components.map String.toList := by
  obtain ⟨p, ps, hps, hp⟩ := hturn.exists_pieces
  rw [pieces_append_dot h, List.takeWhile_append_of_pos, hps, List.takeWhile_cons_of_neg,
    List.append_nil]
  · simp [hp]
  · intro k hk
    obtain ⟨l, hl, rfl⟩ := List.mem_map.1 hk
    exact (isComponent_iff _).2 (h.2 l hl)

/-- Reading a broken name halts behind the dot that no component follows. -/
theorem read_append_dot {n : Name} (h : n.WellFormed) {turn : List Char}
    (hturn : BreaksBefore turn) :
    read (n.chars ++ '.' :: turn) = .error ⟨turn, .expecting .component⟩ := by
  obtain ⟨p, ps, hps, hp⟩ := hturn.exists_pieces
  have hall : ¬ (pieces (n.chars ++ '.' :: turn)).all isComponent = true := by
    rw [pieces_append_dot h, hps]
    simp [hp]
  have hdrop : (n.chars ++ '.' :: turn).drop (n.chars.length + 1) = turn := by
    rw [← List.drop_drop, List.drop_left, List.drop_one, List.tail_cons]
  rw [read, if_neg hall]
  simp only [takeWhile_pieces_append_dot h hturn]
  rw [flatMap_append_dot h.1, List.length_append, List.length_singleton, hdrop]

/-- A text that a component starts is that component and what does not prolong it. -/
theorem exists_component {c : Char} (h : isComponentStart c = true) (cs : List Char) :
    ∃ k rest, c :: cs = k ++ rest ∧ Component k ∧ ∀ d ∈ rest.head?, isComponentChar d = false := by
  refine ⟨c :: cs.takeWhile isComponentChar, cs.dropWhile isComponentChar, ?_, ?_, ?_⟩
  · rw [List.cons_append, List.takeWhile_append_dropWhile]
  · refine ⟨c, _, rfl, (isComponentStart_iff c).1 h, ?_⟩
    intro d hd
    exact (isComponentChar_iff d).1 (List.all_eq_true.1 List.all_takeWhile d hd)
  · intro d hd
    have := List.head?_dropWhile_not isComponentChar cs
    rw [Option.mem_def.1 hd] at this
    simpa using this

/-- Where a component starts there is a name, and it either ends or breaks. -/
theorem exists_wellFormed {c : Char} (h : isComponentStart c = true) (cs : List Char) :
    (∃ n rest, c :: cs = chars n ++ rest ∧ n.WellFormed ∧ EndsBefore rest) ∨
      ∃ n turn, c :: cs = chars n ++ '.' :: turn ∧ n.WellFormed ∧ BreaksBefore turn := by
  obtain ⟨k, rest, hcs, hk, hrest⟩ := exists_component h cs
  have hone := wellFormed_singleton hk
  have hchars : chars ⟨[String.ofList k]⟩ = k := by rw [chars_singleton, String.toList_ofList]
  by_cases hdot : ∃ ds, rest = '.' :: ds
  · rcases hdot with ⟨ds, rfl⟩
    by_cases hbreak : BreaksBefore ds
    · exact .inr ⟨_, ds, by rw [hcs, hchars], hone, hbreak⟩
    · obtain ⟨d, ds, rfl, hd⟩ : ∃ d es, ds = d :: es ∧ isComponentStart d = true := by
        cases ds with
        | nil => exact absurd (by simp [BreaksBefore]) hbreak
        | cons d es => exact ⟨d, es, rfl, by simpa [BreaksBefore] using hbreak⟩
      have hlength : ds.length < cs.length := by
        have := congrArg List.length hcs
        simp at this
        omega
      have hcons (n : Name) (hn : n.WellFormed) :
          chars ⟨String.ofList k :: n.components⟩ = k ++ '.' :: chars n := by
        rw [chars_cons hn.1, String.toList_ofList]
      rcases exists_wellFormed hd ds with ⟨n, rest, hds, hn, hends⟩ | ⟨n, turn, hds, hn, hbreaks⟩
      · exact .inl ⟨_, rest, by simp [hcs, hds, hcons n hn], hn.cons hk, hends⟩
      · exact .inr ⟨_, turn, by simp [hcs, hds, hcons n hn], hn.cons hk, hbreaks⟩
  · refine .inl ⟨_, rest, by rw [hcs, hchars], hone, ?_⟩
    intro d hd
    have hne : d ≠ '.' := by
      rintro rfl
      obtain ⟨ds, rfl⟩ := List.head?_eq_some_iff.1 hd
      exact hdot ⟨ds, rfl⟩
    simp [isNameChar, hrest d hd, hne]
termination_by cs.length

end Name

end Highlight
