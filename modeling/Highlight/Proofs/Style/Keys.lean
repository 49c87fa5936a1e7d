import Highlight.Proofs.Style
import Highlight.Proofs.Text.Words

/-!
# Which settings a style depends on

What a style comes to is told by the values under three keys. Two of them are colors. In the third,
a font style, only three words are looked for. Whatever else it says, how often it says something
and in which order, makes no difference.
-/

namespace Highlight

open Text (IsWord words)

/-- A word stands somewhere in a text, with nothing but blanks next to it. -/
def Text.HasWord (text word : String) : Prop :=
  ∃ before after, text.toList = before ++ (word.toList ++ after) ∧
    IsWord before word.toList after

namespace Style

/-- The words of a font style that mean something. -/
def flags : List String := ["bold", "italic", "underline"]

theorem mentions_eq_true_iff {fontStyle flag : String} :
    mentions fontStyle flag = true ↔ Text.HasWord fontStyle flag := by
  rw [mentions, List.contains_iff_mem, Text.mem_words_iff]
  rfl

/-- Words that say the same: put in another order, said again, or with other words that mean
nothing. -/
inductive Rewords : List (List Char) → List (List Char) → Prop
  | perm {ws ws' : List (List Char)} (h : ws.Perm ws') : Rewords ws ws'
  | again {w : List Char} {ws : List (List Char)} (h : w ∈ ws) : Rewords ws (w :: ws)
  | idle {w : List Char} (h : w ∉ flags.map String.toList) (ws : List (List Char)) :
      Rewords ws (w :: ws)
  | symm {ws ws' : List (List Char)} (h : Rewords ws ws') : Rewords ws' ws
  | trans {ws ws' ws'' : List (List Char)} (h : Rewords ws ws') (h' : Rewords ws' ws'') :
      Rewords ws ws''

theorem Rewords.mem_iff {ws ws' : List (List Char)} (h : Rewords ws ws') {flag : String}
    (hflag : flag ∈ flags) : flag.toList ∈ ws ↔ flag.toList ∈ ws' := by
  induction h with
  | perm h => exact h.mem_iff
  | @again w ws h =>
      rw [List.mem_cons]
      constructor
      · exact .inr
      · rintro (heq | hmem)
        · rwa [heq]
        · exact hmem
  | @idle w h ws =>
      have hne : flag.toList ≠ w := fun heq => h (List.mem_map.2 ⟨flag, hflag, heq⟩)
      rw [List.mem_cons, or_iff_right hne]
  | symm _ ih => exact ih.symm
  | trans _ _ ih ih' => exact ih.trans ih'

theorem Rewords.mentions_eq {fontStyle fontStyle' : String}
    (h : Rewords (words fontStyle.toList) (words fontStyle'.toList)) {flag : String}
    (hflag : flag ∈ flags) : mentions fontStyle flag = mentions fontStyle' flag := by
  rw [Bool.eq_iff_iff, mentions, mentions, List.contains_iff_mem, List.contains_iff_mem]
  exact h.mem_iff hflag

/-- Settings that say the same, whatever else there is under other keys. -/
structure Agree (settings settings' : Settings) : Prop where
  background : settings["background"]? = settings'["background"]?
  foreground : settings["foreground"]? = settings'["foreground"]?
  fontStyle : Option.Rel (fun text text' => Rewords (words text.toList) (words text'.toList))
    settings["fontStyle"]? settings'["fontStyle"]?

/-- There is a text under a key, and it is no color. -/
def RejectsColor (s : Style) (key : String) (e : ColorError) : Prop :=
  ∃ text, s.settings[key]? = some text ∧ Color.parse text = .error e

/-- What a font style asks for: a font by the traits among its words. -/
def AsksFor {Font : Type} (font : FontChoice Font) (fontStyle : String) (f : Font) : Prop :=
  ∃ bold italic, f = font bold italic ∧ (bold = true ↔ Text.HasWord fontStyle "bold") ∧
    (italic = true ↔ Text.HasWord fontStyle "italic")

/-- Each of the attributes is what the value under its own key stands for, and open without one. -/
structure ComesTo {Font : Type} (font : FontChoice Font) (s : Style) (a : Attributes Font) :
    Prop where
  foreground : Option.Rel (fun text c => Color.parse text = .ok c) s.settings["foreground"]?
    a.foreground
  background : Option.Rel (fun text c => Color.parse text = .ok c) s.settings["background"]?
    a.background
  font : Option.Rel (AsksFor font) s.settings["fontStyle"]? a.font
  underline : a.underline = some .single ↔
    ∃ text, s.settings["fontStyle"]? = some text ∧ Text.HasWord text "underline"

section Attributes

variable {Font : Type} (font : FontChoice Font) {s s' : Style}

theorem attributes_of_agree (h : Agree s.settings s'.settings) :
    s'.attributes font = s.attributes font := by
  obtain ⟨hbackground, hforeground, hfontStyle⟩ := h
  rw [attributes_eq, attributes_eq, color, color, color, color, hbackground, hforeground]
  generalize s.settings["fontStyle"]? = text, s'.settings["fontStyle"]? = text' at hfontStyle
  cases hfontStyle with
  | none => rfl
  | @some text text' hwords =>
      have hbold := hwords.mentions_eq (show "bold" ∈ flags by decide)
      have hitalic := hwords.mentions_eq (show "italic" ∈ flags by decide)
      have hunderline := hwords.mentions_eq (show "underline" ∈ flags by decide)
      simp only [Option.bind_some, Option.map_some, hbold, hitalic, hunderline]

theorem exists_color_of_not_rejectsColor {key : String} (h : ∀ e, ¬ s.RejectsColor key e) :
    ∃ c, color s.settings key = .ok c := by
  cases hcolor : color s.settings key with
  | ok c => exact ⟨c, rfl⟩
  | error e => exact absurd (color_eq_error_iff.1 hcolor) (h e)

theorem attributes_of_background {e : ColorError} (h : s.RejectsColor "background" e) :
    s.attributes font = .error e := by
  rw [attributes_eq, color_eq_error_iff.2 h]
  rfl

theorem attributes_of_foreground (hbackground : ∀ e, ¬ s.RejectsColor "background" e)
    {e : ColorError} (h : s.RejectsColor "foreground" e) : s.attributes font = .error e := by
  obtain ⟨c, hc⟩ := exists_color_of_not_rejectsColor hbackground
  rw [attributes_eq, hc, color_eq_error_iff.2 h]
  rfl

theorem exists_attributes_comesTo (hbackground : ∀ e, ¬ s.RejectsColor "background" e)
    (hforeground : ∀ e, ¬ s.RejectsColor "foreground" e) :
    ∃ a, s.attributes font = .ok a ∧ s.ComesTo font a := by
  obtain ⟨background, hback⟩ := exists_color_of_not_rejectsColor hbackground
  obtain ⟨foreground, hfore⟩ := exists_color_of_not_rejectsColor hforeground
  rw [attributes_eq, hback, hfore]
  refine ⟨_, rfl, color_eq_ok_iff.1 hfore, color_eq_ok_iff.1 hback, ?_, ?_⟩
  · dsimp only
    cases s.settings["fontStyle"]? with
    | none => exact .none
    | some text => exact .some ⟨_, _, rfl, mentions_eq_true_iff, mentions_eq_true_iff⟩
  · dsimp only
    cases s.settings["fontStyle"]? with
    | none => simp
    | some text => simp [mentions_eq_true_iff]

theorem exists_attributes_eq_error_iff_rejectsColor :
    (∃ e, s.attributes font = .error e) ↔
      (∃ e, s.RejectsColor "background" e) ∨ ∃ e, s.RejectsColor "foreground" e := by
  constructor
  · rintro ⟨e, he⟩
    by_contra hnone
    simp only [not_or, not_exists] at hnone
    obtain ⟨a, ha, -⟩ := exists_attributes_comesTo font hnone.1 hnone.2
    rw [he] at ha
    cases ha
  · rintro (⟨e, he⟩ | ⟨e, he⟩)
    · exact ⟨e, attributes_of_background font he⟩
    · by_cases hbackground : ∃ e', s.RejectsColor "background" e'
      · obtain ⟨e', he'⟩ := hbackground
        exact ⟨e', attributes_of_background font he'⟩
      · exact ⟨e, attributes_of_foreground font (not_exists.1 hbackground) he⟩

end Attributes

/-- A style is at fault just if one of its two colors is, and the background is looked at first.
Otherwise each attribute is what the value under its own key stands for. Nothing else among the
settings makes a difference, and neither does what a font style says besides its flags. -/
theorem attributes_of_keys {Font : Type} (font : FontChoice Font) (s : Style) :
    ((∃ e, s.attributes font = .error e) ↔
      (∃ e, s.RejectsColor "background" e) ∨ ∃ e, s.RejectsColor "foreground" e) ∧
    (∀ e, s.RejectsColor "background" e → s.attributes font = .error e) ∧
    (∀ e, (∀ e', ¬ s.RejectsColor "background" e') → s.RejectsColor "foreground" e →
      s.attributes font = .error e) ∧
    ((∀ e, ¬ s.RejectsColor "background" e) → (∀ e, ¬ s.RejectsColor "foreground" e) →
      ∃ a, s.attributes font = .ok a ∧ s.ComesTo font a) ∧
    ∀ s' : Style, Agree s.settings s'.settings → s'.attributes font = s.attributes font :=
  ⟨exists_attributes_eq_error_iff_rejectsColor font, fun _ => attributes_of_background font,
    fun _ hbackground => attributes_of_foreground font hbackground, exists_attributes_comesTo font,
    fun _ => attributes_of_agree font⟩

/-- Of two bad colors the background is told. In another style, a bad color under a key that is of
no account does no harm, and neither does a word that only begins like a flag. -/
theorem exists_attributes_of_keys :
    ∃ (bad good other : Style) (a : Attributes (Bool × Bool)),
      (bad.RejectsColor "background" (.notHex "red") ∧
        bad.RejectsColor "foreground" (.length "#fff" 3) ∧
          bad.attributes Prod.mk = .error (.notHex "red")) ∧
      ((∀ e, ¬ good.RejectsColor "background" e) ∧ (∀ e, ¬ good.RejectsColor "foreground" e) ∧
        good.attributes Prod.mk = .ok a ∧ good.ComesTo Prod.mk a) ∧
      Agree good.settings other.settings ∧ other.attributes Prod.mk = .ok a := by
  let style (entries : List (String × String)) : Style :=
    ⟨none, none, Std.TreeMap.ofList entries⟩
  let bad := style [("foreground", "#fff"), ("background", "red")]
  let good := style [("caret", "red"), ("foreground", "#F8F8F2"), ("fontStyle", "underline bold")]
  let other := style
    [("fontStyle", "\u3000bold boldish underline\tbold"), ("foreground", "#F8F8F2")]
  obtain ⟨-, hbad, -⟩ := attributes_of_keys Prod.mk bad
  obtain ⟨-, -, -, hgood, hagree⟩ := attributes_of_keys Prod.mk good
  have hrejects : bad.RejectsColor "background" (.notHex "red") :=
    ⟨"red", by decide +kernel, by rfl⟩
  have hbackground : ∀ e, ¬ good.RejectsColor "background" e := by
    rintro e ⟨text, htext, -⟩
    rw [show good.settings["background"]? = none by decide +kernel] at htext
    cases htext
  have hforeground : ∀ e, ¬ good.RejectsColor "foreground" e := by
    rintro e ⟨text, htext, herror⟩
    rw [show good.settings["foreground"]? = some "#F8F8F2" by decide +kernel] at htext
    obtain rfl := Option.some.inj htext
    cases herror
  have hwords : Rewords ["underline".toList, "bold".toList]
      ["bold".toList, "boldish".toList, "underline".toList, "bold".toList] :=
    (Rewords.again (by decide)).trans ((Rewords.idle (by decide) _).trans (.perm (.swap _ _ _)))
  have hsame : Agree good.settings other.settings := by
    refine ⟨by decide +kernel, by decide +kernel, ?_⟩
    rw [show good.settings["fontStyle"]? = some "underline bold" by decide +kernel,
      show other.settings["fontStyle"]? = some "\u3000bold boldish underline\tbold" by
        decide +kernel]
    exact .some hwords
  obtain ⟨a, ha, hcomes⟩ := hgood hbackground hforeground
  exact ⟨bad, good, other, a, ⟨hrejects, ⟨"#fff", by decide +kernel, by rfl⟩, hbad _ hrejects⟩,
    ⟨hbackground, hforeground, ha, hcomes⟩, hsame, (hagree other hsame).trans ha⟩

end Style

end Highlight
