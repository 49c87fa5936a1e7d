import Highlight.Proofs.Except
import Highlight.Style
import Mathlib.Data.List.Sort

/-!
# When the settings of a style make sense

All settings are gone through in the order of their keys, but only three keys are of any account,
and each of them settles attributes that the others leave alone. So the attributes are what is found
under these keys, and the order only shows in which of two bad colors is reported.

The colors are the only settings that can be at fault, and a missing one is none. A font style is
whatever its words make it.
-/

namespace Highlight

namespace Settings

/-- Settings are gone through in the order of their keys. -/
def Precedes (entry entry' : String × String) : Prop := compare entry.1 entry'.1 = .lt

instance : Std.Irrefl Precedes := ⟨fun entry => by simp [Precedes]⟩

instance : Std.Antisymm Precedes :=
  ⟨fun _ _ h h' => absurd h' (Std.OrientedCmp.not_lt_of_lt h)⟩

variable {keys : List String}

/-- The settings under given keys come in the order of these keys. -/
theorem filter_toList_eq (h : keys.Pairwise fun key key' => compare key key' = .lt)
    (settings : Settings) :
    settings.toList.filter (fun entry => entry.1 ∈ keys) =
      keys.filterMap fun key => settings[key]?.map fun value => (key, value) := by
  refine List.Pairwise.eq_of_mem_iff (r := Precedes) ?_ ?_ ?_
  · exact Std.TreeMap.ordered_keys_toList.filter _
  · rw [List.pairwise_filterMap]
    refine h.imp ?_
    intro key key' hlt entry hentry entry' hentry'
    obtain ⟨value, -, rfl⟩ := Option.map_eq_some_iff.1 hentry
    obtain ⟨value', -, rfl⟩ := Option.map_eq_some_iff.1 hentry'
    exact hlt
  · rintro ⟨key, value⟩
    rw [List.mem_filter, Std.TreeMap.mem_toList_iff_getElem?_eq_some, List.mem_filterMap]
    simp [and_comm]

/-- Where only some keys are of any account, it is enough to look these up in their order. -/
theorem foldlM_eq_foldlM_keys {ε α : Type} {f : α → String → String → Except ε α}
    (h : keys.Pairwise fun key key' => compare key key' = .lt)
    (hidle : ∀ a, ∀ key ∉ keys, ∀ value, f a key value = .ok a) (settings : Settings) (init : α) :
    settings.foldlM f init =
      keys.foldlM (fun a key => settings[key]?.elim (.ok a) (f a key)) init := by
  have hstep : (fun a (entry : String × String) => f a entry.1 entry.2) =
      fun a entry => if decide (entry.1 ∈ keys) = true then f a entry.1 entry.2 else pure a := by
    funext a entry
    by_cases hkey : entry.1 ∈ keys
    · simp [hkey]
    · simp only [hkey, decide_false, Bool.false_eq_true, if_false]
      exact hidle a entry.1 hkey entry.2
  rw [Std.TreeMap.foldlM_eq_foldlM_toList, hstep, ← List.foldlM_filter, filter_toList_eq h,
    List.foldlM_filterMap]
  congr 1
  funext a key
  cases settings[key]? with
  | none => rfl
  | some value => rfl

end Settings

namespace Style

/-- A style whose foreground and background, where it has them, are colors. -/
def HasValidColors (s : Style) : Prop :=
  ∀ key ∈ ["foreground", "background"], ∀ text, s.settings[key]? = some text →
    ∃ c, Color.parse text = .ok c

/-- The color under a key, if there is one. -/
def color (settings : Settings) (key : String) : Except ColorError (Option Color) :=
  settings[key]?.elim (.ok none) fun text => (Color.parse text).map some

/-- The keys that are of any account, in the order in which they are come across. -/
def keys : List String := ["background", "fontStyle", "foreground"]

theorem settle_of_notMem {Font : Type} (font : FontChoice Font) (a : Attributes Font)
    {key : String} (h : key ∉ keys) (value : String) : settle font a key value = .ok a := by
  simp only [keys, List.mem_cons, List.not_mem_nil, or_false, not_or] at h
  obtain ⟨hbackground, hfontStyle, hforeground⟩ := h
  rw [settle, if_neg hforeground, if_neg hbackground, if_neg hfontStyle]

section Keys

variable {Font : Type} (font : FontChoice Font) (a : Attributes Font)

theorem settle_background :
    settle font a "background" =
      fun text => (Color.parse text).map fun c => { a with background := some c } := by
  funext text
  rw [settle, if_neg (by decide), if_pos rfl]

theorem settle_foreground :
    settle font a "foreground" =
      fun text => (Color.parse text).map fun c => { a with foreground := some c } := by
  funext text
  rw [settle, if_pos rfl]

theorem settle_fontStyle (flags : String) :
    settle font a "fontStyle" flags =
      .ok { a with
        underline := if mentions flags "underline" then some .single else a.underline
        font := some (font (mentions flags "bold") (mentions flags "italic")) } := by
  rw [settle, if_neg (by decide), if_neg (by decide), if_pos rfl]

/-- Settling a color that was open is looking it up. -/
theorem elim_parse (settings : Settings) (key : String) {a : Attributes Font}
    (put : Option Color → Attributes Font) (h : put none = a) :
    settings[key]?.elim (.ok a) (fun text => (Color.parse text).map fun c => put (some c)) =
      (color settings key).map put := by
  rw [color]
  cases settings[key]? with
  | none => exact congrArg Except.ok h.symm
  | some text =>
      change (Color.parse text).map _ = ((Color.parse text).map some).map put
      cases Color.parse text with
      | ok c => rfl
      | error e => rfl

theorem elim_settle_background (settings : Settings) {a : Attributes Font}
    (h : a.background = none) :
    settings["background"]?.elim (.ok a) (settle font a "background") =
      (color settings "background").map fun c => { a with background := c } := by
  rw [settle_background]
  exact elim_parse settings "background" (fun c => { a with background := c }) (by rw [← h])

theorem elim_settle_foreground (settings : Settings) {a : Attributes Font}
    (h : a.foreground = none) :
    settings["foreground"]?.elim (.ok a) (settle font a "foreground") =
      (color settings "foreground").map fun c => { a with foreground := c } := by
  rw [settle_foreground]
  exact elim_parse settings "foreground" (fun c => { a with foreground := c }) (by rw [← h])

theorem elim_settle_fontStyle (settings : Settings) {a : Attributes Font}
    (hunderline : a.underline = none) (hfont : a.font = none) :
    settings["fontStyle"]?.elim (.ok a) (settle font a "fontStyle") =
      .ok { a with
        underline := settings["fontStyle"]?.bind fun flags =>
          if mentions flags "underline" then some .single else none
        font := settings["fontStyle"]?.map fun flags =>
          font (mentions flags "bold") (mentions flags "italic") } := by
  cases settings["fontStyle"]? with
  | none =>
      rw [Option.bind_none, Option.map_none, ← hunderline, ← hfont]
      rfl
  | some flags =>
      rw [Option.elim_some, settle_fontStyle, hunderline]
      rfl

end Keys

/-- The attributes are what is found under three keys. -/
theorem attributes_eq {Font : Type} (font : FontChoice Font) (s : Style) :
    s.attributes font =
      (color s.settings "background").bind fun background =>
        (color s.settings "foreground").map fun foreground =>
          { foreground, background
            underline := s.settings["fontStyle"]?.bind fun flags =>
              if mentions flags "underline" then some .single else none
            font := s.settings["fontStyle"]?.map fun flags =>
              font (mentions flags "bold") (mentions flags "italic") } := by
  have hsorted : keys.Pairwise fun key key' => compare key key' = .lt := by decide
  rw [attributes, Settings.foldlM_eq_foldlM_keys hsorted fun a _ => settle_of_notMem font a]
  rw [keys, List.foldlM_cons, elim_settle_background font s.settings rfl]
  cases color s.settings "background" with
  | error e => rfl
  | ok background =>
      change List.foldlM _ _ _ = (color s.settings "foreground").map _
      rw [List.foldlM_cons, elim_settle_fontStyle font s.settings rfl rfl]
      change List.foldlM _ _ _ = _
      rw [List.foldlM_cons, elim_settle_foreground font s.settings rfl]
      cases color s.settings "foreground" with
      | error e => rfl
      | ok foreground => rfl

theorem color_eq_ok_iff {settings : Settings} {key : String} {c : Option Color} :
    color settings key = .ok c ↔
      Option.Rel (fun text c => Color.parse text = .ok c) settings[key]? c := by
  rw [color]
  generalize settings[key]? = text
  constructor
  · intro h
    cases text with
    | none =>
        obtain rfl := Except.ok.inj h
        exact .none
    | some text =>
        obtain ⟨c, hc, rfl⟩ := map_eq_ok_iff.1 h
        exact .some hc
  · intro h
    cases h with
    | none => rfl
    | some h => exact map_eq_ok_iff.2 ⟨_, h, rfl⟩

theorem color_eq_error_iff {settings : Settings} {key : String} {e : ColorError} :
    color settings key = .error e ↔
      ∃ text, settings[key]? = some text ∧ Color.parse text = .error e := by
  rw [color]
  cases settings[key]? with
  | none => simp
  | some text => simpa using map_eq_error_iff

theorem exists_color_eq_ok_iff (settings : Settings) (key : String) :
    (∃ c, color settings key = .ok c) ↔
      ∀ text, settings[key]? = some text → ∃ c, Color.parse text = .ok c := by
  rw [color]
  cases settings[key]? with
  | none => simp
  | some text => simp [map_eq_ok_iff]

/-- The settings come to something just if the colors among them are valid. -/
theorem exists_attributes_eq_ok_iff {Font : Type} (font : FontChoice Font) (s : Style) :
    (∃ a, s.attributes font = .ok a) ↔ s.HasValidColors := by
  have hcolors : s.HasValidColors ↔
      (∃ c, color s.settings "foreground" = .ok c) ∧
        ∃ c, color s.settings "background" = .ok c := by
    rw [exists_color_eq_ok_iff, exists_color_eq_ok_iff, HasValidColors, List.forall_mem_cons,
      List.forall_mem_singleton]
  rw [hcolors, attributes_eq]
  cases color s.settings "background" with
  | error e => simp [Except.bind]
  | ok background =>
      cases color s.settings "foreground" with
      | error e => simp [Except.bind, Except.map]
      | ok foreground => simp [Except.bind, Except.map]

theorem exists_attributes_eq_error_iff {Font : Type} (font : FontChoice Font) (s : Style) :
    (∃ e, s.attributes font = .error e) ↔ ¬ s.HasValidColors := by
  rw [← exists_attributes_eq_ok_iff font]
  cases s.attributes font with
  | ok a => simp
  | error e => simp

instance (s : Style) : Decidable s.HasValidColors :=
  decidable_of_iff ((s.attributes Prod.mk).isOk = true) <| by
    rw [← s.exists_attributes_eq_ok_iff Prod.mk]
    cases s.attributes Prod.mk with
    | ok a => simp [Except.isOk, Except.toBool]
    | error e => simp [Except.isOk, Except.toBool]

end Style

end Highlight
