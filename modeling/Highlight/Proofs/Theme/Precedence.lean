import Highlight.Proofs.Style
import Highlight.Theme

/-!
# Which style has the last word

The styles that apply to a context are laid over each other, so what the last of them settles is
what counts, and this is so for each of the attributes on its own. An error is different: the first
style that has one decides.

Both follow from how one style is laid under all that come behind it (`Style.overlay_cons`).
-/

namespace Highlight

namespace Style

variable {Font : Type} {font : FontChoice Font}

/-- The attributes of all styles, laid over each other in order. -/
def overlay (font : FontChoice Font) (styles : List Style) : Except ColorError (Attributes Font) :=
  styles.foldlM (fun soFar s => soFar.merge <$> s.attributes font) .empty

/-- What is there already ends up under everything else. -/
theorem foldlM_merge (styles : List Style) (a : Attributes Font) :
    styles.foldlM (fun soFar s => soFar.merge <$> s.attributes font) a =
      a.merge <$> overlay font styles := by
  induction styles generalizing a with
  | nil => exact congrArg Except.ok a.merge_empty.symm
  | cons s styles ih =>
      rw [overlay, List.foldlM_cons, List.foldlM_cons]
      cases s.attributes font with
      | error e => rfl
      | ok b =>
          change styles.foldlM _ (a.merge b) =
            a.merge <$> styles.foldlM _ (Attributes.empty.merge b)
          rw [ih (a.merge b), Attributes.empty_merge, ih b]
          cases overlay font styles with
          | error e => rfl
          | ok c => exact congrArg Except.ok (Attributes.merge_assoc a b c)

theorem overlay_cons (s : Style) (styles : List Style) :
    overlay font (s :: styles) =
      (s.attributes font).bind fun a => a.merge <$> overlay font styles := by
  rw [overlay, List.foldlM_cons]
  cases s.attributes font with
  | error e => rfl
  | ok a =>
      change styles.foldlM _ (Attributes.empty.merge a) = _
      rw [Attributes.empty_merge, foldlM_merge]
      rfl

theorem overlay_cons_of_ok {s : Style} {a : Attributes Font} (h : s.attributes font = .ok a)
    (styles : List Style) : overlay font (s :: styles) = a.merge <$> overlay font styles := by
  rw [overlay_cons, h]
  rfl

theorem overlay_append (styles others : List Style) :
    overlay font (styles ++ others) =
      (overlay font styles).bind fun a => a.merge <$> overlay font others := by
  rw [overlay, List.foldlM_append]
  change (overlay font styles).bind (fun a => others.foldlM _ a) = _
  simp only [foldlM_merge]

/-- What the last of the styles that settle a field settle it to, if there is any such style. -/
def lastSettled {α : Type} (font : FontChoice Font) (field : Attributes Font → Option α)
    (styles : List Style) : Option α :=
  (styles.filterMap fun s => (s.attributes font).toOption.bind field).getLast?

theorem lastSettled_cons_of_ok {α : Type} {s : Style} {a : Attributes Font}
    (h : s.attributes font = .ok a) (field : Attributes Font → Option α) (styles : List Style) :
    lastSettled font field (s :: styles) = (lastSettled font field styles <|> field a) := by
  have hfield : (s.attributes font).toOption.bind field = field a := by
    rw [h]
    rfl
  rw [lastSettled, List.filterMap_cons, hfield, lastSettled]
  cases field a with
  | none => simp
  | some x => simp [List.getLast?_cons]

/-- Every attribute as the last style has it that settles it. -/
def settled (font : FontChoice Font) (styles : List Style) : Attributes Font where
  foreground := lastSettled font Attributes.foreground styles
  background := lastSettled font Attributes.background styles
  underline := lastSettled font Attributes.underline styles
  font := lastSettled font Attributes.font styles

theorem settled_cons_of_ok {s : Style} {a : Attributes Font} (h : s.attributes font = .ok a)
    (styles : List Style) : settled font (s :: styles) = a.merge (settled font styles) := by
  simp only [settled, Attributes.merge, lastSettled_cons_of_ok h]

/-- Valid styles come to what the last of them settle. -/
theorem overlay_eq_ok {styles : List Style} (h : ∀ s ∈ styles, s.HasValidColors) :
    overlay font styles = .ok (settled font styles) := by
  induction styles with
  | nil => rfl
  | cons s styles ih =>
      obtain ⟨hs, hstyles⟩ := List.forall_mem_cons.1 h
      obtain ⟨a, ha⟩ := (s.exists_attributes_eq_ok_iff font).2 hs
      rw [overlay_cons_of_ok ha, ih hstyles, settled_cons_of_ok ha]
      rfl

/-- Behind valid styles, a style with an error makes it the error of all of them. -/
theorem overlay_eq_error {before : List Style} (h : ∀ s ∈ before, s.HasValidColors) {s : Style}
    {e : ColorError} (hs : s.attributes font = .error e) (after : List Style) :
    overlay font (before ++ s :: after) = .error e := by
  rw [overlay_append, overlay_eq_ok h, overlay_cons, hs]
  rfl

end Style

namespace Theme

variable {Font : Type} (font : FontChoice Font) {t : Theme} {context : Context}

/-- All styles that apply to a context have valid colors. What the others have does not matter. -/
def Resolves (t : Theme) (context : Context) : Prop :=
  ∀ s ∈ t.styles, s.applies context = true → s.HasValidColors

instance (t : Theme) (context : Context) : Decidable (t.Resolves context) :=
  inferInstanceAs (Decidable (∀ s ∈ t.styles, s.applies context = true → s.HasValidColors))

theorem resolves_iff : t.Resolves context ↔ ∀ s ∈ t.applicable context, s.HasValidColors := by
  simp [Resolves, applicable]

theorem attributes_eq_overlay (t : Theme) (context : Context) :
    t.attributes context font = Style.overlay font (t.applicable context) := rfl

theorem attributes_of_resolves (h : t.Resolves context) :
    t.attributes context font = .ok (Style.settled font (t.applicable context)) := by
  rw [attributes_eq_overlay, Style.overlay_eq_ok (resolves_iff.1 h)]

theorem exists_first_error (h : ¬ t.Resolves context) :
    ∃ before s after e, t.styles = before ++ s :: after ∧
      (∀ s' ∈ before, s'.applies context = true → s'.HasValidColors) ∧
        s.applies context = true ∧ s.attributes font = .error e ∧
          t.attributes context font = .error e := by
  classical
  -- looked for among all styles, not just those that apply, to know what stands before it
  let bad (s : Style) : Prop := s.applies context = true ∧ ¬ s.HasValidColors
  obtain ⟨s, hfind⟩ : ∃ s, t.styles.find? (fun s => decide (bad s)) = some s := by
    rw [← Option.isSome_iff_exists, List.find?_isSome]
    simpa [Resolves, bad] using h
  obtain ⟨hs, before, after, hstyles, hbefore⟩ := List.find?_eq_some_iff_append.1 hfind
  obtain ⟨happlies, hinvalid⟩ : bad s := of_decide_eq_true hs
  have hvalid : ∀ s' ∈ before, s'.applies context = true → s'.HasValidColors := by
    intro s' hs' happlies'
    simpa [bad, happlies'] using hbefore s' hs'
  obtain ⟨e, he⟩ := (s.exists_attributes_eq_error_iff font).2 hinvalid
  refine ⟨before, s, after, e, hstyles, hvalid, happlies, he, ?_⟩
  have happlicable : t.applicable context = before.filter (fun s => s.applies context) ++
      s :: after.filter fun s => s.applies context := by
    rw [applicable, hstyles, List.filter_append, List.filter_cons, if_pos happlies]
  rw [attributes_eq_overlay, happlicable]
  refine Style.overlay_eq_error ?_ he _
  intro s' hs'
  obtain ⟨hmem, happlies'⟩ := List.mem_filter.1 hs'
  exact hvalid s' hmem happlies'

/-- Only the styles that apply are looked at. -/
theorem attributes_filter_applies (t : Theme) (context : Context) :
    (Theme.mk t.metadata (t.styles.filter fun s => s.applies context)).attributes context font =
      t.attributes context font := by
  rw [attributes_eq_overlay, applicable, List.filter_filter, attributes_eq_overlay, applicable]
  simp only [Bool.and_self]

theorem attributes_insert (metadata : Metadata) {s : Style} (h : s.applies context = false)
    (before after : List Style) :
    (Theme.mk metadata (before ++ s :: after)).attributes context font =
      (Theme.mk metadata (before ++ after)).attributes context font := by
  simp only [attributes_eq_overlay, applicable, List.filter_append, List.filter_cons, h,
    Bool.false_eq_true, if_false]

theorem attributes_append (metadata : Metadata) (t u : Theme) (context : Context) :
    (Theme.mk metadata (t.styles ++ u.styles)).attributes context font =
      (t.attributes context font).bind fun a => a.merge <$> u.attributes context font := by
  simp only [attributes_eq_overlay, applicable, List.filter_append, Style.overlay_append]

/-- A theme whose applicable styles are all valid gives every attribute as the last of these styles
has it that settles it. Otherwise the first applicable style with an error decides. Styles that do
not apply have no say in either, and behind a theme another one takes precedence. -/
theorem attributes_resolved (t : Theme) (context : Context) :
    (t.Resolves context → t.attributes context font = .ok
      { foreground := Style.lastSettled font Attributes.foreground (t.applicable context)
        background := Style.lastSettled font Attributes.background (t.applicable context)
        underline := Style.lastSettled font Attributes.underline (t.applicable context)
        font := Style.lastSettled font Attributes.font (t.applicable context) }) ∧
    (¬ t.Resolves context → ∃ before s after e, t.styles = before ++ s :: after ∧
      (∀ s' ∈ before, s'.applies context = true → s'.HasValidColors) ∧
        s.applies context = true ∧ s.attributes font = .error e ∧
          t.attributes context font = .error e) ∧
    (Theme.mk t.metadata (t.styles.filter fun s => s.applies context)).attributes context font =
      t.attributes context font ∧
    (∀ before s after, t.styles = before ++ s :: after → s.applies context = false →
      (Theme.mk t.metadata (before ++ after)).attributes context font =
        t.attributes context font) ∧
    (∀ (metadata : Metadata) (u : Theme) (a b : Attributes Font),
      t.attributes context font = .ok a → u.attributes context font = .ok b →
        (Theme.mk metadata (t.styles ++ u.styles)).attributes context font = .ok (a.merge b)) ∧
    ∀ (metadata : Metadata) (u : Theme) (e : ColorError), t.attributes context font = .error e →
      (Theme.mk metadata (t.styles ++ u.styles)).attributes context font = .error e := by
  refine ⟨attributes_of_resolves font, exists_first_error font, attributes_filter_applies font t _,
    ?_, ?_, ?_⟩
  · intro before s after hstyles happlies
    rw [← attributes_insert font t.metadata happlies, ← hstyles]
  · intro metadata u a b ha hb
    rw [attributes_append, ha, hb]
    rfl
  · intro metadata u e he
    rw [attributes_append, he]
    rfl

/-- A bad color hurts where its style applies, and only there. -/
theorem exists_resolved_past_invalid_color :
    ∃ (t u : Theme) (context : Context) (a : Attributes (Bool × Bool)),
      t.Resolves context ∧ t.attributes context Prod.mk = .ok a ∧
        a = ⟨some (.rgb 0x22 0x22 0x22), some (.rgb 0 0 0), none, some (false, true)⟩ ∧
      (∃ before s after, t.styles = before ++ s :: after ∧ ¬ s.HasValidColors ∧
        s.applies context = false ∧
          (Theme.mk t.metadata (before ++ after)).attributes context Prod.mk =
            t.attributes context Prod.mk) ∧
      (Theme.mk t.metadata (t.styles ++ t.styles)).attributes context Prod.mk = .ok (a.merge a) ∧
      ¬ u.Resolves context ∧ ∃ e, u.attributes context Prod.mk = .error e ∧
        (Theme.mk t.metadata (u.styles ++ t.styles)).attributes context Prod.mk = .error e := by
  let blank : Metadata := ⟨none, none, none, none, none⟩
  let inside (name key value : String) : Style :=
    ⟨none, some ⟨[.ofBase ⟨false, .path (.ofRoot ⟨[name]⟩)⟩]⟩, (∅ : Settings).insert key value⟩
  let base : Style := ⟨none, none, (∅ : Settings).insert "background" "000000"⟩
  let keyword := inside "keyword" "foreground" "red"
  let rest := [inside "string" "foreground" "#222222", inside "string" "fontStyle" "italic"]
  let t : Theme := ⟨blank, base :: keyword :: rest⟩
  let u : Theme := ⟨blank, [inside "source" "foreground" "red"]⟩
  let context : Context := ⟨none, ⟨[⟨["source", "js"]⟩, ⟨["string", "quoted"]⟩]⟩⟩
  have ht : t.Resolves context := by decide +kernel
  have hu : ¬ u.Resolves context := by decide +kernel
  obtain ⟨hok, -, -, hdelete, happend, -⟩ := attributes_resolved Prod.mk t context
  obtain ⟨-, herror, -, -, -, happendError⟩ := attributes_resolved Prod.mk u context
  obtain ⟨-, -, -, e, -, -, -, -, he⟩ := herror hu
  refine ⟨t, u, context, _, ht, hok ht, by decide +kernel, ⟨[base], keyword, rest, rfl, ?_, ?_, ?_⟩,
    happend blank t _ _ (hok ht) (hok ht), hu, e, he, happendError blank t e he⟩
  · decide +kernel
  · decide +kernel
  · exact hdelete [base] keyword rest rfl (by decide +kernel)

end Theme

end Highlight
