import Highlight.Proofs.Selector.RoundTrip
import Highlight.Theme
import Mathlib.Data.List.Forall2

/-!
# Nothing is lost in loading

Every raw style is either kept or rejected, and keeps its place among its kind. Which of the two it
is depends on its own text alone, so all that a raw style needs to know about the others is how many
of them stand before it.
-/

namespace Highlight

namespace RawStyle

/-- A style is what a raw style stands for: all is taken over as it is, but the text of a selector
is read. -/
structure Becomes (raw : RawStyle) (s : Style) : Prop where
  name : s.name = raw.name
  scope : Option.Rel (fun text selector => Selector.parse text = .ok selector) raw.scope s.scope
  settings : s.settings = raw.settings

/-- A raw style has a text for a selector, but it is none. -/
def FailsWith (raw : RawStyle) (e : SyntaxError) : Prop :=
  ∃ text, raw.scope = some text ∧ Selector.parse text = .error e

/-- What a raw style comes to on its own: the style itself, or the reason why it is left out. -/
def read (raw : RawStyle) (index : Nat) : Except Rejection Style :=
  match raw.scope.mapM Selector.parse with
  | .ok scope => .ok ⟨raw.name, scope, raw.settings⟩
  | .error error => .error ⟨index, raw.name, error⟩

/-- The style that is kept, if it is. -/
def style? (raw : RawStyle) : Option Style :=
  (raw.read 0).toOption

/-- The rejection of a raw style at its place, if it is rejected. -/
def rejection? (raw : RawStyle) (index : Nat) : Option Rejection :=
  match raw.read index with
  | .ok _ => none
  | .error r => some r

theorem read_of_becomes {raw : RawStyle} {s : Style} (h : raw.Becomes s) (index : Nat) :
    raw.read index = .ok s := by
  rcases raw with ⟨name, scope, settings⟩
  rcases s with ⟨name', scope', settings'⟩
  obtain ⟨rfl, hscope, rfl⟩ := h
  cases hscope with
  | none => rfl
  | some hparse => simp only [read, Option.mapM_some, hparse, Functor.map, Except.map]

theorem read_of_failsWith {raw : RawStyle} {e : SyntaxError} (h : raw.FailsWith e) (index : Nat) :
    raw.read index = .error ⟨index, raw.name, e⟩ := by
  obtain ⟨text, hscope, hparse⟩ := h
  simp only [read, hscope, Option.mapM_some, hparse, Functor.map, Except.map]

theorem becomes_of_scope_eq_none {raw : RawStyle} (h : raw.scope = none) :
    raw.Becomes ⟨raw.name, none, raw.settings⟩ :=
  ⟨rfl, h ▸ .none, rfl⟩

theorem becomes_of_parse_eq_ok {raw : RawStyle} {text : String} (hscope : raw.scope = some text)
    {selector : Selector} (hparse : Selector.parse text = .ok selector) :
    raw.Becomes ⟨raw.name, some selector, raw.settings⟩ :=
  ⟨rfl, hscope ▸ .some hparse, rfl⟩

theorem becomes_or_failsWith (raw : RawStyle) :
    (∃ s, raw.Becomes s) ∨ ∃ e, raw.FailsWith e := by
  cases hscope : raw.scope with
  | none => exact .inl ⟨_, becomes_of_scope_eq_none hscope⟩
  | some text =>
      cases hparse : Selector.parse text with
      | ok selector => exact .inl ⟨_, becomes_of_parse_eq_ok hscope hparse⟩
      | error e => exact .inr ⟨e, text, hscope, hparse⟩

theorem style?_of_becomes {raw : RawStyle} {s : Style} (h : raw.Becomes s) :
    raw.style? = some s := by
  rw [style?, read_of_becomes h]
  rfl

theorem style?_of_failsWith {raw : RawStyle} {e : SyntaxError} (h : raw.FailsWith e) :
    raw.style? = none := by
  rw [style?, read_of_failsWith h]
  rfl

theorem rejection?_of_becomes {raw : RawStyle} {s : Style} (h : raw.Becomes s) (index : Nat) :
    raw.rejection? index = none := by
  rw [rejection?, read_of_becomes h]

theorem rejection?_of_failsWith {raw : RawStyle} {e : SyntaxError} (h : raw.FailsWith e)
    (index : Nat) : raw.rejection? index = some ⟨index, raw.name, e⟩ := by
  rw [rejection?, read_of_failsWith h]

theorem style?_eq_some_iff {raw : RawStyle} {s : Style} : raw.style? = some s ↔ raw.Becomes s := by
  constructor
  · intro h
    rcases raw.becomes_or_failsWith with ⟨s', hs'⟩ | ⟨e, he⟩
    · rw [style?_of_becomes hs'] at h
      rwa [← Option.some.inj h]
    · rw [style?_of_failsWith he] at h
      cases h
  · exact style?_of_becomes

theorem rejection?_eq_some_iff {raw : RawStyle} {index : Nat} {r : Rejection} :
    raw.rejection? index = some r ↔
      r.index = index ∧ r.name = raw.name ∧ raw.FailsWith r.error := by
  constructor
  · intro h
    rcases raw.becomes_or_failsWith with ⟨s, hs⟩ | ⟨e, he⟩
    · rw [rejection?_of_becomes hs] at h
      cases h
    · rw [rejection?_of_failsWith he] at h
      obtain rfl := Option.some.inj h
      exact ⟨rfl, rfl, he⟩
  · rcases r with ⟨index', name, e⟩
    rintro ⟨rfl, rfl, he⟩
    exact rejection?_of_failsWith he index'

end RawStyle

/-- The same rejection behind `n` more raw styles. -/
def Rejection.shift (n : Nat) (r : Rejection) : Rejection := { r with index := r.index + n }

theorem RawStyle.rejection?_add (raw : RawStyle) (index n : Nat) :
    raw.rejection? (index + n) = (raw.rejection? index).map (Rejection.shift n) := by
  rcases raw.becomes_or_failsWith with ⟨s, hs⟩ | ⟨e, he⟩
  · rw [rejection?_of_becomes hs, rejection?_of_becomes hs, Option.map_none]
  · rw [rejection?_of_failsWith he, rejection?_of_failsWith he, Option.map_some, Rejection.shift]

namespace Loading

variable {raw : RawStyle} {text : String}

theorem step_of_scope_eq_none (h : raw.scope = none) (l : Loading) (index : Nat) :
    l.step index raw = l.keep ⟨raw.name, none, raw.settings⟩ := by
  rw [step, h]

theorem step_of_parse_eq_ok (hscope : raw.scope = some text) {selector : Selector}
    (hparse : Selector.parse text = .ok selector) (l : Loading) (index : Nat) :
    l.step index raw = (l.tell (.accepted text selector.composites.length)).keep
      ⟨raw.name, some selector, raw.settings⟩ := by
  rw [step, hscope]
  simp only [hparse, Event.ofParse]

theorem step_of_parse_eq_error (hscope : raw.scope = some text) {e : SyntaxError}
    (hparse : Selector.parse text = .error e) (l : Loading) (index : Nat) :
    l.step index raw = ((l.tell (.refused text e)).tell
      (.skipped index raw.name e)).reject ⟨index, raw.name, e⟩ := by
  rw [step, hscope]
  simp only [hparse, Event.ofParse]

theorem step_of_becomes {s : Style} (h : raw.Becomes s) (l : Loading) (index : Nat) :
    (l.step index raw).kept = l.kept.push s ∧ (l.step index raw).rejected = l.rejected := by
  rcases raw with ⟨name, scope, settings⟩
  rcases s with ⟨name', scope', settings'⟩
  obtain ⟨rfl, hscope, rfl⟩ := h
  cases hscope with
  | none =>
      rw [step_of_scope_eq_none rfl]
      exact ⟨rfl, rfl⟩
  | some hparse =>
      rw [step_of_parse_eq_ok rfl hparse]
      exact ⟨rfl, rfl⟩

theorem step_of_failsWith {e : SyntaxError} (h : raw.FailsWith e) (l : Loading) (index : Nat) :
    (l.step index raw).kept = l.kept ∧
      (l.step index raw).rejected = l.rejected.push ⟨index, raw.name, e⟩ := by
  obtain ⟨text, hscope, hparse⟩ := h
  rw [step_of_parse_eq_error hscope hparse]
  exact ⟨rfl, rfl⟩

theorem kept_step (l : Loading) (index : Nat) (raw : RawStyle) :
    (l.step index raw).kept.toList = l.kept.toList ++ raw.style?.toList := by
  rcases raw.becomes_or_failsWith with ⟨s, hs⟩ | ⟨e, he⟩
  · rw [(step_of_becomes hs l index).1, RawStyle.style?_of_becomes hs, Array.toList_push]
    rfl
  · rw [(step_of_failsWith he l index).1, RawStyle.style?_of_failsWith he]
    exact (List.append_nil _).symm

theorem rejected_step (l : Loading) (index : Nat) (raw : RawStyle) :
    (l.step index raw).rejected.toList = l.rejected.toList ++ (raw.rejection? index).toList := by
  rcases raw.becomes_or_failsWith with ⟨s, hs⟩ | ⟨e, he⟩
  · rw [(step_of_becomes hs l index).2, RawStyle.rejection?_of_becomes hs]
    exact (List.append_nil _).symm
  · rw [(step_of_failsWith he l index).2, RawStyle.rejection?_of_failsWith he, Array.toList_push]
    rfl

/-- What every step adds to a list is there, in order, after all steps. -/
theorem foldl_step {α : Type} (field : Loading → List α) {added : RawStyle × Nat → List α}
    (h : ∀ l p, field (Loading.step l p.2 p.1) = field l ++ added p) (ps : List (RawStyle × Nat))
    (l : Loading) :
    field (ps.foldl (fun l (raw, index) => l.step index raw) l) = field l ++ ps.flatMap added := by
  induction ps generalizing l with
  | nil => simp
  | cons p ps ih => rw [List.foldl_cons, ih, h, List.flatMap_cons, List.append_assoc]

end Loading

namespace Theme

/-- Which styles are kept does not depend on their places. -/
theorem filterMap_style? (raws : List RawStyle) :
    raws.filterMap RawStyle.style? = raws.zipIdx.filterMap fun p => p.1.style? := by
  conv_lhs => rw [← List.zipIdx_map_fst 0 raws, List.filterMap_map]
  rfl

theorem styles_load (metadata : Metadata) (raws : List RawStyle) :
    (load metadata raws).theme.styles = raws.filterMap RawStyle.style? := by
  rw [filterMap_style?, List.filterMap_eq_flatMap_toList]
  exact Loading.foldl_step (fun l => l.kept.toList) (fun l p => l.kept_step p.2 p.1) raws.zipIdx
    .start

theorem rejected_load (metadata : Metadata) (raws : List RawStyle) :
    (load metadata raws).rejected = raws.zipIdx.filterMap fun p => p.1.rejection? p.2 := by
  rw [List.filterMap_eq_flatMap_toList]
  exact Loading.foldl_step (fun l => l.rejected.toList) (fun l p => l.rejected_step p.2 p.1)
    raws.zipIdx .start

theorem mem_rejected_load_iff {metadata : Metadata} {raws : List RawStyle} {r : Rejection} :
    r ∈ (load metadata raws).rejected ↔
      ∃ raw, raws[r.index]? = some raw ∧ raw.FailsWith r.error ∧ r.name = raw.name := by
  rw [rejected_load, List.mem_filterMap]
  constructor
  · rintro ⟨⟨raw, index⟩, hmem, hr⟩
    obtain ⟨rfl, hname, he⟩ := RawStyle.rejection?_eq_some_iff.1 hr
    exact ⟨raw, List.mem_zipIdx_iff_getElem?.1 hmem, he, hname⟩
  · rintro ⟨raw, hraw, he, hname⟩
    exact ⟨(raw, r.index), List.mem_zipIdx_iff_getElem?.2 hraw,
      RawStyle.rejection?_eq_some_iff.2 ⟨rfl, hname, he⟩⟩

/-- The places of the raw styles that are kept. -/
def keptPlaces (raws : List RawStyle) : List Nat :=
  (raws.zipIdx.filter fun p => p.1.style?.isSome).map Prod.snd

theorem map_index_filterMap_rejection? (ps : List (RawStyle × Nat)) :
    (ps.filterMap fun p => p.1.rejection? p.2).map Rejection.index =
      (ps.filter fun p => !p.1.style?.isSome).map Prod.snd := by
  induction ps with
  | nil => rfl
  | cons p ps ih =>
      rcases p.1.becomes_or_failsWith with ⟨s, hs⟩ | ⟨e, he⟩
      · simp only [List.filterMap_cons, List.filter_cons, RawStyle.rejection?_of_becomes hs,
          RawStyle.style?_of_becomes hs]
        exact ih
      · simp only [List.filterMap_cons, List.filter_cons, RawStyle.rejection?_of_failsWith he,
          RawStyle.style?_of_failsWith he, List.map_cons, ih]
        rfl

/-- The places of what is kept and of what is rejected are all the places there are. -/
theorem perm_range_places (metadata : Metadata) (raws : List RawStyle) :
    (keptPlaces raws ++ (load metadata raws).rejected.map Rejection.index).Perm
      (List.range raws.length) := by
  have hperm := (List.filter_append_perm (fun p => p.1.style?.isSome) raws.zipIdx).map Prod.snd
  rw [List.map_append, List.zipIdx_map_snd, ← List.range_eq_range'] at hperm
  rwa [rejected_load, map_index_filterMap_rejection?]

theorem pairwise_lt_of_sublist_zipIdx {raws : List RawStyle} {ps : List (RawStyle × Nat)}
    (h : ps.Sublist raws.zipIdx) : (ps.map Prod.snd).Pairwise (· < ·) := by
  have hall : (raws.zipIdx.map Prod.snd).Pairwise (· < ·) := by
    rw [List.zipIdx_map_snd]
    exact List.pairwise_lt_range'
  exact hall.sublist (h.map Prod.snd)

theorem pairwise_lt_rejected (metadata : Metadata) (raws : List RawStyle) :
    ((load metadata raws).rejected.map Rejection.index).Pairwise (· < ·) := by
  rw [rejected_load, map_index_filterMap_rejection?]
  exact pairwise_lt_of_sublist_zipIdx List.filter_sublist

theorem forall₂_becomes_filterMap_style? {raws : List RawStyle} {ps : List (RawStyle × Nat)}
    (h : ∀ p ∈ ps, raws[p.2]? = some p.1) :
    List.Forall₂ (fun i s => ∃ raw, raws[i]? = some raw ∧ raw.Becomes s)
      ((ps.filter fun p => p.1.style?.isSome).map Prod.snd)
      (ps.filterMap fun p => p.1.style?) := by
  -- on the styles still to come with their places in the whole list, which stays as it is
  induction ps with
  | nil => exact .nil
  | cons p ps ih =>
      obtain ⟨hp, hps⟩ := List.forall_mem_cons.1 h
      rcases p.1.becomes_or_failsWith with ⟨s, hs⟩ | ⟨e, he⟩
      · simp only [List.filterMap_cons, List.filter_cons, RawStyle.style?_of_becomes hs]
        exact .cons ⟨p.1, hp, hs⟩ (ih hps)
      · simp only [List.filterMap_cons, List.filter_cons, RawStyle.style?_of_failsWith he]
        exact ih hps

/-- What is kept is what the raw styles at these places stand for, in their order. -/
theorem forall₂_keptPlaces (metadata : Metadata) (raws : List RawStyle) :
    List.Forall₂ (fun i s => ∃ raw, raws[i]? = some raw ∧ raw.Becomes s)
      (keptPlaces raws) (load metadata raws).theme.styles := by
  rw [styles_load, filterMap_style?]
  exact forall₂_becomes_filterMap_style? fun p hp => List.mem_zipIdx_iff_getElem?.1 hp

theorem rejected_load_append (metadata : Metadata) (raws others : List RawStyle) :
    (load metadata (raws ++ others)).rejected = (load metadata raws).rejected ++
      (load metadata others).rejected.map (Rejection.shift raws.length) := by
  rw [rejected_load, List.zipIdx_append, List.filterMap_append, ← rejected_load metadata,
    rejected_load metadata others, List.map_filterMap, Nat.zero_add, List.zipIdx_eq_map_add,
    List.filterMap_map]
  simp only [Function.comp_def, Nat.add_comm raws.length, RawStyle.rejection?_add]

end Theme

/-- A style as it would stand in a theme file, its selector as text again. -/
def Style.toRaw (s : Style) : RawStyle := ⟨s.name, s.scope.map Selector.text, s.settings⟩

/-- A style that was read is read again from its text. -/
theorem RawStyle.Becomes.toRaw_becomes {raw : RawStyle} {s : Style} (h : raw.Becomes s) :
    s.toRaw.Becomes s := by
  refine ⟨rfl, ?_, rfl⟩
  have hscope := h.scope
  rw [Style.toRaw]
  generalize raw.scope = text, s.scope = selector at hscope
  cases hscope with
  | none => exact .none
  | some hparse =>
      have hwell := Selector.wellFormed_of_parse hparse
      exact .some (hwell.parse_text (Selector.nesting_le_of_parse hparse))

namespace Theme

theorem becomes_of_mem_load {metadata : Metadata} {raws : List RawStyle} {s : Style}
    (h : s ∈ (load metadata raws).theme.styles) : ∃ raw : RawStyle, raw.Becomes s := by
  rw [styles_load, List.mem_filterMap] at h
  obtain ⟨raw, -, hraw⟩ := h
  exact ⟨raw, RawStyle.style?_eq_some_iff.1 hraw⟩

/-- What was kept is all kept when it is loaded again. -/
theorem load_toRaw {styles : List Style} (h : ∀ s ∈ styles, s.toRaw.Becomes s)
    (metadata : Metadata) :
    (load metadata (styles.map Style.toRaw)).theme = ⟨metadata, styles⟩ ∧
      (load metadata (styles.map Style.toRaw)).rejected = [] := by
  constructor
  · have hstyles : (load metadata (styles.map Style.toRaw)).theme.styles = styles := by
      rw [styles_load, List.filterMap_map]
      calc styles.filterMap (RawStyle.style? ∘ Style.toRaw)
          = styles.filterMap some :=
            List.filterMap_congr fun s hs => RawStyle.style?_eq_some_iff.2 (h s hs)
        _ = styles := List.filterMap_some
    exact congrArg (Theme.mk metadata) hstyles
  · rw [List.eq_nil_iff_forall_not_mem]
    intro r hr
    obtain ⟨raw, hraw, ⟨text, hscope, herror⟩, -⟩ := mem_rejected_load_iff.1 hr
    obtain ⟨s, hs, rfl⟩ := List.mem_map.1 (List.mem_of_getElem? hraw)
    have hread := (h s hs).scope
    rw [hscope] at hread
    generalize s.scope = scope at hread
    cases hread with
    | some hparse => simp [hparse] at herror

/-- Loading sorts the raw styles into those that are kept and those that are rejected, each with its
own place, and does so in order. Going on with further raw styles goes on with the places. What was
kept is all there is when it is written and loaded again. -/
theorem load_sorts (metadata : Metadata) (raws : List RawStyle) :
    (∃ places : List Nat, places.Pairwise (· < ·) ∧
      (places ++ (load metadata raws).rejected.map Rejection.index).Perm
        (List.range raws.length) ∧
      List.Forall₂ (fun i s => ∃ raw, raws[i]? = some raw ∧ raw.Becomes s) places
        (load metadata raws).theme.styles) ∧
    (∀ r, r ∈ (load metadata raws).rejected ↔
      ∃ raw, raws[r.index]? = some raw ∧ raw.FailsWith r.error ∧ r.name = raw.name) ∧
    ((load metadata raws).rejected.map Rejection.index).Pairwise (· < ·) ∧
    (load metadata raws).theme.metadata = metadata ∧
    (∀ others, (load metadata (raws ++ others)).theme.styles =
        (load metadata raws).theme.styles ++ (load metadata others).theme.styles ∧
      (load metadata (raws ++ others)).rejected = (load metadata raws).rejected ++
        (load metadata others).rejected.map (Rejection.shift raws.length)) ∧
    (load metadata ((load metadata raws).theme.styles.map Style.toRaw)).theme =
      (load metadata raws).theme ∧
    (load metadata ((load metadata raws).theme.styles.map Style.toRaw)).rejected = [] := by
  have hagain : ∀ s ∈ (load metadata raws).theme.styles, s.toRaw.Becomes s := by
    intro s hs
    obtain ⟨raw, hraw⟩ := becomes_of_mem_load hs
    exact hraw.toRaw_becomes
  refine ⟨⟨keptPlaces raws, ?_, perm_range_places metadata raws, forall₂_keptPlaces metadata raws⟩,
    fun r => mem_rejected_load_iff, pairwise_lt_rejected metadata raws, rfl, ?_,
    load_toRaw hagain metadata⟩
  · exact pairwise_lt_of_sublist_zipIdx List.filter_sublist
  · intro others
    refine ⟨?_, rejected_load_append metadata raws others⟩
    rw [styles_load, styles_load, styles_load, List.filterMap_append]

end Theme

end Highlight
