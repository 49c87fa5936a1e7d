import Highlight.Proofs.Theme.Loading

/-!
# The log of a load

The log is told of every raw style when it is dealt with: nothing of a style without a selector, one
record of a selector that is read, and two of one that is not. So the log is made up of what is told
of each raw style in turn, and the records of one level are those of one kind of raw styles.
-/

namespace Highlight

/-- The warning about a style that is left out. -/
def Rejection.warning (r : Rejection) : Record :=
  ⟨.warn, "scope_selector::theme",
    "skipping style #" ++ toString r.index ++ " (" ++ r.name.getD "unnamed" ++ "): " ++
      r.error.message⟩

/-- The records that a raw style at its place is worth. -/
inductive RawStyle.Tells (raw : RawStyle) (index : Nat) : List Record → Prop
  | nothing (hscope : raw.scope = none) : Tells raw index []
  | accepted {text : String} {selector : Selector} (hscope : raw.scope = some text)
      (hparse : Selector.parse text = .ok selector) :
      Tells raw index [⟨.trace, "scope_selector::parse",
        "parsed selector " ++ Text.quoted text ++ " into " ++
          toString selector.composites.length ++ " composite(s)"⟩]
  | refused {text : String} {e : SyntaxError} (hscope : raw.scope = some text)
      (hparse : Selector.parse text = .error e) :
      Tells raw index [⟨.debug, "scope_selector::parse",
        "rejected selector " ++ Text.quoted text ++ ": " ++ e.message⟩,
        Rejection.warning ⟨index, raw.name, e⟩]

namespace Loading

/-- The log as it is shown. -/
def records (l : Loading) : List Record := l.log.toList.map Event.record

theorem records_tell (l : Loading) (e : Event) : (l.tell e).records = l.records ++ [e.record] := by
  rw [records, tell, Array.toList_push, List.map_append]
  rfl

theorem records_keep (l : Loading) (s : Style) : (l.keep s).records = l.records := rfl

theorem records_reject (l : Loading) (r : Rejection) : (l.reject r).records = l.records := rfl

/-- A step tells the log what its raw style is worth, behind all that was told before. -/
theorem exists_tells_step (l : Loading) (index : Nat) (raw : RawStyle) :
    ∃ told, raw.Tells index told ∧ (l.step index raw).records = l.records ++ told := by
  cases hscope : raw.scope with
  | none =>
      refine ⟨[], .nothing hscope, ?_⟩
      rw [step_of_scope_eq_none hscope, records_keep, List.append_nil]
  | some text =>
      cases hparse : Selector.parse text with
      | ok selector =>
          refine ⟨_, .accepted hscope hparse, ?_⟩
          rw [step_of_parse_eq_ok hscope hparse, records_keep, records_tell]
          rfl
      | error e =>
          refine ⟨_, .refused hscope hparse, ?_⟩
          rw [step_of_parse_eq_error hscope hparse, records_reject, records_tell, records_tell,
            List.append_assoc]
          rfl

/-- After any number of steps, the log is made up of what each raw style is worth. -/
theorem exists_tells_foldl (ps : List (RawStyle × Nat)) (l : Loading) :
    ∃ parts, List.Forall₂ (fun p told => p.1.Tells p.2 told) ps parts ∧
      (ps.foldl (fun l (raw, index) => l.step index raw) l).records =
        l.records ++ parts.flatten := by
  induction ps generalizing l with
  | nil => exact ⟨[], .nil, (List.append_nil _).symm⟩
  | cons p ps ih =>
      obtain ⟨told, htold, hstep⟩ := l.exists_tells_step p.2 p.1
      obtain ⟨parts, hparts, hrun⟩ := ih (l.step p.2 p.1)
      refine ⟨told :: parts, .cons htold hparts, ?_⟩
      rw [List.foldl_cons, hrun, hstep, List.flatten_cons, List.append_assoc]

end Loading

/-- Whether a record is of a level. -/
def Record.isOf (r : Record) (level : Level) : Bool := r.level = level

namespace RawStyle

variable {raw : RawStyle} {index : Nat} {told : List Record}

/-- The only warnings are about rejections. -/
theorem Tells.filter_warn (h : raw.Tells index told) :
    told.filter (·.isOf .warn) = (raw.rejection? index).toList.map Rejection.warning := by
  cases h with
  | nothing hscope =>
      rw [rejection?_of_becomes (becomes_of_scope_eq_none hscope)]
      rfl
  | accepted hscope hparse =>
      rw [rejection?_of_becomes (becomes_of_parse_eq_ok hscope hparse)]
      rfl
  | refused hscope hparse =>
      rw [rejection?_of_failsWith ⟨_, hscope, hparse⟩]
      rfl

/-- A selector is traced just if its style is kept. -/
theorem Tells.countP_trace (h : raw.Tells index told) :
    told.countP (·.isOf .trace) = raw.style?.toList.countP (·.scope.isSome) := by
  cases h with
  | nothing hscope =>
      rw [style?_of_becomes (becomes_of_scope_eq_none hscope)]
      rfl
  | accepted hscope hparse =>
      rw [style?_of_becomes (becomes_of_parse_eq_ok hscope hparse)]
      rfl
  | refused hscope hparse =>
      rw [style?_of_failsWith ⟨_, hscope, hparse⟩]
      rfl

variable {ps : List (RawStyle × Nat)} {parts : List (List Record)}

theorem filter_warn_flatten (h : List.Forall₂ (fun p told => p.1.Tells p.2 told) ps parts) :
    parts.flatten.filter (·.isOf .warn) =
      (ps.filterMap fun p => p.1.rejection? p.2).map Rejection.warning := by
  rw [List.filterMap_eq_flatMap_toList]
  induction h with
  | nil => rfl
  | cons htold _ ih =>
      rw [List.flatten_cons, List.filter_append, htold.filter_warn, ih, List.flatMap_cons,
        List.map_append]

theorem countP_trace_flatten (h : List.Forall₂ (fun p told => p.1.Tells p.2 told) ps parts) :
    parts.flatten.countP (·.isOf .trace) =
      (ps.filterMap fun p => p.1.style?).countP (·.scope.isSome) := by
  rw [List.filterMap_eq_flatMap_toList]
  induction h with
  | nil => rfl
  | cons htold _ ih =>
      rw [List.flatten_cons, List.countP_append, htold.countP_trace, ih, List.flatMap_cons,
        List.countP_append]

end RawStyle

namespace Metadata

/-- The keys of a description, in their order. -/
def keys : List MetadataKey := [.uuid, .semanticClass, .name, .author, .comment]

theorem mem_keys (key : MetadataKey) : key ∈ keys := by
  cases key <;> decide

theorem mem_entries_iff {m : Metadata} {key : MetadataKey} {value : String} :
    (key, value) ∈ m.entries ↔ m.get? key = some value := by
  change (key, value) ∈ keys.filterMap _ ↔ _
  simp [mem_keys]

theorem map_fst_entries_sublist (m : Metadata) : (m.entries.map Prod.fst).Sublist keys := by
  change ((keys.filterMap _).map Prod.fst).Sublist keys
  generalize keys = ks
  induction ks with
  | nil => exact .slnil
  | cons key ks ih =>
      rw [List.filterMap_cons]
      cases m.get? key with
      | none => exact ih.cons key
      | some value => exact ih.cons_cons key

/-- The record at the end of a load: how many styles were kept and how many were left out, and what
is given of the metadata, in the order of its keys. -/
def Summary (m : Metadata) (kept rejected : Nat) (r : Record) : Prop :=
  ∃ entries : List (MetadataKey × String), (entries.map Prod.fst).Sublist keys ∧
    (∀ key value, (key, value) ∈ entries ↔ m.get? key = some value) ∧
    r = ⟨.debug, "scope_selector::theme",
      "loaded " ++ toString kept ++ " style(s), rejected " ++ toString rejected ++
        "; metadata: " ++ ", ".intercalate (entries.map fun (key, value) =>
          key.text ++ "=" ++ Text.quoted value)⟩

theorem summary_loaded (m : Metadata) (kept rejected : Nat) :
    m.Summary kept rejected (Event.record (.loaded kept rejected m)) :=
  ⟨m.entries, m.map_fst_entries_sublist, fun _ _ => mem_entries_iff, rfl⟩

end Metadata

namespace Theme

/-- A load ends with its summary, behind what the raw styles are worth. -/
theorem exists_log_load (metadata : Metadata) (raws : List RawStyle) :
    ∃ parts, List.Forall₂ (fun p told => p.1.Tells p.2 told) raws.zipIdx parts ∧
      (load metadata raws).log.map Event.record = parts.flatten ++
        [Event.record (.loaded (load metadata raws).theme.styles.length
          (load metadata raws).rejected.length metadata)] := by
  obtain ⟨parts, hparts, hrun⟩ := Loading.exists_tells_foldl raws.zipIdx .start
  refine ⟨parts, hparts, ?_⟩
  change (Loading.tell _ _).records = _
  rw [Loading.records_tell, hrun]
  rfl

/-- The log of a load has what each raw style is worth, in the order of the raw styles, and then a
summary. So its warnings are about the rejected styles, one about each and in their order, and it
has as many traces as styles were kept that have a selector. -/
theorem log_tells_of_each (metadata : Metadata) (raws : List RawStyle) :
    (∃ parts summary, List.Forall₂ (fun p told => p.1.Tells p.2 told) raws.zipIdx parts ∧
      metadata.Summary (load metadata raws).theme.styles.length
        (load metadata raws).rejected.length summary ∧
      (load metadata raws).log.map Event.record = parts.flatten ++ [summary]) ∧
    ((load metadata raws).log.map Event.record).filter (·.isOf .warn) =
      (load metadata raws).rejected.map Rejection.warning ∧
    ((load metadata raws).log.map Event.record).countP (·.isOf .trace) =
      (load metadata raws).theme.styles.countP (·.scope.isSome) := by
  obtain ⟨parts, hparts, hlog⟩ := exists_log_load metadata raws
  refine ⟨⟨parts, _, hparts, metadata.summary_loaded _ _, hlog⟩, ?_, ?_⟩
  · rw [hlog, List.filter_append, RawStyle.filter_warn_flatten hparts, ← rejected_load metadata]
    exact List.append_nil _
  · rw [hlog, List.countP_append, RawStyle.countP_trace_flatten hparts, ← filterMap_style?,
      ← styles_load metadata]
    exact Nat.add_zero _

end Theme

end Highlight
