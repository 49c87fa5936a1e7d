import Highlight.Interchange.Codec
import Highlight.Proofs.Scope.RoundTrip
import Highlight.Proofs.Selector.RoundTrip
import Mathlib.Data.List.Nodup

/-!
# Values decoded

Names, scopes and selectors are stored as texts, and a stored text is decoded just as it is read. A
color is stored as a map, of which only the fields of its channels are looked at, and these by their
keys. What was encoded is decoded to what it was.
-/

namespace Highlight.Codec

/-- A codec stores texts and decodes them as `parse` reads them. -/
structure Textual {α : Type} (codec : Codec α) (parse : String → Except SyntaxError α) : Prop where
  decode_string_eq_ok_iff (text : String) (a : α) :
    codec.decode (.string text) = .ok a ↔ parse text = .ok a
  decode_string_eq_error (text : String) (e : SyntaxError) (h : parse text = .error e) :
    ∃ d, codec.decode (.string text) = .error d ∧ d.message = e.message
  decode_eq_error (value : Value) (h : ∀ text, value ≠ .string text) :
    ∃ d, codec.decode value = .error d
  decode_encode (text : String) (a : α) (h : parse text = .ok a) :
    codec.decode (codec.encode a) = .ok a

/-- What is stored as its text decodes as it is read, if what was read is read again from its own
text. -/
theorem textual_ofText {α : Type} (expected : String) {parse : String → Except SyntaxError α}
    {text : α → String} (h : ∀ t a, parse t = .ok a → parse (text a) = .ok a) :
    (ofText expected parse text).Textual parse where
  decode_string_eq_ok_iff _ _ := mapError_eq_ok_iff
  decode_string_eq_error t e he := by
    refine ⟨.malformed e, ?_, rfl⟩
    change (parse t).mapError DecodeError.malformed = _
    rw [he]
    rfl
  decode_eq_error value hvalue := by
    cases value with
    | string t => exact absurd rfl (hvalue t)
    | _ => exact ⟨_, rfl⟩
  decode_encode t a ha := mapError_eq_ok_iff.2 (h t a ha)

theorem textual_name : name.Textual Name.parse :=
  textual_ofText _ fun _ _ => Name.parse_text_eq_ok

theorem textual_scope : scope.Textual Scope.parse :=
  textual_ofText _ fun _ _ => Scope.parse_text_eq_ok

theorem textual_selector : selector.Textual Selector.parse :=
  textual_ofText _ fun _ _ h =>
    (Selector.wellFormed_of_parse h).parse_text (Selector.nesting_le_of_parse h)

section List

variable {α : Type} {item : Codec α}

theorem decode_sequence_eq_ok_iff {items : List Value} {as : List α} :
    (list item).decode (.sequence items) = .ok as ↔
      List.Forall₂ (fun value a => item.decode value = .ok a) items as :=
  mapM_eq_ok_iff

theorem decode_sequence_eq_error_iff {items : List Value} {e : DecodeError} :
    (list item).decode (.sequence items) = .error e ↔
      ∃ before value after, items = before ++ value :: after ∧
        (∀ v ∈ before, ∃ a, item.decode v = .ok a) ∧ item.decode value = .error e :=
  mapM_eq_error_iff

theorem mapM_decode_encode {as : List α} (h : ∀ a ∈ as, item.decode (item.encode a) = .ok a) :
    (as.map item.encode).mapM item.decode = .ok as := by
  rw [mapM_eq_ok_iff, List.forall₂_map_left_iff, List.forall₂_same]
  exact h

/-- A list is decoded to what it was if each of its items is. -/
theorem decode_encode_list {as : List α} (h : ∀ a ∈ as, item.decode (item.encode a) = .ok a) :
    (list item).decode ((list item).encode as) = .ok as :=
  mapM_decode_encode h

end List

/-- The keys of a color's channels. -/
def channelKeys : List String := ["red", "green", "blue", "alpha"]

theorem decode_encode_byte (b : UInt8) : byte.decode (byte.encode b) = .ok b := by
  have hrange : 0 ≤ (b.toNat : Int) ∧ (b.toNat : Int) < 256 := by
    have := b.toNat_lt
    omega
  simp only [byte]
  rw [if_pos hrange, Int.toNat_natCast, UInt8.ofNat_toNat]

/-- A color is decoded from its channels, whichever values they are decoded from. -/
theorem colorOfFields_eq_ok {fields : List (String × Value)} {c : Color}
    (hred : fields.lookup "red" = some (byte.encode c.red))
    (hgreen : fields.lookup "green" = some (byte.encode c.green))
    (hblue : fields.lookup "blue" = some (byte.encode c.blue))
    (halpha : fields.lookup "alpha" = some (byte.encode c.alpha)) :
    colorOfFields fields = .ok c := by
  rw [colorOfFields, hred, hgreen, hblue, halpha]
  simp only [Option.mapM_some, decode_encode_byte]
  rfl

theorem decode_encode_color (c : Color) : color.decode (color.encode c) = .ok c :=
  colorOfFields_eq_ok rfl rfl rfl rfl

theorem decode_color_sequence (c : Color) :
    color.decode (.sequence ([c.red, c.green, c.blue, c.alpha].map byte.encode)) = .ok c := by
  have hitems : ([c.red, c.green, c.blue, c.alpha].map byte.encode).mapM byte.decode =
      .ok [c.red, c.green, c.blue, c.alpha] :=
    mapM_decode_encode fun b _ => decode_encode_byte b
  change colorOfItems _ = _
  rw [colorOfItems, List.take_of_length_le (Nat.le_refl 4), hitems]
  rfl

/-- With distinct keys, what is found under a key is what is there. -/
theorem lookup_eq_some_iff_mem {fields : List (String × Value)} (h : (fields.map Prod.fst).Nodup)
    {key : String} {value : Value} :
    fields.lookup key = some value ↔ (key, value) ∈ fields := by
  induction fields with
  | nil => simp
  | cons field fields ih =>
      rcases field with ⟨key', value'⟩
      obtain ⟨hnotin, hfields⟩ := List.nodup_cons.1 h
      rw [List.lookup_cons, List.mem_cons, Prod.mk.injEq]
      by_cases hkey : key = key'
      · subst hkey
        have hmem : (key, value) ∉ fields :=
          fun hmem => hnotin (List.mem_map.2 ⟨(key, value), hmem, rfl⟩)
        simp [hmem, eq_comm]
      · rw [beq_eq_false_iff_ne.2 hkey]
        simp [hkey, ih hfields]

/-- The order of the fields is of no account, nor are fields under other keys. -/
theorem decode_color_map_of_perm {known extra fields : List (String × Value)}
    (hnodup : (fields.map Prod.fst).Nodup) (hextra : ∀ field ∈ extra, field.1 ∉ channelKeys)
    (hperm : fields.Perm (known ++ extra)) :
    color.decode (.map fields) = color.decode (.map known) := by
  have hknown : (known.map Prod.fst).Nodup := by
    have hboth := (hperm.map Prod.fst).nodup_iff.1 hnodup
    rw [List.map_append] at hboth
    exact hboth.of_append_left
  -- without distinct keys, what is found would depend on the order after all
  have hlookup : ∀ key ∈ channelKeys, fields.lookup key = known.lookup key := by
    intro key hkey
    apply Option.ext
    intro value
    have hmem : (key, value) ∉ extra := fun hmem => hextra _ hmem hkey
    rw [lookup_eq_some_iff_mem hnodup, lookup_eq_some_iff_mem hknown, hperm.mem_iff,
      List.mem_append, or_iff_left hmem]
  simp only [channelKeys, List.forall_mem_cons] at hlookup
  obtain ⟨hred, hgreen, hblue, halpha, -⟩ := hlookup
  change colorOfFields fields = colorOfFields known
  rw [colorOfFields, colorOfFields, hred, hgreen, hblue, halpha]

/-- Stored values agree with texts: names, scopes and selectors are decoded as they are read, lists
of selectors item by item, and colors from their channels in any order. -/
theorem decode_agrees :
    name.Textual Name.parse ∧ scope.Textual Scope.parse ∧ selector.Textual Selector.parse ∧
    (∀ items ss, (list selector).decode (.sequence items) = .ok ss ↔
      List.Forall₂ (fun value s => selector.decode value = .ok s) items ss) ∧
    (∀ items e, (list selector).decode (.sequence items) = .error e ↔
      ∃ before value after, items = before ++ value :: after ∧
        (∀ v ∈ before, ∃ s, selector.decode v = .ok s) ∧ selector.decode value = .error e) ∧
    (∀ ss : List Selector, (∀ s ∈ ss, ∃ text, Selector.parse text = .ok s) →
      (list selector).decode ((list selector).encode ss) = .ok ss) ∧
    (∀ c : Color, color.decode (color.encode c) = .ok c ∧
      color.decode (.sequence ([c.red, c.green, c.blue, c.alpha].map byte.encode)) = .ok c) ∧
    ∀ known extra fields : List (String × Value), (fields.map Prod.fst).Nodup →
      (∀ field ∈ extra, field.1 ∉ channelKeys) → fields.Perm (known ++ extra) →
        color.decode (.map fields) = color.decode (.map known) := by
  refine ⟨textual_name, textual_scope, textual_selector, fun _ _ => decode_sequence_eq_ok_iff,
    fun _ _ => decode_sequence_eq_error_iff, ?_, ?_, ?_⟩
  · intro ss hss
    apply decode_encode_list
    intro s hs
    obtain ⟨text, htext⟩ := hss s hs
    exact textual_selector.decode_encode text s htext
  · exact fun c => ⟨decode_encode_color c, decode_color_sequence c⟩
  · exact fun _ _ _ => decode_color_map_of_perm

/-- A difference and the universal selector are stored and decoded again. Of three values, the
second is at fault for being a group that ends too soon, and the third is not looked at. A color is
decoded from fields in another order, past a key that is of no account. -/
theorem exists_decode_stored :
    ∃ (s : Selector) (e : SyntaxError),
      Selector.parse " a -b" = .ok s ∧ Selector.parse "(" = .error e ∧
      (list selector).decode ((list selector).encode [s, .universal]) = .ok [s, .universal] ∧
      (∃ d, (list selector).decode (.sequence [.string " a -b", .string "(", .null]) = .error d ∧
        d.message = e.message) ∧
      (∃ d, scope.decode .null = .error d) ∧
      color.decode (.map [("hue", .null), ("alpha", .integer 4), ("blue", .integer 3),
        ("green", .integer 2), ("red", .integer 1)]) = .ok ⟨1, 2, 3, 4⟩ := by
  let s : Selector :=
    ⟨[(Composite.ofBase ⟨false, .path (.ofRoot ⟨["a"]⟩)⟩).append .difference
      ⟨false, .path (.ofRoot ⟨["b"]⟩)⟩]⟩
  let e : SyntaxError := ⟨⟨1, 1, 2⟩, .unexpected none .closeParen⟩
  have hs : Selector.parse " a -b" = .ok s := by rfl
  have huniversal : Selector.parse "" = .ok .universal := by rfl
  have he : Selector.parse "(" = .error e := by rfl
  obtain ⟨-, hscope, hselector, -, herror, hlist, hcolor, hmap⟩ := decode_agrees
  refine ⟨s, e, hs, he, hlist _ ?_, ?_, hscope.decode_eq_error .null (by simp), ?_⟩
  · simp only [List.forall_mem_cons]
    exact ⟨⟨_, hs⟩, ⟨_, huniversal⟩, List.forall_mem_nil _⟩
  · obtain ⟨d, hd, hmessage⟩ := hselector.decode_string_eq_error "(" e he
    refine ⟨d, (herror _ _).2 ⟨[.string " a -b"], _, [.null], rfl, ?_, hd⟩, hmessage⟩
    exact List.forall_mem_singleton.2 ⟨s, (hselector.decode_string_eq_ok_iff _ _).2 hs⟩
  · let known : List (String × Value) := [("red", .integer 1), ("green", .integer 2),
      ("blue", .integer 3), ("alpha", .integer 4)]
    exact (hmap known [("hue", .null)] _ (by decide) (by decide) (List.reverse_perm _)).trans
      (hcolor ⟨1, 2, 3, 4⟩).1

end Highlight.Codec
