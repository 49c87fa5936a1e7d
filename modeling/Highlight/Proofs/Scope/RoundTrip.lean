import Highlight.Proofs.Lexeme.Places
import Highlight.Proofs.Name.RoundTrip
import Highlight.Proofs.Scope.OwnText
import Highlight.Scope.Reader

/-!
# Scopes written and read again

A text is read as a scope just if its tokens are the names of the scope. A name among the tokens of
a text is well-formed, so the names of a scope that was read are scanned again from its own text.
All other scopes are written like something else, or like nothing that can be read.
-/

namespace Highlight

open Token (layout_names)

namespace Token

theorem wellFormed_of_name_mem_scan {n : Name} {cs : List Char} (h : name n ∈ scan cs) :
    n.WellFormed := by
  obtain ⟨l, hl, hname⟩ := List.mem_map.1 h
  obtain ⟨rest, -, hleads⟩ := Lexeme.exists_leads_of_mem_scan hl
  rcases l with ⟨t, start, turn⟩
  obtain rfl : t = .name n := hname
  change (name n).Leads start turn rest at hleads
  cases hleads with
  | name hn hrest hside => exact hn

end Token

theorem Lexeme.name_eq_ok_iff (l : Lexeme) (n : Name) : l.name = .ok n ↔ l.token = .name n := by
  rw [Lexeme.name]
  cases l.token with
  | name m => simp
  | broken m => simp
  | side s => simp
  | mark c => simp

namespace Scope

/-- Reading a scope is taking every token for a name. -/
theorem ofChars_eq_ok_iff {cs : List Char} {s : Scope} :
    ofChars cs = .ok s ↔ Token.scan cs = s.names.map Token.name := by
  have hnames : (Lexeme.scan cs).mapM Lexeme.name = .ok s.names ↔
      Token.scan cs = s.names.map Token.name := by
    simp only [mapM_eq_ok_iff, Lexeme.name_eq_ok_iff, Token.scan, ← List.forall₂_eq_eq_eq,
      List.forall₂_map_left_iff, List.forall₂_map_right_iff]
  rw [← hnames, ofChars, map_eq_ok_iff]
  constructor
  · rintro ⟨ns, hns, rfl⟩
    exact hns
  · exact fun h => ⟨s.names, h, rfl⟩

theorem scan_chars {s : Scope} (h : ∀ n ∈ s.names, n.WellFormed) :
    Token.scan s.chars = s.names.map Token.name := by
  rcases s with ⟨_ | ⟨n, ns⟩⟩
  · rfl
  · rw [chars, ← layout_names]
    apply Token.scan_layout
    rw [List.forall_mem_map]
    exact h

theorem wellFormed_of_ofChars {cs : List Char} {s : Scope} (h : ofChars cs = .ok s) :
    ∀ n ∈ s.names, n.WellFormed := by
  intro n hn
  have hmem : .name n ∈ Token.scan cs := by
    rw [ofChars_eq_ok_iff.1 h]
    exact List.mem_map_of_mem hn
  exact Token.wellFormed_of_name_mem_scan hmem

theorem ofChars_chars {s : Scope} (h : ∀ n ∈ s.names, n.WellFormed) : ofChars s.chars = .ok s :=
  ofChars_eq_ok_iff.2 (scan_chars h)

/-- A scope that was read is read again from its own text. -/
theorem parse_text_eq_ok {text : String} {s : Scope} (h : parse text = .ok s) :
    parse s.text = .ok s := by
  have hnames := wellFormed_of_ofChars (mapError_eq_ok_iff.1 h)
  rw [parse, mapError_eq_ok_iff, Scope.text, String.toList_ofList]
  exact ofChars_chars hnames

/-- Names and scopes are their text. A name is read from its own text only, and that it is means
that all its components are such as can be read; a scope is read from its own text if all this holds
of its names, none of which may be empty. -/
theorem parse_inverts_text (text : String) (n : Name) (s : Scope) :
    (Name.parse text = .ok n → n.text = text) ∧
      (Name.parse n.text = .ok n ↔ ∀ k ∈ n.components, Component k.toList) ∧
      (parse s.text = .ok s ↔ ∀ n ∈ s.names, n.WellFormed) := by
  refine ⟨fun h => (Name.parse_eq_ok_iff.1 h).1, ?_, ?_⟩
  · rw [Name.parse_eq_ok_iff]
    exact and_iff_right rfl
  · rw [parse, mapError_eq_ok_iff, Scope.text, String.toList_ofList]
    exact ⟨wellFormed_of_ofChars, ofChars_chars⟩

theorem exists_parse_inverts_text :
    ∃ n, Name.parse "*.L.a--.0_" = .ok n ∧ n.text = "*.L.a--.0_" := by
  have h : Name.parse "*.L.a--.0_" = .ok ⟨["*", "L", "a--", "0_"]⟩ := by rfl
  exact ⟨_, h, (parse_inverts_text _ _ ⟨[]⟩).1 h⟩

end Scope

end Highlight
