import Highlight.Proofs.Name.WellFormed

/-!
# Texts that are no names

A text that is to be one name and nothing else can fail in three ways: it does not start with a
name, something is behind its name, or behind one of its dots there is no component. `Rejected`
lists them with the place where reading halts.
-/

namespace Highlight.Name

inductive Rejected : List Char → Halt → Prop
  | unstarted {cs : List Char} (hne : cs ≠ []) (hcs : BreaksBefore cs) :
      Rejected cs ⟨cs, .expecting .component⟩
  | prolonged {n : Name} {rest : List Char} (hn : n.WellFormed) (hne : rest ≠ [])
      (hrest : EndsBefore rest) : Rejected (n.chars ++ rest) ⟨rest, .expecting .endOfName⟩
  | broken {n : Name} {turn : List Char} (hn : n.WellFormed) (hturn : BreaksBefore turn) :
      Rejected (n.chars ++ '.' :: turn) ⟨turn, .expecting .component⟩

/-- Where no component starts, reading halts at once. -/
theorem BreaksBefore.read_eq {cs : List Char} (h : BreaksBefore cs) :
    read cs = .error ⟨cs, .expecting .component⟩ := by
  obtain ⟨p, ps, hps, hp⟩ := h.exists_pieces
  rw [read, hps]
  simp [hp]

/-- There is no other way. -/
theorem rejected_of_ofChars {cs : List Char} {halt : Halt} (h : ofChars cs = .error halt) :
    Rejected cs halt := by
  cases cs with
  | nil => cases h
  | cons c cs =>
      rw [ofChars, List.isEmpty_cons] at h
      cases hc : isComponentStart c with
      | false =>
          have hbreaks := breaksBefore_cons hc cs
          rw [hbreaks.read_eq] at h
          rw [← Except.error.inj h]
          exact .unstarted (List.cons_ne_nil c cs) hbreaks
      | true =>
          rcases exists_wellFormed hc cs with ⟨n, rest, hcs, hn, hrest⟩ | ⟨n, turn, hcs, hn, hturn⟩
          · rw [hcs, read_append hn hrest] at h
            rw [hcs]
            cases rest with
            | nil => cases h
            | cons d rest =>
                rw [← Except.error.inj h]
                exact .prolonged hn (List.cons_ne_nil d rest) hrest
          · rw [hcs, read_append_dot hn hturn] at h
            rw [hcs, ← Except.error.inj h]
            exact .broken hn hturn

theorem Rejected.exists_append {cs : List Char} {halt : Halt} (h : Rejected cs halt) :
    ∃ front, cs = front ++ halt.unread := by
  cases h with
  | unstarted hne hcs => exact ⟨[], rfl⟩
  | prolonged hn hne hrest => exact ⟨_, rfl⟩
  | @broken n turn hn hturn => exact ⟨n.chars ++ ['.'], by simp⟩

end Highlight.Name
