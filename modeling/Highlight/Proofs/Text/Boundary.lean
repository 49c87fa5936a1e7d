import Highlight.Text.Bytes

/-!
# Slices of a text

A text can be cut at a byte offset just if the offset falls between two of its characters, or is one
of its ends. The readers never see offsets: a place in a text is given by what is left of the text
there. `IsPlace` is the other way to say the same, by the offset and the slice that starts at it.
-/

namespace Highlight.Text

theorem takeBytes?_zero (cs : List Char) : takeBytes? cs 0 = some [] := by
  cases cs with
  | nil => rfl
  | cons c cs => rfl

/-- The first character of a text is taken whole. -/
theorem takeBytes?_cons_add (c : Char) (cs : List Char) (n : Nat) :
    takeBytes? (c :: cs) (c.utf8Size + n) = (takeBytes? cs n).map (c :: ·) := by
  obtain ⟨m, hm⟩ := Nat.exists_eq_succ_of_ne_zero (Nat.ne_of_gt (Nat.add_pos_left c.utf8Size_pos n))
  rw [hm, takeBytes?, if_pos (by omega), ← Nat.succ_eq_add_one, ← hm, Nat.add_sub_cancel_left]

theorem takeBytes?_byteLength (before rest : List Char) :
    takeBytes? (before ++ rest) (byteLength before) = some before := by
  induction before with
  | nil => exact takeBytes?_zero rest
  | cons c before ih =>
      rw [List.cons_append, byteLength_cons, takeBytes?_cons_add, ih, Option.map_some]

theorem exists_append_of_takeBytes? {cs before : List Char} {n : Nat}
    (h : takeBytes? cs n = some before) : ∃ rest, cs = before ++ rest ∧ n = byteLength before := by
  induction cs generalizing n before with
  | nil =>
      cases n with
      | zero =>
          obtain rfl := Option.some.inj h
          exact ⟨[], rfl, rfl⟩
      | succ n => cases h
  | cons c cs ih =>
      cases n with
      | zero =>
          obtain rfl := Option.some.inj h
          exact ⟨c :: cs, rfl, rfl⟩
      | succ n =>
          rw [takeBytes?] at h
          split at h
          · next hsize =>
              obtain ⟨front, hfront, rfl⟩ := Option.map_eq_some_iff.1 h
              obtain ⟨rest, rfl, hlength⟩ := ih hfront
              refine ⟨rest, rfl, ?_⟩
              rw [byteLength_cons, ← hlength, Nat.add_sub_cancel' hsize]
          · cases h

/-- The text from a byte offset on, which exists only where the offset falls between two
characters. -/
def dropBytes? (cs : List Char) (n : Nat) : Option (List Char) :=
  (takeBytes? cs n).map fun before => cs.drop before.length

theorem dropBytes?_eq_some_iff {cs rest : List Char} {n : Nat} :
    dropBytes? cs n = some rest ↔ ∃ before, cs = before ++ rest ∧ n = byteLength before := by
  constructor
  · intro h
    obtain ⟨before, hbefore, rfl⟩ := Option.map_eq_some_iff.1 h
    obtain ⟨rest, rfl, hn⟩ := exists_append_of_takeBytes? hbefore
    exact ⟨before, by rw [List.drop_left], hn⟩
  · rintro ⟨before, rfl, rfl⟩
    rw [dropBytes?, takeBytes?_byteLength, Option.map_some, List.drop_left]

/-- There is a place in the text where `rest` is left of it: its offset is not past the end, and the
slice from there on exists and is `rest`. -/
def IsPlace (cs rest : List Char) : Prop :=
  ∃ n ≤ byteLength cs, dropBytes? cs n = some rest

theorem isPlace_of_suffix {cs rest : List Char} (h : rest <:+ cs) : IsPlace cs rest := by
  rcases h with ⟨before, rfl⟩
  refine ⟨byteLength before, ?_, dropBytes?_eq_some_iff.2 ⟨before, rfl, rfl⟩⟩
  rw [byteLength_append]
  exact Nat.le_add_right _ _

end Highlight.Text
