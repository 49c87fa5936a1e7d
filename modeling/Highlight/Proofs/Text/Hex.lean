import Highlight.Text.Hex
import Mathlib.Algebra.Group.Nat.Defs
import Mathlib.Data.List.Induction

/-!
# Pairs of hexadecimal digits

Two digits stand for a byte. So digits that come in pairs are bytes, and the bytes determine the
digits up to their case.
-/

namespace Highlight.Text

/-- The characters that are hexadecimal digits. -/
def hexDigits : List Char :=
  ['0', '1', '2', '3', '4', '5', '6', '7', '8', '9', 'a', 'b', 'c', 'd', 'e', 'f',
    'A', 'B', 'C', 'D', 'E', 'F']

theorem isHexDigit_eq_true_iff {c : Char} : isHexDigit c = true ↔ c ∈ hexDigits := by
  constructor
  · intro h
    have hascii : c.toNat < 128 := by
      simp only [isHexDigit, hexValue?, Char.le_def, UInt32.le_iff_toNat_le] at h
      change c.val.toNat < 128
      split at h
      · next hc => exact Nat.lt_of_le_of_lt hc.2 (by decide)
      · split at h
        · next hc => exact Nat.lt_of_le_of_lt hc.2 (by decide)
        · split at h
          · next hc => exact Nat.lt_of_le_of_lt hc.2 (by decide)
          · cases h
    have hall : ∀ n < 128, isHexDigit (Char.ofNat n) = true → Char.ofNat n ∈ hexDigits := by
      decide
    have hc := hall c.toNat hascii
    rw [Char.ofNat_toNat] at hc
    exact hc h
  · have hall : hexDigits.all isHexDigit = true := by decide
    exact List.all_eq_true.1 hall c

/-- A digit has a value, of which it is the digit but for its case. -/
theorem exists_hexValue? {c : Char} (h : c ∈ hexDigits) :
    ∃ n < 16, hexValue? c = some n ∧ Nat.digitChar n = c.toLower := by
  have hall : (hexDigits.all fun c => (hexValue? c).any fun n =>
      decide (n < 16) && Nat.digitChar n == c.toLower) = true := by decide
  obtain ⟨n, hvalue, hn⟩ := Option.any_eq_true _ _ |>.1 (List.all_eq_true.1 hall c h)
  rw [Bool.and_eq_true, decide_eq_true_eq, beq_iff_eq] at hn
  exact ⟨n, hn.1, hvalue, hn.2⟩

theorem hexValue?_digitChar {n : Nat} (h : n < 16) : hexValue? (Nat.digitChar n) = some n := by
  have hall : ∀ n < 16, hexValue? (Nat.digitChar n) = some n := by decide
  exact hall n h

theorem digitChar_mem_hexDigits {n : Nat} (h : n < 16) : Nat.digitChar n ∈ hexDigits := by
  have hall : ∀ n < 16, Nat.digitChar n ∈ hexDigits := by decide
  exact hall n h

theorem mem_hexDigits_of_mem_hexByte {b : UInt8} {c : Char} (h : c ∈ hexByte b) :
    c ∈ hexDigits := by
  have hb := b.toNat_lt
  simp only [hexByte, List.mem_cons, List.not_mem_nil, or_false] at h
  rcases h with rfl | rfl
  · exact digitChar_mem_hexDigits (by omega)
  · exact digitChar_mem_hexDigits (Nat.mod_lt _ (by decide))

theorem length_flatMap_hexByte (bs : List UInt8) : (bs.flatMap hexByte).length = 2 * bs.length := by
  induction bs with
  | nil => rfl
  | cons b bs ih =>
      rw [List.flatMap_cons, List.length_append, ih, List.length_cons]
      change 2 + _ = _
      omega

/-- The byte that two digits stand for. -/
def hexPair (c d : Char) : UInt8 :=
  UInt8.ofNat (16 * (hexValue? c).getD 0 + (hexValue? d).getD 0)

/-- The bytes that consecutive pairs of digits stand for. -/
def hexBytes : List Char → List UInt8
  | [] => []
  | [_] => []
  | c :: d :: cs => hexPair c d :: hexBytes cs

theorem hexPair_digitChar (b : UInt8) :
    hexPair (Nat.digitChar (b.toNat / 16)) (Nat.digitChar (b.toNat % 16)) = b := by
  have hhigh : b.toNat / 16 < 16 := by
    have := b.toNat_lt
    omega
  have hlow : b.toNat % 16 < 16 := Nat.mod_lt _ (by decide)
  rw [hexPair, hexValue?_digitChar hhigh, hexValue?_digitChar hlow, Option.getD_some,
    Option.getD_some, Nat.div_add_mod, UInt8.ofNat_toNat]

/-- What is written as digits is there again in pairs. -/
theorem hexBytes_flatMap_hexByte (bs : List UInt8) : hexBytes (bs.flatMap hexByte) = bs := by
  induction bs with
  | nil => rfl
  | cons b bs ih =>
      rw [List.flatMap_cons]
      change hexPair _ _ :: hexBytes (bs.flatMap hexByte) = b :: bs
      rw [hexPair_digitChar, ih]

/-- The value of a pair is that of its two digits, of which each counts less than sixteen. -/
theorem exists_hexPair {c d : Char} (hc : c ∈ hexDigits) (hd : d ∈ hexDigits) :
    ∃ m < 16, ∃ n < 16, hexValue? c = some m ∧ hexValue? d = some n ∧
      Nat.digitChar m = c.toLower ∧ Nat.digitChar n = d.toLower ∧
        (hexPair c d).toNat = 16 * m + n := by
  obtain ⟨m, hm, hcm, hclower⟩ := exists_hexValue? hc
  obtain ⟨n, hn, hdn, hdlower⟩ := exists_hexValue? hd
  refine ⟨m, hm, n, hn, hcm, hdn, hclower, hdlower, ?_⟩
  rw [hexPair, hcm, hdn, Option.getD_some, Option.getD_some, UInt8.toNat_ofNat']
  exact Nat.mod_eq_of_lt (by omega)

/-- A pair is written as its two digits, in lower case. -/
theorem hexByte_hexPair {c d : Char} (hc : c ∈ hexDigits) (hd : d ∈ hexDigits) :
    hexByte (hexPair c d) = [c.toLower, d.toLower] := by
  obtain ⟨m, hm, n, hn, -, -, hclower, hdlower, hpair⟩ := exists_hexPair hc hd
  have hhigh : (16 * m + n) / 16 = m := by omega
  have hlow : (16 * m + n) % 16 = n := by omega
  rw [hexByte, hpair, hhigh, hlow, hclower, hdlower]

/-- Digits that come in pairs. -/
structure Paired (cs : List Char) : Prop where
  digits : ∀ c ∈ cs, c ∈ hexDigits
  even : cs.length % 2 = 0

theorem Paired.of_cons {c d : Char} {cs : List Char} (h : Paired (c :: d :: cs)) :
    c ∈ hexDigits ∧ d ∈ hexDigits ∧ Paired cs := by
  obtain ⟨hdigits, heven⟩ := h
  simp only [List.forall_mem_cons] at hdigits
  rw [List.length_cons, List.length_cons] at heven
  exact ⟨hdigits.1, hdigits.2.1, hdigits.2.2, by omega⟩

theorem not_paired_singleton (c : Char) : ¬ Paired [c] := fun h => by cases h.even

/-- Digits are written again in lower case. -/
theorem Paired.flatMap_hexByte {cs : List Char} (h : Paired cs) :
    (hexBytes cs).flatMap hexByte = cs.map Char.toLower := by
  induction cs using hexBytes.induct with
  | case1 => rfl
  | case2 c => exact absurd h (not_paired_singleton c)
  | case3 c d cs ih =>
      obtain ⟨hc, hd, hcs⟩ := h.of_cons
      rw [hexBytes, List.flatMap_cons, hexByte_hexPair hc hd, ih hcs]
      rfl

/-- The number that bytes stand for, the most significant byte first. -/
def byteNumber (bs : List UInt8) : Nat :=
  bs.foldl (fun n b => 256 * n + b.toNat) 0

theorem byteNumber_append_singleton (bs : List UInt8) (b : UInt8) :
    byteNumber (bs ++ [b]) = 256 * byteNumber bs + b.toNat := by
  simp [byteNumber]

theorem Paired.foldl_hexBytes {cs : List Char} (h : Paired cs) (n : Nat) :
    (hexBytes cs).foldl (fun n b => 256 * n + b.toNat) n =
      cs.foldl (fun n c => 16 * n + (hexValue? c).getD 0) n := by
  induction cs using hexBytes.induct generalizing n with
  | case1 => rfl
  | case2 c => exact absurd h (not_paired_singleton c)
  | case3 c d cs ih =>
      obtain ⟨hc, hd, hcs⟩ := h.of_cons
      obtain ⟨k, hk, l, hl, hck, hdl, -, -, hpair⟩ := exists_hexPair hc hd
      have hnumber : 256 * n + (16 * k + l) = 16 * (16 * n + k) + l := by omega
      rw [hexBytes, List.foldl_cons, ih hcs, List.foldl_cons, List.foldl_cons, hpair, hck, hdl,
        Option.getD_some, Option.getD_some, hnumber]

/-- The digits and the bytes that they pair up to are the same number. -/
theorem Paired.byteNumber_hexBytes {cs : List Char} (h : Paired cs) :
    byteNumber (hexBytes cs) = hexNumber cs :=
  h.foldl_hexBytes 0

theorem length_hexBytes (cs : List Char) : (hexBytes cs).length = cs.length / 2 := by
  induction cs using hexBytes.induct with
  | case1 => rfl
  | case2 c => simp [hexBytes]
  | case3 c d cs ih =>
      rw [hexBytes, List.length_cons, ih, List.length_cons, List.length_cons]
      omega

theorem getD_hexValue?_lt (c : Char) : (hexValue? c).getD 0 < 16 := by
  by_cases hc : c ∈ hexDigits
  · obtain ⟨n, hn, hvalue, -⟩ := exists_hexValue? hc
    rwa [hvalue]
  · rw [← isHexDigit_eq_true_iff, isHexDigit, Option.not_isSome_iff_eq_none] at hc
    rw [hc]
    exact Nat.zero_lt_succ 15

theorem hexNumber_lt (cs : List Char) : hexNumber cs < 16 ^ cs.length := by
  induction cs using List.reverseRecOn with
  | nil => exact Nat.one_pos
  | append_singleton cs c ih =>
      have hc := getD_hexValue?_lt c
      rw [hexNumber_append_singleton, List.length_append, List.length_singleton, Nat.pow_succ]
      omega

/-- Up to eight digits always fit into a word. -/
theorem exists_hexWord? {cs : List Char} (h : cs.length ≤ 8) :
    ∃ w, hexWord? cs = some w ∧ w.toNat = hexNumber cs := by
  have hlt : hexNumber cs < UInt32.size :=
    Nat.lt_of_lt_of_le (hexNumber_lt cs) (Nat.pow_le_pow_right (by decide) h)
  exact ⟨UInt32.ofNat (hexNumber cs), if_pos hlt, UInt32.toNat_ofNat_of_lt' hlt⟩

end Highlight.Text
