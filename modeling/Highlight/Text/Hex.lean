/-!
# Hexadecimal digits

Digits are read in either case and written in lower case, as `Nat.digitChar` gives them.
-/

namespace Highlight.Text

/-- The value of an ASCII hexadecimal digit. -/
def hexValue? (c : Char) : Option Nat :=
  if '0' ≤ c ∧ c ≤ '9' then some (c.toNat - '0'.toNat)
  else if 'a' ≤ c ∧ c ≤ 'f' then some (c.toNat - 'a'.toNat + 10)
  else if 'A' ≤ c ∧ c ≤ 'F' then some (c.toNat - 'A'.toNat + 10)
  else none

def isHexDigit (c : Char) : Bool := (hexValue? c).isSome

/-- The number that digits stand for, the most significant digit first. -/
def hexNumber (cs : List Char) : Nat :=
  cs.foldl (fun n c => 16 * n + (hexValue? c).getD 0) 0

theorem hexNumber_nil : hexNumber [] = 0 := rfl

theorem hexNumber_append_singleton (cs : List Char) (c : Char) :
    hexNumber (cs ++ [c]) = 16 * hexNumber cs + (hexValue? c).getD 0 := by
  simp [hexNumber]

/-- The word that digits stand for, unless the number is too large for one. -/
def hexWord? (cs : List Char) : Option UInt32 :=
  if hexNumber cs < UInt32.size then some (UInt32.ofNat (hexNumber cs)) else none

/-- A byte as two digits. -/
def hexByte (b : UInt8) : List Char :=
  [Nat.digitChar (b.toNat / 16), Nat.digitChar (b.toNat % 16)]

end Highlight.Text
