import Highlight.Command.Diff
import Mathlib.Data.List.Forall2

/-!
# Reading a printed diff

A line of a diff is printed between escape sequences as two gutters, a bar, a sign and a text. There
is nothing in the gutters but blanks and digits, flush right, so all of this can be told from the
characters alone, however wide the gutters are: no string can be read as two different lines.
-/

namespace Highlight.Command

open Text (Ink)

/-- What a line of a diff says, with the numbers that stand in its gutters. -/
@[ext]
structure PrintedLine where
  left : Option Nat
  right : Option Nat
  sign : Char
  text : List Char
deriving DecidableEq

namespace PrintedLine

variable {m m' n n' : Option Nat} {c : Char}
  {gutter left left' right right' xs xs' ys ys' : List Char}

/-- The digits of a number, where there is one. -/
def figures (n : Option Nat) : List Char := n.elim [] (Nat.toDigits 10)

/-- The gutter has room for the number and blanks in front of it, or blanks only. -/
def Fills (n : Option Nat) (gutter : List Char) : Prop :=
  ∃ blanks, gutter = List.replicate blanks ' ' ++ figures n

/-- The string is this line, in some color. -/
def ShownAs (l : PrintedLine) (string : String) : Prop :=
  ∃ (color : Nat) (left right : List Char), Fills l.left left ∧ Fills l.right right ∧
    string = "\x1b[" ++ toString color ++ "m" ++
      String.ofList (left ++ ' ' :: right ++ ' ' :: '|' :: l.sign :: l.text) ++ "\x1b[0m"

/-- The strings can be read as these lines, and as no others. -/
def ReadAs (strings : List String) (lines : List PrintedLine) : Prop :=
  ∀ lines', List.Forall₂ ShownAs lines' strings ↔ lines' = lines

theorem isDigit_of_mem_figures (h : c ∈ figures n) : c.isDigit = true := by
  cases n with
  | none => cases h
  | some n => exact Nat.isDigit_of_mem_toDigits (by decide) (by decide) h

/-- A number is told by its digits, and no number by their absence. -/
theorem figures_inj : figures n = figures n' ↔ n = n' := by
  constructor
  · intro h
    have hne (k : Nat) : Nat.toDigits 10 k ≠ [] := List.ne_nil_of_length_pos Nat.length_toDigits_pos
    cases n with
    | none =>
        cases n' with
        | none => rfl
        | some k => exact absurd h.symm (hne k)
    | some k =>
        cases n' with
        | none => exact absurd h (hne k)
        | some k' =>
            have hread := congrArg (Nat.ofDigitChars 10 · 0) h
            simp only [figures, Option.elim_some, Nat.ofDigitChars_ten_toDigits] at hread
            rw [hread]
  · rintro rfl
    rfl

/-- Only blanks and digits stand in a gutter. -/
theorem Fills.eq_space_or_isDigit (h : Fills n gutter) (hc : c ∈ gutter) :
    c = ' ' ∨ c.isDigit = true := by
  obtain ⟨blanks, rfl⟩ := h
  rcases List.mem_append.1 hc with hc | hc
  · exact .inl (List.eq_of_mem_replicate hc)
  · exact .inr (isDigit_of_mem_figures hc)

theorem Fills.bar_notMem (h : Fills n gutter) : '|' ∉ gutter := by
  intro hbar
  rcases h.eq_space_or_isDigit hbar with hbar | hbar
  · exact absurd hbar (by decide)
  · exact absurd hbar (by decide)

/-- Both sides break at the first `c`. -/
theorem append_cons_inj_left (h : c ∉ xs) (h' : c ∉ xs') (heq : xs ++ c :: ys = xs' ++ c :: ys') :
    xs = xs' ∧ ys = ys' := by
  rcases List.append_eq_append_iff.1 heq with ⟨_ | ⟨d, ds⟩, rfl, hrest⟩ | ⟨_ | ⟨d, ds⟩, rfl, hrest⟩
  · exact ⟨(List.append_nil xs).symm, (List.cons.inj hrest).2⟩
  · rw [← (List.cons.inj hrest).1] at h'
    exact absurd (List.mem_append_right xs List.mem_cons_self) h'
  · exact ⟨List.append_nil xs', (List.cons.inj hrest).2.symm⟩
  · rw [← (List.cons.inj hrest).1] at h
    exact absurd (List.mem_append_right xs' List.mem_cons_self) h

/-- What is left of a gutter without its blanks. -/
theorem Fills.filter_isDigit (h : Fills n gutter) : gutter.filter Char.isDigit = figures n := by
  obtain ⟨blanks, rfl⟩ := h
  have hblanks : (List.replicate blanks ' ').filter Char.isDigit = [] :=
    List.filter_replicate_of_neg (by decide)
  have hfigures : (figures n).filter Char.isDigit = figures n :=
    List.filter_eq_self.2 fun _ hc => isDigit_of_mem_figures hc
  rw [List.filter_append, hblanks, hfigures, List.nil_append]

/-- Read from its end, a gutter goes on with figures up to the first blank. -/
theorem Fills.takeWhile_reverse (h : Fills n gutter) :
    (xs ++ ' ' :: gutter).reverse.takeWhile Char.isDigit = (figures n).reverse := by
  obtain ⟨blanks, rfl⟩ := h
  have hreverse : (xs ++ ' ' :: (List.replicate blanks ' ' ++ figures n)).reverse =
      (figures n).reverse ++ (List.replicate (blanks + 1) ' ' ++ xs.reverse) := by
    simp [List.replicate_succ']
  rw [hreverse, List.takeWhile_append_of_pos
    fun c hc => isDigit_of_mem_figures (List.mem_reverse.1 hc), List.replicate_succ,
    List.cons_append, List.takeWhile_cons_of_neg (by decide), List.append_nil]

/-- The gutters need not be of a known width, as there is a blank between them. -/
theorem gutters_inj (hleft : Fills m left) (hright : Fills n right) (hleft' : Fills m' left')
    (hright' : Fills n' right') (heq : left ++ ' ' :: right = left' ++ ' ' :: right') :
    m = m' ∧ n = n' := by
  have hn : n = n' := by
    rw [← figures_inj, ← List.reverse_inj, ← hright.takeWhile_reverse, heq,
      hright'.takeWhile_reverse]
  have hdigits : figures m ++ figures n = figures m' ++ figures n' := by
    have hfilter := congrArg (List.filter Char.isDigit) heq
    rwa [List.filter_append, List.filter_append, List.filter_cons_of_neg (by decide),
      List.filter_cons_of_neg (by decide), hleft.filter_isDigit, hright.filter_isDigit,
      hleft'.filter_isDigit, hright'.filter_isDigit] at hfilter
  rw [hn] at hdigits
  exact ⟨figures_inj.1 (List.append_cancel_right hdigits), hn⟩

/-- What is painted is told from what it is painted with. -/
theorem painted_inj {color color' : Nat}
    (heq : "\x1b[" ++ toString color ++ "m" ++ String.ofList xs ++ "\x1b[0m" =
      "\x1b[" ++ toString color' ++ "m" ++ String.ofList xs' ++ "\x1b[0m") : xs = xs' := by
  have hchars (k : Nat) (zs : List Char) :
      ("\x1b[" ++ toString k ++ "m" ++ String.ofList zs ++ "\x1b[0m").toList =
        "\x1b[".toList ++ (Nat.toDigits 10 k ++ 'm' :: (zs ++ "\x1b[0m".toList)) := by
    simp [Nat.toList_repr]
  have hcode (k : Nat) : 'm' ∉ Nat.toDigits 10 k := by
    intro hm
    exact absurd (Nat.isDigit_of_mem_toDigits (by decide) (by decide) hm) (by decide)
  rw [← String.toList_inj, hchars, hchars] at heq
  have hbehind := (append_cons_inj_left (hcode color) (hcode color')
    (List.append_cancel_left heq)).2
  exact List.append_cancel_right hbehind

/-- A string shows one line at most. -/
theorem leftUnique_shownAs : Relator.LeftUnique ShownAs := by
  rintro l l' string ⟨color, left, right, hleft, hright, rfl⟩
    ⟨color', left', right', hleft', hright', heq⟩
  have hline := painted_inj heq
  have hbar {i j : Option Nat} {zs zs' : List Char} (hzs : Fills i zs) (hzs' : Fills j zs') :
      '|' ∉ zs ++ ' ' :: zs' ++ [' '] := by
    simp [hzs.bar_notMem, hzs'.bar_notMem]
  rw [List.append_cons _ ' ' ('|' :: _), List.append_cons _ ' ' ('|' :: _)] at hline
  obtain ⟨hgutters, hbehind⟩ :=
    append_cons_inj_left (hbar hleft hright) (hbar hleft' hright') hline
  obtain ⟨hm, hn⟩ := gutters_inj hleft hright hleft' hright' (List.append_cancel_right hgutters)
  obtain ⟨hsign, htext⟩ := List.cons.inj hbehind
  exact PrintedLine.ext hm hn hsign htext

theorem readAs_of_forall₂ {strings : List String} {lines : List PrintedLine}
    (h : List.Forall₂ ShownAs lines strings) : ReadAs strings lines := by
  intro lines'
  constructor
  · exact fun h' => List.left_unique_forall₂' leftUnique_shownAs h' h
  · rintro rfl
    exact h

end PrintedLine

namespace DiffLine

open PrintedLine (figures Fills)

def sign (l : DiffLine) : Char := (content l.edit).1

def line (l : DiffLine) : List Char := (content l.edit).2

/-- A line of the diff of two texts, with the numbers in its gutters and painted. -/
def printed (old new : List Char) (l : DiffLine) : String :=
  (ink l.edit).paint (String.ofList (l.chars (gutterWidth old) (gutterWidth new)))

theorem chars_eq (l : DiffLine) (oldWidth newWidth : Nat) :
    l.chars oldWidth newWidth =
      gutter oldWidth l.oldNumber ++ ' ' :: gutter newWidth l.newNumber ++
        ' ' :: '|' :: l.sign :: withoutNewline l.line := rfl

theorem fills_gutter (width : Nat) (n : Option Nat) : Fills n (gutter width n) := by
  refine ⟨width - (figures n).length, ?_⟩
  cases n with
  | none => rfl
  | some n => rfl

/-- What a line is read as when it is printed. -/
def toPrinted (l : DiffLine) : PrintedLine :=
  ⟨l.oldNumber, l.newNumber, l.sign, withoutNewline l.line⟩

theorem shownAs_printed (old new : List Char) (l : DiffLine) :
    l.toPrinted.ShownAs (l.printed old new) := by
  have hcode : ∃ color : Nat, (ink l.edit).code = toString color := by
    cases l.edit with
    | keep line => exact ⟨2, rfl⟩
    | delete line => exact ⟨31, rfl⟩
    | insert line => exact ⟨32, rfl⟩
  obtain ⟨color, hcolor⟩ := hcode
  refine ⟨color, _, _, fills_gutter (gutterWidth old) l.oldNumber,
    fills_gutter (gutterWidth new) l.newNumber, ?_⟩
  rw [printed, Ink.paint, hcolor, chars_eq]
  rfl

theorem readAs_printed (old new : List Char) (shown : List DiffLine) :
    PrintedLine.ReadAs (shown.map (printed old new)) (shown.map toPrinted) := by
  apply PrintedLine.readAs_of_forall₂
  rw [List.forall₂_map_left_iff, List.forall₂_map_right_iff, List.forall₂_same]
  exact fun l _ => l.shownAs_printed old new

end DiffLine

end Highlight.Command
