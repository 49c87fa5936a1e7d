import Highlight.Color
import Highlight.Proofs.Text.Hex

/-!
# Colors and their digits

A color is read from pairs of digits and written in pairs of digits, one pair for each channel. So
what is read is written as it was, but in lower case and without an alpha channel that is full.
-/

namespace Highlight.Color

/-- The bytes of the channels, in the order in which they are written. -/
def channels (c : Color) : List UInt8 := [c.red, c.green, c.blue, c.alpha]

theorem channels_inj {c d : Color} (h : c.channels = d.channels) : c = d := by
  rcases c with ⟨r, g, b, a⟩
  rcases d with ⟨r', g', b', a'⟩
  simp only [channels, List.cons.injEq] at h
  obtain ⟨rfl, rfl, rfl, rfl, -⟩ := h
  rfl

theorem exists_channels {bs : List UInt8} (h : bs.length = 4) : ∃ c : Color, c.channels = bs := by
  match bs, h with
  | [r, g, b, a], _ => exact ⟨⟨r, g, b, a⟩, rfl⟩

/-- A word is the color of its bytes. -/
theorem ofWord_eq_of_byteNumber {w : UInt32} {c : Color}
    (h : Text.byteNumber c.channels = w.toNat) : ofWord w = c := by
  rcases c with ⟨r, g, b, a⟩
  have hr := r.toNat_lt
  have hg := g.toNat_lt
  have hb := b.toNat_lt
  have ha := a.toNat_lt
  simp only [Text.byteNumber, channels, List.foldl_cons, List.foldl_nil] at h
  simp only [ofWord, Color.mk.injEq, ← UInt8.toNat_inj, UInt32.toNat_toUInt8,
    UInt32.toNat_shiftRight, Nat.shiftRight_eq_div_pow, ← h, UInt32.reduceToNat, Nat.reduceMod,
    Nat.reducePow]
  refine ⟨?_, ?_, ?_, ?_⟩ <;> omega

/-- There is room for a full alpha channel behind the six digits of the others. -/
theorem toNat_shiftLeft {w : UInt32} (h : w.toNat < 16 ^ 6) :
    (w <<< 8).toNat = w.toNat * 2 ^ 8 := by
  rw [UInt32.toNat_shiftLeft, Nat.shiftLeft_eq]
  simp only [UInt32.reduceToNat, Nat.reduceMod]
  omega

theorem toNat_shiftLeft_or {w : UInt32} (h : w.toNat < 16 ^ 6) :
    (w <<< 8 ||| 0xff).toNat = 256 * w.toNat + 255 := by
  have hor := Nat.shiftLeft_add_eq_or_of_lt (show 255 < 2 ^ 8 by decide) w.toNat
  rw [Nat.shiftLeft_eq] at hor
  rw [UInt32.toNat_or, toNat_shiftLeft h, Nat.mul_comm 256]
  exact hor.symm

/-- There are digits, and nothing but digits. -/
def Hexadecimal (ds : List Char) : Prop := ds ≠ [] ∧ ∀ c ∈ ds, c ∈ Text.hexDigits

theorem hexadecimal_iff {ds : List Char} :
    Hexadecimal ds ↔ ¬ (ds.isEmpty || !ds.all Text.isHexDigit) = true := by
  simp [Hexadecimal, Text.isHexDigit_eq_true_iff]

instance (ds : List Char) : Decidable (Hexadecimal ds) :=
  decidable_of_iff _ hexadecimal_iff.symm

/-- The bytes of digits, with a full alpha channel behind six of them. -/
def channelBytes (ds : List Char) : List UInt8 :=
  Text.hexBytes ds ++ if ds.length = 6 then [255] else []

theorem length_channelBytes {ds : List Char} (h : ds.length = 6 ∨ ds.length = 8) :
    (channelBytes ds).length = 4 := by
  rw [channelBytes, List.length_append, Text.length_hexBytes]
  rcases h with hsix | hlong
  · simp [hsix]
  · simp [hlong]

/-- The word of six or eight digits exists, has room for the alpha channel that six digits lack, and
is the color of the bytes. -/
theorem exists_ofWord_eq {ds : List Char} (h : Text.Paired ds)
    (hlength : ds.length = 6 ∨ ds.length = 8) :
    ∃ c w, c.channels = channelBytes ds ∧ Text.hexWord? ds = some w ∧
      w.toNat = Text.hexNumber ds ∧ (ds.length = 6 → (w <<< 8).toNat = w.toNat * 2 ^ 8) ∧
        ofWord (if ds.length = 6 then w <<< 8 ||| 0xff else w) = c := by
  obtain ⟨c, hc⟩ := exists_channels (length_channelBytes hlength)
  have hfits : ds.length ≤ 8 := by omega
  obtain ⟨w, hw, hnumber⟩ := Text.exists_hexWord? hfits
  have hlt := Text.hexNumber_lt ds
  rw [← hnumber] at hlt
  have hbytes := h.byteNumber_hexBytes
  refine ⟨c, w, hc, hw, hnumber, ?_, ?_⟩
  · intro hsix
    rw [hsix] at hlt
    exact toNat_shiftLeft hlt
  · apply ofWord_eq_of_byteNumber
    rw [hc, channelBytes]
    rcases hlength with hsix | hlong
    · rw [hsix] at hlt
      rw [if_pos hsix, if_pos hsix, toNat_shiftLeft_or hlt, Text.byteNumber_append_singleton,
        hbytes, hnumber]
      rfl
    · have hsix : ds.length ≠ 6 := by omega
      rw [if_neg hsix, if_neg hsix, List.append_nil, hbytes, hnumber]

section Parse

variable {text : String}

theorem parse_of_not_hexadecimal (h : ¬ Hexadecimal (digits text.toList)) :
    parse text = .error (.notHex text) := by
  rw [hexadecimal_iff, not_not] at h
  exact if_pos h

theorem parse_of_length (h : Hexadecimal (digits text.toList))
    (hlength : (digits text.toList).length ≠ 6 ∧ (digits text.toList).length ≠ 8) :
    parse text = .error (.length text (digits text.toList).length) :=
  (if_neg (hexadecimal_iff.1 h)).trans (if_pos hlength)

theorem exists_parse_eq_ok (h : Hexadecimal (digits text.toList))
    (hlength : (digits text.toList).length = 6 ∨ (digits text.toList).length = 8) :
    ∃ c w, parse text = .ok c ∧ c.channels = channelBytes (digits text.toList) ∧
      Text.hexWord? (digits text.toList) = some w ∧
        w.toNat = Text.hexNumber (digits text.toList) ∧
          ((digits text.toList).length = 6 → (w <<< 8).toNat = w.toNat * 2 ^ 8) := by
  obtain ⟨c, w, hc, hw, hnumber, hshift, hword⟩ := exists_ofWord_eq ⟨h.2, by omega⟩ hlength
  refine ⟨c, w, ?_, hc, hw, hnumber, hshift⟩
  rw [parse, if_neg (hexadecimal_iff.1 h), if_neg (by omega), hw]
  exact congrArg Except.ok hword

/-- A text is no color for one of two reasons, or it is one. -/
theorem parse_cases (text : String) :
    ¬ Hexadecimal (digits text.toList) ∨
      Hexadecimal (digits text.toList) ∧
        (digits text.toList).length ≠ 6 ∧ (digits text.toList).length ≠ 8 ∨
      Hexadecimal (digits text.toList) ∧
        ((digits text.toList).length = 6 ∨ (digits text.toList).length = 8) := by
  by_cases hhex : Hexadecimal (digits text.toList)
  · by_cases hlength : (digits text.toList).length = 6 ∨ (digits text.toList).length = 8
    · exact .inr (.inr ⟨hhex, hlength⟩)
    · exact .inr (.inl ⟨hhex, not_or.1 hlength⟩)
  · exact .inl hhex

theorem parse_eq_notHex_iff :
    parse text = .error (.notHex text) ↔ ¬ Hexadecimal (digits text.toList) := by
  refine ⟨fun h => ?_, parse_of_not_hexadecimal⟩
  rcases parse_cases text with hnot | ⟨hhex, hlength⟩ | ⟨hhex, hlength⟩
  · exact hnot
  · rw [parse_of_length hhex hlength] at h
    cases h
  · obtain ⟨c, w, hok, -⟩ := exists_parse_eq_ok hhex hlength
    rw [hok] at h
    cases h

theorem parse_eq_length_iff (hhex : Hexadecimal (digits text.toList)) :
    parse text = .error (.length text (digits text.toList).length) ↔
      (digits text.toList).length ≠ 6 ∧ (digits text.toList).length ≠ 8 := by
  refine ⟨fun h => ?_, parse_of_length hhex⟩
  rcases parse_cases text with hnot | ⟨-, hlength⟩ | ⟨-, hlength⟩
  · exact absurd hhex hnot
  · exact hlength
  · obtain ⟨c, w, hok, -⟩ := exists_parse_eq_ok hhex hlength
    rw [hok] at h
    cases h

/-- Only six or eight digits are read, and only as the color of their bytes. -/
theorem channels_of_parse {c : Color} (h : parse text = .ok c) :
    Text.Paired (digits text.toList) ∧
      ((digits text.toList).length = 6 ∨ (digits text.toList).length = 8) ∧
        c.channels = channelBytes (digits text.toList) := by
  rcases parse_cases text with hnot | ⟨hhex, hlength⟩ | ⟨hhex, hlength⟩
  · rw [parse_of_not_hexadecimal hnot] at h
    cases h
  · rw [parse_of_length hhex hlength] at h
    cases h
  · obtain ⟨d, w, hparse, hd, -⟩ := exists_parse_eq_ok hhex hlength
    rw [h] at hparse
    obtain rfl := Except.ok.inj hparse
    exact ⟨⟨hhex.2, by omega⟩, hlength, hd⟩

end Parse

/-- The bytes of the channels that are written. -/
def written (c : Color) : List UInt8 :=
  if c.alpha = 255 then [c.red, c.green, c.blue] else c.channels

theorem chars_eq (c : Color) : c.chars = '#' :: c.written.flatMap Text.hexByte := by
  rw [chars, written]
  split
  · rfl
  · rfl

theorem toList_text (c : Color) : c.text.toList = c.chars := String.toList_ofList

theorem digits_text (c : Color) : digits c.text.toList = c.written.flatMap Text.hexByte := by
  rw [toList_text, chars_eq]
  rfl

/-- What is not written is what six digits leave open. -/
theorem channelBytes_written (c : Color) :
    channelBytes (c.written.flatMap Text.hexByte) = c.channels := by
  rw [channelBytes, Text.hexBytes_flatMap_hexByte, Text.length_flatMap_hexByte, written]
  split
  · next halpha => rw [channels, halpha]; rfl
  · exact List.append_nil _

theorem parse_text_self (c : Color) : parse c.text = .ok c := by
  have hlength : c.written.length = 3 ∨ c.written.length = 4 := by
    rw [written]
    split
    · exact .inl rfl
    · exact .inr rfl
  have hdigits : (digits c.text.toList).length = 6 ∨ (digits c.text.toList).length = 8 := by
    rw [digits_text, Text.length_flatMap_hexByte]
    omega
  have hhex : Hexadecimal (digits c.text.toList) := by
    refine ⟨List.ne_nil_of_length_pos (by omega), ?_⟩
    intro d hd
    rw [digits_text, List.mem_flatMap] at hd
    obtain ⟨b, -, hb⟩ := hd
    exact Text.mem_hexDigits_of_mem_hexByte hb
  obtain ⟨c', w, hparse, hc', -⟩ := exists_parse_eq_ok hhex hdigits
  rw [digits_text, channelBytes_written] at hc'
  rw [hparse, channels_inj hc']

/-- Digits without the pair of an alpha channel that is full. -/
def shortened (ds : List Char) : List Char :=
  if ds.length = 8 ∧ ds.drop 6 = ['f', 'f'] then ds.take 6 else ds

theorem hexByte_eq_ff_iff {b : UInt8} : Text.hexByte b = ['f', 'f'] ↔ b = 255 := by
  constructor
  · intro h
    have hbyte := Text.hexBytes_flatMap_hexByte [b]
    rw [List.flatMap_singleton, h] at hbyte
    exact (List.singleton_inj.1 hbyte).symm
  · rintro rfl
    rfl

/-- The digits of all channels are written, but for those of a full alpha channel. -/
theorem flatMap_hexByte_written (c : Color) :
    c.written.flatMap Text.hexByte = shortened (c.channels.flatMap Text.hexByte) := by
  have hlast : (c.channels.flatMap Text.hexByte).drop 6 = Text.hexByte c.alpha := rfl
  rw [written, shortened]
  split
  · next halpha => exact (if_pos ⟨rfl, hlast.trans (hexByte_eq_ff_iff.2 halpha)⟩).symm
  · next halpha => exact (if_neg fun h => halpha (hexByte_eq_ff_iff.1 (hlast.symm.trans h.2))).symm

/-- Six digits are not shortened, and neither are they when the full alpha channel is added. -/
theorem shortened_append_ff {ds : List Char} (h : ds.length = 6) :
    shortened (ds ++ ['f', 'f']) = shortened ds := by
  rw [shortened, shortened, if_pos, if_neg, List.take_left' h]
  · omega
  · rw [List.drop_left' h, List.length_append, h]
    exact ⟨rfl, rfl⟩

theorem text_of_parse {text : String} {c : Color} (h : parse text = .ok c) :
    c.text = String.ofList ('#' :: shortened ((digits text.toList).map Char.toLower)) := by
  obtain ⟨hpaired, hlength, hc⟩ := channels_of_parse h
  rw [Color.text, chars_eq, flatMap_hexByte_written, hc, channelBytes, List.flatMap_append,
    hpaired.flatMap_hexByte]
  rcases hlength with hsix | hlong
  · rw [if_pos hsix]
    exact congrArg (fun ds => String.ofList ('#' :: ds)) (shortened_append_ff (by simpa using hsix))
  · rw [if_neg (by omega), List.flatMap_nil, List.append_nil]

/-- A text is a color just if its digits are six or eight hexadecimal ones, and consecutive pairs of
them are its channels. Anything else is an error, and a wrong character is told before a wrong
number of digits. A color is read again from its own text, which is that of its digits in lower
case, without an alpha channel that is full. -/
theorem parse_digit_pairs :
    (∀ text,
      (parse text = .error (.notHex text) ↔ ¬ Hexadecimal (digits text.toList)) ∧
      (Hexadecimal (digits text.toList) →
        (parse text = .error (.length text (digits text.toList).length) ↔
          (digits text.toList).length ≠ 6 ∧ (digits text.toList).length ≠ 8) ∧
        ((digits text.toList).length = 6 ∨ (digits text.toList).length = 8 →
          ∃ c w, parse text = .ok c ∧ c.channels = channelBytes (digits text.toList) ∧
            Text.hexWord? (digits text.toList) = some w ∧
              w.toNat = Text.hexNumber (digits text.toList) ∧
                ((digits text.toList).length = 6 → (w <<< 8).toNat = w.toNat * 2 ^ 8))) ∧
      ∀ c, parse text = .ok c →
        c.text = String.ofList ('#' :: shortened ((digits text.toList).map Char.toLower))) ∧
    ∀ c : Color, parse c.text = .ok c :=
  ⟨fun _ => ⟨parse_eq_notHex_iff, fun hhex => ⟨parse_eq_length_iff hhex,
    exists_parse_eq_ok hhex⟩, fun _ => text_of_parse⟩, parse_text_self⟩

/-- Two number signs and digits of another script are at fault for their characters, whatever the
number of digits. Five digits are too few. The alpha channel of eight digits goes away if it is
full, in either case. -/
theorem exists_parse_digit_pairs :
    parse "##12345" = .error (.notHex "##12345") ∧
    parse "#\u0661\u0662\u0663\u0664\u0665\u0666" =
      .error (.notHex "#\u0661\u0662\u0663\u0664\u0665\u0666") ∧
    (Hexadecimal (digits "12345".toList) ∧ parse "12345" = .error (.length "12345" 5)) ∧
    (Hexadecimal (digits "#F8aF02".toList) ∧ (digits "#F8aF02".toList).length = 6 ∧
      ∃ c w, parse "#F8aF02" = .ok c ∧ c.channels = [0xf8, 0xaf, 0x02, 255] ∧
        Text.hexWord? (digits "#F8aF02".toList) = some w ∧ (w <<< 8).toNat = 0xf8af0200) ∧
    (∃ c, parse "F8aF02fF" = .ok c ∧ c.text = "#f8af02") ∧
    parse (Color.mk 1 2 3 4).text = .ok ⟨1, 2, 3, 4⟩ := by
  obtain ⟨hread, hself⟩ := parse_digit_pairs
  have hfive : Hexadecimal (digits "12345".toList) := by decide +kernel
  have hsix : Hexadecimal (digits "#F8aF02".toList) := by decide +kernel
  have hlong : Hexadecimal (digits "F8aF02fF".toList) := by decide +kernel
  have hlength : (digits "12345".toList).length = 5 := by decide +kernel
  have hshort := ((hread "12345").2.1 hfive).1.2 (by decide +kernel)
  rw [hlength] at hshort
  have hbytes : channelBytes (digits "#F8aF02".toList) = [0xf8, 0xaf, 0x02, 255] := by
    decide +kernel
  obtain ⟨c, w, hc, hchannels, hword, hnumber, hshift⟩ :=
    ((hread "#F8aF02").2.1 hsix).2 (by decide +kernel)
  obtain ⟨d, -, hd, -⟩ := ((hread "F8aF02fF").2.1 hlong).2 (by decide +kernel)
  have htext := (hread "F8aF02fF").2.2 d hd
  rw [show shortened ((digits "F8aF02fF".toList).map Char.toLower) = "f8af02".toList by
    decide +kernel] at htext
  refine ⟨(hread _).1.2 (by decide +kernel), (hread _).1.2 (by decide +kernel), ⟨hfive, hshort⟩,
    ⟨hsix, by decide +kernel, c, w, hc, hchannels.trans hbytes, hword, ?_⟩, ⟨d, hd, htext⟩,
    hself _⟩
  rw [hshift (by decide +kernel), hnumber]
  decide +kernel

end Highlight.Color
