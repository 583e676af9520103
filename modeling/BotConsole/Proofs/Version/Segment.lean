import BotConsole.Proofs.Version.Display

namespace BotConsole.Version

open Text

variable {s digits digits' : List Char}

theorem segmentValue_plus (hdigits : IsDecimal digits) : segmentValue ('+' :: digits) =
    if decimalValue digits < 2 ^ 64 then decimalValue digits else 0 := by
  have hread : unsigned64? ('+' :: digits) =
      if decimalValue digits < 2 ^ 64 then some (decimalValue digits) else none := by
    simp only [← le_maxUnsigned64_iff]
    exact hdigits.natural?_eq
  rw [segmentValue, hread]
  by_cases hrange : decimalValue digits < 2 ^ 64
  · rw [if_pos hrange, if_pos hrange]
  · -- A number beyond the range does not saturate here, since its sign is no digit.
    rw [if_neg hrange, if_neg hrange]
    rfl

theorem segmentValue_of_other (hdigits : ¬ IsDecimal s)
    (hplus : ∀ digits, s = '+' :: digits → ¬ IsDecimal digits) : segmentValue s = 0 := by
  have hread : unsigned64? s = none := by
    rw [Option.eq_none_iff_forall_ne_some]
    intro m h
    obtain ⟨digits, hread, hs⟩ := exists_natural?_of_unsigned64? h
    obtain ⟨hdecimal, -, -⟩ := natural?_eq_some_iff.mp hread
    rcases hs with rfl | hs
    · exact hdigits hdecimal
    · exact hplus digits hs hdecimal
  have hother : ¬ (!s.isEmpty && s.all Char.isDigit) = true := by
    intro h
    rw [Bool.and_eq_true, Bool.not_eq_true', List.isEmpty_eq_false_iff, List.all_eq_true] at h
    exact hdigits ⟨h.1, h.2⟩
  rw [segmentValue, hread]
  exact if_neg hother

theorem segmentValue_mono (hdigits : IsDecimal digits) (hdigits' : IsDecimal digits')
    (h : decimalValue digits ≤ decimalValue digits') :
    segmentValue digits ≤ segmentValue digits' := by
  rw [segmentValue_of_digits hdigits.isDigit, segmentValue_of_digits hdigits'.isDigit]
  exact min_le_min_right _ h

-- Beyond the unsigned 64-bit range digits stand for its last number, but for zero behind a plus
-- sign. Any other segment is zero.
theorem segments_saturate (s digits digits' : List Char) (n : Nat) (text : String) :
    (IsDecimal digits →
      segmentValue digits = min (decimalValue digits) (2 ^ 64 - 1) ∧
      segmentValue ('+' :: digits) =
        (if decimalValue digits < 2 ^ 64 then decimalValue digits else 0) ∧
      segmentValue (List.replicate n '0' ++ digits) = segmentValue digits ∧
      (IsDecimal digits' → decimalValue digits ≤ decimalValue digits' →
        segmentValue digits ≤ segmentValue digits')) ∧
    (¬ IsDecimal s → (∀ unsigned, s = '+' :: unsigned → ¬ IsDecimal unsigned) →
      segmentValue s = 0) ∧
    (parse text).segments ≠ [] ∧ ∀ number ∈ (parse text).segments, number < 2 ^ 64 := by
  have hparse : (parse text).WellFormed := wellFormed_ofChars text.toList
  refine ⟨fun hdigits => ?_, segmentValue_of_other, hparse.ne_nil, fun number hnumber => ?_⟩
  · exact ⟨segmentValue_of_digits hdigits.isDigit, segmentValue_plus hdigits,
      segmentValue_zeros_append n hdigits.isDigit, segmentValue_mono hdigits⟩
  · exact le_maxUnsigned64_iff.mp (hparse.le_max number hnumber)

theorem segments_saturate_overflowing :
    IsDecimal "18446744073709551616".toList ∧ IsDecimal "99999999999999999999".toList ∧
    decimalValue "18446744073709551616".toList ≤ decimalValue "99999999999999999999".toList ∧
    segmentValue "18446744073709551616".toList = 2 ^ 64 - 1 ∧
    segmentValue "+18446744073709551616".toList = 0 ∧
    segmentValue "00018446744073709551616".toList = 2 ^ 64 - 1 ∧
    segmentValue "18446744073709551616".toList ≤ segmentValue "99999999999999999999".toList ∧
    ¬ IsDecimal "18446744073709551616x".toList ∧
    (∀ unsigned, "18446744073709551616x".toList = '+' :: unsigned → ¬ IsDecimal unsigned) ∧
    segmentValue "18446744073709551616x".toList = 0 ∧
    18446744073709551615 ∈ (parse "v1..18446744073709551616-rc").segments ∧
    18446744073709551615 < 2 ^ 64 := by
  have hfirst : IsDecimal "18446744073709551616".toList := ⟨by decide, List.all_eq_true.mp rfl⟩
  have hsecond : IsDecimal "99999999999999999999".toList := ⟨by decide, List.all_eq_true.mp rfl⟩
  have hle : decimalValue "18446744073709551616".toList ≤
      decimalValue "99999999999999999999".toList := by decide
  have hother : ¬ IsDecimal "18446744073709551616x".toList := by
    intro h
    exact absurd (h.isDigit 'x' (by decide)) (by decide)
  have hunsigned : ∀ unsigned,
      "18446744073709551616x".toList = '+' :: unsigned → ¬ IsDecimal unsigned := by
    intro unsigned h
    exact absurd (List.cons.inj h).1 (by decide)
  have hmember : 18446744073709551615 ∈ (parse "v1..18446744073709551616-rc").segments := by decide
  obtain ⟨hdecimal, hzero, -, hrange⟩ := segments_saturate "18446744073709551616x".toList
    "18446744073709551616".toList "99999999999999999999".toList 3 "v1..18446744073709551616-rc"
  obtain ⟨hexact, hplus, hzeros, hmono⟩ := hdecimal hfirst
  have hvalue : min (decimalValue "18446744073709551616".toList) (2 ^ 64 - 1) = 2 ^ 64 - 1 := by
    decide
  have hbeyond : ¬ decimalValue "18446744073709551616".toList < 2 ^ 64 := by decide
  rw [hvalue] at hexact
  exact ⟨hfirst, hsecond, hle, hexact, hplus.trans (if_neg hbeyond), hzeros.trans hexact,
    hmono hsecond hle, hother, hunsigned, hzero hother hunsigned, hmember, hrange _ hmember⟩

end BotConsole.Version
