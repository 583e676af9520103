import BotConsole.Version
import BotConsole.Proofs.Text.Digits
import BotConsole.Proofs.Text.Split

namespace BotConsole.Version

open Text

variable {s t digits numbers rest : List Char}

def Letterless (s : List Char) : Prop :=
  ∀ c ∈ s.head?, c ≠ 'v' ∧ c ≠ 'V'

theorem dropLetter_of_letterless (h : Letterless s) : dropLetter s = s := by
  cases s with
  | nil => rfl
  | cons c s =>
    obtain ⟨hv, hV⟩ := h c rfl
    unfold dropLetter
    split <;> simp_all

theorem dropLetter_append (s : List Char) (ht : Letterless t) :
    dropLetter (s ++ t) = dropLetter s ++ t := by
  cases s with
  | nil => exact dropLetter_of_letterless ht
  | cons c s =>
    by_cases hc : c = 'v' ∨ c = 'V'
    · rcases hc with rfl | rfl <;> rfl
    · have hplain (u : List Char) : Letterless (c :: u) := by
        intro d hd
        obtain rfl := Option.some.inj hd
        exact not_or.mp hc
      rw [List.cons_append, dropLetter_of_letterless (hplain _),
        dropLetter_of_letterless (hplain _)]
      rfl

theorem dropLetter_subset (s : List Char) : dropLetter s ⊆ s := by
  unfold dropLetter
  split
  · exact List.subset_cons_self _ _
  · exact List.subset_cons_self _ _
  · exact List.Subset.refl _

-- What may follow the numbers: nothing, or a dash and the suffix behind it.
def FollowsNumbers (rest : List Char) : Prop :=
  ∀ c ∈ rest.head?, c = '-'

def suffixOf : List Char → Option String
  | [] => none
  | _ :: s => some (String.ofList s)

theorem FollowsNumbers.letterless (h : FollowsNumbers rest) : Letterless rest := by
  intro c hc
  rw [h c hc]
  decide

theorem ofChars_append (hnumbers : '-' ∉ numbers) (hrest : FollowsNumbers rest) :
    ofChars (numbers ++ rest) =
      ⟨(splitOn '.' (dropLetter numbers)).map segmentValue, suffixOf rest⟩ := by
  have hplain : '-' ∉ dropLetter numbers := fun h => hnumbers (dropLetter_subset _ h)
  cases rest with
  | nil =>
    simp [ofChars, splitFirst_of_notMem hplain, suffixOf]
  | cons c suffix =>
    obtain rfl := hrest c rfl
    simp [ofChars, dropLetter_append numbers hrest.letterless, splitFirst_append_cons hplain,
      suffixOf]

theorem exists_numbers (s : List Char) :
    ∃ numbers rest, s = numbers ++ rest ∧ '-' ∉ numbers ∧ FollowsNumbers rest := by
  by_cases hdash : '-' ∈ s
  · obtain ⟨numbers, suffix, rfl, hnumbers⟩ := List.eq_append_cons_of_mem hdash
    exact ⟨numbers, '-' :: suffix, rfl, hnumbers, fun c hc => (Option.some.inj hc).symm⟩
  · exact ⟨s, [], (List.append_nil s).symm, hdash, nofun⟩

-- Digits stand for their number, or for the last number of the range where that is less.
theorem segmentValue_of_digits (hdigits : ∀ c ∈ digits, c.isDigit = true) :
    segmentValue digits = min (decimalValue digits) maxUnsigned64 := by
  by_cases hne : digits = []
  · subst hne
    rfl
  · have hdecimal : IsDecimal digits := ⟨hne, hdigits⟩
    rw [segmentValue, unsigned64?_of_digits hdigits, hdecimal.natural?_eq]
    by_cases hmax : decimalValue digits ≤ maxUnsigned64
    · rw [if_pos hmax, Nat.min_eq_left hmax]
    · rw [if_neg hmax, Nat.min_eq_right (Nat.le_of_not_le hmax)]
      have hall : digits.all Char.isDigit = true := List.all_eq_true.mpr hdigits
      simp [hne, hall]

theorem segmentValue_le (s : List Char) : segmentValue s ≤ maxUnsigned64 := by
  unfold segmentValue
  split
  · next n hn => exact unsigned64?_le hn
  · split
    · exact Nat.le_refl _
    · exact Nat.zero_le _

theorem segmentValue_toDigits {n : Nat} (hn : n ≤ maxUnsigned64) :
    segmentValue (Nat.toDigits 10 n) = n := by
  rw [segmentValue_of_digits fun c hc => isDigit_of_mem_toDigits hc, decimalValue_toDigits,
    Nat.min_eq_left hn]

theorem isDigit_of_mem_zeros_append (n : Nat) (hdigits : ∀ c ∈ digits, c.isDigit = true) :
    ∀ c ∈ List.replicate n '0' ++ digits, c.isDigit = true := by
  intro c hc
  rcases List.mem_append.mp hc with hc | hc
  · rw [List.eq_of_mem_replicate hc]
    rfl
  · exact hdigits c hc

theorem segmentValue_zeros_append (n : Nat) (hdigits : ∀ c ∈ digits, c.isDigit = true) :
    segmentValue (List.replicate n '0' ++ digits) = segmentValue digits := by
  rw [segmentValue_of_digits (isDigit_of_mem_zeros_append n hdigits),
    segmentValue_of_digits hdigits, decimalValue_zeros_append]

end BotConsole.Version
