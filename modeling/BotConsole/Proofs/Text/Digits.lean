import BotConsole.Text.Integer
import Mathlib.Data.Nat.Digits.Lemmas

namespace BotConsole.Text

-- Only zero is written with a zero in front.
theorem head?_toDigits {n : Nat} (hn : n ≠ 0) : (Nat.toDigits 10 n).head? ≠ some '0' := by
  induction n using Nat.strong_induction_on with
  | _ n ih =>
    rw [Nat.toDigits_eq_if (by decide)]
    split
    · simpa using hn
    · next hten =>
      rw [List.head?_append_of_ne_nil _ Nat.toDigits_ne_nil]
      exact ih (n / 10) (by omega) (by omega)

theorem isDigit_of_mem_toDigits {n : Nat} {c : Char} (hc : c ∈ Nat.toDigits 10 n) :
    c.isDigit = true :=
  Nat.isDigit_of_mem_toDigits (by decide) (by decide) hc

theorem le_ofDigitChars (ds : List Char) (n : Nat) : n ≤ Nat.ofDigitChars 10 ds n := by
  induction ds generalizing n with
  | nil => simp
  | cons c ds ih =>
    rw [Nat.ofDigitChars_cons]
    have := ih (10 * n + (c.toNat - '0'.toNat))
    omega

structure IsDecimal (s : List Char) : Prop where
  ne_nil : s ≠ []
  isDigit : ∀ c ∈ s, c.isDigit = true

def decimalValue (digits : List Char) : Nat :=
  Nat.ofDigitChars 10 digits 0

theorem decimalValue_toDigits (n : Nat) : decimalValue (Nat.toDigits 10 n) = n :=
  Nat.ofDigitChars_ten_toDigits

theorem decimalValue_zeros_append (n : Nat) (digits : List Char) :
    decimalValue (List.replicate n '0' ++ digits) = decimalValue digits := by
  rw [decimalValue, Nat.ofDigitChars_append, Nat.ofDigitChars_replicate_zero, Nat.mul_zero,
    decimalValue]

variable {limit n : Nat} {ds : List Char}

-- A number only grows by further digits, so one that exceeds the limit halfway does so at the end.
theorem appendDigits?_of_digits (hds : ∀ c ∈ ds, c.isDigit = true) (hn : n ≤ limit) :
    appendDigits? limit n ds =
      if Nat.ofDigitChars 10 ds n ≤ limit then some (Nat.ofDigitChars 10 ds n) else none := by
  induction ds generalizing n with
  | nil => simp [appendDigits?, hn]
  | cons c ds ih =>
    have hc : c.isDigit = true := hds c List.mem_cons_self
    have hrest : ∀ d ∈ ds, d.isDigit = true := fun d hd => hds d (List.mem_cons_of_mem _ hd)
    rw [appendDigits?, Nat.ofDigitChars_cons]
    have hgrows := le_ofDigitChars ds (10 * n + digitValue c)
    by_cases hnext : 10 * n + digitValue c ≤ limit
    · rw [if_pos ⟨hc, hnext⟩, ih hrest hnext]
      rfl
    · have hend : ¬ Nat.ofDigitChars 10 ds (10 * n + digitValue c) ≤ limit := by omega
      rw [if_neg fun h => hnext h.2]
      exact (if_neg hend).symm

theorem isDigit_of_appendDigits? {m : Nat} (h : appendDigits? limit n ds = some m) :
    ∀ c ∈ ds, c.isDigit = true := by
  induction ds generalizing n with
  | nil => exact List.forall_mem_nil _
  | cons c ds ih =>
    rw [appendDigits?] at h
    split at h
    · next hc => exact List.forall_mem_cons.mpr ⟨hc.1, ih h⟩
    · cases h

theorem IsDecimal.natural?_eq (h : IsDecimal ds) : natural? limit ds =
    if decimalValue ds ≤ limit then some (decimalValue ds) else none := by
  rw [natural?, if_neg (by simpa using h.ne_nil)]
  exact appendDigits?_of_digits h.isDigit (Nat.zero_le _)

theorem natural?_eq_some_iff {m : Nat} : natural? limit ds = some m ↔
    IsDecimal ds ∧ decimalValue ds = m ∧ m ≤ limit := by
  constructor
  · intro h
    have hds : IsDecimal ds := by
      rw [natural?] at h
      split at h
      · cases h
      · next hne => exact ⟨by simpa using hne, isDigit_of_appendDigits? h⟩
    rw [hds.natural?_eq] at h
    split at h
    · next hlimit =>
      obtain rfl := Option.some.inj h
      exact ⟨hds, rfl, hlimit⟩
    · cases h
  · rintro ⟨hds, rfl, hlimit⟩
    rw [hds.natural?_eq, if_pos hlimit]

-- A plus sign is the only sign of an unsigned number.
theorem exists_natural?_of_unsigned64? {m : Nat} (h : unsigned64? ds = some m) :
    ∃ digits, natural? maxUnsigned64 digits = some m ∧ (ds = digits ∨ ds = '+' :: digits) := by
  unfold unsigned64? at h
  split at h
  · next digits => exact ⟨digits, h, .inr rfl⟩
  · exact ⟨ds, h, .inl rfl⟩

theorem unsigned64?_le {m : Nat} (h : unsigned64? ds = some m) : m ≤ maxUnsigned64 := by
  obtain ⟨digits, hdigits, -⟩ := exists_natural?_of_unsigned64? h
  exact (natural?_eq_some_iff.mp hdigits).2.2

theorem le_maxUnsigned64_iff : n ≤ maxUnsigned64 ↔ n < 2 ^ 64 := by
  have hmax : maxUnsigned64 = 2 ^ 64 - 1 := rfl
  omega

theorem unsigned64?_of_digits (hds : ∀ c ∈ ds, c.isDigit = true) :
    unsigned64? ds = natural? maxUnsigned64 ds := by
  unfold unsigned64?
  split
  · exact absurd (hds '+' List.mem_cons_self) (by decide)
  · rfl

theorem natural?_toDigits (h : n ≤ limit) : natural? limit (Nat.toDigits 10 n) = some n :=
  natural?_eq_some_iff.mpr
    ⟨⟨Nat.toDigits_ne_nil, fun _ => isDigit_of_mem_toDigits⟩, decimalValue_toDigits n, h⟩

theorem unsigned64?_toDigits (h : n < 2 ^ 64) : unsigned64? (Nat.toDigits 10 n) = some n := by
  rw [unsigned64?_of_digits fun _ => isDigit_of_mem_toDigits,
    natural?_toDigits (le_maxUnsigned64_iff.mpr h)]

theorem signed64?_of_digits (hds : ∀ c ∈ ds, c.isDigit = true) :
    signed64? ds = (natural? (1 <<< 63 - 1) ds).map Int.ofNat := by
  unfold signed64?
  split
  · exact absurd (hds '-' List.mem_cons_self) (by decide)
  · exact absurd (hds '+' List.mem_cons_self) (by decide)
  · rfl

theorem signed64?_integerText {i : Int} (hlow : -(2 ^ 63) ≤ i) (hhigh : i < 2 ^ 63) :
    signed64? (integerText i) = some i := by
  cases i with
  | ofNat n =>
    have hn : n ≤ 1 <<< 63 - 1 := by simp at hhigh ⊢; omega
    rw [integerText, signed64?_of_digits fun _ => isDigit_of_mem_toDigits, natural?_toDigits hn]
    rfl
  | negSucc n =>
    have hn : n + 1 ≤ 1 <<< 63 := by simp at hlow ⊢; omega
    rw [integerText, signed64?, natural?_toDigits hn]
    rfl

theorem toDigits_injective : Function.Injective (Nat.toDigits 10) := by
  intro m n h
  rw [← Nat.ofDigitChars_ten_toDigits (n := m), h, Nat.ofDigitChars_ten_toDigits]

theorem integerText_ne_nil (i : Int) : integerText i ≠ [] := by
  cases i with
  | ofNat n => exact Nat.toDigits_ne_nil
  | negSucc n => exact List.cons_ne_nil _ _

theorem eq_minus_or_isDigit_of_mem_integerText {i : Int} {c : Char} (hc : c ∈ integerText i) :
    c = '-' ∨ c.isDigit = true := by
  cases i with
  | ofNat n => exact .inr (isDigit_of_mem_toDigits hc)
  | negSucc n => exact (List.mem_cons.mp hc).imp_right isDigit_of_mem_toDigits

theorem integerText_injective : Function.Injective integerText := by
  have hsign (m n : Nat) : Nat.toDigits 10 m ≠ '-' :: Nat.toDigits 10 (n + 1) := by
    intro h
    have hminus : '-' ∈ Nat.toDigits 10 m := h ▸ List.mem_cons_self
    exact absurd (isDigit_of_mem_toDigits hminus) (by decide)
  intro i j h
  cases i with
  | ofNat m =>
    cases j with
    | ofNat n => exact congrArg Int.ofNat (toDigits_injective h)
    | negSucc n => exact absurd h (hsign m n)
  | negSucc m =>
    cases j with
    | ofNat n => exact absurd h.symm (hsign n m)
    | negSucc n =>
      have hnext := toDigits_injective (List.cons.inj h).2
      exact congrArg Int.negSucc (Nat.succ.inj hnext)

theorem integerText_eq (i : Int) : integerText i = (toString i).toList := by
  cases i with
  | ofNat n => exact String.toList_ofList.symm
  | negSucc n =>
    show _ = ("-" ++ toString (n + 1)).toList
    rw [String.toList_append]
    exact congrArg ('-' :: ·) String.toList_ofList.symm

end BotConsole.Text
