import BotConsole.Json.Reader
import BotConsole.Proofs.Text.Digits
import Mathlib.Data.List.TakeWhile

namespace BotConsole.Json

namespace Reader

variable {s rest r : List Char}

-- What may follow a value inside a document without a blank.
def Closes (rest : List Char) : Prop :=
  ∀ c ∈ rest.head?, c = ',' ∨ c = ']' ∨ c = '\x7d'

theorem closes_nil : Closes [] := nofun

theorem closes_cons {c : Char} (h : c = ',' ∨ c = ']' ∨ c = '\x7d') : Closes (c :: rest) := by
  intro d hd
  obtain rfl := Option.some.inj hd
  exact h

theorem Closes.cases (h : Closes rest) : rest = [] ∨ ∃ c tail, rest = c :: tail ∧
    c.isDigit = false ∧ c ≠ '.' ∧ c ≠ 'e' ∧ c ≠ 'E' := by
  cases rest with
  | nil => exact .inl rfl
  | cons c tail =>
    refine .inr ⟨c, tail, rfl, ?_⟩
    rcases h c rfl with rfl | rfl | rfl <;> decide

theorem Closes.digit (h : Closes rest) : rest.head?.any Char.isDigit = false := by
  rcases h.cases with rfl | ⟨c, tail, rfl, hc, -⟩
  · rfl
  · simpa using hc

theorem digits?_append {ds : List Char} (h : digits? s = some (ds, r)) (hrest : Closes rest) :
    digits? (s ++ rest) = some (ds, r ++ rest) := by
  have htake : rest.takeWhile Char.isDigit = [] := by
    rcases hrest.cases with rfl | ⟨c, tail, rfl, hc, -⟩
    · rfl
    · simp [hc]
  have hdrop : rest.dropWhile Char.isDigit = rest := by
    rcases hrest.cases with rfl | ⟨c, tail, rfl, hc, -⟩
    · rfl
    · simp [hc]
  have hall : (s ++ rest).takeWhile Char.isDigit = s.takeWhile Char.isDigit := by
    rw [List.takeWhile_append]
    split
    · rename_i hlen
      rw [htake, List.append_nil]
      exact ((List.takeWhile_prefix _).eq_of_length hlen).symm
    · rfl
  have hleft : (s ++ rest).dropWhile Char.isDigit = s.dropWhile Char.isDigit ++ rest := by
    rw [List.dropWhile_append]
    split
    · rename_i hnil
      rw [List.isEmpty_iff.mp hnil, hdrop, List.nil_append]
    · rfl
  unfold digits? at h ⊢
  rw [hall, hleft]
  split at h
  · cases h
  · obtain ⟨rfl, rfl⟩ := Prod.mk.inj (Option.some.inj h)
    rfl

theorem whole?_cons_of_ne {c : Char} (hc : c ≠ '0') : whole? (c :: s) = digits? (c :: s) := by
  unfold whole?
  split
  · rename_i heq
    exact absurd (List.cons.inj heq).1 hc
  · rfl

theorem fraction?_cons_of_ne {c : Char} (hc : c ≠ '.') :
    fraction? (c :: s) = some (none, c :: s) := by
  unfold fraction?
  split
  · rename_i heq
    exact absurd (List.cons.inj heq).1 hc
  · rfl

theorem whole?_append {ds : List Char} (h : whole? s = some (ds, r)) (hrest : Closes rest) :
    whole? (s ++ rest) = some (ds, r ++ rest) := by
  cases s with
  | nil => cases h
  | cons c s =>
    by_cases hc : c = '0'
    · subst hc
      have hhead : (s ++ rest).head?.any Char.isDigit = s.head?.any Char.isDigit := by
        cases s with
        | nil => simpa using hrest.digit
        | cons d s => rfl
      simp only [whole?, List.cons_append, hhead] at h ⊢
      split at h
      · cases h
      · rename_i hno
        obtain ⟨rfl, rfl⟩ := Prod.mk.inj (Option.some.inj h)
        rw [if_neg hno]
    · rw [List.cons_append, whole?_cons_of_ne hc]
      rw [whole?_cons_of_ne hc] at h
      exact digits?_append h hrest

theorem fraction?_append {ds : Option (List Char)} (h : fraction? s = some (ds, r))
    (hrest : Closes rest) : fraction? (s ++ rest) = some (ds, r ++ rest) := by
  cases s with
  | nil =>
    obtain ⟨rfl, rfl⟩ := Prod.mk.inj (Option.some.inj h)
    rcases hrest.cases with rfl | ⟨c, tail, rfl, -, hc, -⟩
    · rfl
    · simp [fraction?, hc]
  | cons c s =>
    by_cases hc : c = '.'
    · subst hc
      simp only [fraction?, List.cons_append, Option.map_eq_some_iff, Prod.exists,
        Prod.mk.injEq] at h ⊢
      obtain ⟨digits, r', hd, rfl, rfl⟩ := h
      exact ⟨digits, _, digits?_append hd hrest, rfl, rfl⟩
    · rw [fraction?_cons_of_ne hc] at h
      obtain ⟨rfl, rfl⟩ := Prod.mk.inj (Option.some.inj h)
      exact fraction?_cons_of_ne hc

def sign : List Char → Bool × List Char
  | '+' :: s => (false, s)
  | '-' :: s => (true, s)
  | s => (false, s)

theorem exponent?_cons (c : Char) (s : List Char) :
    exponent? (c :: s) = if c == 'e' || c == 'E' then
      (digits? (sign s).2).map fun (ds, rest) => (some ((sign s).1, ds), rest)
    else some (none, c :: s) := by
  rcases s with _ | ⟨d, s⟩
  · rfl
  · by_cases hplus : d = '+'
    · subst hplus; rfl
    · by_cases hminus : d = '-'
      · subst hminus; rfl
      · simp [exponent?, sign, hplus, hminus]

theorem sign_append (hs : s ≠ []) : sign (s ++ rest) = ((sign s).1, (sign s).2 ++ rest) := by
  cases s with
  | nil => exact absurd rfl hs
  | cons d s =>
    by_cases hplus : d = '+'
    · subst hplus; rfl
    · by_cases hminus : d = '-'
      · subst hminus; rfl
      · simp [sign, hplus, hminus]

theorem exponent?_append {e : Option (Bool × List Char)} (h : exponent? s = some (e, r))
    (hrest : Closes rest) : exponent? (s ++ rest) = some (e, r ++ rest) := by
  cases s with
  | nil =>
    obtain ⟨rfl, rfl⟩ := Prod.mk.inj (Option.some.inj h)
    rcases hrest.cases with rfl | ⟨c, tail, rfl, -, -, he, hE⟩
    · rfl
    · simp [exponent?, he, hE]
  | cons c s =>
    rw [exponent?_cons] at h
    rw [List.cons_append, exponent?_cons]
    split at h
    · rename_i hc
      have hs : s ≠ [] := by
        rintro rfl
        cases h
      rw [if_pos hc, sign_append hs]
      simp only [Option.map_eq_some_iff, Prod.exists, Prod.mk.injEq] at h ⊢
      obtain ⟨ds, tail, hd, rfl, rfl⟩ := h
      exact ⟨ds, _, digits?_append hd hrest, rfl, rfl⟩
    · rename_i hc
      rw [if_neg hc]
      obtain ⟨rfl, rfl⟩ := Prod.mk.inj (Option.some.inj h)
      rfl

def unsigned? (negative : Bool) (s : List Char) : Option (Literal × List Char) :=
  (whole? s).bind fun whole => (fraction? whole.2).bind fun fraction =>
    (exponent? fraction.2).map fun exponent =>
      (⟨negative, whole.1, fraction.1, exponent.1⟩, exponent.2)

theorem literal?_minus (s : List Char) : literal? ('-' :: s) = unsigned? true s := by
  simp [literal?, unsigned?, Option.map_eq_bind]

theorem literal?_of_ne {c : Char} (hc : c ≠ '-') :
    literal? (c :: s) = unsigned? false (c :: s) := by
  simp [literal?, unsigned?, hc, Option.map_eq_bind]

theorem unsigned?_append {negative : Bool} {l : Literal} (h : unsigned? negative s = some (l, r))
    (hrest : Closes rest) : unsigned? negative (s ++ rest) = some (l, r ++ rest) := by
  simp only [unsigned?, Option.bind_eq_some_iff, Option.map_eq_some_iff, Prod.exists,
    Prod.mk.injEq] at h ⊢
  obtain ⟨whole, u, hw, fraction, v, hf, exponent, w, he, rfl, rfl⟩ := h
  exact ⟨whole, _, whole?_append hw hrest, fraction, _, fraction?_append hf hrest, exponent, _,
    exponent?_append he hrest, rfl, rfl⟩

theorem literal?_append {l : Literal} (h : literal? s = some (l, r)) (hrest : Closes rest) :
    literal? (s ++ rest) = some (l, r ++ rest) := by
  cases s with
  | nil => cases h
  | cons c s =>
    by_cases hc : c = '-'
    · subst hc
      rw [literal?_minus] at h
      rw [List.cons_append, literal?_minus]
      exact unsigned?_append h hrest
    · rw [literal?_of_ne hc] at h
      rw [List.cons_append, literal?_of_ne hc]
      exact unsigned?_append h hrest

theorem digits?_of_all (hs : ∀ c ∈ s, c.isDigit = true) (hne : s ≠ []) :
    digits? s = some (s, []) := by
  have htake : s.takeWhile Char.isDigit = s := List.takeWhile_eq_self_iff.mpr hs
  have hdrop : s.dropWhile Char.isDigit = [] := List.dropWhile_eq_nil_iff.mpr hs
  unfold digits?
  rw [htake, hdrop]
  cases s with
  | nil => exact absurd rfl hne
  | cons c s => rfl

-- Only zero is written with a zero in front.
theorem whole?_toDigits (n : Nat) :
    whole? (Nat.toDigits 10 n) = some (Nat.toDigits 10 n, []) := by
  by_cases hn : n = 0
  · subst hn
    rfl
  · have hhead := Text.head?_toDigits hn
    have hdigits := digits?_of_all (fun c hc => Text.isDigit_of_mem_toDigits hc)
      (Nat.toDigits_ne_nil (n := n) (b := 10))
    cases hds : Nat.toDigits 10 n with
    | nil => simp at hds
    | cons c ds =>
      rw [hds] at hdigits hhead
      rw [whole?_cons_of_ne (by simpa using hhead), hdigits]

theorem literal?_toDigits (n : Nat) :
    literal? (Nat.toDigits 10 n) = some (⟨false, Nat.toDigits 10 n, none, none⟩, []) := by
  have hwhole := whole?_toDigits n
  cases hds : Nat.toDigits 10 n with
  | nil => simp at hds
  | cons c ds =>
    have hc : c ≠ '-' := by
      rintro rfl
      have hdigit := Nat.isDigit_of_mem_toDigits (b := 10) (n := n) (c := '-') (by decide)
        (by decide) (hds ▸ List.mem_cons_self)
      cases hdigit
    rw [hds] at hwhole
    simp [literal?, hc, hwhole, fraction?, exponent?]

theorem literal?_minus_toDigits (n : Nat) :
    literal? ('-' :: Nat.toDigits 10 n) = some (⟨true, Nat.toDigits 10 n, none, none⟩, []) := by
  simp [literal?, whole?_toDigits, fraction?, exponent?]

end Reader

namespace Number

-- The number is what is read where it is written.
def Kept (n : Number) : Prop :=
  ∃ l, Reader.literal? n.toChars = some (l, []) ∧ ofLiteral? l = some n

theorem accumulate_eq {ds : List Char} {n : Nat}
    (h : Nat.ofDigitChars 10 ds n ≤ maxUnsigned) :
    accumulate n ds = (Nat.ofDigitChars 10 ds n, []) := by
  induction ds generalizing n with
  | nil => simp [accumulate]
  | cons c ds ih =>
    rw [Nat.ofDigitChars_cons] at h ⊢
    have hnext := (Text.le_ofDigitChars ds _).trans h
    rw [accumulate, if_pos hnext, ih h]

theorem kept_int {i : Int} (hlow : -(1 <<< 63 : Nat) ≤ i) (hhigh : i ≤ maxUnsigned) :
    (int i).Kept := by
  cases i with
  | ofNat n =>
    refine ⟨_, Reader.literal?_toDigits n, ?_⟩
    have hmax : Nat.ofDigitChars 10 (Nat.toDigits 10 n) 0 ≤ maxUnsigned := by
      rw [Nat.ofDigitChars_ten_toDigits]
      exact Int.ofNat_le.mp hhigh
    simp [ofLiteral?, accumulate_eq hmax, ofInteger]
  | negSucc n =>
    refine ⟨_, Reader.literal?_minus_toDigits (n + 1), ?_⟩
    have hn : n < 9223372036854775808 := by omega
    have hmax : Nat.ofDigitChars 10 (Nat.toDigits 10 (n + 1)) 0 ≤ maxUnsigned := by
      rw [Nat.ofDigitChars_ten_toDigits]
      exact (Nat.succ_le_of_lt hn).trans (by decide)
    simp [ofLiteral?, accumulate_eq hmax, ofInteger, hn, Int.negSucc_eq]

-- The number nearest to 3 * 10 ^ 23, and the one below it.
def large : Binary64 := ⟨false, 8940696716308594, 25⟩

def below : Binary64 := ⟨false, 8940696716308593, 25⟩

def largeLiteral : Literal := ⟨false, ['3'], none, some (false, ['2', '3'])⟩

theorem toChars_large : large.toChars = ['3', 'e', '+', '2', '3'] := by rfl

-- The power of ten is rounded, and so is its product with three.
theorem ofLiteral?_large : ofLiteral? largeLiteral = some (.float below) := by decide +kernel

end Number

end BotConsole.Json
