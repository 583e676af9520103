import BotConsole.Proofs.Text.Digits
import BotConsole.Proofs.Text.Split
import BotConsole.Proofs.Toml.Document

namespace BotConsole.Toml

namespace Numeral

theorem grouped?_of_all {s : List Char} (hne : s ≠ []) (hs : ∀ c ∈ s, c.isDigit = true) :
    grouped? Char.isDigit s = some s := by
  have hsep : '_' ∉ s := fun hmem => absurd (hs _ hmem) (by decide)
  have hall : s.all Char.isDigit = true := List.all_eq_true.mpr hs
  simp [grouped?, Text.splitOn_of_notMem hsep, hne, hall]

theorem whole?_toDigits (n : Nat) : whole? (Nat.toDigits 10 n) = some (Nat.toDigits 10 n) := by
  have hdigits := grouped?_of_all Nat.toDigits_ne_nil fun c (hc : c ∈ Nat.toDigits 10 n) =>
    Text.isDigit_of_mem_toDigits hc
  unfold whole?
  by_cases hn : n = 0
  · subst hn
    rfl
  · rw [if_neg fun h => Text.head?_toDigits hn h.1, hdigits]

theorem sign_of_isDigit {c : Char} (hc : c.isDigit = true) (s : List Char) :
    sign (c :: s) = (false, c :: s) := by
  unfold sign
  split
  · next heq =>
    obtain ⟨rfl, -⟩ := List.cons.inj heq
    cases hc
  · next heq =>
    obtain ⟨rfl, -⟩ := List.cons.inj heq
    cases hc
  · rfl

theorem unbounded?_toDigits (n : Nat) : unbounded? (Nat.toDigits 10 n) = some (n : Int) := by
  have hall (c : Char) (hc : c ∈ Nat.toDigits 10 n) : c.isDigit = true :=
    Text.isDigit_of_mem_toDigits hc
  have hwhole := whole?_toDigits n
  have hvalue : Nat.ofDigitChars 10 (Nat.toDigits 10 n) 0 = n :=
    Nat.ofDigitChars_ten_toDigits
  obtain ⟨c, s, hs⟩ := List.exists_cons_of_ne_nil (Nat.toDigits_ne_nil (n := n) (b := 10))
  rw [hs] at hall hwhole hvalue ⊢
  have hsecond (d : Char) (r : List Char) (hd : d.isDigit = false) : s ≠ d :: r := by
    rintro rfl
    have hdigit := hall d (by simp)
    rw [hd] at hdigit
    cases hdigit
  unfold unbounded?
  split
  · next heq => exact absurd (List.cons.inj heq).2 (hsecond _ _ rfl)
  · next heq => exact absurd (List.cons.inj heq).2 (hsecond _ _ rfl)
  · next heq => exact absurd (List.cons.inj heq).2 (hsecond _ _ rfl)
  · simp [sign_of_isDigit (hall c (by simp)), hwhole, hvalue, negate]

theorem integer?_of_unbounded? {s : List Char} {i : Int} (h : unbounded? s = some i)
    (hlow : -((1 <<< 127 : Nat) : Int) ≤ i) (hhigh : i < ((1 <<< 128 : Nat) : Int)) :
    integer? s = some i := by
  simp only [integer?, h, Option.bind_eq_bind, Option.bind_some]
  rw [if_pos ⟨hlow, hhigh⟩]

theorem integer?_toDigits {n : Nat} (h : n < 1 <<< 128) :
    integer? (Nat.toDigits 10 n) = some (n : Int) := by
  apply integer?_of_unbounded? (unbounded?_toDigits n)
  · exact (Int.neg_nonpos_of_nonneg (Int.natCast_nonneg _)).trans (Int.natCast_nonneg n)
  · exact Int.ofNat_lt.mpr h

end Numeral

namespace Scalar

-- A word is legible if nothing in it ends a value and it is read as what was written.
theorem legible_of_word? {v : Scalar} {c : Char} {s : List Char} (hv : Document.scalar v = c :: s)
    (hbare : ∀ d ∈ c :: s, Reader.isBare d = true)
    (hstart : c ≠ '"' ∧ c ≠ '\'' ∧ c ≠ '[' ∧ c ≠ '\x7b')
    (hword : Reader.word? (c :: s) = some v) : v.Legible := by
  obtain ⟨hq, hquote, hlist, hinline⟩ := hstart
  intro fuel rest
  have hblank : isBlank c = false := by
    have hc := hbare c List.mem_cons_self
    simp only [Reader.isBare, Bool.not_eq_true', Bool.or_eq_false_iff] at hc
    tauto
  have htake : (c :: (s ++ '\n' :: rest)).takeWhile Reader.isBare = c :: s := by
    rw [← List.cons_append, List.takeWhile_append_of_pos hbare]
    simp [Reader.isBare]
  have hdrop : (c :: (s ++ '\n' :: rest)).dropWhile Reader.isBare = '\n' :: rest := by
    rw [← List.cons_append, List.dropWhile_append_of_pos hbare]
    simp [Reader.isBare]
  have hscalar : Reader.scalar? (c :: (s ++ '\n' :: rest)) = some (v, '\n' :: rest) := by
    simp [Reader.scalar?, Quotes.opening?_of_ne hq hquote, Reader.bare, htake, hdrop, hword]
  rw [hv, List.cons_append, List.cons_append, dropWhile_isBlank hblank]
  exact Reader.tree?_of_scalar? hlist hinline hscalar fuel

theorem legible_bool (b : Bool) : (Scalar.bool b).Legible := by
  cases b
  · exact legible_of_word? rfl (by simp [Reader.isBare, isBlank]) (by decide) rfl
  · exact legible_of_word? rfl (by simp [Reader.isBare, isBlank]) (by decide) rfl

theorem ne_of_isDigit {c d : Char} (hc : c.isDigit = true) (hd : d.isDigit = false) : c ≠ d := by
  rintro rfl
  rw [hc] at hd
  cases hd

theorem legible_integer {n : Nat} (h : n < 1 <<< 128) : (Scalar.integer n).Legible := by
  have hall (c : Char) (hc : c ∈ Nat.toDigits 10 n) : c.isDigit = true :=
    Text.isDigit_of_mem_toDigits hc
  have hinteger := Numeral.integer?_toDigits h
  obtain ⟨c, s, hs⟩ := List.exists_cons_of_ne_nil (Nat.toDigits_ne_nil (n := n) (b := 10))
  rw [hs] at hall hinteger
  have hc : c.isDigit = true := hall c List.mem_cons_self
  refine legible_of_word? hs (fun d hd => ?_) ?_ ?_
  · have hne (e : Char) (he : e.isDigit = false) : d ≠ e := ne_of_isDigit (hall d hd) he
    simp [Reader.isBare, isBlank, hne ' ' rfl, hne '\t' rfl, hne '\n' rfl, hne '\r' rfl,
      hne ',' rfl, hne ']' rfl, hne '\x7d' rfl, hne '#' rfl]
  · exact ⟨ne_of_isDigit hc rfl, ne_of_isDigit hc rfl, ne_of_isDigit hc rfl, ne_of_isDigit hc rfl⟩
  · have htrue : c :: s ≠ ['t', 'r', 'u', 'e'] := fun heq =>
      ne_of_isDigit hc rfl (List.cons.inj heq).1
    have hfalse : c :: s ≠ ['f', 'a', 'l', 's', 'e'] := fun heq =>
      ne_of_isDigit hc rfl (List.cons.inj heq).1
    rw [Reader.word?, if_neg htrue, if_neg hfalse, hinteger]

end Scalar

end BotConsole.Toml
