import BotConsole.Proofs.Text.Bytes
import BotConsole.Proofs.Version.Order
import BotConsole.Proofs.Version.Parts
import Mathlib.Data.List.DropRight

namespace BotConsole.Version

open Text

-- The numbers up to the last one that is not zero.
def trimmed (numbers : List Nat) : List Nat :=
  numbers.rdropWhile (· == 0)

theorem trimmed_concat (as : List Nat) (a : Nat) :
    trimmed (as ++ [a]) = if a = 0 then trimmed as else as ++ [a] := by
  rw [trimmed, List.rdropWhile_concat]
  simp only [beq_iff_eq, trimmed]

theorem trimmed_cons (a : Nat) (as : List Nat) :
    trimmed (a :: as) = if a = 0 ∧ trimmed as = [] then [] else a :: trimmed as := by
  induction as using List.reverseRecOn with
  | nil =>
    rw [← List.nil_append [a], trimmed_concat]
    simp [trimmed]
  | append_singleton as b ih =>
    rw [← List.cons_append, trimmed_concat, trimmed_concat]
    by_cases hb : b = 0
    · rw [if_pos hb, if_pos hb, ih]
    · simp [hb]

theorem trimmed_append_zeros (as : List Nat) (n : Nat) :
    trimmed (as ++ List.replicate n 0) = trimmed as := by
  induction n with
  | zero => simp
  | succ n ih => rw [List.replicate_succ', ← List.append_assoc, trimmed_concat, if_pos rfl, ih]

theorem firstDifference_trimmed : FirstDifference trimmed where
  nil := rfl
  head := by
    intro a b hab as bs
    have hb : ¬ (b = 0 ∧ trimmed bs = []) := by omega
    rw [trimmed_cons, trimmed_cons b, if_neg hb]
    split
    · exact List.nil_lt_cons _ _
    · exact List.cons_lt_cons_iff.mpr (.inl hab)
  tail := by
    intro as bs a h
    have hbs : ¬ (a = 0 ∧ trimmed bs = []) := by
      rintro ⟨-, hnil⟩
      rw [hnil] at h
      exact List.not_lt_nil _ h
    rw [trimmed_cons, trimmed_cons a, if_neg hbs]
    split
    · exact List.nil_lt_cons _ _
    · exact List.cons_lt_cons_iff.mpr (.inr ⟨rfl, h⟩)
  same := by
    intro as bs a h
    rw [trimmed_cons, trimmed_cons, h]

-- The bytes of the suffix. No suffix stands above all.
def suffixBytes (v : Version) : WithTop (List Nat) :=
  WithTop.map bytes v.suffix

theorem compares_suffixBytes (v w : Version) :
    (compareSuffix v.suffix w.suffix).Compares v.suffixBytes w.suffixBytes :=
  (StrictMono.compares bytes_strictMono.withTop_map).mpr (compares_suffix v.suffix w.suffix)

theorem cmp_eq_of_compares {β : Type} [LinearOrder β] [DecidableLT β] {o : Ordering} {b c : β}
    (h : o.Compares b c) : cmp b c = o := by
  cases o with
  | lt =>
    have hlt : b < c := h
    simp [cmp, cmpUsing, hlt]
  | eq =>
    obtain rfl : b = c := h
    simp [cmp, cmpUsing]
  | gt =>
    have hgt : c < b := h
    simp [cmp, cmpUsing, hgt, hgt.not_gt]

variable (v w : Version)

-- The comparison that goes on with zeros is the one of the numbers without the zeros at the end.
theorem compare_eq_cmp : v.compare w =
    (cmp (trimmed v.segments) (trimmed w.segments)).then (cmp v.suffixBytes w.suffixBytes) := by
  have hnumbers := firstDifference_trimmed.compares v.segments w.segments
  rw [compare, cmp_eq_of_compares hnumbers, cmp_eq_of_compares (compares_suffixBytes v w)]

theorem compare_eq_eq_iff_trimmed : v.compare w = .eq ↔
    trimmed v.segments = trimmed w.segments ∧ v.suffix = w.suffix := by
  have hnumbers := (firstDifference_trimmed.compares v.segments w.segments).eq_eq
  have hsuffix := (compares_suffix v.suffix w.suffix).eq_eq
  rw [compare, Ordering.then_eq_eq]
  exact and_congr hnumbers hsuffix

def padding (n : Nat) : List Char :=
  (List.replicate n ['.', '0']).flatten

-- Where a number may begin: in front, behind the letter, or behind a dot.
def BeginsNumber (before : List Char) : Prop :=
  before ∈ [[], ['v'], ['V']] ∨ before.getLast? = some '.'

-- Another way to write a version: with a letter in front, with zeros behind its numbers, or with
-- zeros in front of one of them.
inductive Respelled : List Char → List Char → Prop where
  | letter {c : Char} {s : List Char} (hc : c = 'v' ∨ c = 'V') (hs : Letterless s) :
    Respelled s (c :: s)
  | padded {numbers rest : List Char} (n : Nat) (hnumbers : '-' ∉ numbers)
    (hrest : FollowsNumbers rest) : Respelled (numbers ++ rest) (numbers ++ padding n ++ rest)
  | zeros {before digits after : List Char} (n : Nat) (hbefore : '-' ∉ before)
    (hbegin : BeginsNumber before) (hdigits : ∀ c ∈ digits, c.isDigit = true)
    (hafter : ∀ c ∈ after.head?, c = '.' ∨ c = '-') :
    Respelled (before ++ digits ++ after) (before ++ (List.replicate n '0' ++ digits) ++ after)

theorem letterless_padding (n : Nat) : Letterless (padding n) := by
  cases n with
  | zero => nofun
  | succ n =>
    intro c hc
    obtain rfl := Option.some.inj hc
    decide

theorem dash_notMem_padding (n : Nat) : '-' ∉ padding n := by
  simp [padding]

theorem splitOn_append_padding (s : List Char) (n : Nat) :
    splitOn '.' (s ++ padding n) = splitOn '.' s ++ List.replicate n ['0'] := by
  induction n generalizing s with
  | zero => simp [padding]
  | succ n ih =>
    have hstep : s ++ padding (n + 1) = s ++ '.' :: (['0'] ++ padding n) := by
      simp [padding, List.replicate_succ]
    rw [hstep, splitOn_append_cons, ih ['0'], List.replicate_succ]
    rfl

theorem ofChars_padded {numbers rest : List Char} (n : Nat) (hnumbers : '-' ∉ numbers)
    (hrest : FollowsNumbers rest) : ofChars (numbers ++ padding n ++ rest) =
      { ofChars (numbers ++ rest) with
        segments := (ofChars (numbers ++ rest)).segments ++ List.replicate n 0 } := by
  have hpadded : '-' ∉ numbers ++ padding n := by
    simp [hnumbers, dash_notMem_padding]
  have hzero : segmentValue ['0'] = 0 := by decide
  rw [ofChars_append hpadded hrest, ofChars_append hnumbers hrest,
    dropLetter_append _ (letterless_padding n), splitOn_append_padding, List.map_append,
    List.map_replicate, hzero]

theorem BeginsNumber.dropLetter {before : List Char} (h : BeginsNumber before) :
    dropLetter before = [] ∨ ∃ earlier, dropLetter before = earlier ++ ['.'] := by
  rcases h with h | h
  · simp only [List.mem_cons, List.not_mem_nil, or_false] at h
    rcases h with rfl | rfl | rfl <;> exact .inl rfl
  · obtain ⟨earlier, rfl⟩ := List.getLast?_eq_some_iff.mp h
    refine .inr ⟨Version.dropLetter earlier, dropLetter_append _ ?_⟩
    simp [Letterless]

-- A number is a piece of its own wherever it begins and ends as one.
theorem exists_pieces {before after : List Char} (hbegin : BeginsNumber before)
    (hafter : ∀ c ∈ after.head?, c = '.') : ∃ earlier later, ∀ number : List Char, '.' ∉ number →
      splitOn '.' (dropLetter before ++ (number ++ after)) = earlier ++ number :: later := by
  have hbehind : ∃ later, ∀ number : List Char, '.' ∉ number →
      splitOn '.' (number ++ after) = number :: later := by
    cases after with
    | nil => exact ⟨[], fun number hnumber => by rw [List.append_nil, splitOn_of_notMem hnumber]⟩
    | cons c after =>
      obtain rfl := hafter c rfl
      refine ⟨splitOn '.' after, fun number hnumber => ?_⟩
      rw [splitOn_append_cons, splitOn_of_notMem hnumber]
      rfl
  obtain ⟨later, hlater⟩ := hbehind
  rcases hbegin.dropLetter with hnil | ⟨earlier, hdot⟩
  · refine ⟨[], later, fun number hnumber => ?_⟩
    rw [hnil, List.nil_append, List.nil_append, hlater number hnumber]
  · refine ⟨splitOn '.' earlier, later, fun number hnumber => ?_⟩
    rw [hdot, List.append_assoc, List.singleton_append, splitOn_append_cons, hlater number hnumber]

-- Digits in the place of a number make up one segment, and the others do not depend on them.
theorem exists_parts {before after : List Char} (hbefore : '-' ∉ before)
    (hbegin : BeginsNumber before) (hafter : ∀ c ∈ after.head?, c = '.' ∨ c = '-') :
    ∃ earlier later suffix, ∀ digits : List Char, (∀ c ∈ digits, c.isDigit = true) →
      ofChars (before ++ digits ++ after) =
        ⟨(earlier ++ digits :: later).map segmentValue, suffix⟩ := by
  obtain ⟨inner, rest, rfl, hinner, hrest⟩ := exists_numbers after
  have hdot : ∀ c ∈ inner.head?, c = '.' := by
    intro c hc
    have hhead : c ∈ (inner ++ rest).head? := by simp [Option.mem_def.mp hc]
    refine (hafter c hhead).resolve_right ?_
    rintro rfl
    exact hinner (List.mem_of_mem_head? hc)
  obtain ⟨earlier, later, hpieces⟩ := exists_pieces hbegin hdot
  refine ⟨earlier, later, suffixOf rest, fun digits hdigits => ?_⟩
  have hplain : ∀ c : Char, c.isDigit = false → c ∉ digits := by
    intro c hc hmem
    rw [hdigits c hmem] at hc
    cases hc
  have hnumbers : '-' ∉ before ++ (digits ++ inner) := by
    simp [hbefore, hinner, hplain '-' rfl]
  have hletterless : Letterless (digits ++ inner) := by
    intro c hc
    cases digits with
    | nil =>
      rw [hdot c hc]
      decide
    | cons d digits =>
      obtain rfl := Option.some.inj hc
      have hdigit := hdigits d List.mem_cons_self
      refine ⟨?_, ?_⟩
      all_goals
        rintro rfl
        cases hdigit
  have hassoc : before ++ digits ++ (inner ++ rest) = before ++ (digits ++ inner) ++ rest := by
    simp
  rw [hassoc, ofChars_append hnumbers hrest, dropLetter_append _ hletterless,
    hpieces digits (hplain '.' rfl)]

theorem ofChars_zeros {before digits after : List Char} (n : Nat) (hbefore : '-' ∉ before)
    (hbegin : BeginsNumber before) (hdigits : ∀ c ∈ digits, c.isDigit = true)
    (hafter : ∀ c ∈ after.head?, c = '.' ∨ c = '-') :
    ofChars (before ++ (List.replicate n '0' ++ digits) ++ after) =
      ofChars (before ++ digits ++ after) := by
  obtain ⟨earlier, later, suffix, hparts⟩ := exists_parts hbefore hbegin hafter
  rw [hparts digits hdigits, hparts _ (isDigit_of_mem_zeros_append n hdigits), List.map_append,
    List.map_append, List.map_cons, List.map_cons, segmentValue_zeros_append n hdigits]

theorem Respelled.compare_eq {s s' : List Char} (h : Respelled s s') :
    (ofChars s).compare (ofChars s') = .eq := by
  rw [compare_eq_eq_iff_trimmed]
  cases h with
  | @letter c s hc hs =>
    have hdrop : Version.dropLetter (c :: s) = Version.dropLetter s := by
      rw [dropLetter_of_letterless hs]
      rcases hc with rfl | rfl <;> rfl
    simp only [ofChars, hdrop, and_self]
  | padded n hnumbers hrest =>
    rw [ofChars_padded n hnumbers hrest]
    exact ⟨(trimmed_append_zeros _ n).symm, rfl⟩
  | zeros n hbefore hbegin hdigits hafter =>
    rw [ofChars_zeros n hbefore hbegin hdigits hafter]
    exact ⟨rfl, rfl⟩

theorem Respelled.ne_nil {s s' : List Char} (h : Respelled s s') (hs : s ≠ []) : s' ≠ [] := by
  cases h with
  | letter => exact List.cons_ne_nil _ _
  | padded n => simp_all
  | zeros n => simp_all

-- Versions compare as their numbers without the zeros at the end do, by the first difference, and
-- then as the bytes of their suffixes do, where no suffix stands above all.
theorem compares_canonical_forms (a b a' : String) :
    (parse a).compare (parse b) =
      (cmp (trimmed (parse a).segments) (trimmed (parse b).segments)).then
        (cmp (parse a).suffixBytes (parse b).suffixBytes) ∧
    ((parse a).compare (parse b) = .eq ↔ trimmed (parse a).segments = trimmed (parse b).segments ∧
      (parse a).suffix = (parse b).suffix) ∧
    (Respelled a.toList a'.toList →
      (parse a').compare (parse b) = (parse a).compare (parse b) ∧
      (parse b).compare (parse a') = (parse b).compare (parse a) ∧
      (a ≠ "" → isNewer a' b = isNewer a b ∧ isNewer b a' = isNewer b a)) := by
  refine ⟨compare_eq_cmp _ _, compare_eq_eq_iff_trimmed _ _, fun h => ?_⟩
  have hequal : (parse a).compare (parse a') = .eq := h.compare_eq
  refine ⟨(compare_congr_left hequal _).symm, (compare_congr_right hequal _).symm, fun ha => ?_⟩
  have ha' : a' ≠ "" := by
    have hnil := h.ne_nil (by simpa using ha)
    simpa using hnil
  exact isNewer_congr ha ha' hequal b

theorem compares_canonical_forms_padded :
    Respelled "v1.2-rc.9".toList "v1.2.0.0-rc.9".toList ∧ "v1.2-rc.9" ≠ "" ∧
    isNewer "1.2.0.1-rc" "v1.2.0.0-rc.9" = true ∧ isNewer "V1.2-rc.10" "v1.2.0.0-rc.9" = false := by
  have hnumbers : '-' ∉ "v1.2".toList := by decide
  have hrest : FollowsNumbers "-rc.9".toList := by
    intro c hc
    exact (Option.some.inj hc).symm
  have h : Respelled "v1.2-rc.9".toList "v1.2.0.0-rc.9".toList := .padded 2 hnumbers hrest
  have hne : "v1.2-rc.9" ≠ "" := by decide
  refine ⟨h, hne, ?_, ?_⟩
  · obtain ⟨-, -, hrespelled⟩ := compares_canonical_forms "v1.2-rc.9" "1.2.0.1-rc" "v1.2.0.0-rc.9"
    rw [((hrespelled h).2.2 hne).2, isNewer, compare_eq_cmp]
    decide
  · obtain ⟨-, -, hrespelled⟩ := compares_canonical_forms "v1.2-rc.9" "V1.2-rc.10" "v1.2.0.0-rc.9"
    rw [((hrespelled h).2.2 hne).2, isNewer, compare_eq_cmp]
    decide

end BotConsole.Version
