import BotConsole.Version
import Mathlib.Data.Prod.Lex
import Mathlib.Data.String.Basic
import Mathlib.Order.PiLex
import Mathlib.Order.WithBot

namespace BotConsole.Version

-- The numbers of a version, with zeros behind the last one, in the order of the first difference.
def padded (numbers : List Nat) : Lex (Nat → Nat) :=
  toLex fun i => numbers.getD i 0

@[simp] theorem padded_cons_zero (a : Nat) (as : List Nat) : padded (a :: as) 0 = a := rfl

@[simp] theorem padded_cons_succ (a : Nat) (as : List Nat) (i : Nat) :
    padded (a :: as) (i + 1) = padded as i := rfl

theorem padded_nil_eq_cons : padded [] = padded (0 :: []) := by
  funext i
  cases i <;> rfl

theorem padded_lt_of_head_lt {a b : Nat} (h : a < b) (as bs : List Nat) :
    padded (a :: as) < padded (b :: bs) :=
  ⟨0, fun j hj => absurd hj (Nat.not_lt_zero j), h⟩

theorem padded_cons_lt_cons {as bs : List Nat} (a : Nat) (h : padded as < padded bs) :
    padded (a :: as) < padded (a :: bs) := by
  obtain ⟨i, hbelow, hi⟩ := h
  refine ⟨i + 1, fun j hj => ?_, hi⟩
  cases j with
  | zero => rfl
  | succ j => exact hbelow j (Nat.lt_of_succ_lt_succ hj)

theorem padded_cons_inj {as bs : List Nat} (a : Nat) (h : padded as = padded bs) :
    padded (a :: as) = padded (a :: bs) := by
  funext i
  cases i with
  | zero => rfl
  | succ i => exact congrFun h i

-- Keys of lists of numbers that are ordered by the first difference, where zeros behind the last
-- number make none.
structure FirstDifference {β : Type} [LinearOrder β] (key : List Nat → β) : Prop where
  nil : key [] = key [0]
  head {a b : Nat} (h : a < b) (as bs : List Nat) : key (a :: as) < key (b :: bs)
  tail {as bs : List Nat} (a : Nat) (h : key as < key bs) : key (a :: as) < key (a :: bs)
  same {as bs : List Nat} (a : Nat) (h : key as = key bs) : key (a :: as) = key (a :: bs)

theorem firstDifference_padded : FirstDifference padded where
  nil := padded_nil_eq_cons
  head := padded_lt_of_head_lt
  tail := padded_cons_lt_cons
  same := padded_cons_inj

namespace FirstDifference

variable {β : Type} [LinearOrder β] {key : List Nat → β}

theorem compares_cons (hkey : FirstDifference key) {as bs : List Nat} {o : Ordering} (a b : Nat)
    (h : o.Compares (key as) (key bs)) :
    ((Ord.compare a b).then o).Compares (key (a :: as)) (key (b :: bs)) := by
  rcases Nat.lt_trichotomy a b with hlt | rfl | hgt
  · rw [Nat.compare_eq_lt.mpr hlt]
    exact hkey.head hlt as bs
  · rw [Nat.compare_eq_eq.mpr rfl]
    cases o with
    | lt => exact hkey.tail a h
    | eq => exact hkey.same a h
    | gt => exact hkey.tail a h
  · rw [Nat.compare_eq_gt.mpr hgt]
    exact hkey.head hgt bs as

theorem compares (hkey : FirstDifference key) (as bs : List Nat) :
    (compareSegments as bs).Compares (key as) (key bs) := by
  fun_induction compareSegments as bs with
  | case1 => rfl
  | case2 a as ih =>
    rw [hkey.nil]
    exact hkey.compares_cons a 0 ih
  | case3 b bs ih =>
    rw [hkey.nil]
    exact hkey.compares_cons 0 b ih
  | case4 a as b bs ih => exact hkey.compares_cons a b ih

end FirstDifference

theorem compares_suffix (s t : Option String) :
    (compareSuffix s t).Compares (α := WithTop String) s t := by
  match s, t with
  | none, none => rfl
  | none, some t => exact WithTop.coe_lt_top t
  | some s, none => exact WithTop.coe_lt_top s
  | some s, some t =>
    have h := cmp_compares s t
    rw [cmp_eq_compare] at h
    simp only [compareSuffix]
    generalize Ord.compare s t = o at h ⊢
    cases o with
    | lt => exact WithTop.coe_lt_coe.mpr h
    | eq => exact congrArg _ h
    | gt => exact WithTop.coe_lt_coe.mpr h

-- Where a version stands among all others. Without a suffix it stands above every suffix.
def rank (v : Version) : Lex (Nat → Nat) ×ₗ WithTop String :=
  toLex (padded v.segments, v.suffix)

-- Of pairs the first parts decide, and the second ones where those are the same.
theorem compares_toLex {β γ : Type} [LinearOrder β] [LinearOrder γ] {b b' : β} {c c' : γ}
    {first second : Ordering} (hfirst : first.Compares b b') (hsecond : second.Compares c c') :
    (first.then second).Compares (toLex (b, c)) (toLex (b', c')) := by
  cases first with
  | lt => exact Prod.Lex.toLex_lt_toLex.mpr (.inl hfirst)
  | gt => exact Prod.Lex.toLex_lt_toLex.mpr (.inl hfirst)
  | eq =>
    have heq : b = b' := hfirst
    cases second with
    | lt => exact Prod.Lex.toLex_lt_toLex.mpr (.inr ⟨heq, hsecond⟩)
    | eq => exact congrArg toLex (Prod.ext heq hsecond)
    | gt => exact Prod.Lex.toLex_lt_toLex.mpr (.inr ⟨heq.symm, hsecond⟩)

theorem compares_rank (v w : Version) : (v.compare w).Compares v.rank w.rank :=
  compares_toLex (firstDifference_padded.compares v.segments w.segments)
    (compares_suffix v.suffix w.suffix)

variable {v w : Version}

theorem compare_eq_lt_iff : v.compare w = .lt ↔ v.rank < w.rank := (compares_rank v w).eq_lt

theorem compare_eq_gt_iff : v.compare w = .gt ↔ w.rank < v.rank := (compares_rank v w).eq_gt

theorem compare_eq_eq_iff : v.compare w = .eq ↔ v.rank = w.rank := (compares_rank v w).eq_eq

theorem compare_ne_gt_iff : v.compare w ≠ .gt ↔ v.rank ≤ w.rank := (compares_rank v w).ne_gt

theorem compare_swap (v w : Version) : (v.compare w).swap = w.compare v :=
  (compares_rank v w).swap.inj (compares_rank w v)

theorem compare_congr_left (h : v.compare w = .eq) (u : Version) : v.compare u = w.compare u := by
  have hv := compares_rank v u
  rw [compare_eq_eq_iff.mp h] at hv
  exact hv.inj (compares_rank w u)

theorem compare_congr_right (h : v.compare w = .eq) (u : Version) : u.compare v = u.compare w := by
  rw [← compare_swap v u, ← compare_swap w u, compare_congr_left h]

theorem beq_iff : (v == w) = true ↔ v.compare w = .eq :=
  beq_iff_eq (a := v.compare w) (b := Ordering.eq)

theorem lt_iff : v < w ↔ v.compare w = .lt := Option.some_inj

theorem le_iff : v ≤ w ↔ v.compare w ≠ .gt := by
  show some (v.compare w) = some .lt ∨ some (v.compare w) = some .eq ↔ _
  cases v.compare w <;> simp

theorem isNewer_iff {a b : String} :
    isNewer a b = true ↔ a ≠ "" ∧ b ≠ "" ∧ (parse b).rank < (parse a).rank := by
  rw [← compare_eq_gt_iff]
  simp [isNewer, and_assoc]

theorem isNewer_trans {a b c : String} (h : isNewer a b = true) (h' : isNewer b c = true) :
    isNewer a c = true := by
  obtain ⟨ha, -, hba⟩ := isNewer_iff.mp h
  obtain ⟨-, hc, hcb⟩ := isNewer_iff.mp h'
  exact isNewer_iff.mpr ⟨ha, hc, hcb.trans hba⟩

theorem isNewer_asymm {a b : String} (h : isNewer a b = true) : isNewer b a = false := by
  by_contra hba
  have hlt := (isNewer_iff.mp (Bool.of_not_eq_false hba)).2.2
  exact lt_asymm hlt (isNewer_iff.mp h).2.2

theorem isNewer_congr {a a' : String} (ha : a ≠ "") (ha' : a' ≠ "")
    (h : (parse a).compare (parse a') = .eq) (b : String) :
    isNewer a' b = isNewer a b ∧ isNewer b a' = isNewer b a := by
  have hempty : a.isEmpty = a'.isEmpty := by
    rw [Bool.eq_iff_iff, String.isEmpty_iff, String.isEmpty_iff]
    simp [ha, ha']
  simp only [isNewer, hempty, compare_congr_left h, compare_congr_right h, and_self]

theorem isNewer_trichotomy {a b : String} (ha : a ≠ "") (hb : b ≠ "") :
    [isNewer a b, isNewer b a, parse a == parse b].count true = 1 := by
  have hab : isNewer a b = decide ((parse b).rank < (parse a).rank) := by
    rw [Bool.eq_iff_iff, isNewer_iff]
    simp [ha, hb]
  have hba : isNewer b a = decide ((parse a).rank < (parse b).rank) := by
    rw [Bool.eq_iff_iff, isNewer_iff]
    simp [ha, hb]
  have heq : (parse a == parse b) = decide ((parse a).rank = (parse b).rank) := by
    rw [Bool.eq_iff_iff, beq_iff, compare_eq_eq_iff]
    simp
  rw [hab, hba, heq]
  rcases lt_trichotomy (parse a).rank (parse b).rank with hlt | he | hgt
  · simp [hlt, hlt.not_gt, hlt.ne]
  · simp [he]
  · simp [hgt, hgt.not_gt, hgt.ne']

-- Newer is the strict part of the order on the texts that are not empty; the empty text is
-- neither newer nor older than any.
theorem compare_total_order (u v w : Version) (a b c : String) :
    u.compare v = (v.compare u).swap ∧ u.compare u = .eq ∧
    (u.compare v ≠ .gt → v.compare w ≠ .gt → u.compare w ≠ .gt) ∧
    ((u == v) = true ↔ u.compare v = .eq) ∧ Ord.compare u v = u.compare v ∧
    u.compare? v = some (u.compare v) ∧ (u < v ↔ u.compare v = .lt) ∧
    (u ≤ v ↔ u.compare v ≠ .gt) ∧
    (u.compare v = .eq → u.compare w = v.compare w ∧ w.compare u = w.compare v) ∧
    (a ≠ "" → b ≠ "" → [isNewer a b, isNewer b a, parse a == parse b].count true = 1) ∧
    (isNewer a b = true ↔ a ≠ "" ∧ b ≠ "" ∧ parse b < parse a) ∧
    isNewer a a = false ∧ (isNewer a b = true → isNewer b a = false) ∧
    (isNewer a b = true → isNewer b c = true → isNewer a c = true) := by
  refine ⟨(compare_swap v u).symm, compare_eq_eq_iff.mpr rfl, fun huv hvw => ?_, beq_iff, rfl, rfl,
    lt_iff, le_iff, fun h => ⟨compare_congr_left h w, compare_congr_right h w⟩,
    isNewer_trichotomy, ?_, ?_, isNewer_asymm, isNewer_trans⟩
  · have hle := (compare_ne_gt_iff.mp huv).trans (compare_ne_gt_iff.mp hvw)
    exact compare_ne_gt_iff.mpr hle
  · rw [isNewer_iff, lt_iff, compare_eq_lt_iff]
  · by_contra h
    exact lt_irrefl _ (isNewer_iff.mp (Bool.of_not_eq_false h)).2.2

end BotConsole.Version
