import BotConsole.Toml.Quoted
import Mathlib.Data.List.TakeWhile
import Mathlib.Order.Lattice.Nat

namespace BotConsole.Toml.Quotes

variable {q : Quotes} {s b rest : List Char} {c : Char}

-- A way to write a text between the quotes: its characters as they are, the marks in no longer
-- runs than may stand there, and escapes where there are any.
inductive Spells (q : Quotes) : List Char → List Char → Prop where
  | nil : Spells q [] []
  | plain {c : Char} {s b : List Char} (hmark : c ≠ q.mark)
      (hescape : q.escapes = true → c ≠ '\\')
      (hplain : isPlain c = true ∨ q.isLong = true ∧ c = '\n') (h : Spells q s b) :
      Spells q (c :: s) (c :: b)
  | mark {s b : List Char}
      (hrun : ((q.mark :: b).takeWhile (· == q.mark)).length ≤ q.maxRun) (h : Spells q s b) :
      Spells q (q.mark :: s) (q.mark :: b)
  | escape {c : Char} {e s b : List Char} (hescapes : q.escapes = true)
      (he : ∀ t, q.escape? (e ++ t) = some ([c], e.length)) (h : Spells q s b) :
      Spells q (c :: s) ('\\' :: (e ++ b))

theorem takeWhile_replicate_append {n : Nat} {m : Char} {t : List Char} (ht : t.head? ≠ some m) :
    (List.replicate n m ++ t).takeWhile (· == m) = List.replicate n m := by
  rw [List.takeWhile_append_of_pos (by simp)]
  cases t with
  | nil => simp
  | cons d t =>
    have hd : d ≠ m := by simpa using ht
    simp [hd]

theorem exists_run (m : Char) (t : List Char) :
    ∃ u, t = List.replicate (t.takeWhile (· == m)).length m ++ u ∧ u.head? ≠ some m := by
  have hrun : t.takeWhile (· == m) = List.replicate (t.takeWhile (· == m)).length m :=
    List.eq_replicate_of_mem fun c hc => by simpa using List.mem_takeWhile_imp hc
  refine ⟨t.dropWhile (· == m), ?_, ?_⟩
  · rw [← hrun, List.takeWhile_append_dropWhile]
  · intro hhead
    have hnot := List.head?_dropWhile_not (· == m) t
    simp [hhead] at hnot

theorem maxRun_lt_length_delimiter (q : Quotes) : q.maxRun < q.delimiter.length := by
  cases q <;> decide

theorem delimiter_eq (q : Quotes) :
    q.delimiter = List.replicate q.delimiter.length q.mark := by
  cases q <;> rfl

-- Fewer marks than it takes do not close the text.
theorem closing?_of_run {j : Nat} {t : List Char} (hj : j ≤ q.maxRun)
    (ht : t.head? ≠ some q.mark) : q.closing? (List.replicate j q.mark ++ t) = none := by
  have hlt := q.maxRun_lt_length_delimiter
  unfold closing?
  rw [takeWhile_replicate_append ht, List.length_replicate, if_pos (by omega)]

-- The marks in front of the closing ones belong to the text.
theorem closing?_of_end {j : Nat} (hj : j ≤ q.maxRun) (hrest : rest.head? ≠ some q.mark) :
    q.closing? (List.replicate j q.mark ++ (q.delimiter ++ rest)) =
      some (List.replicate j q.mark, rest) := by
  have hall : List.replicate j q.mark ++ (q.delimiter ++ rest) =
      List.replicate (j + q.delimiter.length) q.mark ++ rest := by
    rw [List.replicate_add, ← delimiter_eq, List.append_assoc]
  have hkept : (if q.isLong then min (j + q.delimiter.length - 3) 2 else 0) = j := by
    cases q <;> simp_all [maxRun, isLong, delimiter]
  unfold closing?
  rw [hall, takeWhile_replicate_append hrest, List.length_replicate, if_neg (by omega)]
  simp only [hkept]
  rw [List.drop_left' (by simp)]

theorem closing?_of_ne {t : List Char} (hc : c ≠ q.mark) : q.closing? (c :: t) = none :=
  closing?_of_run (Nat.zero_le _) (by simpa using hc)

theorem scan?_of_closing {t : List Char} {found : List Char × List Char}
    (h : q.closing? t = some found) : q.scan? 0 t = some found := by
  cases t with
  | nil =>
    have hnone : q.closing? [] = none := by cases q <;> rfl
    rw [hnone] at h
    cases h
  | cons c t => simp only [scan?, h]

theorem scan?_of_plain {t : List Char} (hclosing : q.closing? (c :: t) = none)
    (hescape : q.escapes = true → c ≠ '\\')
    (hplain : isPlain c = true ∨ q.isLong = true ∧ c = '\n') :
    q.scan? 0 (c :: t) = (q.scan? 0 t).map fun (text, rest) => (c :: text, rest) := by
  have hno : (q.escapes && c == '\\') = false := by
    cases hq : q.escapes with
    | false => rfl
    | true => simpa using hescape hq
  have hallows : q.allows c t = true := by
    rcases hplain with hplain | ⟨hlong, rfl⟩
    · simp [allows, hplain]
    · simp [allows, hlong]
  simp [scan?, hclosing, hno, hallows]

theorem scan?_skip (e t : List Char) : q.scan? e.length (e ++ t) = q.scan? 0 t := by
  induction e with
  | nil => rfl
  | cons c e ih => simpa [scan?] using ih

theorem scan?_of_escape {e t : List Char} (hescapes : q.escapes = true)
    (he : q.escape? (e ++ t) = some ([c], e.length)) :
    q.scan? 0 ('\\' :: (e ++ t)) = (q.scan? 0 t).map fun (text, rest) => (c :: text, rest) := by
  have hmark : '\\' ≠ q.mark := by cases q <;> decide
  simp [scan?, closing?_of_ne hmark, hescapes, he, scan?_skip]

namespace Spells

theorem eq_of_marks (h : q.Spells s b) (hb : ∀ c ∈ b, c = q.mark) : s = b := by
  induction h with
  | nil => rfl
  | plain hmark _ _ _ _ => exact absurd (hb _ List.mem_cons_self) hmark
  | mark _ _ ih => rw [ih fun c hc => hb c (List.mem_cons_of_mem _ hc)]
  | escape _ _ _ _ =>
    have hmark : '\\' ≠ q.mark := by cases q <;> decide
    exact absurd (hb _ List.mem_cons_self) hmark

-- A text is read back from any spelling of it.
theorem scan?_eq (h : q.Spells s b) (hrest : rest.head? ≠ some q.mark) :
    q.scan? 0 (b ++ (q.delimiter ++ rest)) = some (s, rest) := by
  induction h with
  | nil => exact scan?_of_closing (closing?_of_end (Nat.zero_le _) hrest)
  | plain hmark hescape hplain _ ih =>
    rw [List.cons_append, scan?_of_plain (closing?_of_ne hmark) hescape hplain, ih]
    rfl
  | @mark s b hrun h ih =>
    -- the run of marks that begins here either ends the text or is too short to
    obtain ⟨u, hu, hhead⟩ := exists_run q.mark (q.mark :: b)
    generalize ((q.mark :: b).takeWhile (· == q.mark)).length = j at hrun hu
    cases u with
    | nil =>
      rw [List.append_nil] at hu
      have hsame : s = b := h.eq_of_marks fun c hc =>
        List.eq_of_mem_replicate (hu ▸ List.mem_cons_of_mem _ hc)
      have hend := scan?_of_closing (closing?_of_end hrun hrest)
      rw [← hu] at hend
      rw [hend, hsame]
    | cons d u =>
      have hclosing : q.closing? (q.mark :: b ++ (q.delimiter ++ rest)) = none := by
        rw [hu, List.append_assoc]
        exact closing?_of_run hrun (by simpa using hhead)
      have hescape : q.escapes = true → q.mark ≠ '\\' := fun _ => by cases q <;> decide
      have hplain : isPlain q.mark = true := by cases q <;> rfl
      rw [List.cons_append] at hclosing ⊢
      rw [scan?_of_plain hclosing hescape (.inl hplain), ih]
      rfl
  | escape hescapes he _ ih =>
    rw [List.cons_append, List.append_assoc, scan?_of_escape hescapes (he _), ih]
    rfl

theorem dropFirstBreak_cons {t : List Char} (hn : c ≠ '\n') (hr : c ≠ '\r') :
    dropFirstBreak (c :: t) = c :: t := by
  unfold dropFirstBreak
  split
  · rename_i heq
    exact absurd (List.cons.inj heq).1 hn
  · rename_i heq
    exact absurd (List.cons.inj heq).1 hr
  · rfl

-- A text on one line is not spelled with a line break in front.
theorem dropFirstBreak_eq (h : q.Spells s b) (hline : '\n' ∉ s) :
    dropFirstBreak (b ++ (q.delimiter ++ rest)) = b ++ (q.delimiter ++ rest) := by
  cases h with
  | nil => cases q <;> rfl
  | @plain c s b _ _ hplain _ =>
    have hn : c ≠ '\n' := fun hc => hline (hc ▸ List.mem_cons_self)
    have hr : c ≠ '\r' := by
      rintro rfl
      rcases hplain with hplain | ⟨-, hc⟩
      · cases hplain
      · cases hc
    exact dropFirstBreak_cons hn hr
  | mark _ _ => cases q <;> rfl
  | escape _ _ _ => rfl

end Spells

theorem hexValue?_numberEscape {n : Nat} (h : n < 0x20 ∨ n = 0x7f) :
    Text.hexValue? ['0', '0', (Nat.digitChar (n / 16)).toUpper, (Nat.digitChar (n % 16)).toUpper] =
      some n := by
  have hall : ∀ n < 0x80, (n < 0x20 ∨ n = 0x7f) → Text.hexValue? ['0', '0',
      (Nat.digitChar (n / 16)).toUpper, (Nat.digitChar (n % 16)).toUpper] = some n := by
    decide
  exact hall n (by omega) h

theorem escape?_numberEscape (q : Quotes) (hc : isControl c = true) :
    ∃ e, numberEscape c = '\\' :: e ∧ ∀ t, q.escape? (e ++ t) = some ([c], e.length) := by
  have hn : c.toNat < 0x20 ∨ c.toNat = 0x7f := by
    simp only [isControl, Bool.or_eq_true, decide_eq_true_eq, beq_iff_eq] at hc
    rcases hc with hc | rfl
    · exact .inl hc
    · exact .inr rfl
  have hvalid : c.toNat.isValidChar := c.valid
  refine ⟨_, rfl, fun t => ?_⟩
  simp [escape?, digitCount?, numbered?, hexValue?_numberEscape hn, hvalid]

theorem escape?_of_escapeOf? {e : List Char} (h : q.escapeOf? c = some e) :
    ∃ e', e = '\\' :: e' ∧ ∀ t, q.escape? (e' ++ t) = some ([c], e'.length) := by
  unfold escapeOf? at h
  split at h
  case h_3 =>
    split at h
    · cases h
    · cases h
      exact ⟨_, rfl, fun t => rfl⟩
  case h_7 =>
    split at h
    · rename_i hc
      cases h
      exact escape?_numberEscape q hc
    · cases h
  all_goals
    cases h
    exact ⟨_, rfl, fun t => rfl⟩

theorem plain_of_escapeOf? (h : q.escapeOf? c = none) :
    c ≠ '\\' ∧ (isPlain c = true ∨ q.isLong = true ∧ c = '\n') := by
  unfold escapeOf? at h
  split at h
  case h_3 =>
    split at h
    · rename_i hlong
      exact ⟨by decide, .inr ⟨hlong, rfl⟩⟩
    · cases h
  case h_7 hslash =>
    split at h
    · cases h
    · rename_i hc
      exact ⟨hslash, .inl (by simp [isPlain, hc])⟩
  all_goals cases h

theorem takeWhile_escaped (q : Quotes) (s : List Char) {run : Nat} (hrun : run ≤ q.maxRun) :
    run + ((q.escaped run s).takeWhile (· == '"')).length ≤ q.maxRun := by
  induction s generalizing run with
  | nil => simpa [escaped] using hrun
  | cons c s ih =>
    rw [escaped]
    split
    · rename_i e he
      obtain ⟨e', rfl, -⟩ := escape?_of_escapeOf? he
      simpa using hrun
    · split
      · rename_i hc
        simpa [hc] using hrun
      · rename_i hc
        split
        · rename_i hlt
          have hnext : run + 1 + _ ≤ q.maxRun := ih hlt
          rw [not_not.mp hc, List.takeWhile_cons_of_pos (by simp), List.length_cons]
          omega
        · simpa using hrun

theorem spells_escaped (hq : q.escapes = true) (s : List Char) {run : Nat} (hrun : run ≤ q.maxRun) :
    q.Spells s (q.escaped run s) := by
  have hmark : q.mark = '"' := by simpa [escapes] using hq
  induction s generalizing run with
  | nil => exact .nil
  | cons c s ih =>
    have hlen := q.takeWhile_escaped (c :: s) hrun
    rw [escaped] at hlen ⊢
    split
    · rename_i e he
      obtain ⟨e', rfl, hread⟩ := escape?_of_escapeOf? he
      exact .escape hq hread (ih (Nat.zero_le _))
    · rename_i hnone
      obtain ⟨hslash, hplain⟩ := plain_of_escapeOf? hnone
      split
      · rename_i hc
        exact .plain (hmark ▸ hc) (fun _ => hslash) hplain (ih (Nat.zero_le _))
      · rename_i hc
        obtain rfl := not_not.mp hc
        split
        · rename_i hlt
          have hnext : q.Spells s (q.escaped (run + 1) s) := ih hlt
          simp only [hnone, ne_eq, not_true_eq_false, if_false, hlt, if_true] at hlen
          have hspelled : q.Spells (q.mark :: s) (q.mark :: q.escaped (run + 1) s) :=
            .mark (by rw [hmark]; omega) hnext
          rwa [hmark] at hspelled
        · exact .escape (e := ['"']) hq (fun _ => rfl) (ih (Nat.zero_le _))

theorem le_longestRun (m : Char) (s : List Char) (run : Nat) :
    run + (s.takeWhile (· == m)).length ≤ longestRun m run s := by
  induction s generalizing run with
  | nil => simp [longestRun]
  | cons c s ih =>
    by_cases hc : c = m
    · have hnext := ih (run + 1)
      simp only [hc, longestRun, if_true, List.takeWhile_cons, beq_self_eq_true, List.length_cons]
      omega
    · simp [longestRun, hc]

theorem longestRun_mono (m : Char) (s : List Char) {run run' : Nat} (h : run ≤ run') :
    longestRun m run s ≤ longestRun m run' s := by
  induction s generalizing run run' with
  | nil => exact h
  | cons c s ih =>
    rw [longestRun, longestRun]
    split
    · exact ih (Nat.succ_le_succ h)
    · exact max_le_max_right _ h

theorem longestRun_tail_le (m c : Char) (s : List Char) :
    longestRun m 0 s ≤ longestRun m 0 (c :: s) := by
  rw [longestRun]
  split
  · exact longestRun_mono m s (Nat.zero_le _)
  · exact le_max_right _ _

theorem spells_self (hq : q.escapes = false)
    (hplain : ∀ c ∈ s, isPlain c = true ∨ q.isLong = true ∧ c = '\n')
    (hrun : longestRun q.mark 0 s ≤ q.maxRun) : q.Spells s s := by
  induction s with
  | nil => exact .nil
  | cons c s ih =>
    have htail : q.Spells s s := ih (fun d hd => hplain d (List.mem_cons_of_mem _ hd))
      ((longestRun_tail_le _ c s).trans hrun)
    by_cases hc : c = q.mark
    · subst hc
      have hlen := le_longestRun q.mark (q.mark :: s) 0
      exact .mark (by omega) htail
    · have hescape : q.escapes = true → c ≠ '\\' := by simp [hq]
      exact .plain hc hescape (hplain c List.mem_cons_self) htail

-- A text can stand between the quotes: they have escapes, or it needs none.
def Fits (q : Quotes) (s : List Char) : Prop :=
  q.escapes = true ∨ (∀ c ∈ s, isPlain c = true ∨ q.isLong = true ∧ c = '\n') ∧
    longestRun q.mark 0 s ≤ q.maxRun

def spelling (q : Quotes) (s : List Char) : List Char :=
  if q.escapes then q.escaped 0 s else s

theorem spells_spelling (h : q.Fits s) : q.Spells s (q.spelling s) := by
  unfold spelling
  split
  · rename_i hq
    exact spells_escaped hq s (Nat.zero_le _)
  · rename_i hq
    obtain ⟨hplain, hrun⟩ := h.resolve_left hq
    exact spells_self (by simpa using hq) hplain hrun

-- The line break that a text of several lines begins with.
def lead (q : Quotes) (s : List Char) : List Char :=
  if q.isLong && !isOneLine s then ['\n'] else []

theorem enclose_append (q : Quotes) (s rest : List Char) :
    q.enclose s ++ rest = q.delimiter ++ (q.lead s ++ (q.spelling s ++ (q.delimiter ++ rest))) := by
  simp [enclose, lead, spelling]

theorem body?_enclose (h : q.Fits s) (hrest : rest.head? ≠ some q.mark) :
    q.body? (q.lead s ++ (q.spelling s ++ (q.delimiter ++ rest))) = some (s, rest) := by
  have hspells := spells_spelling h
  have hscan := hspells.scan?_eq hrest
  unfold body? lead
  cases hlong : q.isLong with
  | false => simpa using hscan
  | true =>
    cases hline : isOneLine s with
    | false => simpa [dropFirstBreak] using hscan
    | true =>
      have hbreak : '\n' ∉ s := by simpa [isOneLine] using hline
      simpa [hspells.dropFirstBreak_eq hbreak] using hscan

-- Single quotes are not taken for threefold ones.
theorem Spells.ne_marks (h : q.Spells s b) (hlong : q.isLong = false)
    (hrest : rest.head? ≠ some q.mark) (t : List Char) :
    b ++ (q.delimiter ++ rest) ≠ q.mark :: q.mark :: t := by
  have hmax : q.maxRun = 0 := by simp [maxRun, hlong]
  have hdelimiter : q.delimiter = [q.mark] := by simp [delimiter, hlong]
  cases h with
  | nil =>
    rintro heq
    rw [hdelimiter, List.nil_append, List.singleton_append, List.cons.injEq] at heq
    simp [heq.2] at hrest
  | plain hmark _ _ _ => exact fun heq => hmark (List.cons.inj heq).1
  | mark hrun _ => simp [hmax] at hrun
  | escape hescapes _ _ =>
    intro heq
    have hmark : '\\' ≠ q.mark := by cases q <;> decide
    exact hmark (List.cons.inj heq).1

theorem opening?_enclose (h : q.Fits s) (hrest : rest.head? ≠ some q.mark) :
    opening? (q.enclose s ++ rest) = some q := by
  have hspells := spells_spelling h
  rw [enclose_append]
  cases q with
  | longBasic | longVerbatim => rfl
  | basic | verbatim =>
    have hne := hspells.ne_marks rfl hrest
    simp only [delimiter, lead, isLong, mark, Bool.false_and, Bool.false_eq_true, if_false,
      List.singleton_append, List.nil_append] at hne ⊢
    unfold opening?
    split
    all_goals simp_all

theorem plain_of_needsEscape (h : needsEscape s = false) (hc : c ∈ s) :
    isPlain c = true ∨ c = '\n' := by
  have hno : ¬ (isControl c && c != '\n' && c != '\t') = true := by
    simp only [needsEscape, List.any_eq_false] at h
    exact h c hc
  by_cases hn : c = '\n'
  · exact .inr hn
  · by_cases ht : c = '\t'
    · exact .inl (by simp [isPlain, ht])
    · exact .inl (by simpa [isPlain, hn, ht] using hno)

theorem longestRun_of_notMem {m : Char} (h : m ∉ s) : longestRun m 0 s = 0 := by
  induction s with
  | nil => rfl
  | cons c s ih =>
    have hc : c ≠ m := fun hc => h (hc ▸ List.mem_cons_self)
    rw [longestRun, if_neg hc, ih fun hm => h (List.mem_cons_of_mem _ hm)]
    rfl

theorem fits_verbatim (hescape : needsEscape s = false) (hline : s.contains '\n' = false)
    (hmark : s.contains '\'' = false) : verbatim.Fits s := by
  have hline : '\n' ∉ s := by simpa using hline
  have hmark : '\'' ∉ s := by simpa using hmark
  refine .inr ⟨fun c hc => ?_, ?_⟩
  · rcases plain_of_needsEscape hescape hc with hplain | rfl
    · exact .inl hplain
    · exact absurd hc hline
  · exact (longestRun_of_notMem hmark).le

theorem fits_forText (s : List Char) : (forText s).Fits s := by
  unfold forText
  dsimp only
  split
  · exact .inl rfl
  · split
    · rename_i h
      simp only [isOneLine, Bool.and_eq_true, Bool.not_eq_true'] at h
      exact fits_verbatim h.1.2 h.1.1 h.2
    · split
      · exact .inl rfl
      · split
        · rename_i h
          simp only [Bool.and_eq_true, Bool.not_eq_true', decide_eq_true_eq] at h
          refine .inr ⟨fun c hc => ?_, h.2⟩
          exact (plain_of_needsEscape h.1 hc).imp_right fun hn => ⟨rfl, hn⟩
        · split <;> exact .inl rfl

theorem fits_forName (s : List Char) : (forName s).Fits s := by
  unfold forName
  dsimp only
  split
  · exact .inl rfl
  · split
    · rename_i h
      simp only [isOneLine, Bool.and_eq_true, Bool.not_eq_true', Bool.or_eq_false_iff,
        Bool.not_not] at h
      exact fits_verbatim h.1.1 h.1.2 h.2
    · exact .inl rfl

theorem isLong_forName (s : List Char) : (forName s).isLong = false := by
  unfold forName
  dsimp only
  split
  · rfl
  · split <;> rfl

end BotConsole.Toml.Quotes
