import BotConsole.Text.Split
import Mathlib.Data.List.Infix

namespace BotConsole.Text

variable {α : Type} {mark new s t : List α} {c : α}

-- What does not contain a character stands before it or behind it.
theorem infix_of_infix_append_cons (hc : c ∉ mark) (h : mark <:+: s ++ c :: t) :
    mark <:+: s ∨ mark <:+: t := by
  obtain ⟨before, behind, heq⟩ := h
  rw [List.append_assoc] at heq
  rcases List.append_eq_append_iff.mp heq with ⟨rest, hs, hrest⟩ | ⟨rest, hbefore, hrest⟩
  · rcases List.append_eq_append_iff.mp hrest with ⟨tail, htail, -⟩ | ⟨tail, hmark, htail⟩
    · exact .inl ⟨before, tail, by rw [hs, htail, List.append_assoc]⟩
    · cases tail with
      | nil => exact .inl ⟨before, [], by simp [hs, hmark]⟩
      | cons d tail =>
        obtain ⟨rfl, -⟩ := List.cons.inj htail
        exact absurd (by simp [hmark]) hc
  · cases rest with
    | nil =>
      cases mark with
      | nil => exact .inl List.nil_infix
      | cons d mark =>
        obtain ⟨rfl, -⟩ := List.cons.inj hrest
        exact absurd List.mem_cons_self hc
    | cons d rest =>
      rw [List.cons_append] at hrest
      obtain ⟨-, ht⟩ := List.cons.inj hrest
      exact .inr ⟨rest, behind, by rw [ht, List.append_assoc]⟩

-- A text that shares no character with the mark keeps apart what stands around it.
theorem infix_of_infix_append_append (hne : new ≠ []) (hnew : ∀ c ∈ new, c ∉ mark)
    (h : mark <:+: s ++ (new ++ t)) : mark <:+: s ∨ mark <:+: t := by
  induction new generalizing s with
  | nil => exact absurd rfl hne
  | cons c new ih =>
    rcases infix_of_infix_append_cons (hnew c List.mem_cons_self) h with hs | hrest
    · exact .inl hs
    · cases new with
      | nil => exact .inr hrest
      | cons d new =>
        have hdisjoint : ∀ e ∈ d :: new, e ∉ mark := fun e he => hnew e (List.mem_cons_of_mem _ he)
        rcases ih (s := []) (List.cons_ne_nil d new) hdisjoint hrest with hnone | ht
        · obtain rfl := List.eq_nil_of_infix_nil hnone
          exact .inl List.nil_infix
        · exact .inr ht

variable {pieces : List (List α)}

theorem not_infix_joinWith (hmark : mark ≠ []) (hne : new ≠ []) (hnew : ∀ c ∈ new, c ∉ mark)
    (hpieces : ∀ piece ∈ pieces, ¬ mark <:+: piece) : ¬ mark <:+: joinWith new pieces := by
  induction pieces with
  | nil => exact fun h => hmark (List.eq_nil_of_infix_nil h)
  | cons piece rest ih =>
    have hpiece := hpieces piece List.mem_cons_self
    cases rest with
    | nil => exact hpiece
    | cons next rest =>
      intro h
      rw [joinWith_cons_cons, List.append_assoc] at h
      rcases infix_of_infix_append_append hne hnew h with h | h
      · exact hpiece h
      · exact ih (fun p hp => hpieces p (List.mem_cons_of_mem _ hp)) h

theorem exists_length_joinWith (pieces : List (List α)) : ∃ n, ∀ sep : List α,
    (joinWith sep pieces).length = n + (pieces.length - 1) * sep.length := by
  induction pieces with
  | nil => exact ⟨0, fun sep => by simp [joinWith]⟩
  | cons piece rest ih =>
    cases rest with
    | nil => exact ⟨piece.length, fun sep => by simp [joinWith]⟩
    | cons next rest =>
      obtain ⟨n, hn⟩ := ih
      refine ⟨piece.length + n, fun sep => ?_⟩
      rw [joinWith_cons_cons, List.length_append, List.length_append, hn]
      simp only [List.length_cons, Nat.add_sub_cancel, Nat.add_mul, Nat.one_mul]
      omega

theorem eq_of_joinWith_eq {sep sep' : List α} (htwo : 2 ≤ pieces.length)
    (h : joinWith sep pieces = joinWith sep' pieces) : sep = sep' := by
  obtain ⟨n, hn⟩ := exists_length_joinWith pieces
  have hlength := congrArg List.length h
  rw [hn, hn] at hlength
  have hsame : sep.length = sep'.length :=
    Nat.eq_of_mul_eq_mul_left (by omega) (Nat.add_left_cancel hlength)
  cases pieces with
  | nil => cases htwo
  | cons piece rest =>
    cases rest with
    | nil => simp at htwo
    | cons next rest =>
      rw [joinWith_cons_cons, joinWith_cons_cons, List.append_assoc, List.append_assoc] at h
      exact (List.append_inj (List.append_cancel_left h) hsame).1

variable [DecidableEq α]

theorem occurs_iff : occurs mark s = true ↔ mark <:+: s := by
  induction s with
  | nil => cases mark <;> simp [occurs]
  | cons c s ih => rw [occurs, Bool.or_eq_true, List.isPrefixOf_iff_prefix, ih, List.infix_cons_iff]

theorem replaceAll_go (skip : Nat) (s : List α) :
    replaceAll.go mark new skip s = replaceAll mark new (s.drop skip) := by
  induction s generalizing skip with
  | nil => cases skip <;> rfl
  | cons c s ih =>
    cases skip with
    | zero => rfl
    | succ skip => exact ih skip

theorem replaceAll_append (hmark : mark ≠ []) (s : List α) :
    replaceAll mark new (mark ++ s) = new ++ replaceAll mark new s := by
  cases mark with
  | nil => exact absurd rfl hmark
  | cons c mark =>
    have hhere : (c :: mark) ≠ [] ∧ (c :: mark).isPrefixOf (c :: (mark ++ s)) = true :=
      ⟨hmark, List.isPrefixOf_iff_prefix.mpr ⟨s, rfl⟩⟩
    rw [List.cons_append, replaceAll, replaceAll.go, if_pos hhere, replaceAll_go]
    simp

theorem replaceAll_cons (h : ¬ mark <+: c :: s) :
    replaceAll mark new (c :: s) = c :: replaceAll mark new s := by
  rw [replaceAll, replaceAll.go, if_neg fun hhere => h (List.isPrefixOf_iff_prefix.mp hhere.2)]
  rfl

theorem replaceAll_of_not_infix (h : ¬ mark <:+: s) : replaceAll mark new s = s := by
  induction s with
  | nil => rfl
  | cons c s ih =>
    have hhere : ¬ mark <+: c :: s := fun hprefix => h hprefix.isInfix
    have hrest : ¬ mark <:+: s := fun hinfix => h (List.infix_cons hinfix)
    rw [replaceAll_cons hhere, ih hrest]

-- Replacing a mark is cutting the text at its occurrences and joining the pieces with what comes in
-- its place. The pieces are the same whatever comes there.
theorem exists_pieces (hmark : mark ≠ []) (s : List α) : ∃ pieces : List (List α),
    joinWith mark pieces = s ∧ (∀ piece ∈ pieces, ¬ mark <:+: piece) ∧
    ∀ new, replaceAll mark new s = joinWith new pieces := by
  suffices h : ∃ piece rest, joinWith mark (piece :: rest) = s ∧
      (∀ p ∈ piece :: rest, ¬ mark <:+: p) ∧
      ∀ new, replaceAll mark new s = joinWith new (piece :: rest) by
    obtain ⟨piece, rest, h⟩ := h
    exact ⟨piece :: rest, h⟩
  induction hn : s.length using Nat.strong_induction_on generalizing s with
  | _ n ih =>
    by_cases hhere : mark <+: s
    · obtain ⟨t, rfl⟩ := hhere
      have hshorter : t.length < n := by
        have := List.length_pos_of_ne_nil hmark
        rw [← hn, List.length_append]
        omega
      obtain ⟨piece, rest, hjoin, hfree, hreplace⟩ := ih _ hshorter t rfl
      refine ⟨[], piece :: rest, ?_, ?_, fun new => ?_⟩
      · rw [joinWith_cons_cons, hjoin, List.nil_append]
      · intro p hp
        rcases List.mem_cons.mp hp with rfl | hp
        · exact fun h => hmark (List.eq_nil_of_infix_nil h)
        · exact hfree p hp
      · rw [replaceAll_append hmark, hreplace, joinWith_cons_cons, List.nil_append]
    · cases s with
      | nil => exact ⟨[], [], rfl, by simpa using hmark, fun new => rfl⟩
      | cons c s =>
        obtain ⟨piece, rest, hjoin, hfree, hreplace⟩ := ih s.length (by simp [← hn]) s rfl
        have hcons (sep : List α) :
            joinWith sep ((c :: piece) :: rest) = c :: joinWith sep (piece :: rest) := by
          cases rest <;> simp [joinWith]
        refine ⟨c :: piece, rest, by rw [hcons, hjoin], ?_, fun new => ?_⟩
        · intro p hp
          rcases List.mem_cons.mp hp with rfl | hp
          · intro hinside
            rcases List.infix_cons_iff.mp hinside with hprefix | hinside
            -- A mark at the front of the piece would be one at the front of the text.
            · apply hhere
              have hpiece : piece <+: s := by
                rw [← hjoin]
                cases rest with
                | nil => exact List.prefix_rfl
                | cons next rest => exact ⟨_, by rw [joinWith_cons_cons, List.append_assoc]⟩
              exact hprefix.trans (List.cons_prefix_cons.mpr ⟨rfl, hpiece⟩)
            · exact hfree piece List.mem_cons_self hinside
          · exact hfree p (List.mem_cons_of_mem _ hp)
        · rw [replaceAll_cons hhere, hreplace, hcons]

-- Neither the mark nor what comes in its place begins with the character.
theorem head?_replaceAll (hmark : mark.head? ≠ some c) (hne : new ≠ []) (hnew : new.head? ≠ some c)
    (s : List α) : (replaceAll mark new s).head? = some c ↔ s.head? = some c := by
  by_cases hempty : mark = []
  · subst hempty
    cases s <;> simp [replaceAll, replaceAll.go]
  by_cases hhere : mark <+: s
  · obtain ⟨t, rfl⟩ := hhere
    rw [replaceAll_append hempty, List.head?_append_of_ne_nil _ hne,
      List.head?_append_of_ne_nil _ hempty]
    exact iff_of_false hnew hmark
  · cases s with
    | nil => rfl
    | cons d s => rw [replaceAll_cons hhere, List.head?_cons, List.head?_cons]

end BotConsole.Text
