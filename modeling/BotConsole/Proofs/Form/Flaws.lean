import BotConsole.Form.Item
import BotConsole.Proofs.Dict
import Mathlib.Data.Finset.Card
import Mathlib.Data.List.Induction
import Mathlib.Order.Bounds.Basic

namespace BotConsole.Form

theorem idxOf?_concat (names : List String) (name other : String) :
    (names ++ [name]).idxOf? other =
      (names.idxOf? other).or (if name = other then some names.length else none) := by
  unfold List.idxOf?
  rw [List.findIdx?_append]
  by_cases hsame : name = other <;> simp [hsame]

theorem idxOf?_take_eq_some_iff {names : List String} {name : String} {i first : Nat} :
    (names.take i).idxOf? name = some first ↔
      first < i ∧ IsLeast {j | names[j]? = some name} first := by
  rw [List.idxOf?_eq_some_iff]
  constructor
  · rintro ⟨hfirst, hat, hbefore⟩
    have hlt : first < i := by rw [List.length_take] at hfirst; omega
    rw [List.getElem_take] at hat
    refine ⟨hlt, List.getElem?_eq_some_iff.mpr ⟨_, hat⟩, fun j hj => ?_⟩
    by_contra hless
    have hj := List.getElem?_eq_some_iff.mp hj
    apply hbefore j (by omega)
    rw [List.getElem_take]
    exact hj.2
  · rintro ⟨hlt, hat, hleast⟩
    obtain ⟨hfirst, hat⟩ := List.getElem?_eq_some_iff.mp hat
    refine ⟨by rw [List.length_take]; omega, by rwa [List.getElem_take], fun j hj hsame => ?_⟩
    rw [List.getElem_take] at hsame
    have hle := hleast (List.getElem?_eq_some_iff.mpr ⟨_, hsame⟩)
    omega

namespace Flaw

def index : Flaw → Nat
  | .emptyName index => index
  | .duplicateName _ _ duplicate => duplicate

def next? (names : List String) (name : String) : Option Flaw :=
  if Text.allBlank name then some (.emptyName names.length)
  else (names.idxOf? name).map (.duplicateName name · names.length)

def at? (names : List String) (i : Nat) : Option Flaw :=
  names[i]?.bind (next? (names.take i))

-- Where each name that is not blank was first used.
def Located (names : List String) (seen : List (String × Nat)) : Prop :=
  ∀ name, Text.allBlank name = false → seen.lookup name = names.idxOf? name

variable {names : List String} {name : String} {seen : List (String × Nat)}

theorem Located.blank (h : Located names seen) (hblank : Text.allBlank name = true) :
    Located (names ++ [name]) seen := by
  intro other hother
  have hne : name ≠ other := by
    rintro rfl
    simp [hblank] at hother
  rw [h other hother, idxOf?_concat, if_neg hne, Option.or_none]

theorem Located.used (h : Located names seen) {first : Nat}
    (hused : names.idxOf? name = some first) : Located (names ++ [name]) seen := by
  intro other hother
  rw [h other hother, idxOf?_concat]
  by_cases hsame : name = other
  · rw [← hsame, hused, Option.some_or]
  · rw [if_neg hsame, Option.or_none]

theorem Located.unused (h : Located names seen) (hunused : names.idxOf? name = none) :
    Located (names ++ [name]) ((name, names.length) :: seen) := by
  intro other hother
  rw [idxOf?_concat, List.lookup_cons]
  by_cases hsame : name = other
  · rw [← hsame, hunused, if_pos rfl, beq_self_eq_true, Option.none_or]
  · have hne : (other == name) = false := by simp [Ne.symm hsame]
    rw [hne, h other hother, if_neg hsame, Option.or_none]

theorem scan_cons (seen : List (String × Nat)) (index : Nat) (name : String) (names : List String) :
    scan seen index (name :: names) =
      if Text.allBlank name then .emptyName index :: scan seen (index + 1) names
      else match seen.lookup name with
        | some first => .duplicateName name first index :: scan seen (index + 1) names
        | none => scan ((name, index) :: seen) (index + 1) names := rfl

theorem scan_concat {before : List String} (h : Located before seen) :
    scan seen before.length (names ++ [name]) =
      scan seen before.length names ++ (next? (before ++ names) name).toList := by
  induction names generalizing before seen with
  | nil =>
    rw [List.nil_append, List.append_nil, scan_cons, next?]
    cases hblank : Text.allBlank name with
    | true => rfl
    | false =>
      rw [← h name hblank]
      cases seen.lookup name <;> rfl
  | cons first names ih =>
    have hafter : before ++ first :: names = before ++ [first] ++ names := by simp
    have hlength : before.length + 1 = (before ++ [first]).length := by simp
    rw [List.cons_append, scan_cons, scan_cons, hafter, hlength]
    cases hblank : Text.allBlank first with
    | true =>
      rw [if_pos rfl, if_pos rfl, ih (h.blank hblank), List.cons_append]
    | false =>
      rw [if_neg Bool.false_ne_true, if_neg Bool.false_ne_true]
      cases hseen : seen.lookup first with
      | some place =>
        have hused : before.idxOf? first = some place := h first hblank ▸ hseen
        simp only [ih (h.used hused), List.cons_append]
      | none =>
        have hunused : before.idxOf? first = none := h first hblank ▸ hseen
        simp only [ih (h.unused hunused)]

theorem scan_names_concat (names : List String) (name : String) :
    scan [] 0 (names ++ [name]) = scan [] 0 names ++ (next? names name).toList := by
  have hstart : Located [] [] := fun _ _ => rfl
  exact scan_concat hstart

theorem at?_concat_of_lt {i : Nat} (hi : i < names.length) (name : String) :
    at? (names ++ [name]) i = at? names i := by
  rw [at?, at?, List.getElem?_append_left hi, List.take_append_of_le_length hi.le]

theorem at?_concat_length (names : List String) (name : String) :
    at? (names ++ [name]) names.length = next? names name := by
  simp [at?]

-- Each place is judged by itself, and by the names of the fields before it.
theorem scan_eq_filterMap (names : List String) :
    scan [] 0 names = (List.range names.length).filterMap (at? names) := by
  induction names using List.reverseRecOn with
  | nil => rfl
  | append_singleton names name ih =>
    have hearlier : ∀ i ∈ List.range names.length, at? (names ++ [name]) i = at? names i :=
      fun i hi => at?_concat_of_lt (List.mem_range.mp hi) name
    rw [scan_names_concat, List.length_append, List.length_singleton, List.range_succ,
      List.filterMap_append, ih, List.filterMap_congr hearlier, List.filterMap_cons,
      at?_concat_length]
    cases next? names name <;> rfl

theorem next?_eq_emptyName {i : Nat} :
    next? names name = some (.emptyName i) ↔ Text.allBlank name = true ∧ names.length = i := by
  rw [next?]
  cases Text.allBlank name <;> simp

theorem next?_eq_duplicateName {other : String} {first i : Nat} :
    next? names name = some (.duplicateName other first i) ↔
      name = other ∧ Text.allBlank name = false ∧ names.idxOf? name = some first ∧
        names.length = i := by
  rw [next?]
  cases Text.allBlank name <;> simp [and_left_comm]

theorem next?_eq_none : next? names name = none ↔ Text.allBlank name = false ∧ name ∉ names := by
  rw [next?]
  cases Text.allBlank name <;> simp

theorem index_of_next? {f : Flaw} (h : next? names name = some f) : f.index = names.length := by
  cases f with
  | emptyName i => exact (next?_eq_emptyName.mp h).2.symm
  | duplicateName other first i => exact (next?_eq_duplicateName.mp h).2.2.2.symm

theorem length_take_of_getElem? {i : Nat} (h : names[i]? = some name) :
    (names.take i).length = i :=
  List.length_take_of_le (List.getElem?_eq_some_iff.mp h).1.le

theorem index_of_at? {f : Flaw} {i : Nat} (h : at? names i = some f) : f.index = i := by
  obtain ⟨name, hname, hf⟩ := Option.bind_eq_some_iff.mp h
  rw [index_of_next? hf, length_take_of_getElem? hname]

theorem mem_scan_iff {f : Flaw} :
    f ∈ scan [] 0 names ↔
      ∃ name, names[f.index]? = some name ∧ next? (names.take f.index) name = some f := by
  rw [scan_eq_filterMap, List.mem_filterMap, ← Option.bind_eq_some_iff]
  constructor
  · rintro ⟨i, -, hf⟩
    exact (index_of_at? hf).symm ▸ hf
  · intro hf
    obtain ⟨name, hname, -⟩ := Option.bind_eq_some_iff.mp hf
    exact ⟨f.index, List.mem_range.mpr (List.getElem?_eq_some_iff.mp hname).1, hf⟩

theorem mem_emptyName_iff {i : Nat} : .emptyName i ∈ scan [] 0 names ↔
    ∃ name, names[i]? = some name ∧ Text.allBlank name = true := by
  rw [mem_scan_iff]
  refine exists_congr fun name => and_congr_right fun hname => ?_
  rw [next?_eq_emptyName]
  exact and_iff_left (length_take_of_getElem? hname)

theorem mem_duplicateName_iff {first i : Nat} : .duplicateName name first i ∈ scan [] 0 names ↔
    Text.allBlank name = false ∧ names[i]? = some name ∧ first < i ∧
      IsLeast {j | names[j]? = some name} first := by
  rw [mem_scan_iff]
  constructor
  · rintro ⟨other, hother, hf⟩
    obtain ⟨rfl, hblank, hfirst, -⟩ := next?_eq_duplicateName.mp hf
    exact ⟨hblank, hother, idxOf?_take_eq_some_iff.mp hfirst⟩
  · rintro ⟨hblank, hname, hfirst⟩
    exact ⟨name, hname, next?_eq_duplicateName.mpr ⟨rfl, hblank,
      idxOf?_take_eq_some_iff.mpr hfirst, length_take_of_getElem? hname⟩⟩

theorem ascending_index (names : List String) :
    ((scan [] 0 names).map index).Pairwise (· < ·) := by
  rw [scan_eq_filterMap, List.pairwise_map, List.pairwise_filterMap]
  apply List.pairwise_lt_range.imp
  intro i j hlt f hf g hg
  rwa [index_of_at? hf, index_of_at? hg]

theorem scan_eq_nil_iff :
    scan [] 0 names = [] ↔ (∀ name ∈ names, Text.allBlank name = false) ∧ names.Nodup := by
  induction names using List.reverseRecOn with
  | nil => simp [scan]
  | append_singleton names name ih =>
    rw [scan_names_concat, List.append_eq_nil_iff, Option.toList_eq_nil_iff, ih, next?_eq_none,
      ← List.concat_eq_append, List.nodup_concat]
    simp only [List.concat_eq_append, List.mem_append, List.mem_singleton, or_imp, forall_and,
      forall_eq]
    tauto

def distinct (names : List String) : Finset String :=
  names.toFinset.filter (Text.allBlank · = false)

theorem distinct_concat (names : List String) (name : String) :
    distinct (names ++ [name]) =
      if Text.allBlank name = false then insert name (distinct names) else distinct names := by
  have hinsert : (names ++ [name]).toFinset = insert name names.toFinset := by
    simp [List.toFinset_append]
  rw [distinct, hinsert, Finset.filter_insert]
  rfl

theorem card_distinct_concat (names : List String) (name : String) :
    (distinct (names ++ [name])).card + (next? names name).toList.length =
      (distinct names).card + 1 := by
  rw [distinct_concat, next?]
  cases hblank : Text.allBlank name with
  | true => rfl
  | false =>
    by_cases hused : name ∈ names
    · have hmem : name ∈ distinct names := by simp [distinct, hused, hblank]
      cases hfirst : names.idxOf? name with
      | none => exact absurd hused (List.idxOf?_eq_none_iff.mp hfirst)
      | some first => simp [Finset.insert_eq_of_mem hmem]
    · have hmem : name ∉ distinct names := by simp [distinct, hused]
      simp [Finset.card_insert_of_notMem hmem, hused]

theorem length_scan_add_card (names : List String) :
    (scan [] 0 names).length + (distinct names).card = names.length := by
  induction names using List.reverseRecOn with
  | nil => rfl
  | append_singleton names name ih =>
    have hcard := card_distinct_concat names name
    rw [scan_names_concat, List.length_append, List.length_append, List.length_singleton]
    omega

end Flaw

namespace Schema

variable {s : Schema} {name : String}

def places (s : Schema) (name : String) : Set Nat :=
  {i | s[i]?.map Item.name = some name}

theorem places_concat (s : Schema) (i : Item) :
    IsGreatest ((s ++ [i]).places i.name) s.length := by
  refine ⟨by simp [places], fun j hj => ?_⟩
  obtain ⟨_, hat, -⟩ := Option.map_eq_some_iff.mp hj
  have hlt := (List.getElem?_eq_some_iff.mp hat).1
  rw [List.length_append, List.length_singleton] at hlt
  omega

theorem places_concat_of_ne {i : Item} (h : i.name ≠ name) :
    (s ++ [i]).places name = s.places name := by
  ext j
  simp only [places, Set.mem_ofPred_eq, List.getElem?_append]
  split
  · rfl
  · next hlater =>
    rw [List.getElem?_eq_none (Nat.le_of_not_lt hlater), List.getElem?_singleton]
    split <;> simp [h]

theorem emptyName_mem_flaws_iff {i : Nat} : .emptyName i ∈ s.flaws ↔
    ∃ item, s[i]? = some item ∧ Text.allBlank item.name = true := by
  simp [flaws, Flaw.mem_emptyName_iff]

theorem duplicateName_mem_flaws_iff {first i : Nat} : .duplicateName name first i ∈ s.flaws ↔
    Text.allBlank name = false ∧ i ∈ s.places name ∧ first < i ∧
      IsLeast (s.places name) first := by
  rw [flaws, Flaw.mem_duplicateName_iff]
  simp only [List.getElem?_map, places, Set.mem_ofPred_eq]

theorem flaws_eq_nil_iff :
    s.flaws = [] ↔ (∀ i ∈ s, Text.allBlank i.name = false) ∧ (s.map Item.name).Nodup := by
  rw [flaws, Flaw.scan_eq_nil_iff, List.forall_mem_map]

theorem get?_defaults (s : Schema) (name : String) :
    s.defaults.get? name = (s.reverse.find? (·.name == name)).map Item.default := by
  rw [defaults, Dict.ofPairs, Dict.get?_insertMany, ← List.map_reverse]
  simp only [Dict.get?_empty, Option.or_none]
  induction s.reverse with
  | nil => rfl
  | cons i items ih =>
    rw [List.map_cons, List.lookup_cons, List.find?_cons]
    by_cases hi : name = i.name
    · simp [hi]
    · have hne : (name == i.name) = false := by simp [hi]
      have hne' : (i.name == name) = false := by simp [Ne.symm hi]
      rw [hne, hne']
      exact ih

theorem mem_keys_defaults : name ∈ s.defaults.keys ↔ name ∈ s.map Item.name := by
  rw [Dict.mem_keys_iff, ← Option.isSome_iff_exists, get?_defaults, Option.isSome_map,
    List.find?_isSome, List.mem_map]
  simp

theorem exists_last (h : name ∈ s.map Item.name) :
    ∃ last item, IsGreatest (s.places name) last ∧ s[last]? = some item ∧
      s.defaults.get? name = some item.default := by
  induction s using List.reverseRecOn with
  | nil => cases h
  | append_singleton s i ih =>
    by_cases hi : i.name = name
    · refine ⟨s.length, i, hi ▸ places_concat s i, by simp, ?_⟩
      simp [get?_defaults, hi]
    · have hmem : name ∈ s.map Item.name := by simpa [Ne.symm hi] using h
      obtain ⟨last, item, hlast, hat, hdefault⟩ := ih hmem
      have hlt := (List.getElem?_eq_some_iff.mp hat).1
      refine ⟨last, item, (places_concat_of_ne hi).symm ▸ hlast, ?_, ?_⟩
      · rw [List.getElem?_append_left hlt, hat]
      · rw [← hdefault]
        simp [get?_defaults, hi]

theorem isGreatest_duplicates {last first i : Nat} (hlast : IsGreatest (s.places name) last)
    (h : .duplicateName name first i ∈ s.flaws) :
    IsGreatest {i | ∃ first, .duplicateName name first i ∈ s.flaws} last := by
  obtain ⟨hblank, hi, hlt, hfirst⟩ := duplicateName_mem_flaws_iff.mp h
  have hle : i ≤ last := hlast.2 hi
  refine ⟨⟨first, duplicateName_mem_flaws_iff.mpr ⟨hblank, hlast.1, by omega, hfirst⟩⟩, ?_⟩
  rintro j ⟨first', hj⟩
  exact hlast.2 (duplicateName_mem_flaws_iff.mp hj).2.1

theorem entries_defaults_perm (h : (s.map Item.name).Nodup) :
    s.defaults.entries.Perm (s.map fun i => (i.name, i.default)) := by
  apply Dict.entries_ofPairs_perm
  rw [List.map_map]
  exact h

end Schema

-- The flaws of a form are its fields with blank names and those with names used before, each told
-- with the first use. Of several fields with one name the last one gives the default.
theorem flaws_tell_names_used_before (s : Schema) :
    let names := s.map Item.name
    (∀ i, .emptyName i ∈ s.flaws ↔ ∃ item, s[i]? = some item ∧ Text.trim item.name.toList = []) ∧
    (∀ name first i, .duplicateName name first i ∈ s.flaws ↔ Text.trim name.toList ≠ [] ∧
      i ∈ s.places name ∧ first < i ∧ IsLeast (s.places name) first) ∧
    (s.flaws.map Flaw.index).Pairwise (· < ·) ∧
    s.flaws.length + (names.toFinset.filter (Text.trim ·.toList ≠ [])).card = s.length ∧
    (∀ name ∈ names, ∃ last item, IsGreatest (s.places name) last ∧ s[last]? = some item ∧
      s.defaults.get? name = some item.default ∧
      ((∃ first i, .duplicateName name first i ∈ s.flaws) →
        IsGreatest {i | ∃ first, .duplicateName name first i ∈ s.flaws} last)) ∧
    (∀ name, name ∈ s.defaults.keys ↔ name ∈ names) ∧
    (s.flaws = [] ↔ (∀ name ∈ names, Text.trim name.toList ≠ []) ∧ names.Nodup) ∧
    (s.flaws = [] → s.defaults.entries.Perm (s.map fun i => (i.name, i.default))) := by
  intro names
  have hblank (name : String) : Text.trim name.toList = [] ↔ Text.allBlank name = true :=
    Text.trim_eq_nil_iff
  have hplain (name : String) : Text.trim name.toList ≠ [] ↔ Text.allBlank name = false := by
    rw [Ne, hblank, Bool.not_eq_true]
  simp only [hblank, hplain]
  refine ⟨fun i => Schema.emptyName_mem_flaws_iff,
    fun name first i => Schema.duplicateName_mem_flaws_iff, Flaw.ascending_index names, ?_,
    fun name hname => ?_, fun name => Schema.mem_keys_defaults, ?_, fun h => ?_⟩
  · exact (Flaw.length_scan_add_card names).trans (List.length_map Item.name)
  · obtain ⟨last, item, hlast, hat, hdefault⟩ := Schema.exists_last hname
    refine ⟨last, item, hlast, hat, hdefault, ?_⟩
    rintro ⟨first, i, hreported⟩
    exact Schema.isGreatest_duplicates hlast hreported
  · exact Flaw.scan_eq_nil_iff
  · exact Schema.entries_defaults_perm (Schema.flaws_eq_nil_iff.mp h).2

example : Schema.flaws [.ofName "url" .shortText, .ofName " " .shortText, .ofName "url" .integer,
    .ofName "url " .boolean, .ofName "url" .float] =
      [.emptyName 1, .duplicateName "url" 0 2, .duplicateName "url" 0 4] := by
  decide +kernel

end BotConsole.Form
