import BotConsole.Json.Value
import Mathlib.Data.String.Basic

namespace BotConsole

variable {α : Type}

theorem put_of_lt {key : String} {value : α} {entries : List (String × α)}
    (h : ∀ e ∈ entries, e.1 < key) : put key value entries = entries ++ [(key, value)] := by
  induction entries with
  | nil => rfl
  | cons e entries ih =>
    have he : e.1 < key := h e List.mem_cons_self
    have hnot : ¬ key < e.1 := String.lt_asymm he
    have hne : key ≠ e.1 := fun heq => String.lt_irrefl e.1 (heq ▸ he)
    rw [put, if_neg hnot, if_neg hne, ih fun d hd => h d (List.mem_cons_of_mem _ hd)]
    rfl

theorem putAll_append {pairs entries : List (String × α)} (h : Ascending (entries ++ pairs)) :
    putAll pairs entries = entries ++ pairs := by
  induction pairs generalizing entries with
  | nil => simp [putAll]
  | cons pair pairs ih =>
    have hbelow : ∀ e ∈ entries, e.1 < pair.1 := fun e he =>
      (List.pairwise_append.mp h).2.2 e he pair List.mem_cons_self
    rw [List.append_cons] at h ⊢
    calc putAll (pair :: pairs) entries
        = putAll pairs (put pair.1 pair.2 entries) := rfl
      _ = putAll pairs (entries ++ [pair]) := by rw [put_of_lt hbelow]
      _ = entries ++ [pair] ++ pairs := ih h

theorem mem_putAll {pairs entries : List (String × α)} {e : String × α}
    (h : e ∈ putAll pairs entries) : e ∈ pairs ∨ e ∈ entries := by
  induction pairs generalizing entries with
  | nil => exact .inr h
  | cons pair pairs ih =>
    rcases ih h with hpairs | hput
    · exact .inl (List.mem_cons_of_mem _ hpairs)
    · rcases mem_put hput with rfl | hentries
      · exact .inl List.mem_cons_self
      · exact .inr hentries

-- Entries that are in order already stay as they are.
theorem putAll_of_ascending {pairs : List (String × α)} (h : Ascending pairs) :
    putAll pairs [] = pairs :=
  putAll_append h

namespace Json

namespace Value

mutual

theorem value?_toTree : {v : Value} → v.Ordered → v.toTree.value? = some v
  | .null, _ | .bool _, _ | .number _, _ | .text _, _ => rfl
  | .list items, h => by
    have hitems : Tree.values? (toTrees items) = some items := values?_toTrees h
    simp [toTree, Tree.value?, hitems]
  | .object members, h => by
    have hmembers : Tree.members? (toMembers members) = some members := members?_toMembers h.2
    simp [toTree, Tree.value?, hmembers, putAll_of_ascending h.1]

theorem values?_toTrees : {items : List Value} → OrderedItems items →
    Tree.values? (toTrees items) = some items
  | [], _ => rfl
  | v :: items, h => by
    have hv : v.toTree.value? = some v := value?_toTree h.1
    have hitems : Tree.values? (toTrees items) = some items := values?_toTrees h.2
    simp [toTrees, Tree.values?, hv, hitems]

theorem members?_toMembers : {members : List (String × Value)} → OrderedMembers members →
    Tree.members? (toMembers members) = some members
  | [], _ => rfl
  | (k, v) :: members, h => by
    have hv : v.toTree.value? = some v := value?_toTree h.1
    have hmembers : Tree.members? (toMembers members) = some members := members?_toMembers h.2
    simp [toMembers, Tree.members?, hv, hmembers]

end

theorem toTrees_eq_map (items : List Value) : toTrees items = items.map toTree := by
  induction items with
  | nil => rfl
  | cons v items ih => rw [toTrees, ih, List.map_cons]

theorem toMembers_eq_map (members : List (String × Value)) :
    toMembers members = members.map fun m => (some m.1, m.2.toTree) := by
  induction members with
  | nil => rfl
  | cons m members ih => rw [toMembers, ih, List.map_cons]

theorem lookup_toMembers (members : List (String × Value)) (key : String) :
    (toMembers members).lookup (some key) = (members.lookup key).map toTree := by
  induction members with
  | nil => rfl
  | cons m members ih =>
    obtain ⟨k, v⟩ := m
    rw [toMembers, List.lookup_cons, List.lookup_cons, ih]
    by_cases hk : key = k
    · simp [hk]
    · have hne : (key == k) = false := by simp [hk]
      have hne' : (some key == some k) = false := by simp [hk]
      rw [hne, hne']

theorem toTree_ne_null {v : Value} (h : v ≠ .null) : v.toTree ≠ .null := by
  cases v with
  | null => exact absurd rfl h
  | _ => simp [toTree]

theorem orderedMembers_iff {members : List (String × Value)} :
    OrderedMembers members ↔ ∀ m ∈ members, m.2.Ordered := by
  induction members with
  | nil => simp [OrderedMembers]
  | cons m members ih => simp [OrderedMembers, ih]

theorem orderedMembers_putAll {pairs members : List (String × Value)} (hp : OrderedMembers pairs)
    (h : OrderedMembers members) : OrderedMembers (putAll pairs members) := by
  rw [orderedMembers_iff] at hp h ⊢
  intro m hm
  rcases mem_putAll hm with hm | hm
  · exact hp m hm
  · exact h m hm

mutual

theorem isReadable_toTree : (v : Value) → v.toTree.isReadable = true
  | .null | .bool _ | .number _ | .text _ => rfl
  | .list items => by
    have hitems := values?_isSome items
    simpa [toTree, Tree.isReadable, Tree.value?] using hitems
  | .object members => by
    have hmembers := members?_isSome members
    simpa [toTree, Tree.isReadable, Tree.value?] using hmembers

theorem values?_isSome : (items : List Value) → (Tree.values? (toTrees items)).isSome = true
  | [] => rfl
  | v :: items => by
    obtain ⟨w, hw⟩ := Option.isSome_iff_exists.mp (isReadable_toTree v)
    obtain ⟨ws, hws⟩ := Option.isSome_iff_exists.mp (values?_isSome items)
    simp [toTrees, Tree.values?, hw, hws]

theorem members?_isSome : (members : List (String × Value)) →
    (Tree.members? (toMembers members)).isSome = true
  | [] => rfl
  | (k, v) :: members => by
    obtain ⟨w, hw⟩ := Option.isSome_iff_exists.mp (isReadable_toTree v)
    obtain ⟨ws, hws⟩ := Option.isSome_iff_exists.mp (members?_isSome members)
    simp [toMembers, Tree.members?, hw, hws]

end

mutual

theorem ordered_of_value? : {t : Tree} → {v : Value} → t.value? = some v → v.Ordered
  | .null, v, h | .bool _, v, h => by
    cases h
    trivial
  | .number n, v, h | .text n, v, h => by
    obtain ⟨n, -, rfl⟩ := Option.map_eq_some_iff.mp h
    trivial
  | .list items, v, h => by
    obtain ⟨vs, hvs, rfl⟩ := Option.map_eq_some_iff.mp h
    exact orderedItems_of_values? hvs
  | .object members, v, h => by
    obtain ⟨ms, hms, rfl⟩ := Option.map_eq_some_iff.mp h
    exact ⟨ascending_putAll List.Pairwise.nil,
      orderedMembers_putAll (orderedMembers_of_members? hms) trivial⟩

theorem orderedItems_of_values? : {items : List Tree} → {vs : List Value} →
    Tree.values? items = some vs → OrderedItems vs
  | [], vs, h => by
    cases h
    trivial
  | t :: items, vs, h => by
    simp only [Tree.values?, Option.bind_eq_bind, Option.bind_eq_some_iff, Option.some.injEq] at h
    obtain ⟨v, hv, vs, hvs, rfl⟩ := h
    exact ⟨ordered_of_value? hv, orderedItems_of_values? hvs⟩

theorem orderedMembers_of_members? : {members : List (Option String × Tree)} →
    {ms : List (String × Value)} → Tree.members? members = some ms → OrderedMembers ms
  | [], ms, h => by
    cases h
    trivial
  | (key, t) :: members, ms, h => by
    simp only [Tree.members?, Option.bind_eq_bind, Option.bind_eq_some_iff, Option.some.injEq] at h
    obtain ⟨k, -, v, hv, ms, hms, rfl⟩ := h
    exact ⟨ordered_of_value? hv, orderedMembers_of_members? hms⟩

end

-- The object that members given one after the other make up.
def ofPairs (pairs : List (String × Value)) : Value :=
  .object (Dict.ofPairs pairs).entries

theorem value?_object {members : List (Option String × Tree)} {pairs : List (String × Value)}
    (h : Tree.members? members = some pairs) :
    (Tree.object members).value? = some (ofPairs pairs) := by
  rw [Tree.value?, h]
  rfl

end Value

end Json

end BotConsole
