import BotConsole.Proofs.Json.Record

namespace BotConsole.Json

namespace Tree

variable {n : Nat}

theorem depthOfItems_le_iff {items : List Tree} :
    depthOfItems items ≤ n ↔ ∀ t ∈ items, t.depth ≤ n := by
  induction items with
  | nil => simp [depthOfItems]
  | cons t items ih => simp [depthOfItems, ih]

theorem depthOfMembers_le_iff {members : List (Option String × Tree)} :
    depthOfMembers members ≤ n ↔ ∀ m ∈ members, m.2.depth ≤ n := by
  induction members with
  | nil => simp [depthOfMembers]
  | cons m members ih => simp [depthOfMembers, ih]

theorem depth_lt_of_mem_list {items : List Tree} {t : Tree} (h : t ∈ items) :
    t.depth < (list items).depth :=
  Nat.lt_succ_of_le (depthOfItems_le_iff.mp le_rfl t h)

theorem depth_lt_of_mem_object {members : List (Option String × Tree)}
    {m : Option String × Tree} (h : m ∈ members) : m.2.depth < (object members).depth :=
  Nat.lt_succ_of_le (depthOfMembers_le_iff.mp le_rfl m h)

mutual

theorem depth_of_value? : {t : Tree} → {v : Value} → t.value? = some v → v.toTree.depth ≤ t.depth
  | .null, v, h | .bool _, v, h => by
    cases h
    rfl
  | .number n, v, h | .text n, v, h => by
    obtain ⟨n, -, rfl⟩ := Option.map_eq_some_iff.mp h
    rfl
  | .list items, v, h => by
    obtain ⟨vs, hvs, rfl⟩ := Option.map_eq_some_iff.mp h
    exact Nat.add_le_add_right (depth_of_values? hvs) 1
  | .object members, v, h => by
    obtain ⟨ms, hms, rfl⟩ := Option.map_eq_some_iff.mp h
    have hdepth := depthOfMembers_le_iff.mp (depth_of_members? hms)
    simp only [Value.toMembers_eq_map, List.forall_mem_map] at hdepth
    refine Nat.add_le_add_right (depthOfMembers_le_iff.mpr ?_) 1
    rw [Value.toMembers_eq_map, List.forall_mem_map]
    intro e he
    rcases mem_putAll he with he | he
    · exact hdepth e he
    · cases he

theorem depth_of_values? : {items : List Tree} → {vs : List Value} → values? items = some vs →
    depthOfItems (Value.toTrees vs) ≤ depthOfItems items
  | [], vs, h => by
    cases h
    rfl
  | t :: items, vs, h => by
    simp only [values?, Option.bind_eq_bind, Option.bind_eq_some_iff, Option.some.injEq] at h
    obtain ⟨v, hv, vs, hvs, rfl⟩ := h
    exact max_le_max (depth_of_value? hv) (depth_of_values? hvs)

theorem depth_of_members? : {members : List (Option String × Tree)} →
    {ms : List (String × Value)} → members? members = some ms →
    depthOfMembers (Value.toMembers ms) ≤ depthOfMembers members
  | [], ms, h => by
    cases h
    rfl
  | (key, t) :: members, ms, h => by
    simp only [members?, Option.bind_eq_bind, Option.bind_eq_some_iff, Option.some.injEq] at h
    obtain ⟨k, -, v, hv, ms, hms, rfl⟩ := h
    exact max_le_max (depth_of_value? hv) (depth_of_members? hms)

end

end Tree

namespace Record

-- What takes parts of a document away.
def Prunes (part : Tree → Tree) : Prop :=
  ∀ t, (part t).depth ≤ t.depth

theorem prunes_id : Prunes id := fun _ => le_rfl

theorem prunes_listPart {part : Tree → Tree} (h : Prunes part) : Prunes (listPart part) := by
  intro t
  cases t with
  | list items =>
    rw [listPart, Tree.depth, Tree.depth, Nat.add_le_add_iff_right, Tree.depthOfItems_le_iff]
    intro u hu
    obtain ⟨t, ht, rfl⟩ := List.mem_map.mp hu
    exact (h t).trans (Tree.depthOfItems_le_iff.mp le_rfl t ht)
  | _ => exact le_rfl

theorem prunes_readPart {shape : Shape} (h : ∀ f ∈ shape, Prunes f.2) :
    Prunes (readPart shape) := by
  intro t
  cases t with
  | list items =>
    rw [readPart, Tree.depth, Tree.depth, Nat.add_le_add_iff_right, Tree.depthOfItems_le_iff]
    intro u hu
    obtain ⟨⟨t, i⟩, ht, rfl⟩ := List.mem_map.mp hu
    have hdepth := Tree.depthOfItems_le_iff.mp le_rfl t (List.fst_mem_of_mem_zipIdx ht)
    dsimp only
    split
    · next hf => exact (h _ (List.mem_of_getElem? hf) t).trans hdepth
    · exact hdepth
  | object members =>
    rw [readPart, Tree.depth, Tree.depth, Nat.add_le_add_iff_right, Tree.depthOfMembers_le_iff]
    intro m hm
    obtain ⟨⟨key, t⟩, ht, hpart⟩ := List.mem_filterMap.mp hm
    have hdepth := Tree.depthOfMembers_le_iff.mp le_rfl _ ht
    cases key with
    | none =>
      obtain rfl := Option.some.inj hpart
      exact hdepth
    | some name =>
      obtain ⟨part, hf, rfl⟩ := Option.map_eq_some_iff.mp hpart
      exact (h _ (mem_of_lookup hf) t).trans hdepth
  | _ => exact le_rfl

-- A field stands inside of the part of a record that is read.
theorem depth_part_lt (shape : Shape) {t u : Tree} {fields : List (Option Tree)} {i : Nat}
    {name : String} {part : Tree → Tree} (h : fields? (shape.map (·.1)) t = some fields)
    (hu : fields[i]? = some (some u)) (hi : shape[i]? = some (name, part))
    (hname : shape.lookup name = some part) : (part u).depth < (readPart shape t).depth := by
  cases t with
  | list items =>
    simp only [fields?] at h
    split at h
    · obtain rfl := Option.some.inj h
      have hitem : items[i]? = some u := by
        rw [List.getElem?_append] at hu
        split at hu
        · simpa using hu
        · simp [List.getElem?_replicate] at hu
      refine Tree.depth_lt_of_mem_list (List.mem_map.mpr ⟨(u, i), ?_, by simp [hi]⟩)
      exact List.mem_zipIdx_iff_getElem?.mpr (by simpa using hitem)
    · cases h
  | object members =>
    simp only [fields?] at h
    split at h
    · have hfields := mapM_eq_some_iff.mp h
      have hnames : (shape.map (·.1))[i]? = some name := by simp [hi]
      have hzip : (name, some u) ∈ (shape.map (·.1)).zip fields :=
        List.mem_of_getElem? (List.getElem?_zip_eq_some.mpr ⟨hnames, hu⟩)
      have hfield : field? name members = some (some u) := (List.forall₂_iff_zip.mp hfields).2 hzip
      refine Tree.depth_lt_of_mem_object (m := (some name, part u)) (List.mem_filterMap.mpr ?_)
      exact ⟨_, mem_of_field? hfield, by simp [hname]⟩
    · cases h
  | _ => cases h

end Record

end BotConsole.Json
