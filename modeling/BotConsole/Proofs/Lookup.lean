namespace BotConsole

variable {α β γ : Type} [BEq α] [LawfulBEq α]

theorem lookup_eq_none_of_notMem {entries : List (α × β)} {k : α} (h : k ∉ entries.map (·.1)) :
    entries.lookup k = none := by
  rw [List.lookup_eq_none_iff]
  intro entry hentry
  simp only [bne_iff_ne, ne_eq]
  rintro rfl
  exact h (List.mem_map_of_mem hentry)

theorem mem_of_lookup {entries : List (α × β)} {k : α} {value : β}
    (h : entries.lookup k = some value) : (k, value) ∈ entries := by
  obtain ⟨before, behind, hsplit, -⟩ := List.lookup_eq_some_iff.mp h
  simp [hsplit]

theorem lookup_eq_some_iff_mem {entries : List (α × β)} (h : (entries.map (·.1)).Nodup) {k : α}
    {value : β} : entries.lookup k = some value ↔ (k, value) ∈ entries := by
  induction entries with
  | nil => simp
  | cons entry entries ih =>
    obtain ⟨name, v⟩ := entry
    rw [List.map_cons, List.nodup_cons] at h
    rw [List.lookup_cons, List.mem_cons]
    by_cases hk : k = name
    · have hnew : (name, value) ∉ entries := by
        intro hmem
        exact h.1 (List.mem_map.mpr ⟨_, hmem, rfl⟩)
      simp [hk, hnew, eq_comm]
    · have hne : (k == name) = false := by simp [hk]
      simp [hne, ih h.2, hk]

theorem lookup_perm {entries entries' : List (α × β)} (h : entries.Perm entries')
    (hkeys : (entries.map (·.1)).Nodup) (k : α) : entries.lookup k = entries'.lookup k := by
  have hkeys' : (entries'.map (·.1)).Nodup := (h.map (·.1)).nodup hkeys
  apply Option.ext
  intro value
  rw [lookup_eq_some_iff_mem hkeys, lookup_eq_some_iff_mem hkeys', h.mem_iff]

-- Entries can be left out by their keys without any other entry being lost.
theorem lookup_filter_key (entries : List (α × β)) (keep : α → Bool) (k : α) :
    (entries.filter fun entry => keep entry.1).lookup k =
      if keep k then entries.lookup k else none := by
  induction entries with
  | nil => simp
  | cons entry entries ih =>
    obtain ⟨name, value⟩ := entry
    rw [List.filter_cons, List.lookup_cons]
    by_cases hk : (k == name) = true
    · obtain rfl := eq_of_beq hk
      cases hkeep : keep k with
      | true => simp
      | false => simpa [hkeep] using ih
    · have hne : (k == name) = false := Bool.eq_false_iff.mpr hk
      split
      · rw [List.lookup_cons, hne, ih]
      · rw [hne, ih]

theorem lookup_map_value (entries : List (α × β)) {g : α × β → α × γ} (f : α → β → γ)
    (hg : ∀ entry, g entry = (entry.1, f entry.1 entry.2)) (k : α) :
    (entries.map g).lookup k = (entries.lookup k).map (f k) := by
  induction entries with
  | nil => rfl
  | cons entry entries ih =>
    obtain ⟨name, value⟩ := entry
    rw [List.map_cons, hg, List.lookup_cons, List.lookup_cons, ih]
    by_cases hk : (k == name) = true
    · obtain rfl := eq_of_beq hk
      simp
    · have hne : (k == name) = false := Bool.eq_false_iff.mpr hk
      rw [hne]

end BotConsole
