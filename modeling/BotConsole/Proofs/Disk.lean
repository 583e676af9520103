import BotConsole.Disk
import BotConsole.Proofs.Lookup

namespace BotConsole

namespace Place

theorem isPrefix_of_mem_ancestry {p q : Place} (h : q ∈ p.ancestry) : q <+: p := by
  induction p generalizing q with
  | nil => cases h
  | cons name rest ih =>
    rcases List.mem_cons.mp h with rfl | hdeeper
    · exact ⟨rest, rfl⟩
    · obtain ⟨r, hr, rfl⟩ := List.mem_map.mp hdeeper
      exact List.cons_prefix_cons.mpr ⟨rfl, ih hr⟩

theorem child_notMem_ancestry {p : Place} {name other : String} (h : name ≠ other) :
    p.child name ∉ (p.child other).ancestry := by
  intro hmem
  have hprefix := isPrefix_of_mem_ancestry hmem
  have heq : p.child name = p.child other := hprefix.eq_of_length (by simp [child])
  have hlast : [name] = [other] := List.append_cancel_left heq
  exact h (List.head_eq_of_cons_eq hlast)

end Place

namespace Disk

variable {d d' : Disk} {p q start : Place} {content path : String}

theorem find?_put (hp : p ≠ []) (e : DiskEntry) (q : Place) :
    (d.put p e).find? q = if q = p then some e else d.find? q := by
  by_cases hq : q = p
  · subst hq
    simp [find?, put, hp]
  · rw [if_neg hq]
    unfold find?
    split
    · rfl
    · have hne : (q == p) = false := by simp [hq]
      have hkeep : (q != p) = true := by simp [hq]
      rw [put, List.lookup_cons, hne, lookup_filter_key d (· != p) q, if_pos hkeep]

theorem find?_makeFolders? (h : d.makeFolders? p = some d') (hq : q ∉ p.ancestry) :
    d'.find? q = d.find? q := by
  unfold makeFolders? at h
  generalize p.ancestry = folders at h hq
  induction folders generalizing d with
  | nil =>
    obtain rfl := Option.some.inj h
    rfl
  | cons folder folders ih =>
    have hne : q ≠ folder := fun heq => hq (heq ▸ List.mem_cons_self)
    have hrest : q ∉ folders := fun hmem => hq (List.mem_cons_of_mem _ hmem)
    rw [List.foldlM_cons] at h
    split at h
    · exact ih h hrest
    · cases h
    · next hvacant =>
      have hfolder : folder ≠ [] := by
        rintro rfl
        cases hvacant
      rw [ih h hrest, find?_put hfolder, if_neg hne]

theorem write?_eq_some (h : d.write? p content = some d') :
    p ≠ [] ∧ d.isFolder p = false ∧ d' = d.put p (.file content) := by
  unfold write? at h
  split at h
  · next hplace =>
    simp only [Bool.and_eq_true, Bool.not_eq_true'] at hplace
    refine ⟨?_, hplace.2, (Option.some.inj h).symm⟩
    rintro rfl
    cases hplace.2
  · cases h

-- A file takes the place of a file or of nothing, so all folders stay.
theorem isFolder_of_write? (h : d.write? p content = some d') (q : Place) :
    d'.isFolder q = d.isFolder q := by
  obtain ⟨hp, hfile, rfl⟩ := write?_eq_some h
  unfold isFolder at hfile ⊢
  rw [find?_put hp]
  by_cases hq : q = p
  · rw [if_pos hq, hq, hfile]
    rfl
  · rw [if_neg hq]

theorem resolve?_of_isFolder (h : ∀ q, d'.isFolder q = d.isFolder q) (start : Place)
    (path : String) : d'.resolve? start path = d.resolve? start path := by
  have hstep : d'.step? = d.step? := by
    funext q name
    simp only [step?, h]
  rw [resolve?, hstep]
  rfl

theorem readPath?_of_write? (hpath : d.resolve? start path = some p)
    (h : d.write? p content = some d') : d'.readPath? start path = some content := by
  obtain ⟨hp, hfile, hput⟩ := write?_eq_some h
  have hfind : d'.find? p = some (.file content) := by
    rw [hput, find?_put hp, if_pos rfl]
  have hresolve : d'.resolve? start path = some p :=
    (resolve?_of_isFolder (isFolder_of_write? h) start path).trans hpath
  have hnamed : path.isEmpty = false := by
    rw [Bool.eq_false_iff]
    intro hempty
    have hstep : d.step? start "" = some p := by
      obtain rfl : path = "" := by simpa using hempty
      simpa [resolve?, Text.splitOn] using hpath
    unfold step? at hstep
    split at hstep
    · cases hstep
    · next hstart =>
      obtain rfl := Option.some.inj hstep
      simp [hfile] at hstart
  have hexisting : d'.existing? start path = some p := by
    simp [existing?, hnamed, hresolve, isVacant, hfind]
  rw [readPath?, hexisting, Option.bind_some, read?, hfind]

end Disk

end BotConsole
