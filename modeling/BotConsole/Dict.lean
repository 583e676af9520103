namespace BotConsole

variable {α β : Type}

def Ascending (entries : List (String × α)) : Prop :=
  entries.Pairwise fun a b => a.1 < b.1

instance (entries : List (String × α)) : Decidable (Ascending entries) :=
  inferInstanceAs (Decidable (entries.Pairwise _))

def put (key : String) (value : α) : List (String × α) → List (String × α)
  | [] => [(key, value)]
  | entry :: entries =>
    if key < entry.1 then (key, value) :: entry :: entries
    else if key = entry.1 then (key, value) :: entries
    else entry :: put key value entries

def putAll (pairs entries : List (String × α)) : List (String × α) :=
  pairs.foldl (fun acc pair => put pair.1 pair.2 acc) entries

-- A finite map from texts, its keys in code point order, which is also the order of their
-- UTF-8 bytes.
structure Dict (α : Type) where
  entries : List (String × α)
  ascending : Ascending entries
  deriving DecidableEq

theorem mem_put {key : String} {value : α} {entries : List (String × α)} {e : String × α}
    (h : e ∈ put key value entries) : e = (key, value) ∨ e ∈ entries := by
  induction entries with
  | nil => simpa [put] using h
  | cons d entries ih =>
    simp only [put] at h
    split at h
    · simpa using h
    · split at h
      · rcases List.mem_cons.1 h with h | h
        · exact .inl h
        · exact .inr (List.mem_cons_of_mem _ h)
      · rcases List.mem_cons.1 h with h | h
        · exact .inr (h ▸ List.mem_cons_self)
        · exact (ih h).imp_right (List.mem_cons_of_mem _)

theorem ascending_put {key : String} {value : α} {entries : List (String × α)}
    (h : Ascending entries) : Ascending (put key value entries) := by
  induction entries with
  | nil => simp [put, Ascending]
  | cons d entries ih =>
    have htail : Ascending entries := List.Pairwise.tail h
    have hhead : ∀ e ∈ entries, d.1 < e.1 := (List.pairwise_cons.1 h).1
    simp only [put]
    split
    · next hlt =>
      refine List.pairwise_cons.2 ⟨?_, h⟩
      intro e he
      rcases List.mem_cons.1 he with rfl | he
      · exact hlt
      · exact String.lt_trans hlt (hhead e he)
    · next hnlt =>
      split
      · next heq => exact List.pairwise_cons.2 ⟨by simpa [heq] using hhead, htail⟩
      · next hne =>
        refine List.pairwise_cons.2 ⟨?_, ih htail⟩
        intro e he
        rcases mem_put he with rfl | he
        · rcases String.le_total d.1 key with hle | hle
          · refine Classical.byContradiction fun hn => hne ?_
            exact String.le_antisymm (String.not_lt.1 hn) hle
          · exact absurd (Classical.byContradiction fun hn =>
              hne (String.le_antisymm hle (String.not_lt.1 hn))) hnlt
        · exact hhead e he

theorem ascending_putAll {pairs entries : List (String × α)} (h : Ascending entries) :
    Ascending (putAll pairs entries) := by
  induction pairs generalizing entries with
  | nil => exact h
  | cons p pairs ih => exact ih (ascending_put h)

theorem lookup_eq_none_of_lt {key : String} {entries : List (String × α)}
    (h : ∀ e ∈ entries, key < e.1) : entries.lookup key = none := by
  rw [List.lookup_eq_none_iff]
  intro e he
  simp only [bne_iff_ne, ne_eq]
  intro heq
  exact String.lt_irrefl e.1 (heq ▸ h e he)

theorem lookup_put {entries : List (String × α)} (h : Ascending entries)
    (key k : String) (value : α) :
    (put key value entries).lookup k = if k = key then some value else entries.lookup k := by
  induction entries with
  | nil =>
    by_cases hk : k = key
    · simp [put, hk]
    · have : (k == key) = false := by simp [hk]
      simp [put, List.lookup_cons, this, hk]
  | cons d entries ih =>
    obtain ⟨dk, dv⟩ := d
    have ih := ih (List.Pairwise.tail h)
    simp only [put]
    split
    · by_cases hk : k = key
      · simp [hk]
      · have : (k == key) = false := by simp [hk]
        simp [List.lookup_cons, this, hk]
    · split
      · next heq =>
        by_cases hk : k = key
        · simp [hk]
        · have h1 : (k == key) = false := by simp [hk]
          have h2 : (k == dk) = false := by simpa [← heq] using hk
          simp [List.lookup_cons, h1, h2, hk]
      · next hne =>
        by_cases hd : k = dk
        · have hk : ¬ k = key := fun hk => hne (hk ▸ hd)
          subst hd
          simp [hk]
        · have h2 : (k == dk) = false := by simp [hd]
          simp [List.lookup_cons, h2, ih]

-- In a sorted list no key stands twice, so it does not matter from which end it is searched.
theorem lookup_reverse {entries : List (String × α)} (h : Ascending entries) (key : String) :
    entries.reverse.lookup key = entries.lookup key := by
  induction entries with
  | nil => rfl
  | cons e entries ih =>
    obtain ⟨k, value⟩ := e
    rw [List.reverse_cons, List.lookup_append, ih (List.Pairwise.tail h)]
    by_cases hk : key = k
    · have hnone := lookup_eq_none_of_lt (List.pairwise_cons.1 h).1
      simp [hk, hnone]
    · have hne : (key == k) = false := by simp [hk]
      simp [List.lookup_cons, hne]

namespace Dict

def empty : Dict α := ⟨[], List.Pairwise.nil⟩

instance : Inhabited (Dict α) := ⟨empty⟩

def get? (d : Dict α) (key : String) : Option α :=
  d.entries.lookup key

def insert (d : Dict α) (key : String) (value : α) : Dict α :=
  ⟨put key value d.entries, ascending_put d.ascending⟩

def insertMany (d : Dict α) (pairs : List (String × α)) : Dict α :=
  ⟨putAll pairs d.entries, ascending_putAll d.ascending⟩

def ofPairs (pairs : List (String × α)) : Dict α :=
  empty.insertMany pairs

def overlay (d upper : Dict α) : Dict α :=
  d.insertMany upper.entries

def keys (d : Dict α) : List String :=
  d.entries.map (·.1)

def isEmpty (d : Dict α) : Bool :=
  d.entries.isEmpty

def map (f : α → β) (d : Dict α) : Dict β where
  entries := d.entries.map fun e => (e.1, f e.2)
  ascending := by
    have h := d.ascending
    simpa only [Ascending, List.pairwise_map] using h

@[simp] theorem get?_empty (key : String) : (empty : Dict α).get? key = none := rfl

@[simp] theorem get?_insert (d : Dict α) (key k : String) (value : α) :
    (d.insert key value).get? k = if k = key then some value else d.get? k :=
  lookup_put d.ascending key k value

@[simp] theorem insertMany_nil (d : Dict α) : d.insertMany [] = d := rfl

@[simp] theorem insertMany_cons (d : Dict α) (pair : String × α) (pairs : List (String × α)) :
    d.insertMany (pair :: pairs) = (d.insert pair.1 pair.2).insertMany pairs := rfl

theorem insertMany_append (d : Dict α) (first second : List (String × α)) :
    d.insertMany (first ++ second) = (d.insertMany first).insertMany second := by
  induction first generalizing d with
  | nil => rfl
  | cons p first ih => simpa using ih (d.insert p.1 p.2)

theorem get?_insertMany (d : Dict α) (pairs : List (String × α)) (key : String) :
    (d.insertMany pairs).get? key = (pairs.reverse.lookup key).or (d.get? key) := by
  induction pairs generalizing d with
  | nil => simp
  | cons p pairs ih =>
    obtain ⟨k, value⟩ := p
    rw [insertMany_cons, ih, List.reverse_cons, List.lookup_append, Option.or_assoc, get?_insert]
    congr 1
    by_cases hk : key = k
    · simp [hk]
    · have hne : (key == k) = false := by simp [hk]
      simp [List.lookup_cons, hne, hk]

theorem get?_overlay (d upper : Dict α) (key : String) :
    (d.overlay upper).get? key = (upper.get? key).or (d.get? key) := by
  rw [overlay, get?_insertMany, lookup_reverse upper.ascending]
  rfl

theorem ext_get? {c d : Dict α} (h : ∀ key, c.get? key = d.get? key) : c = d := by
  obtain ⟨ce, ca⟩ := c
  obtain ⟨de, da⟩ := d
  suffices ce = de by subst this; rfl
  simp only [get?] at h
  induction ce generalizing de with
  | nil =>
    cases de with
    | nil => rfl
    | cons e de =>
      obtain ⟨ek, ev⟩ := e
      simpa [List.lookup_cons_self] using h ek
  | cons a ce ih =>
    obtain ⟨ak, av⟩ := a
    cases de with
    | nil => simpa [List.lookup_cons_self] using h ak
    | cons e de =>
      obtain ⟨ek, ev⟩ := e
      have hca := (List.pairwise_cons.1 ca).1
      have hda := (List.pairwise_cons.1 da).1
      have hkey : ak = ek := by
        have h1 := h ak
        have h2 := h ek
        refine Classical.byContradiction fun hne => ?_
        have hae : (ak == ek) = false := by simp [hne]
        have hea : (ek == ak) = false := by simp [Ne.symm hne]
        simp only [List.lookup_cons, beq_self_eq_true, hae] at h1
        simp only [List.lookup_cons, beq_self_eq_true, hea] at h2
        rcases String.le_total ak ek with hle | hle
        · have hlt : ak < ek := Classical.byContradiction fun hn =>
            hne (String.le_antisymm hle (String.not_lt.1 hn))
          rw [lookup_eq_none_of_lt fun x hx => String.lt_trans hlt (hda x hx)] at h1
          cases h1
        · have hlt : ek < ak := Classical.byContradiction fun hn =>
            hne (String.le_antisymm (String.not_lt.1 hn) hle)
          rw [lookup_eq_none_of_lt fun x hx => String.lt_trans hlt (hca x hx)] at h2
          cases h2
      have hval : av = ev := by
        have h1 := h ak
        simpa [List.lookup_cons, hkey] using h1
      have hrest : ce = de := by
        refine ih (List.Pairwise.tail ca) de (List.Pairwise.tail da) fun key => ?_
        by_cases hk : key = ak
        · rw [hk, lookup_eq_none_of_lt hca, hkey, lookup_eq_none_of_lt hda]
        · have h1 := h key
          have ha : (key == ak) = false := by simp [hk]
          have he : (key == ek) = false := by simpa [← hkey] using hk
          simpa [List.lookup_cons, ha, he] using h1
      rw [show (ak, av) = (ek, ev) from Prod.ext hkey hval, hrest]

end Dict

end BotConsole
