import BotConsole.Proofs.Toml.Document

namespace BotConsole.Toml

namespace Document

-- The text of a document with empty lines in it: in front of each section as many as are said for
-- its name, and some more at the end.
def spaced (gap : String → Nat) (foot : Nat) (d : Document) : String :=
  String.ofList (d.own.flatMap assignment ++
    (d.sections.flatMap (fun s => List.replicate (gap s.1) '\n' ++ titled s) ++
      List.replicate foot '\n'))

theorem flatten_intersperse (sep part : List Char) (parts : List (List Char)) :
    ((part :: parts).intersperse sep).flatten = part ++ parts.flatMap (sep ++ ·) := by
  induction parts generalizing part with
  | nil => simp
  | cons next parts ih =>
    rw [List.intersperse_cons_cons, List.flatten_cons, List.flatten_cons, ih, List.flatMap_cons,
      List.append_assoc]

-- A document is written with one empty line between neighbours.
theorem exists_spaced {d : Document} (h : (d.sections.map (·.1)).Nodup) :
    ∃ gap, d.write = d.spaced gap 0 := by
  obtain ⟨own, sections⟩ := d
  cases own with
  | cons a own =>
    refine ⟨fun _ => 1, ?_⟩
    simp [write, spaced, flatten_intersperse, List.flatMap_map]
  | nil =>
    cases sections with
    | nil => exact ⟨fun _ => 0, rfl⟩
    | cons s sections =>
      have hfirst : ∀ t ∈ sections, t.1 ≠ s.1 := by
        intro t ht heq
        exact (List.nodup_cons.mp h).1 (List.mem_map.mpr ⟨t, ht, heq⟩)
      refine ⟨fun name => if name = s.1 then 0 else 1, ?_⟩
      have hrest : sections.flatMap (fun t => '\n' :: titled t) = sections.flatMap fun t =>
          List.replicate (if t.1 = s.1 then 0 else 1) '\n' ++ titled t := by
        apply List.flatMap_congr
        intro t ht
        simp [hfirst t ht]
      simp [write, spaced, flatten_intersperse, List.flatMap_map, hrest]

-- A document is read back if all its values are legible and no name stands twice in one table.
structure Legible (d : Document) : Prop where
  own : ∀ a ∈ d.own, a.2.Legible
  sections : ∀ s ∈ d.sections, ∀ a ∈ s.2, a.2.Legible
  names : (d.own.map (·.1) ++ d.sections.map (·.1)).Nodup
  keys : ∀ s ∈ d.sections, (s.2.map (·.1)).Nodup

end Document

-- What is deleted from a document: whole sections, and single entries of the other ones.
structure Cut where
  sections : String → Bool
  entries : String → String → Bool

namespace Cut

def deletes (c : Cut) (name entry : String) : Bool :=
  c.sections name || c.entries name entry

def nothing : Cut :=
  ⟨fun _ => false, fun _ _ => false⟩

end Cut

namespace Document

def without (d : Document) (c : Cut) : Document where
  own := d.own
  sections := (d.sections.filter fun s => !c.sections s.1).map fun (name, as) =>
    (name, as.filter fun a => !c.entries name a.1)

theorem without_nothing (d : Document) : d.without .nothing = d := by
  simp [without, Cut.nothing]

theorem Legible.without {d : Document} (h : d.Legible) (c : Cut) : (d.without c).Legible where
  own := h.own
  sections := by
    intro s hs a ha
    obtain ⟨t, ht, rfl⟩ := List.mem_map.mp hs
    exact h.sections t (List.mem_filter.mp ht).1 a (List.mem_filter.mp ha).1
  names := by
    refine h.names.sublist (List.Sublist.append_left ?_ _)
    rw [Document.without, List.map_map]
    exact List.filter_sublist.map _
  keys := by
    intro s hs
    obtain ⟨t, ht, rfl⟩ := List.mem_map.mp hs
    exact (h.keys t (List.mem_filter.mp ht).1).sublist (List.filter_sublist.map _)

end Document

namespace Statement

variable {name : String} {as : List (String × Scalar)} {rest : List Char}

def block (s : String × List (String × Scalar)) : List Statement :=
  .header (.table [s.1]) :: s.2.map line

theorem gap?_replicate (n : Nat) (s : List Char) :
    Reader.gap? false (List.replicate n '\n' ++ s) = Reader.gap? false s := by
  induction n with
  | zero => rfl
  | succ n ih => rw [List.replicate_succ, List.cons_append, Reader.gap?, ih]

theorem all?_replicate {fuel : Nat} (hfuel : 0 < fuel) (n : Nat) (s : List Char) :
    all? fuel (List.replicate n '\n' ++ s) = all? fuel s := by
  obtain ⟨fuel, rfl⟩ := Nat.exists_eq_succ_of_ne_zero hfuel.ne'
  simp only [all?, gap?_replicate]

theorem read?_titled (name : String) (as : List (String × Scalar)) (rest : List Char) :
    read? (Document.titled (name, as) ++ rest) =
      some (.header (.table [name]), '\n' :: (as.flatMap Document.assignment ++ rest)) := by
  obtain ⟨c, s, hname, hc⟩ := Key.start_write name
  let behind := ']' :: '\n' :: (as.flatMap Document.assignment ++ rest)
  have hends : Key.Ends behind := by
    intro d hd
    obtain rfl := Option.some.inj hd
    exact ⟨rfl, by decide, by decide⟩
  have hpath : Key.path? (Key.write name ++ behind) = some ([name], behind) :=
    Key.path?_write name hends (by simp [behind, isBlank])
  have hlist : c ≠ '[' := hc '[' rfl (by decide) (by decide)
  have hdrop : (Key.write name ++ behind).dropWhile isBlank = Key.write name ++ behind := by
    rw [hname, List.cons_append, List.dropWhile_cons_of_neg (by simp [Key.isBlank_start hc])]
  have hheader : header? (Key.write name ++ behind) =
      some (.table [name], '\n' :: (as.flatMap Document.assignment ++ rest)) := by
    unfold header?
    split
    · next heq =>
      rw [hname] at heq
      exact absurd (List.cons.inj heq).1 hlist
    · simp only [hdrop, hpath]
      rfl
  have htext : Document.titled (name, as) ++ rest = '[' :: (Key.write name ++ behind) := by
    simp [Document.titled, behind]
  rw [htext, read?, hheader]
  rfl

theorem all?_titled (h : ∀ a ∈ as, a.2.Legible) (fuel : Nat) :
    all? (fuel + (block (name, as)).length) (Document.titled (name, as) ++ rest) =
      (all? fuel rest).map (block (name, as) ++ ·) := by
  have hread := read?_titled name as rest
  have hlength : fuel + (block (name, as)).length = fuel + as.length + 1 := by
    simp only [block, List.length_cons, List.length_map]
    omega
  obtain ⟨s, hs⟩ : ∃ s, Document.titled (name, as) ++ rest = '[' :: s := ⟨_, rfl⟩
  rw [hs] at hread ⊢
  have hgap : Reader.gap? false ('[' :: s) = some ('[' :: s) :=
    gap?_of_start (by decide) (by decide) rfl (by decide)
  rw [hlength, all?_succ hgap hread, all?_assignments h, Option.map_map]
  rfl

-- The fuel that is left over does not matter.
theorem all?_sections {sections : List (String × List (String × Scalar))}
    (h : ∀ s ∈ sections, ∀ a ∈ s.2, a.2.Legible) (gap : String → Nat) (foot fuel : Nat) :
    all? (fuel + 1 + (sections.flatMap block).length)
      (sections.flatMap (fun s => List.replicate (gap s.1) '\n' ++ Document.titled s) ++
        List.replicate foot '\n') = some (sections.flatMap block) := by
  induction sections with
  | nil =>
    have hempty := all?_replicate fuel.succ_pos foot []
    rw [List.append_nil] at hempty
    exact hempty
  | cons s sections ih =>
    have htail := ih fun t ht => h t (List.mem_cons_of_mem _ ht)
    have hlength : fuel + 1 + ((s :: sections).flatMap block).length =
        fuel + 1 + (sections.flatMap block).length + (block s).length := by
      rw [List.flatMap_cons, List.length_append]
      omega
    have hpositive : 0 < fuel + 1 + (sections.flatMap block).length + (block s).length := by omega
    rw [hlength, List.flatMap_cons, List.append_assoc, List.append_assoc,
      all?_replicate hpositive, all?_titled (h s List.mem_cons_self), htail, List.flatMap_cons]
    rfl

-- A byte order mark begins no statement.
theorem all?_mark (fuel : Nat) (s : List Char) : all? fuel ('\ufeff' :: s) = none := by
  cases fuel with
  | zero => rfl
  | succ fuel =>
    have hgap : Reader.gap? false ('\ufeff' :: s) = some ('\ufeff' :: s) :=
      gap?_of_start (by decide) (by decide) rfl (by decide)
    have hname : Key.read? ('\ufeff' :: s) = none := by
      have hopen := Quotes.opening?_of_ne (c := '\ufeff') (s := s) (by decide) (by decide)
      have htake : ('\ufeff' :: s).takeWhile Key.isBare = [] :=
        List.takeWhile_cons_of_neg (by decide)
      simp only [Key.read?, hopen, htake]
    have hread : read? ('\ufeff' :: s) = none := by
      have hassign : Reader.assignment? (('\ufeff' :: s).length + 1) ('\ufeff' :: s) = none := by
        simp [Reader.assignment?, Key.path?, Key.names?, hname]
      unfold read?
      split
      · next heq => exact absurd (List.cons.inj heq).1 (by decide)
      · rw [hassign]
        rfl
    simp [all?, hgap, hread]

theorem length_block_le (sections : List (String × List (String × Scalar))) (gap : String → Nat) :
    (sections.flatMap block).length ≤
      (sections.flatMap fun s => List.replicate (gap s.1) '\n' ++ Document.titled s).length := by
  induction sections with
  | nil => exact Nat.le_refl _
  | cons s sections ih =>
    have hlines := length_le_assignments s.2
    simp only [List.flatMap_cons, List.length_append, block, Document.titled, List.length_cons,
      List.length_map] at ih ⊢
    omega

theorem ofText?_spaced {d : Document} (h : d.Legible) (gap : String → Nat) (foot : Nat) :
    ofText? (d.spaced gap foot).toList = some (d.own.map line ++ d.sections.flatMap block) := by
  let body := d.sections.flatMap (fun s => List.replicate (gap s.1) '\n' ++ Document.titled s) ++
    List.replicate foot '\n'
  have htext : (d.spaced gap foot).toList = d.own.flatMap Document.assignment ++ body :=
    String.toList_ofList
  have hlength : (d.sections.flatMap block).length + d.own.length ≤
      (d.own.flatMap Document.assignment ++ body).length := by
    have hown := length_le_assignments d.own
    have hsections := length_block_le d.sections gap
    simp only [body, List.length_append] at hsections ⊢
    omega
  obtain ⟨fuel, hfuel⟩ := Nat.exists_eq_add_of_le hlength
  have hall : all? ((d.own.flatMap Document.assignment ++ body).length + 1)
      (d.own.flatMap Document.assignment ++ body) =
        some (d.own.map line ++ d.sections.flatMap block) := by
    have hfuel' : (d.own.flatMap Document.assignment ++ body).length + 1 =
        fuel + 1 + (d.sections.flatMap block).length + d.own.length := by
      omega
    rw [hfuel', all?_assignments h.own, all?_sections h.sections]
    rfl
  rw [htext]
  unfold ofText?
  split
  · next heq =>
    rw [heq, all?_mark] at hall
    cases hall
  · exact hall

theorem sections?_lines (as : List (String × Scalar)) (rest : List Statement) :
    sections? (as.map line ++ rest) =
      (sections? rest).map fun (own, sections) => (Entries.assigned as ++ own, sections) := by
  induction as with
  | nil => cases hrest : sections? rest <;> simp [Entries.assigned, hrest]
  | cons a as ih =>
    obtain ⟨name, v⟩ := a
    have hvalue : (Tree.scalar v).allowed? = some (.scalar v) := by
      simp [Tree.allowed?, Tree.depth, Tree.value?]
    cases hrest : sections? rest <;> simp [line, sections?, hvalue, ih, hrest, Entries.assigned]

theorem sections?_blocks (sections : List (String × List (String × Scalar))) :
    sections? (sections.flatMap block) =
      some ([], sections.map fun (name, as) => (.table [name], Entries.assigned as)) := by
  induction sections with
  | nil => rfl
  | cons s sections ih =>
    rw [List.flatMap_cons, block, List.cons_append, sections?, sections?_lines, ih]
    simp

end Statement

namespace Entries

def tables (sections : List (String × List (String × Scalar))) : Entries :=
  sections.map fun (name, as) => (name, .table .header (leaves as))

theorem section?_table {name : String} {as : List (String × Scalar)} {root : Entries}
    (h : name ∉ root.map (·.1)) (hkeys : (as.map (·.1)).Nodup) :
    Entries.section? root (.table [name], assigned as) =
      some (root ++ [(name, .table .header (leaves as))]) := by
  have hnone := lookup_eq_none_of_notMem h
  have hassigned : assignAll? (assigned as) [] = some ([] ++ leaves as) :=
    assignAll?_assigned (by simpa using hkeys)
  simp [section?, update?, define?, hnone, hassigned]

theorem foldlM_section? {sections : List (String × List (String × Scalar))} {root : Entries}
    (h : (root.map (·.1) ++ sections.map (·.1)).Nodup)
    (hkeys : ∀ s ∈ sections, (s.2.map (·.1)).Nodup) :
    (sections.map fun (name, as) => (Header.table [name], assigned as)).foldlM section? root =
      some (root ++ tables sections) := by
  induction sections generalizing root with
  | nil => simp [tables]
  | cons s sections ih =>
    obtain ⟨name, as⟩ := s
    have hname : name ∉ root.map (·.1) := fun hm =>
      (List.nodup_append.mp h).2.2 name hm name List.mem_cons_self rfl
    have hfirst := section?_table hname (hkeys _ List.mem_cons_self)
    have hnames : ((root ++ [(name, Node.table .header (leaves as))]).map (·.1) ++
        sections.map (·.1)).Nodup := by
      simpa using h
    have htail := ih hnames fun t ht => hkeys t (List.mem_cons_of_mem _ ht)
    rw [List.map_cons, List.foldlM_cons, hfirst]
    simpa [tables] using htail

end Entries

namespace Node

theorem values_append (entries entries' : Entries) :
    values (entries ++ entries') = values entries ++ values entries' := by
  induction entries with
  | nil => rfl
  | cons e entries ih => simp [values, ih]

theorem values_tables (sections : List (String × List (String × Scalar))) :
    values (Entries.tables sections) =
      sections.map fun (name, as) =>
        (name, .table (as.map fun (name, v) => (name, .scalar v))) := by
  induction sections with
  | nil => rfl
  | cons s sections ih =>
    rw [Entries.tables] at ih
    simp [Entries.tables, values, value, values_leaves, ih]

end Node

theorem read?_spaced {d : Document} (h : d.Legible) (gap : String → Nat) (foot : Nat) :
    read? (d.spaced gap foot) = some d.entries := by
  have hown : Entries.assignAll? (Entries.assigned d.own) [] =
      some ([] ++ Entries.leaves d.own) :=
    Entries.assignAll?_assigned (List.nodup_append.mp h.names).1
  have hnames : ((Entries.leaves d.own).map (·.1) ++ d.sections.map (·.1)).Nodup := by
    have hsame : (Entries.leaves d.own).map (·.1) = d.own.map (·.1) := List.map_map
    rw [hsame]
    exact h.names
  have hsections := Entries.foldlM_section? hnames h.keys
  have hstatements := Statement.ofText?_spaced h gap foot
  simp only [read?, hstatements, Statement.sections?_lines, Statement.sections?_blocks,
    Option.map_some, Option.bind_eq_bind, Option.bind_some, List.append_nil, hown, List.nil_append,
    hsections, Node.values_append, Node.values_leaves, Node.values_tables]
  rfl

theorem read?_write {d : Document} (h : d.Legible) : read? d.write = some d.entries := by
  obtain ⟨gap, hgap⟩ := Document.exists_spaced (List.nodup_append.mp h.names).2.1
  rw [hgap, read?_spaced h]

end BotConsole.Toml
