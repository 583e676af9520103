import BotConsole.Toml.Document
import BotConsole.Proofs.Lookup
import BotConsole.Proofs.Toml.Quoted

namespace BotConsole.Toml

namespace Quotes

theorem body?_drop {q : Quotes} {s rest : List Char} (h : q.Fits s)
    (hrest : rest.head? ≠ some q.mark) :
    q.body? ((q.enclose s ++ rest).drop q.delimiter.length) = some (s, rest) := by
  rw [enclose_append, List.drop_left, body?_enclose h hrest]

theorem exists_enclose (q : Quotes) (s : List Char) : ∃ t, q.enclose s = q.mark :: t := by
  cases q <;> exact ⟨_, rfl⟩

theorem opening?_of_ne {c : Char} {s : List Char} (hq : c ≠ '"') (hv : c ≠ '\'') :
    opening? (c :: s) = none := by
  unfold opening?
  split
  all_goals simp_all

end Quotes

namespace Key

variable {rest : List Char}

-- What may follow a name without becoming part of it.
def Ends (rest : List Char) : Prop :=
  ∀ c ∈ rest.head?, isBare c = false ∧ c ≠ '"' ∧ c ≠ '\''

theorem Ends.takeWhile_append {s : List Char} (h : Ends rest) (hs : ∀ c ∈ s, isBare c = true) :
    (s ++ rest).takeWhile isBare = s := by
  rw [List.takeWhile_append_of_pos hs]
  cases rest with
  | nil => simp
  | cons c rest => simp [(h c rfl).1]

theorem Ends.dropWhile_append {s : List Char} (h : Ends rest) (hs : ∀ c ∈ s, isBare c = true) :
    (s ++ rest).dropWhile isBare = rest := by
  rw [List.dropWhile_append_of_pos hs]
  cases rest with
  | nil => rfl
  | cons c rest => simp [(h c rfl).1]

theorem Ends.head?_ne {q : Quotes} (h : Ends rest) : rest.head? ≠ some q.mark := by
  intro hhead
  obtain ⟨-, hq, hv⟩ := h q.mark hhead
  cases q <;> simp_all [Quotes.mark]

-- A name is written without quotes, or in quotes of one line.
theorem write_cases (name : String) :
    (∃ c s, name.toList = c :: s ∧ (∀ d ∈ c :: s, isBare d = true) ∧ write name = c :: s) ∨
      write name = (Quotes.forName name.toList).enclose name.toList := by
  unfold write
  dsimp only
  split
  · rename_i h
    simp only [Bool.and_eq_true, Bool.not_eq_true', List.isEmpty_eq_false_iff, List.all_eq_true]
      at h
    obtain ⟨c, s, hs⟩ := List.exists_cons_of_ne_nil h.1
    exact .inl ⟨c, s, hs, hs ▸ h.2, hs⟩
  · exact .inr rfl

theorem ne_of_isBare {c d : Char} (hc : isBare c = true) (hd : isBare d = false) : c ≠ d := by
  rintro rfl
  rw [hc] at hd
  cases hd

theorem read?_write (name : String) (h : Ends rest) :
    read? (write name ++ rest) = some (name, rest) := by
  rcases write_cases name with ⟨c, s, hname, hbare, hwrite⟩ | hwrite
  · have hc := hbare c List.mem_cons_self
    have hopen : Quotes.opening? (write name ++ rest) = none := by
      rw [hwrite]
      exact Quotes.opening?_of_ne (ne_of_isBare hc rfl) (ne_of_isBare hc rfl)
    have htake : (write name ++ rest).takeWhile isBare = c :: s := by
      rw [hwrite, h.takeWhile_append hbare]
    have hdrop : (write name ++ rest).dropWhile isBare = rest := by
      rw [hwrite, h.dropWhile_append hbare]
    have hback : String.ofList (c :: s) = name := by rw [← hname, String.ofList_toList]
    simp only [read?, hopen, htake, hdrop, hback]
  · have hfits := Quotes.fits_forName name.toList
    have hlong := Quotes.isLong_forName name.toList
    have hlen : (Quotes.forName name.toList).delimiter.length = 1 := by
      simp [Quotes.delimiter, hlong]
    have hbody := Quotes.body?_drop hfits h.head?_ne
    rw [hlen] at hbody
    simp only [read?, hwrite, Quotes.opening?_enclose hfits h.head?_ne, hlong, hbody]
    simp [String.ofList_toList]

theorem start_write (name : String) : ∃ c s, write name = c :: s ∧
    ∀ d, isBare d = false → d ≠ '"' → d ≠ '\'' → c ≠ d := by
  rcases write_cases name with ⟨c, s, -, hbare, hwrite⟩ | hwrite
  · exact ⟨c, s, hwrite, fun d hd _ _ => ne_of_isBare (hbare c List.mem_cons_self) hd⟩
  · obtain ⟨t, ht⟩ := Quotes.exists_enclose (Quotes.forName name.toList) name.toList
    refine ⟨_, t, hwrite.trans ht, fun d _ hq hv => ?_⟩
    cases Quotes.forName name.toList with
    | basic | longBasic => exact hq.symm
    | verbatim | longVerbatim => exact hv.symm

theorem isBlank_start {c : Char}
    (hc : ∀ d, isBare d = false → d ≠ '"' → d ≠ '\'' → c ≠ d) : isBlank c = false := by
  have hspace : c ≠ ' ' := hc ' ' (by decide) (by decide) (by decide)
  have htab : c ≠ '\t' := hc '\t' (by decide) (by decide) (by decide)
  simp [isBlank, hspace, htab]

theorem path?_write (name : String) (h : Ends rest)
    (hdot : (rest.dropWhile isBlank).head? ≠ some '.') :
    path? (write name ++ rest) = some ([name], rest.dropWhile isBlank) := by
  unfold path?
  simp only [names?, read?_write name h, Option.bind_eq_bind, Option.bind_some]
  split
  · rename_i heq
    simp [heq] at hdot
  · rfl

end Key

theorem Reader.tree?_of_scalar? {c : Char} {s rest : List Char} {v : Scalar} (hlist : c ≠ '[')
    (hinline : c ≠ '{') (h : scalar? (c :: s) = some (v, rest)) (fuel : Nat) :
    tree? (fuel + 1) (c :: s) = some (.scalar v, rest) := by
  rw [tree?, if_neg hlist, if_neg hinline, h]
  rfl

theorem Reader.assignment?_of_path? {s r rest : List Char} {path : Path} {t : Tree} {fuel : Nat}
    (hpath : Key.path? s = some (path, '=' :: r))
    (ht : tree? fuel (r.dropWhile isBlank) = some (t, rest)) :
    assignment? (fuel + 1) s = some (path, t, rest) := by
  simp [assignment?, hpath, ht]

theorem dropWhile_isBlank {c : Char} (hc : isBlank c = false) (s : List Char) :
    (' ' :: c :: s).dropWhile isBlank = c :: s := by
  rw [List.dropWhile_cons_of_pos rfl, List.dropWhile_cons_of_neg (by simp [hc])]

-- A value is read back from where it is written on a line of its own.
def Scalar.Legible (v : Scalar) : Prop :=
  ∀ fuel rest,
    Reader.tree? (fuel + 1) ((' ' :: Document.scalar v ++ '\n' :: rest).dropWhile isBlank) =
      some (.scalar v, '\n' :: rest)

theorem Scalar.legible_text (s : String) : (Scalar.text s).Legible := by
  intro fuel rest
  have hfits := Quotes.fits_forText s.toList
  have hrest : ('\n' :: rest).head? ≠ some (Quotes.forText s.toList).mark := by
    cases Quotes.forText s.toList <;> simp [Quotes.mark]
  have hopen := Quotes.opening?_enclose hfits hrest
  have hbody := Quotes.body?_drop hfits hrest
  have hscalar : Reader.scalar? ((Quotes.forText s.toList).enclose s.toList ++ '\n' :: rest) =
      some (.text s, '\n' :: rest) := by
    simp [Reader.scalar?, hopen, hbody, String.ofList_toList]
  obtain ⟨t, ht⟩ := Quotes.exists_enclose (Quotes.forText s.toList) s.toList
  have hblank : isBlank (Quotes.forText s.toList).mark = false := by
    cases Quotes.forText s.toList <;> rfl
  have hlist : (Quotes.forText s.toList).mark ≠ '[' := by
    cases Quotes.forText s.toList <;> decide
  have hinline : (Quotes.forText s.toList).mark ≠ '{' := by
    cases Quotes.forText s.toList <;> decide
  simp only [Document.scalar, ht, List.cons_append] at hscalar ⊢
  rw [dropWhile_isBlank hblank]
  exact Reader.tree?_of_scalar? hlist hinline hscalar fuel

namespace Statement

def line : String × Scalar → Statement
  | (name, v) => .assignment [name] (.scalar v)

variable {name : String} {v : Scalar} {rest : List Char}

theorem read?_assignment (h : v.Legible) :
    read? (Document.assignment (name, v) ++ rest) = some (line (name, v), '\n' :: rest) := by
  obtain ⟨c, s, hname, hc⟩ := Key.start_write name
  have hends : Key.Ends (' ' :: '=' :: ' ' :: Document.scalar v ++ '\n' :: rest) := by
    intro d hd
    obtain rfl := Option.some.inj hd
    exact ⟨rfl, by decide, by decide⟩
  have hpath := Key.path?_write name hends (by simp [isBlank])
  have hline : Document.assignment (name, v) ++ rest =
      Key.write name ++ (' ' :: '=' :: ' ' :: Document.scalar v ++ '\n' :: rest) := by
    simp [Document.assignment]
  have hlist : c ≠ '[' := hc '[' rfl (by decide) (by decide)
  have hassign : ∀ fuel, Reader.assignment? (fuel + 2) (Document.assignment (name, v) ++ rest) =
      some ([name], .scalar v, '\n' :: rest) := by
    intro fuel
    rw [hline]
    exact Reader.assignment?_of_path? hpath (h fuel rest)
  rw [Document.assignment, hname] at hassign ⊢
  simp only [List.cons_append] at hassign ⊢
  unfold read?
  split
  · rename_i heq
    exact absurd (List.cons.inj heq).1 hlist
  · rw [List.length_cons, hassign]
    rfl

theorem gap?_of_start {c : Char} {s : List Char} (hn : c ≠ '\n') (hr : c ≠ '\r')
    (hblank : isBlank c = false) (hcomment : c ≠ '#') :
    Reader.gap? false (c :: s) = some (c :: s) := by
  rw [Reader.gap?]
  · simp [hblank, hcomment]
  · exact hn
  · intro t hc
    exact absurd hc hr

theorem gap?_assignment (a : String × Scalar) (rest : List Char) :
    ∃ c s, Document.assignment a ++ rest = c :: s ∧ c ≠ '\ufeff' ∧
      Reader.gap? false (c :: s) = some (c :: s) := by
  obtain ⟨name, v⟩ := a
  obtain ⟨c, s, hname, hc⟩ := Key.start_write name
  refine ⟨c, s ++ [' ', '=', ' '] ++ Document.scalar v ++ ['\n'] ++ rest, ?_, ?_, ?_⟩
  · simp [Document.assignment, hname]
  · exact hc _ rfl (by decide) (by decide)
  · exact gap?_of_start (hc _ rfl (by decide) (by decide)) (hc _ rfl (by decide) (by decide))
      (Key.isBlank_start hc) (hc _ rfl (by decide) (by decide))

theorem all?_succ {fuel : Nat} {c : Char} {s : List Char} {statement : Statement}
    (hgap : Reader.gap? false (c :: s) = some (c :: s))
    (hread : read? (c :: s) = some (statement, '\n' :: rest)) :
    all? (fuel + 1) (c :: s) = (all? fuel rest).map (statement :: ·) := by
  have hend : Reader.lineEnd? false ('\n' :: rest) = some rest := rfl
  simp only [all?, hgap, hread, hend, Option.bind_eq_bind, Option.bind_some]
  cases all? fuel rest <;> rfl

theorem all?_assignments {as : List (String × Scalar)} (h : ∀ a ∈ as, a.2.Legible) (fuel : Nat) :
    all? (fuel + as.length) (as.flatMap Document.assignment ++ rest) =
      (all? fuel rest).map (as.map line ++ ·) := by
  induction as with
  | nil => simp
  | cons a as ih =>
    obtain ⟨name, v⟩ := a
    have hread : read? (Document.assignment (name, v) ++ (as.flatMap Document.assignment ++ rest)) =
        some (line (name, v), '\n' :: (as.flatMap Document.assignment ++ rest)) :=
      read?_assignment (h _ List.mem_cons_self)
    have htail := ih fun b hb => h b (List.mem_cons_of_mem _ hb)
    obtain ⟨c, s, hstart, -, hgap⟩ :=
      gap?_assignment (name, v) (as.flatMap Document.assignment ++ rest)
    rw [List.flatMap_cons, List.append_assoc, List.length_cons, ← Nat.add_assoc]
    rw [hstart] at hread ⊢
    rw [all?_succ hgap hread, htail, Option.map_map]
    rfl

theorem length_le_assignments (as : List (String × Scalar)) :
    as.length ≤ (as.flatMap Document.assignment).length := by
  induction as with
  | nil => exact Nat.le_refl _
  | cons a as ih =>
    have ha : 0 < (Document.assignment a).length := by
      simp only [Document.assignment, List.length_append, List.length_cons]
      omega
    rw [List.flatMap_cons, List.length_append, List.length_cons]
    omega

end Statement

namespace Entries

theorem assign?_name {name : String} {value : Value} {entries : Entries}
    (h : name ∉ entries.map (·.1)) :
    assign? [name] value entries = some (entries ++ [(name, .leaf value)]) := by
  have hnone := lookup_eq_none_of_notMem h
  simp [assign?, mayAssign, update?, add?, hnone]

-- The assignments of a section by their paths, and the entries that they make.
def assigned (as : List (String × Scalar)) : List (Path × Value) :=
  as.map fun (name, v) => ([name], .scalar v)

def leaves (as : List (String × Scalar)) : Entries :=
  as.map fun (name, v) => (name, .leaf (.scalar v))

theorem assignAll?_assigned {as : List (String × Scalar)} {entries : Entries}
    (h : (entries.map (·.1) ++ as.map (·.1)).Nodup) :
    assignAll? (assigned as) entries = some (entries ++ leaves as) := by
  induction as generalizing entries with
  | nil => simp [assignAll?, assigned, leaves]
  | cons a as ih =>
    obtain ⟨name, v⟩ := a
    have hname : name ∉ entries.map (·.1) := fun hm =>
      (List.nodup_append.mp h).2.2 name hm name List.mem_cons_self rfl
    have hrest :
        ((entries ++ [(name, Node.leaf (.scalar v))]).map (·.1) ++ as.map (·.1)).Nodup := by
      simpa using h
    have htail := ih hrest
    simp only [assignAll?, assigned, List.map_cons, List.foldlM_cons, assign?_name hname]
      at htail ⊢
    simpa [leaves] using htail

end Entries

theorem Node.values_leaves (as : List (String × Scalar)) :
    Node.values (Entries.leaves as) = as.map fun (name, v) => (name, .scalar v) := by
  induction as with
  | nil => rfl
  | cons a as ih =>
    rw [Entries.leaves] at ih
    simp [Entries.leaves, Node.values, Node.value, ih]

end BotConsole.Toml
