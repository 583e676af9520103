import BotConsole.Json.Record
import BotConsole.Proofs.Dict
import BotConsole.Proofs.Json.Ordered
import Mathlib.Data.Option.Basic

namespace BotConsole.Json

theorem Tree.keys_of_isReadable {members : List (Option String × Tree)}
    (h : (Tree.object members).isReadable = true) : members.all (·.1.isSome) = true := by
  have hm : (Tree.members? members).isSome = true := by
    simpa only [Tree.isReadable, Tree.value?, Option.isSome_map] using h
  clear h
  induction members with
  | nil => rfl
  | cons member members ih =>
    obtain ⟨key, t⟩ := member
    cases key with
    | none => simp [Tree.members?] at hm
    | some key =>
      cases ht : t.value? with
      | none => simp [Tree.members?, ht] at hm
      | some v =>
        cases hrest : Tree.members? members with
        | none => simp [Tree.members?, ht, hrest] at hm
        | some vs => simpa using ih (by simp [hrest])

namespace Record

variable {name : String} {members : List (Option String × Tree)}

-- A field that can be told holds the only member of its name.
theorem field?_eq_of_mem {field : Option Tree} {t : Tree} (h : field? name members = some field)
    (hm : (some name, t) ∈ members) : field = some t := by
  have hf : (some name, t) ∈ members.filter (·.1 == some name) :=
    List.mem_filter.mpr ⟨hm, by simp⟩
  unfold field? at h
  split at h
  · rename_i hnil
    simp [hnil] at hf
  · rename_i key u hone
    rw [hone, List.mem_singleton] at hf
    obtain ⟨-, rfl⟩ := Prod.mk.inj hf
    simpa using h.symm
  · cases h

theorem signed64?_int {i : Int} (hlow : -(1 <<< 63 : Nat) ≤ i)
    (hhigh : i < (1 <<< 63 : Nat)) : signed64? (.number (some (.int i))) = some i :=
  if_pos ⟨hlow, hhigh⟩

theorem signed64?_bounds {t : Tree} {i : Int} (h : signed64? t = some i) :
    -(1 <<< 63 : Nat) ≤ i ∧ i < (1 <<< 63 : Nat) := by
  unfold signed64? at h
  split at h
  · split at h
    · rename_i hbounds
      obtain rfl := Option.some.inj h
      exact hbounds
    · cases h
  · cases h

theorem nullable_some {α : Type} {read? : Tree → Option α} {t : Tree} (h : t ≠ .null) :
    nullable read? (some t) = (read? t).map some := by
  cases t with
  | null => exact absurd rfl h
  | _ => rfl

theorem nullable_eq_some {α : Type} {read? : Tree → Option α} {field : Option Tree} {a : α}
    (h : nullable read? field = some (some a)) :
    ∃ t, field = some t ∧ t ≠ .null ∧ read? t = some a := by
  unfold nullable at h
  split at h
  · cases h
  · cases h
  · rename_i t hnull
    obtain ⟨b, hb, hab⟩ := Option.map_eq_some_iff.mp h
    obtain rfl := Option.some.inj hab
    exact ⟨t, rfl, fun ht => hnull ht, hb⟩

-- The members of an object in some order, some of them changed inside, and others put among them
-- whose names are not read.
def Grown (names : List String) (inside : Option String → Tree → Tree → Prop)
    (members members' : List (Option String × Tree)) : Prop :=
  ∃ changed added, List.Forall₂ (fun m m' => m.1 = m'.1 ∧ inside m.1 m.2 m'.2) members changed ∧
    (∀ m ∈ added, ∃ name, m.1 = some name ∧ name ∉ names) ∧ members'.Perm (changed ++ added)

inductive Widened (names : List String) (inside : Option String → Tree → Tree → Prop) :
    Tree → Tree → Prop where
  | refl (t : Tree) : Widened names inside t t
  | object {members members' : List (Option String × Tree)}
      (h : Grown names inside members members') :
      Widened names inside (.object members) (.object members')

-- The field that the members of one name make up.
def single? : List (Option String × Tree) → Option (Option Tree)
  | [] => some none
  | [(_, t)] => some (some t)
  | _ => none

theorem field?_eq_single? (name : String) (members : List (Option String × Tree)) :
    field? name members = single? (members.filter (·.1 == some name)) := rfl

theorem single?_perm {ms ms' : List (Option String × Tree)} (h : ms.Perm ms') :
    single? ms = single? ms' := by
  have hlen := h.length_eq
  rcases ms with _ | ⟨m, _ | ⟨m₁, ms⟩⟩
  · rw [h.nil_eq]
  · rw [List.singleton_perm.mp h]
  · rcases ms' with _ | ⟨m', _ | ⟨m₁', ms'⟩⟩
    · simp at hlen
    · simp at hlen
    · rfl

theorem single?_rel {R : Tree → Tree → Prop} {ms ms' : List (Option String × Tree)}
    (h : List.Forall₂ (fun m m' => R m.2 m'.2) ms ms') :
    Option.Rel (Option.Rel R) (single? ms) (single? ms') := by
  cases h with
  | nil => exact .some .none
  | cons hm hms =>
    cases hms with
    | nil => exact .some (.some hm)
    | cons _ _ => exact .none

namespace Grown

variable {names : List String} {inside : Option String → Tree → Tree → Prop}
  {members' : List (Option String × Tree)}

-- A field that is read stays the same up to the changes inside it.
theorem field?_rel (h : Grown names inside members members') (hname : name ∈ names) :
    Option.Rel (Option.Rel (inside (some name))) (field? name members) (field? name members') := by
  obtain ⟨changed, added, hchanged, hadded, hperm⟩ := h
  have hnone : added.filter (·.1 == some name) = [] := by
    rw [List.filter_eq_nil_iff]
    intro m hm heq
    obtain ⟨other, hother, hnot⟩ := hadded m hm
    rw [hother, beq_iff_eq, Option.some.injEq] at heq
    exact hnot (heq ▸ hname)
  have hfield : field? name members' = single? (changed.filter (·.1 == some name)) := by
    have hfilter := hperm.filter (·.1 == some name)
    rw [List.filter_append, hnone, List.append_nil] at hfilter
    exact single?_perm hfilter
  have hsame : List.Forall₂ (fun m m' => inside (some name) m.2 m'.2)
      (members.filter (·.1 == some name)) (changed.filter (·.1 == some name)) := by
    clear hperm hfield
    induction hchanged with
    | nil => exact .nil
    | @cons m m' ms ms' hm hms ih =>
      obtain ⟨hkey, hinside⟩ := hm
      by_cases hk : m.1 = some name
      · have hk' : m'.1 = some name := hkey ▸ hk
        rw [List.filter_cons_of_pos (by simp [hk]), List.filter_cons_of_pos (by simp [hk'])]
        exact .cons (hk ▸ hinside) ih
      · have hk' : m'.1 ≠ some name := hkey ▸ hk
        rw [List.filter_cons_of_neg (by simp [hk]), List.filter_cons_of_neg (by simp [hk'])]
        exact ih
  rw [hfield, field?_eq_single?]
  exact single?_rel hsame

theorem keys_eq (h : Grown names inside members members') :
    members'.all (·.1.isSome) = members.all (·.1.isSome) := by
  obtain ⟨changed, added, hchanged, hadded, hperm⟩ := h
  have hsame : changed.all (·.1.isSome) = members.all (·.1.isSome) := by
    clear hperm
    induction hchanged with
    | nil => rfl
    | cons hm hms ih => rw [List.all_cons, List.all_cons, ih, hm.1]
  have hadded : added.all (·.1.isSome) = true := by
    rw [List.all_eq_true]
    intro m hm
    obtain ⟨name, hname, -⟩ := hadded m hm
    rw [hname]
    rfl
  rw [hperm.all_eq, List.all_append, hadded, Bool.and_true, hsame]

theorem field?_eq (h : Grown names inside members members') (hname : name ∈ names)
    (hinside : ∀ t t', inside (some name) t t' → t = t') :
    field? name members' = field? name members := by
  have hrel := h.field?_rel hname
  generalize field? name members = field at hrel
  generalize field? name members' = field' at hrel
  rcases hrel with (hsame | _) | _
  · rw [hinside _ _ hsame]
  · rfl
  · rfl

end Grown

theorem mapM_congr {α β : Type} {f g : α → Option β} {as : List α} (h : ∀ a ∈ as, f a = g a) :
    as.mapM f = as.mapM g := by
  induction as with
  | nil => rfl
  | cons a as ih =>
    have htail : as.mapM f = as.mapM g := ih fun b hb => h b (List.mem_cons_of_mem _ hb)
    rw [List.mapM_cons, List.mapM_cons, h a List.mem_cons_self, htail]

theorem Widened.nullable_eq {α : Type} {read? : Tree → Option α} {names : List String}
    {inside : Option String → Tree → Tree → Prop} {t t' : Tree} (h : Widened names inside t t')
    (hread : read? t' = read? t) : nullable read? (some t') = nullable read? (some t) := by
  cases h with
  | refl => rfl
  | object h => simp [nullable, hread]

theorem fields?_widened {names : List String} {t t' : Tree}
    (h : Widened names (fun _ t t' => t = t') t t') : fields? names t' = fields? names t := by
  cases h with
  | refl => rfl
  | @object members members' h =>
    have hfields : names.mapM (field? · members') = names.mapM (field? · members) :=
      mapM_congr fun name hname => h.field?_eq hname fun _ _ => id
    simp only [fields?, h.keys_eq, hfields]

theorem mapM_eq_some_iff {α β : Type} {f : α → Option β} {as : List α} {bs : List β} :
    as.mapM f = some bs ↔ List.Forall₂ (fun a b => f a = some b) as bs := by
  induction as generalizing bs with
  | nil => simp [eq_comm]
  | cons a as ih =>
    rw [List.mapM_cons, List.forall₂_cons_left_iff]
    simp only [Option.bind_eq_bind, Option.bind_eq_some_iff, Option.pure_def, Option.some.injEq]
    constructor
    · rintro ⟨b, hb, bs, hbs, rfl⟩
      exact ⟨b, bs, hb, ih.mp hbs, rfl⟩
    · rintro ⟨b, bs, hb, hbs, rfl⟩
      exact ⟨b, hb, bs, ih.mpr hbs, rfl⟩

theorem list?_eq_some_iff {α : Type} {read? : Tree → Option α} {t : Tree} {as : List α} :
    list? read? t = some as ↔
      ∃ items, t = .list items ∧ List.Forall₂ (fun u a => read? u = some a) items as := by
  cases t with
  | list items => simp [list?, mapM_eq_some_iff]
  | _ => simp [list?]

theorem mem_of_field? {t : Tree} (h : field? name members = some (some t)) :
    (some name, t) ∈ members := by
  unfold field? at h
  split at h
  · cases h
  · next key u hone =>
    obtain rfl := Option.some.inj (Option.some.inj h)
    have hmem : (key, u) ∈ members.filter (·.1 == some name) := hone ▸ List.mem_singleton_self _
    obtain ⟨hin, hkey⟩ := List.mem_filter.mp hmem
    rw [← eq_of_beq hkey]
    exact hin
  · cases h

-- Where no name stands twice, every field can be told.
theorem field?_of_nodup (h : (members.map (·.1)).Nodup) (name : String) :
    field? name members = some (members.lookup (some name)) := by
  rw [field?_eq_single?]
  induction members with
  | nil => rfl
  | cons m members ih =>
    obtain ⟨key, t⟩ := m
    rw [List.map_cons, List.nodup_cons] at h
    by_cases hkey : key = some name
    · subst hkey
      have hnone : members.filter (·.1 == some name) = [] := by
        rw [List.filter_eq_nil_iff]
        intro m hm heq
        exact h.1 (List.mem_map.mpr ⟨m, hm, eq_of_beq heq⟩)
      rw [List.filter_cons_of_pos (by simp), hnone]
      simp [single?]
    · have hne : (some name == key) = false := by simpa using Ne.symm hkey
      rw [List.filter_cons_of_neg (by simpa using hkey), ih h.2, List.lookup_cons, hne]

theorem fields?_entries (d : Dict Value) (names : List String) :
    fields? names (Value.object d.entries).toTree =
      some (names.map fun name => (d.get? name).map Value.toTree) := by
  have hnodup : ((Value.toMembers d.entries).map (·.1)).Nodup := by
    have hkeys : (Value.toMembers d.entries).map (·.1) = (d.entries.map (·.1)).map some := by
      simp [Value.toMembers_eq_map]
    rw [hkeys]
    exact d.ascending.nodup_keys.map (Option.some_injective _)
  have hall : (Value.toMembers d.entries).all (·.1.isSome) = true := by
    simp [Value.toMembers_eq_map]
  rw [Value.toTree, fields?, if_pos hall, mapM_eq_some_iff, List.forall₂_map_right_iff,
    List.forall₂_same]
  intro name _
  rw [field?_of_nodup hnodup, Value.lookup_toMembers]
  rfl

theorem fields?_ofPairs (pairs : List (String × Value)) (names : List String) :
    fields? names (Value.ofPairs pairs).toTree =
      some (names.map fun name => (pairs.reverse.lookup name).map Value.toTree) := by
  rw [Value.ofPairs, fields?_entries]
  congr 2
  funext name
  rw [Dict.ofPairs, Dict.get?_insertMany, Dict.get?_empty, Option.or_none]

end Record

theorem Tree.values?_eq_mapM (items : List Tree) : values? items = items.mapM value? := by
  induction items with
  | nil => rfl
  | cons t items ih =>
    rw [values?, List.mapM_cons, ih]
    rfl

theorem Tree.values?_map {α : Type} {as : List α} {f : α → Tree} {g : α → Value}
    (h : ∀ a ∈ as, (f a).value? = some (g a)) : values? (as.map f) = some (as.map g) := by
  rw [values?_eq_mapM, Record.mapM_eq_some_iff, List.forall₂_map_left_iff,
    List.forall₂_map_right_iff, List.forall₂_same]
  exact h

end BotConsole.Json
