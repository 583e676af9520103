import BotConsole.Proofs.Form.Decoding
import BotConsole.Proofs.Form.Required

namespace BotConsole.Form

open Json

namespace Kind

def ofEntries (d : Dict Value) : Kind :=
  match d.get? "type" with
  | some (.text name) => ofName name
  | _ => .unknown

theorem ofName_eq_iff {name : String} {k : Kind} (hk : k ≠ .unknown) :
    ofName name = k ↔ String.ofList (Text.trim name.toList) = k.name := by
  simp only [ofName]
  generalize String.ofList (Text.trim name.toList) = trimmed
  constructor
  · intro h
    cases hfound : all.find? fun j => j.name == trimmed with
    | none =>
      rw [hfound] at h
      exact absurd h.symm hk
    | some j =>
      rw [hfound] at h
      obtain rfl : j = k := h
      have hname := List.find?_some hfound
      exact (eq_of_beq hname).symm
  · rintro rfl
    cases k <;> decide +kernel

theorem ofEntries_eq_iff {d : Dict Value} {k : Kind} (hk : k ≠ .unknown) :
    ofEntries d = k ↔ ∃ name, d.get? "type" = some (.text name) ∧
      String.ofList (Text.trim name.toList) = k.name := by
  unfold ofEntries
  split
  · next name hname => simp [hname, ofName_eq_iff hk]
  · next hother =>
    constructor
    · rintro rfl
      exact absurd rfl hk
    · rintro ⟨name, hname, -⟩
      exact absurd hname (hother name)

end Kind

namespace Item

variable {d d' : Dict Value} {i : Item}

theorem kindOfTree?_toTree (v : Value) :
    kindOfTree? v.toTree = some (match v with
      | .text name => .ofName name
      | _ => .unknown) := by
  obtain ⟨w, hw⟩ := Option.isSome_iff_exists.mp (Value.isReadable_toTree v)
  rw [kindOfTree?, hw]
  cases v with
  | null | bool _ | number _ | text _ =>
    obtain rfl := Option.some.inj hw
    rfl
  | list items =>
    obtain ⟨vs, -, rfl⟩ := Option.map_eq_some_iff.mp hw
    rfl
  | object members =>
    obtain ⟨ms, -, rfl⟩ := Option.map_eq_some_iff.mp hw
    rfl

theorem orElse_kindOfTree? (d : Dict Value) :
    Record.orElse .unknown kindOfTree? ((d.get? "type").map Value.toTree) =
      some (Kind.ofEntries d) := by
  cases h : d.get? "type" with
  | none => simp [Record.orElse, Kind.ofEntries, h]
  | some v =>
    rw [Option.map_some, Record.orElse, kindOfTree?_toTree, Kind.ofEntries, h]
    cases v <;> rfl

def ofEntries? (d : Dict Value) : Option Item :=
  ofTree? (Value.object d.entries).toTree

def SameFields (d d' : Dict Value) : Prop :=
  ∀ name ∈ fieldNames, name ≠ "type" → d'.get? name = d.get? name

theorem SameFields.symm (h : SameFields d d') : SameFields d' d :=
  fun name hname htype => (h name hname htype).symm

-- What stands in the place of the kind decides the kind and nothing else.
theorem SameFields.ofEntries? (h : SameFields d d') (hi : ofEntries? d = some i) :
    ofEntries? d' = some { i with kind := Kind.ofEntries d' } := by
  obtain ⟨_, _, _, _, _, _, _, _, _, hfields, hid, hname, -, hdefault, hrequired, hlabel,
    hdescription, hoptions, haccept⟩ := ofTree?_eq_some_iff.mp hi
  have hsame : Record.fields? fieldNames (Value.object d'.entries).toTree =
      some (fieldNames.map fun name =>
        ((if name = "type" then d' else d).get? name).map Value.toTree) := by
    rw [Record.fields?_entries]
    congr 1
    refine List.map_congr_left fun name hname => ?_
    split
    · rfl
    · next htype => rw [h name hname htype]
  rw [Record.fields?_entries] at hfields
  simp only [fieldNames, List.map_cons, List.map_nil, Option.some.injEq, List.cons.injEq] at hfields
  obtain ⟨rfl, rfl, -, rfl, rfl, rfl, rfl, rfl, rfl, -⟩ := hfields
  exact ofTree?_eq_some_iff.mpr ⟨_, _, _, _, _, _, _, _, _, hsame, hid, hname,
    orElse_kindOfTree? d', hdefault, hrequired, hlabel, hdescription, hoptions, haccept⟩

theorem kind_of_ofEntries? (h : ofEntries? d = some i) : i.kind = Kind.ofEntries d := by
  have hrefl : SameFields d d := fun _ _ _ => rfl
  have hi := hrefl.ofEntries? h
  rw [h] at hi
  exact congrArg Item.kind (Option.some.inj hi)

-- The second object is the first one with values laid over it for its kind and for names that no
-- field has.
def Overlaid (d d' : Dict Value) : Prop :=
  ∃ pairs : List (String × Value), (∀ p ∈ pairs, p.1 = "type" ∨ p.1 ∉ fieldNames) ∧
    d' = d.insertMany pairs

theorem Overlaid.sameFields (h : Overlaid d d') : SameFields d d' := by
  obtain ⟨pairs, hpairs, rfl⟩ := h
  intro name hname htype
  have hnone : pairs.reverse.lookup name = none := by
    refine lookup_eq_none_of_notMem fun hmem => ?_
    obtain ⟨p, hp, rfl⟩ := List.mem_map.mp hmem
    rcases hpairs p (List.mem_reverse.mp hp) with heq | hnot
    · exact htype heq
    · exact hnot hname
  rw [Dict.get?_insertMany, hnone, Option.none_or]

end Item

namespace Rule

variable {i : Item}

theorem ofItem_of_unknown (h : i.kind = .unknown) :
    ofItem i = ofItem { i with kind := .shortText } := by
  simp [ofItem, h]

theorem complaint?_of_unknown (h : i.kind = .unknown) (v : Option Value) :
    (ofItem i).complaint? v = none ↔
      ∃ text, v = some (.text text) ∧ (i.required = true → text ≠ "") := by
  have hrule : ofItem i = .text i.required := by simp [ofItem, h]
  rw [hrule]
  cases v with
  | none => simp [complaint?]
  | some v => cases v <;> simp [complaint?]

end Rule

namespace Schema

variable {ds ds' : List (Dict Value)} {s s' : Schema}

def ofObjects? (ds : List (Dict Value)) : Option Schema :=
  ofTree? (Value.list (ds.map fun d => .object d.entries)).toTree

theorem ofObjects?_eq_some_iff :
    ofObjects? ds = some s ↔ List.Forall₂ (fun d i => Item.ofEntries? d = some i) ds s := by
  rw [ofObjects?, Value.toTree, Value.toTrees_eq_map, List.map_map, ofTree?,
    Record.list?_eq_some_iff]
  simp only [Tree.list.injEq, exists_eq_left', List.forall₂_map_left_iff]
  rfl

def SameButKinds (s s' : Schema) : Prop :=
  List.Forall₂ (fun i i' => i' = { i with kind := i'.kind }) s s'

theorem SameButKinds.defaults_eq (h : SameButKinds s s') : s'.defaults = s.defaults := by
  have hpairs : s'.map (fun i => (i.name, i.default)) = s.map fun i => (i.name, i.default) := by
    induction h with
    | nil => rfl
    | cons hi _ ih => rw [List.map_cons, List.map_cons, ih, hi]
  rw [defaults, defaults, hpairs]

theorem exists_of_sameFields (h : List.Forall₂ Item.SameFields ds ds')
    (hs : ofObjects? ds = some s) : ∃ s', ofObjects? ds' = some s' ∧ SameButKinds s s' := by
  simp only [ofObjects?_eq_some_iff] at hs ⊢
  induction h generalizing s with
  | nil =>
    cases hs
    exact ⟨[], .nil, .nil⟩
  | cons hd _ ih =>
    cases hs with
    | cons hi hs =>
      obtain ⟨s', hs', hsame⟩ := ih hs
      exact ⟨_, .cons (hd.ofEntries? hi) hs', .cons rfl hsame⟩

theorem ofObjects?_isSome_congr (h : List.Forall₂ Item.SameFields ds ds') :
    (ofObjects? ds').isSome = (ofObjects? ds).isSome := by
  have hsymm : List.Forall₂ Item.SameFields ds' ds := (h.imp fun _ _ => Item.SameFields.symm).flip
  rw [Bool.eq_iff_iff, Option.isSome_iff_exists, Option.isSome_iff_exists]
  constructor
  · rintro ⟨s', hs'⟩
    obtain ⟨s, hs, -⟩ := exists_of_sameFields hsymm hs'
    exact ⟨s, hs⟩
  · rintro ⟨s, hs⟩
    obtain ⟨s', hs', -⟩ := exists_of_sameFields h hs
    exact ⟨s', hs'⟩

end Schema

-- Unknown kinds and names that are not read change nothing of a field but its kind, which is
-- judged as a text is.
theorem kind_and_unread_names_harmless {ds ds' : List (Dict Value)}
    (h : List.Forall₂ Item.Overlaid ds ds') :
    (Schema.ofObjects? ds').isSome = (Schema.ofObjects? ds).isSome ∧
    ∀ s s', Schema.ofObjects? ds = some s → Schema.ofObjects? ds' = some s' →
      List.Forall₂ (fun i i' => i' = { i with kind := i'.kind }) s s' ∧
      s'.defaults = s.defaults ∧
      List.Forall₂ (fun d i =>
        (∀ k, k ≠ .unknown → (i.kind = k ↔ ∃ name, d.get? "type" = some (.text name) ∧
          String.ofList (Text.trim name.toList) = k.name)) ∧
        (i.kind = .unknown → Rule.ofItem i = Rule.ofItem { i with kind := .shortText } ∧
          ∀ v, (Rule.ofItem i).complaint? v = none ↔
            ∃ text, v = some (.text text) ∧ (i.required = true → text ≠ ""))) ds' s' := by
  have hfields : List.Forall₂ Item.SameFields ds ds' := h.imp fun _ _ => Item.Overlaid.sameFields
  refine ⟨Schema.ofObjects?_isSome_congr hfields, fun s s' hs hs' => ?_⟩
  obtain ⟨t, ht, hsame⟩ := Schema.exists_of_sameFields hfields hs
  obtain rfl : t = s' := Option.some.inj (ht.symm.trans hs')
  refine ⟨hsame, hsame.defaults_eq, (Schema.ofObjects?_eq_some_iff.mp hs').imp fun d i hi => ?_⟩
  refine ⟨fun k hk => ?_, fun hunknown => ⟨Rule.ofItem_of_unknown hunknown, fun v => ?_⟩⟩
  · rw [Item.kind_of_ofEntries? hi, Kind.ofEntries_eq_iff hk]
  · exact Rule.complaint?_of_unknown hunknown v

def age : Item :=
  { Item.ofName "age" .integer with id := "", required := true, label := .empty }

def ageObject : Dict Value :=
  .ofPairs [("name", .text "age"), ("required", .bool true), ("type", .text "integer")]

def colored : Dict Value :=
  ageObject.insertMany [("type", .text " float "), ("color", .list [.null])]

theorem kind_and_unread_names_harmless_colored :
    List.Forall₂ Item.Overlaid [ageObject] [colored] ∧
    Schema.ofObjects? [colored] = some [{ age with kind := .float }] := by
  have hoverlaid : List.Forall₂ Item.Overlaid [ageObject] [colored] := by
    refine .cons ⟨_, ?_, rfl⟩ .nil
    simp [Item.fieldNames]
  have hage : Schema.ofObjects? [ageObject] = some [age] := by decide
  obtain ⟨hsome, hsame⟩ := kind_and_unread_names_harmless hoverlaid
  rw [hage] at hsome
  obtain ⟨s', hs'⟩ := Option.isSome_iff_exists.mp hsome
  obtain ⟨hfields, -, hkinds⟩ := hsame _ _ hage hs'
  cases hfields with
  | cons hfield hrest =>
    cases hrest
    cases hkinds with
    | cons hkind _ =>
      have hfloat := (hkind.1 .float (by decide)).mpr ⟨" float ", by decide, by decide +kernel⟩
      rw [hs', hfield, hfloat]
      exact ⟨hoverlaid, rfl⟩

end BotConsole.Form
