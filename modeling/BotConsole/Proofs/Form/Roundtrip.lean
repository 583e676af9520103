import BotConsole.Proofs.Form.Decoding
import BotConsole.Proofs.Json.Compact

namespace BotConsole

open Json

namespace LocalizedText

variable (t : LocalizedText)

theorem ofTree?_toValue : ofTree? t.toValue.toTree = some t := by
  rw [toValue, Value.toTree, Value.toMembers_eq_map, Dict.map, List.map_map]
  simp only [ofTree?, Option.bind_eq_bind, Option.bind_eq_some_iff, Option.some.injEq]
  refine ⟨t.texts.entries, Record.mapM_eq_some_iff.mpr ?_, by rw [Dict.ofPairs_entries]⟩
  rw [List.forall₂_map_left_iff, List.forall₂_same]
  exact fun _ _ => rfl

theorem forall_toValue {p : Value → Prop} (h : ∀ text, p (.text text)) :
    ∀ m ∈ (t.texts.map Value.text).entries, p m.2 := by
  intro m hm
  obtain ⟨e, -, rfl⟩ := List.mem_map.mp hm
  exact h e.2

theorem ordered_toValue : t.toValue.Ordered :=
  ⟨(t.texts.map Value.text).ascending,
    Value.orderedMembers_iff.mpr (t.forall_toValue fun _ => trivial)⟩

theorem kept_toValue : t.toValue.Kept :=
  Value.keptMembers_iff.mpr (t.forall_toValue fun _ => trivial)

theorem depth_toValue : t.toValue.toTree.depth ≤ 1 := by
  refine Nat.add_le_add_right (Tree.depthOfMembers_le_iff.mpr ?_) 1
  rw [Value.toMembers_eq_map, List.forall_mem_map]
  exact t.forall_toValue (p := fun v => v.toTree.depth ≤ 0) fun _ => le_rfl

end LocalizedText

namespace Form

namespace Choice

variable (c : Choice)

def members : List (String × Value) :=
  [("name", .text c.name), ("label", c.label.toValue)]

def toValue : Value :=
  .ofPairs c.members

def written : Value :=
  .object c.members

theorem toTree_written : c.written.toTree = c.toTree := rfl

theorem value?_toTree : c.toTree.value? = some c.toValue := by
  have hlabel := Value.value?_toTree c.label.ordered_toValue
  exact Value.value?_object (by simp [members, Tree.members?, Tree.value?, hlabel])

theorem ofTree?_toTree : ofTree? c.toTree = some c := by
  have hfields : Record.fields? ["name", "label"] c.toTree =
      some [some (.text (some c.name)), some c.label.toValue.toTree] := rfl
  simp [ofTree?, hfields, Record.required, Record.text?, Record.orElse,
    LocalizedText.ofTree?_toValue]

theorem ofTree?_toValue : ofTree? c.toValue.toTree = some c := by
  have hfields : Record.fields? ["name", "label"] c.toValue.toTree =
      Record.fields? ["name", "label"] c.toTree := Record.fields?_ofPairs c.members _
  rw [← ofTree?_toTree c, ofTree?, ofTree?, hfields]

theorem kept_members : ∀ m ∈ c.members, m.2.Kept := by
  simp [members, Value.Kept, LocalizedText.kept_toValue]

theorem kept_toValue : c.toValue.Kept :=
  Value.kept_ofPairs c.kept_members

theorem kept_written : c.written.Kept :=
  Value.keptMembers_iff.mpr c.kept_members

theorem depth_toTree_le : c.toTree.depth ≤ 2 := by
  refine Nat.add_le_add_right (Tree.depthOfMembers_le_iff.mpr ?_) 1
  simp [Tree.depth, LocalizedText.depth_toValue]

end Choice

namespace Item

variable {i : Item}

def fieldsWith (choice : Choice → Tree) (i : Item) : List (Option Tree) :=
  [some (.text (some i.id)), some (.text (some i.name)), some (.text (some i.kind.name)),
    some i.default.toTree, some (.bool i.required), some i.label.toValue.toTree,
    i.description.map fun d => d.toValue.toTree,
    if i.options = [] then none else some (.list (i.options.map choice)),
    i.accept.map fun a => .text (some a)]

theorem ofTree?_of_fieldsWith {t : Tree} {choice : Choice → Tree}
    (h : Record.fields? fieldNames t = some (i.fieldsWith choice)) (hdefault : i.default.Ordered)
    (hchoice : ∀ c, Choice.ofTree? (choice c) = some c) : ofTree? t = some i := by
  refine ofTree?_eq_some_iff.mpr ⟨_, _, _, _, _, _, _, _, _, h, rfl, rfl, ?_,
    Value.value?_toTree hdefault, rfl, i.label.ofTree?_toValue, ?_, ?_, ?_⟩
  · exact congrArg some (Kind.ofName_name i.kind)
  · cases i.description with
    | none => rfl
    | some d =>
      have hnull : d.toValue.toTree ≠ .null :=
        Value.toTree_ne_null (by simp [LocalizedText.toValue])
      rw [Option.map_some, Record.nullable_some hnull, d.ofTree?_toValue, Option.map_some]
  · split
    · next hnil => rw [Record.orElse, hnil]
    · refine Record.list?_eq_some_iff.mpr ⟨_, rfl, ?_⟩
      rw [List.forall₂_map_left_iff, List.forall₂_same]
      exact fun c _ => hchoice c
  · cases i.accept <;> rfl

def members (choice : Choice → Value) (i : Item) : List (String × Value) :=
  [("id", .text i.id), ("name", .text i.name), ("type", .text i.kind.name), ("default", i.default),
    ("required", .bool i.required), ("label", i.label.toValue)] ++
    (i.description.map fun d => ("description", d.toValue)).toList ++
    (if i.options = [] then [] else [("options", .list (i.options.map choice))]) ++
    (i.accept.map fun a => ("accept", Value.text a)).toList

def toValue (i : Item) : Value :=
  .ofPairs (i.members Choice.toValue)

def written (i : Item) : Value :=
  .object (i.members Choice.written)

theorem toTree_written (i : Item) : i.written.toTree = i.toTree := by
  obtain ⟨_, _, _, _, _, _, _ | description, _ | ⟨c, cs⟩, _ | accept⟩ := i <;>
    simp [written, members, toTree, Value.toTree, Value.toMembers, Value.toTrees_eq_map,
      Choice.toTree_written]

theorem fields?_toTree (i : Item) :
    Record.fields? fieldNames i.toTree = some (i.fieldsWith Choice.toTree) := by
  obtain ⟨_, _, _, _, _, _, _ | description, _ | ⟨c, cs⟩, _ | accept⟩ := i <;> rfl

theorem fields?_toValue (i : Item) :
    Record.fields? fieldNames i.toValue.toTree =
      some (i.fieldsWith fun c => c.toValue.toTree) := by
  rw [toValue, Record.fields?_ofPairs]
  obtain ⟨_, _, _, _, _, _, _ | description, _ | ⟨c, cs⟩, _ | accept⟩ := i <;>
    simp [members, fieldNames, fieldsWith, List.lookup_cons, Value.toTree, Value.toTrees_eq_map]

theorem ofTree?_toTree (h : i.default.Ordered) : ofTree? i.toTree = some i :=
  ofTree?_of_fieldsWith (fields?_toTree i) h Choice.ofTree?_toTree

theorem ofTree?_toValue (h : i.default.Ordered) : ofTree? i.toValue.toTree = some i :=
  ofTree?_of_fieldsWith (fields?_toValue i) h Choice.ofTree?_toValue

theorem value?_toTree (h : i.default.Ordered) : i.toTree.value? = some i.toValue := by
  have hlabel := Value.value?_toTree i.label.ordered_toValue
  have hdefault := Value.value?_toTree h
  have hdescription : ∀ d ∈ i.description, d.toValue.toTree.value? = some d.toValue :=
    fun d _ => Value.value?_toTree d.ordered_toValue
  have hoptions : Tree.values? (i.options.map Choice.toTree) =
      some (i.options.map Choice.toValue) :=
    Tree.values?_map fun c _ => c.value?_toTree
  refine Value.value?_object ?_
  obtain ⟨_, _, _, _, _, _, _ | description, _ | ⟨c, cs⟩, _ | accept⟩ := i <;>
    simp_all [members, Tree.members?, Tree.value?]

theorem forall_members {p : Value → Prop} {choice : Choice → Value} (htext : ∀ t, p (.text t))
    (hbool : ∀ b, p (.bool b)) (hlocalized : ∀ t : LocalizedText, p t.toValue)
    (hdefault : p i.default) (hoptions : p (.list (i.options.map choice))) :
    ∀ m ∈ i.members choice, p m.2 := by
  intro m hm
  simp only [members, List.cons_append, List.nil_append, List.append_assoc, List.mem_cons,
    List.mem_append, Option.mem_toList, Option.map_eq_some_iff] at hm
  rcases hm with rfl | rfl | rfl | rfl | rfl | rfl | ⟨d, -, rfl⟩ | hm | ⟨a, -, rfl⟩
  · exact htext _
  · exact htext _
  · exact htext _
  · exact hdefault
  · exact hbool _
  · exact hlocalized _
  · exact hlocalized d
  · split at hm
    · cases hm
    · rw [List.mem_singleton.mp hm]
      exact hoptions
  · exact htext a

theorem kept_members {choice : Choice → Value} (h : i.default.Kept)
    (hchoice : ∀ c, (choice c).Kept) : ∀ m ∈ i.members choice, m.2.Kept :=
  forall_members (fun _ => trivial) (fun _ => trivial) LocalizedText.kept_toValue h
    (Value.keptItems_iff.mpr (List.forall_mem_map.mpr fun c _ => hchoice c))

theorem kept_toValue (h : i.default.Kept) : i.toValue.Kept :=
  Value.kept_ofPairs (kept_members h Choice.kept_toValue)

theorem kept_written (h : i.default.Kept) : i.written.Kept :=
  Value.keptMembers_iff.mpr (kept_members h Choice.kept_written)

theorem depth_toTree_le (i : Item) : i.toTree.depth ≤ max 3 i.default.toTree.depth + 1 := by
  have hoptions : (Value.list (i.options.map Choice.written)).toTree.depth ≤ 3 := by
    refine Nat.add_le_add_right (Tree.depthOfItems_le_iff.mpr ?_) 1
    rw [Value.toTrees_eq_map, List.forall_mem_map, List.forall_mem_map]
    exact fun c _ => c.depth_toTree_le
  have hmembers := forall_members (i := i)
    (p := fun v => v.toTree.depth ≤ max 3 i.default.toTree.depth)
    (fun _ => Nat.zero_le _) (fun _ => Nat.zero_le _)
    (fun t => t.depth_toValue.trans (by omega)) (le_max_right _ _)
    (hoptions.trans (le_max_left _ _))
  rw [← toTree_written]
  refine Nat.add_le_add_right (Tree.depthOfMembers_le_iff.mpr ?_) 1
  rwa [Value.toMembers_eq_map, List.forall_mem_map]

end Item

namespace Schema

variable {s : Schema}

def toValue (s : Schema) : Value :=
  .list (s.map Item.toValue)

def written (s : Schema) : Value :=
  .list (s.map Item.written)

theorem toTree_written (s : Schema) : s.written.toTree = s.toTree := by
  simp [written, toTree, Value.toTree, Value.toTrees_eq_map, Item.toTree_written]

theorem value?_toTree (h : ∀ i ∈ s, i.default.Ordered) : s.toTree.value? = some s.toValue := by
  have hvalues := Tree.values?_map fun i hi => Item.value?_toTree (h i hi)
  rw [toTree, Tree.value?, hvalues, Option.map_some, toValue]

theorem ofTree?_map {f : Item → Tree} (h : ∀ i ∈ s, Item.ofTree? (f i) = some i) :
    ofTree? (.list (s.map f)) = some s := by
  refine Record.list?_eq_some_iff.mpr ⟨_, rfl, ?_⟩
  rw [List.forall₂_map_left_iff, List.forall₂_same]
  exact h

theorem ofTree?_toTree (h : ∀ i ∈ s, i.default.Ordered) : ofTree? s.toTree = some s :=
  ofTree?_map fun i hi => Item.ofTree?_toTree (h i hi)

theorem ofTree?_toValue (h : ∀ i ∈ s, i.default.Ordered) : ofTree? s.toValue.toTree = some s := by
  rw [toValue, Value.toTree, Value.toTrees_eq_map, List.map_map]
  exact ofTree?_map fun i hi => Item.ofTree?_toValue (h i hi)

theorem kept_toValue (h : ∀ i ∈ s, i.default.Kept) : s.toValue.Kept :=
  Value.keptItems_iff.mpr (List.forall_mem_map.mpr fun i hi => Item.kept_toValue (h i hi))

theorem kept_written (h : ∀ i ∈ s, i.default.Kept) : s.written.Kept :=
  Value.keptItems_iff.mpr (List.forall_mem_map.mpr fun i hi => Item.kept_written (h i hi))

theorem depth_toTree_le (h : ∀ i ∈ s, i.default.toTree.depth ≤ 125) :
    s.toTree.depth ≤ Tree.maxDepth := by
  refine Nat.add_le_add_right (Tree.depthOfItems_le_iff.mpr ?_) 1
  refine List.forall_mem_map.mpr fun i hi => ?_
  have hitem := i.depth_toTree_le
  have hdefault := h i hi
  omega

-- A schema that comes from a text is read from every text of its document, and of the value of
-- its document.
theorem ofJson?_of_read? {text text' : List Char} {t : Tree} (h : ofJson? text = some s)
    (hread : Tree.read? text' = some t) (ht : t = s.toTree ∨ t = s.toValue.toTree) :
    ofJson? text' = some s := by
  have hdefault := default_of_ofJson? h
  have hordered : ∀ i ∈ s, i.default.Ordered := fun i hi => (hdefault i hi).1
  have hdepth : s.toTree.depth ≤ Tree.maxDepth := depth_toTree_le fun i hi => (hdefault i hi).2
  rcases ht with rfl | rfl
  · rw [ofJson?_eq_ofTree? hread hdepth, ofTree?_toTree hordered]
  · have hvalue := Tree.depth_of_value? (value?_toTree hordered)
    rw [ofJson?_eq_ofTree? hread (hvalue.trans hdepth), ofTree?_toValue hordered]

end Schema

-- Fields are decoded from what they are written as, and parsed from its texts where each number
-- in the defaults is what is read where it is written.
theorem fields_survive_writing :
    (∀ i : Item, i.default.Ordered →
      i.toTree.value? = some i.toValue ∧ Item.ofTree? i.toTree = some i ∧
      Item.ofTree? i.toValue.toTree = some i) ∧
    (∀ text s, Schema.ofJson? text = some s →
      s.toTree.value? = some s.toValue ∧ Schema.ofTree? s.toValue.toTree = some s ∧
      (Schema.ofTree? s.toValue.toTree).map Schema.toValue = some s.toValue ∧
      (∀ text' t, Tree.read? text' = some t → t = s.toTree ∨ t = s.toValue.toTree →
        Schema.ofJson? text' = some s ∧
        (Schema.ofJson? text').map Schema.toValue = some s.toValue) ∧
      ((∀ i ∈ s, i.default.Kept) →
        Schema.ofJson? (Writer.compact s.toValue) = some s ∧
        Schema.ofJson? (Writer.compact s.written) = some s)) ∧
    (∀ s : Schema, s.written.toTree = s.toTree) ∧
    ∀ i : Int, -2 ^ 63 ≤ i → i < 2 ^ 64 → (Value.number (.int i)).Kept := by
  refine ⟨fun i hi => ⟨Item.value?_toTree hi, Item.ofTree?_toTree hi, Item.ofTree?_toValue hi⟩,
    fun text s hs => ?_, Schema.toTree_written, fun i hlow hhigh => ?_⟩
  · have hordered : ∀ i ∈ s, i.default.Ordered := fun i hi =>
      (Schema.default_of_ofJson? hs i hi).1
    have hvalue := Schema.ofTree?_toValue hordered
    refine ⟨Schema.value?_toTree hordered, hvalue, by rw [hvalue, Option.map_some], ?_, ?_⟩
    · intro text' t hread ht
      have hagain := Schema.ofJson?_of_read? hs hread ht
      exact ⟨hagain, by rw [hagain, Option.map_some]⟩
    · intro hkept
      have hvalue := Tree.read?_compact (Schema.kept_toValue hkept)
      have hwritten := Tree.read?_compact (Schema.kept_written hkept)
      rw [Schema.toTree_written] at hwritten
      exact ⟨Schema.ofJson?_of_read? hs hvalue (.inr rfl),
        Schema.ofJson?_of_read? hs hwritten (.inl rfl)⟩
  · exact Number.kept_int hlow (Int.le_sub_one_of_lt hhigh)

def model : Item where
  id := "m"
  name := "model"
  kind := .choice
  default := .object [("a", .list [.number (.int 42)]), ("b", .text "\n")]
  required := true
  label := .empty
  description := some .empty
  options := [⟨"small", .empty⟩]
  accept := some ""

def modelText : String :=
  "[\x7b\"type\":\" select\",\"id\":\"m\",\"required\":true,\"accept\":\"\"," ++
    "\"default\":\x7b\"b\":\"\\n\",\"a\":[42]\x7d,\"name\":\"model\"," ++
    "\"description\":\x7b\x7d,\"options\":[[\"small\"]]\x7d]"

theorem fields_survive_writing_of_model :
    Schema.ofJson? modelText.toList = some [model] ∧
    Item.ofTree? model.toValue.toTree = some model ∧
    Schema.ofJson? (Writer.compact (Schema.toValue [model])) = some [model] ∧
    Schema.ofJson? (Writer.compact (Schema.written [model])) = some [model] := by
  obtain ⟨hitem, hschema, -, hint⟩ := fields_survive_writing
  have htext : Schema.ofJson? modelText.toList = some [model] := by decide +kernel
  have hordered := (Schema.default_of_ofJson? htext model List.mem_cons_self).1
  have hkept : ∀ i ∈ [model], i.default.Kept := by
    rw [List.forall_mem_singleton]
    exact ⟨⟨hint 42 (by decide) (by decide), trivial⟩, trivial, trivial⟩
  obtain ⟨-, -, -, -, hagain⟩ := hschema _ _ htext
  exact ⟨htext, (hitem model hordered).2.2, hagain hkept⟩

def numeric (n : Number) : Item where
  id := ""
  name := ""
  kind := .unknown
  default := .number n
  required := false
  label := .empty
  description := none
  options := []
  accept := none

def numericText (n : List Char) : List Char :=
  ['[', '{', '"', 'd', 'e', 'f', 'a', 'u', 'l', 't', '"', ':'] ++ n ++
    [',', '"', 'i', 'd', '"', ':', '"', '"', ',', '"', 'l', 'a', 'b', 'e', 'l', '"', ':', '{',
     '}', ',', '"', 'n', 'a', 'm', 'e', '"', ':', '"', '"', ',', '"', 'r', 'e', 'q', 'u', 'i',
     'r', 'e', 'd', '"', ':', 'f', 'a', 'l', 's', 'e', ',', '"', 't', 'y', 'p', 'e', '"', ':',
     '"', 'u', 'n', 'k', 'n', 'o', 'w', 'n', '"', '}', ']']

theorem compact_large : Writer.compact (Schema.toValue [numeric (.float Number.large)]) =
    numericText (Number.float Number.large).toChars := by
  decide +kernel

-- All digits of 3 * 10 ^ 23.
def longLiteral : Literal := ⟨false, '3' :: List.replicate 23 '0', none, none⟩

theorem ofJson?_numericText {digits : List Char} {l : Literal} {n : Number}
    (hread : Tree.read? (numericText digits) = some (.list [.object [
      (some "default", .number (Number.ofLiteral? l)), (some "id", .text (some "")),
      (some "label", .object []), (some "name", .text (some "")),
      (some "required", .bool false), (some "type", .text (some "unknown"))]]))
    (hl : Number.ofLiteral? l = some n) :
    Schema.ofJson? (numericText digits) = some [numeric n] := by
  rw [hl] at hread
  rw [Schema.ofJson?_eq_ofTree? hread
    (by simp [Tree.depth, Tree.depthOfItems, Tree.depthOfMembers, Tree.maxDepth])]
  rfl

-- Some numbers come back as their neighbours.
theorem fields_not_always_parsed_again :
    ¬ ∀ text s, Schema.ofJson? text = some s →
      Schema.ofJson? (Writer.compact s.toValue) = some s := by
  intro h
  have hlong : Number.ofLiteral? longLiteral = some (.float Number.large) := by decide +kernel
  have hlarge : Schema.ofJson? (numericText longLiteral.whole) =
      some [numeric (.float Number.large)] := ofJson?_numericText (by rfl) hlong
  have hbelow : Schema.ofJson? (numericText ['3', 'e', '+', '2', '3']) =
      some [numeric (.float Number.below)] := ofJson?_numericText (by rfl) Number.ofLiteral?_large
  have hagain := h _ _ hlarge
  have htext : (Number.float Number.large).toChars = ['3', 'e', '+', '2', '3'] :=
    Number.toChars_large
  rw [compact_large, htext, hbelow] at hagain
  have hsame : Number.below = Number.large := by simpa [numeric] using hagain
  exact absurd hsame (by decide)

end Form

end BotConsole
