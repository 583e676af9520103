import BotConsole.Proofs.Form.Validation

namespace BotConsole.Form

open Json

namespace Kind

-- The value of a field that was left empty. Numbers and truth values are never empty.
def emptyValue? : Kind → Option Value
  | .integer | .float | .boolean => none
  | .textList | .fileList | .promptEditor => some (.list [])
  | .shortText | .longText | .file | .choice | .languageModel | .knowledgeBase | .unknown =>
    some (.text "")

-- The values that a field takes when it need not be filled in.
def Takes : Kind → Value → Prop
  | .integer, v => ∃ n : Number, v = .number n ∧ n.isWhole = true
  | .float, v => ∃ n : Number, v = .number n
  | .boolean, v => ∃ b : Bool, v = .bool b
  | .textList, v | .fileList, v => ∃ items, v = .list items ∧ ∀ item ∈ items, ∃ s, item = .text s
  | .promptEditor, v => ∃ items, v = .list items ∧ ∀ item ∈ items, ∃ members role content,
      item = .object members ∧ members.lookup "role" = some (.text role) ∧
        members.lookup "content" = some (.text content)
  | .shortText, v | .longText, v | .file, v | .choice, v | .languageModel, v | .knowledgeBase, v
  | .unknown, v => ∃ s, v = .text s

end Kind

-- How a value that may be missing is judged where it has to be given, and where it need not be.
structure Judged (takes : Value → Prop) (empty? : Option Value) (v : Option Value)
    (required optional : Option Message) : Prop where
  takes : optional = none ↔ ∃ x, v = some x ∧ takes x
  demandsNothing : optional ≠ some .fieldRequired
  demands : required = some .fieldRequired ↔
    ∃ empty, empty? = some empty ∧ (v = none ∨ v = some .null ∨ v = some empty)
  same : required ≠ some .fieldRequired → required = optional

def Item.withRequired (i : Item) (required : Bool) : Item :=
  { i with required }

namespace Rule

theorem isText_iff {v : Value} : isText v = true ↔ ∃ s, v = .text s := by
  cases v <;> simp [isText, Value.text?]

theorem isPromptMessage_iff {v : Value} : isPromptMessage v = true ↔
    ∃ members role content, v = .object members ∧ members.lookup "role" = some (.text role) ∧
      members.lookup "content" = some (.text content) := by
  cases v with
  | object members => simp [isPromptMessage, Value.member?, Option.any_eq_true, isText_iff]
  | _ => simp [isPromptMessage, Value.member?]

-- A rule that does not ask whether a value is required.
theorem judged_indifferent {takes : Value → Prop} {v : Option Value} {complaint : Option Message}
    (htakes : complaint = none ↔ ∃ x, v = some x ∧ takes x) (h : complaint ≠ some .fieldRequired) :
    Judged takes none v complaint complaint :=
  ⟨htakes, h, by simp [h], fun _ => rfl⟩

theorem judged_integer (v : Option Value) :
    Judged (fun x => ∃ n : Number, x = .number n ∧ n.isWhole = true) none v
      ((number true).complaint? v) ((number true).complaint? v) := by
  cases v with
  | none => apply judged_indifferent <;> simp [complaint?]
  | some x =>
    cases x with
    | number n =>
      by_cases hwhole : n.isWhole = true
      · apply judged_indifferent <;> simp [complaint?, hwhole]
      · apply judged_indifferent <;> simp [complaint?, hwhole]
    | _ => apply judged_indifferent <;> simp [complaint?]

theorem judged_float (v : Option Value) :
    Judged (∃ n : Number, · = .number n) none v ((number false).complaint? v)
      ((number false).complaint? v) := by
  cases v with
  | none => apply judged_indifferent <;> simp [complaint?]
  | some x => cases x <;> apply judged_indifferent <;> simp [complaint?]

theorem judged_boolean (v : Option Value) :
    Judged (∃ b : Bool, · = .bool b) none v (boolean.complaint? v) (boolean.complaint? v) := by
  cases v with
  | none => apply judged_indifferent <;> simp [complaint?]
  | some x => cases x <;> apply judged_indifferent <;> simp [complaint?]

theorem judged_text (v : Option Value) :
    Judged (∃ s, · = .text s) (some (.text "")) v ((text true).complaint? v)
      ((text false).complaint? v) := by
  cases v with
  | none => constructor <;> simp [complaint?]
  | some x =>
    cases x with
    | text s =>
      by_cases hs : s = ""
      · constructor <;> simp [complaint?, hs]
      · constructor <;> simp [complaint?, hs]
    | _ => constructor <;> simp [complaint?]

theorem judged_list {test : Value → Bool} {takes : Value → Prop}
    (htest : ∀ v, test v = true ↔ takes v) {mismatch : Message} (hmismatch : mismatch ≠ .fieldRequired) (v : Option Value) :
    Judged (fun x => ∃ items, x = .list items ∧ ∀ item ∈ items, takes item) (some (.list [])) v
      (listComplaint? true test mismatch v) (listComplaint? false test mismatch v) := by
  cases v with
  | none => constructor <;> simp [listComplaint?, hmismatch]
  | some x =>
    cases x with
    | list items =>
      have hall : items.all test = true ↔ ∀ item ∈ items, takes item := by simp [htest]
      by_cases hfit : items.all test = true
      · have htakes := hall.mp hfit
        by_cases hempty : items = []
        · subst hempty
          constructor <;> simp [listComplaint?]
        · constructor <;> simp +contextual [listComplaint?, hfit, hempty, htakes]
      · have htakes := hall.not.mp hfit
        have hne : items ≠ [] := by
          rintro rfl
          exact hfit rfl
        constructor <;> simp [listComplaint?, hfit, hne, htakes, hmismatch]
    | _ => constructor <;> simp [listComplaint?, hmismatch]

theorem judged_ofItem (i : Item) (v : Option Value) :
    Judged i.kind.Takes i.kind.emptyValue? v
      ((ofItem (i.withRequired true)).complaint? v)
      ((ofItem (i.withRequired false)).complaint? v) := by
  obtain ⟨id, name, kind, default, required, label, description, options, accept⟩ := i
  cases kind with
  | integer => exact judged_integer v
  | float => exact judged_float v
  | boolean => exact judged_boolean v
  | textList => exact judged_list (fun _ => isText_iff) (by decide) v
  | fileList => exact judged_list (fun _ => isText_iff) (by decide) v
  | promptEditor => exact judged_list (fun _ => isPromptMessage_iff) (by decide) v
  | shortText | longText | file | choice | languageModel | knowledgeBase | unknown =>
    exact judged_text v

end Rule

theorem Item.complaint?_withRequired_false {i : Item} {values : Values}
    (h : i.complaint? values = none) : (i.withRequired false).complaint? values = none := by
  have hi : i.withRequired i.required = i := rfl
  cases hrequired : i.required with
  | false =>
    rw [hrequired] at hi
    rw [hi, h]
  | true =>
    rw [hrequired] at hi
    have hjudged := Rule.judged_ofItem i (values.get? i.name)
    have haccepted :
        (Rule.ofItem (i.withRequired true)).complaint? (values.get? i.name) = none := by
      rw [hi]
      exact h
    have hsame := hjudged.same (by simp [haccepted])
    exact hsame.symm.trans haccepted

namespace Schema

variable {s t : Schema}

-- Some fields of the first form are no longer required in the second one.
def Relaxed (s t : Schema) : Prop :=
  List.Forall₂ (fun i j => j = i ∨ j = i.withRequired false) s t

theorem Relaxed.failing_sublist (h : Relaxed s t) (values : Values) :
    ((t.failing values).map Item.name).Sublist ((s.failing values).map Item.name) := by
  induction h with
  | nil => exact .slnil
  | @cons i j s t hij _ ih =>
    have hname : j.name = i.name := by rcases hij with rfl | rfl <;> rfl
    have hfails : i.complaint? values = none → j.complaint? values = none := by
      rcases hij with rfl | rfl
      · exact id
      · exact Item.complaint?_withRequired_false
    rw [failing_cons, failing_cons]
    cases hi : i.complaint? values with
    | none =>
      rw [hfails hi]
      exact ih
    | some m =>
      cases j.complaint? values with
      | none => exact ih.cons _
      | some m' =>
        simp only [Option.isSome_some, if_true, List.map_cons, hname]
        exact ih.cons_cons _

end Schema

-- A value that need not be given is never asked for; one that has to be is asked for exactly when
-- it is missing, null or empty. In every other case both are judged the same.
theorem required_refuses_only_empty :
    (∀ (i : Item) (v : Option Value),
      let required := (Rule.ofItem (i.withRequired true)).complaint? v
      let optional := (Rule.ofItem (i.withRequired false)).complaint? v
      Judged i.kind.Takes i.kind.emptyValue? v required optional ∧
      (i.kind ∈ [.integer, .float, .boolean] → required = optional)) ∧
    ∀ s t : Schema, Schema.Relaxed s t → ∀ values locale,
      ((t.errors values locale).map FieldError.field).Sublist
        ((s.errors values locale).map FieldError.field) ∧
      (s.errors values locale = [] → t.errors values locale = []) := by
  refine ⟨fun i v => ?_, fun s t h values locale => ?_⟩
  · have hjudged := Rule.judged_ofItem i v
    refine ⟨hjudged, fun hkind => hjudged.same ?_⟩
    rw [Ne, hjudged.demands]
    rintro ⟨empty, hempty, -⟩
    simp only [List.mem_cons, List.not_mem_nil, or_false] at hkind
    rcases hkind with hkind | hkind | hkind
    all_goals
      rw [hkind] at hempty
      cases hempty
  · have hfields : ((t.errors values locale).map FieldError.field).Sublist
        ((s.errors values locale).map FieldError.field) := by
      rw [Schema.fields_errors, Schema.fields_errors]
      exact h.failing_sublist values
    refine ⟨hfields, fun hvalid => ?_⟩
    rw [hvalid] at hfields
    exact List.map_eq_nil_iff.mp (List.sublist_nil.mp hfields)

end BotConsole.Form
