import BotConsole.Form.Rule
import Mathlib.Data.List.Basic

namespace BotConsole.Form

open Json

def Item.complaint? (i : Item) (values : Values) : Option Message :=
  (Rule.ofItem i).complaint? (values.get? i.name)

def Item.error? (values : Values) (locale : Locale) (i : Item) : Option FieldError :=
  (i.complaint? values).map fun m => ⟨i.name, m.text locale⟩

namespace Schema

variable {s : Schema} {values values' : Values} {locale : Locale}

def failing (s : Schema) (values : Values) : Schema :=
  s.filter fun i => (i.complaint? values).isSome

theorem failing_cons (i : Item) (s : Schema) (values : Values) :
    failing (i :: s) values =
      if (i.complaint? values).isSome then i :: s.failing values else s.failing values :=
  List.filter_cons

-- Every field is judged by itself, in the order of the schema.
theorem errors_eq_filterMap (s : Schema) (values : Values) (locale : Locale) :
    s.errors values locale = s.filterMap (Item.error? values locale) := by
  simp only [errors, complaints, List.map_filterMap]
  congr 1
  funext i
  simp [Item.error?, Item.complaint?, Function.comp_def]

theorem errors_eq_nil_iff : s.errors values locale = [] ↔ ∀ i ∈ s, i.complaint? values = none := by
  rw [errors_eq_filterMap, List.filterMap_eq_nil_iff]
  simp [Item.error?]

-- Values of which the schema has no field do not matter.
theorem errors_congr (h : ∀ i ∈ s, values.get? i.name = values'.get? i.name) :
    s.errors values locale = s.errors values' locale := by
  rw [errors_eq_filterMap, errors_eq_filterMap]
  apply List.filterMap_congr
  intro i hi
  simp only [Item.error?, Item.complaint?, h i hi]

theorem fields_errors (s : Schema) (values : Values) (locale : Locale) :
    (s.errors values locale).map FieldError.field = (s.failing values).map Item.name := by
  rw [errors_eq_filterMap]
  induction s with
  | nil => rfl
  | cons i s ih =>
    rw [List.filterMap_cons, failing_cons, Item.error?]
    cases i.complaint? values with
    | none => exact ih
    | some m => exact congrArg (i.name :: ·) ih

theorem length_errors (s : Schema) (values : Values) (locale : Locale) :
    (s.errors values locale).length = s.countP fun i => (i.complaint? values).isSome := by
  rw [errors_eq_filterMap, List.length_filterMap_eq_countP]
  simp [Item.error?]

end Schema

end BotConsole.Form
