import BotConsole.Proofs.Form.Flaws
import BotConsole.Proofs.Form.Validation

namespace BotConsole

namespace Message

theorem mem_all (m : Message) : m ∈ all := by
  cases m <;> decide

theorem text_inj {m m' : Message} {locale : Locale} : m.text locale = m'.text locale ↔ m = m' := by
  have hdistinct : (all.map (·.text locale)).Nodup := by cases locale <;> decide +kernel
  refine ⟨fun h => ?_, fun h => h ▸ rfl⟩
  exact List.inj_on_of_nodup_map hdistinct m.mem_all m'.mem_all h

end Message

namespace Form

def Item.Reports (i : Item) (values : Values) (locale : Locale) (e : FieldError) : Prop :=
  ∃ m, i.complaint? values = some m ∧ e = ⟨i.name, m.text locale⟩

namespace Schema

variable {s : Schema}

theorem reports_errors (s : Schema) (values : Values) (locale : Locale) :
    List.Forall₂ (·.Reports values locale ·) (s.failing values) (s.errors values locale) := by
  rw [errors_eq_filterMap]
  induction s with
  | nil => exact .nil
  | cons i s ih =>
    rw [failing_cons, List.filterMap_cons, Item.error?]
    cases hi : i.complaint? values with
    | none => exact ih
    | some m => exact .cons ⟨m, hi, rfl⟩ ih

theorem errors_append (s t : Schema) (values : Values) (locale : Locale) :
    (s ++ t).errors values locale = s.errors values locale ++ t.errors values locale := by
  rw [errors_eq_filterMap, errors_eq_filterMap, errors_eq_filterMap, List.filterMap_append]

theorem messages_in_locales (s : Schema) (values : Values) (locale locale' : Locale) :
    List.Forall₂
      (fun e e' => ∀ m : Message, e.message = m.text locale ↔ e'.message = m.text locale')
      (s.errors values locale) (s.errors values locale') := by
  have hreports := s.reports_errors values locale
  have hreports' := s.reports_errors values locale'
  generalize s.failing values = failing at hreports hreports'
  generalize s.errors values locale = errors at hreports
  generalize s.errors values locale' = errors' at hreports'
  induction hreports generalizing errors' with
  | nil =>
    cases hreports'
    exact .nil
  | cons h _ ih =>
    cases hreports' with
    | cons h' hrest =>
      obtain ⟨m, hm, rfl⟩ := h
      obtain ⟨m', hm', rfl⟩ := h'
      obtain rfl : m = m' := Option.some_inj.mp (hm.symm.trans hm')
      refine .cons (fun k => ?_) (ih _ hrest)
      rw [Message.text_inj, Message.text_inj]

-- What is found about a field is reported of the first failing field with its name.
theorem find?_errors (s : Schema) (values : Values) (locale : Locale) (field : String) :
    FieldError.find? (s.errors values locale) field =
      ((s.failing values).find? (·.name == field)).bind fun i =>
        (i.complaint? values).map (·.text locale) := by
  have hreports := s.reports_errors values locale
  generalize s.failing values = failing at hreports
  generalize s.errors values locale = errors at hreports
  induction hreports with
  | nil => rfl
  | @cons i e failing errors h _ ih =>
    obtain ⟨m, hm, rfl⟩ := h
    rw [FieldError.find?, List.find?_cons, List.find?_cons]
    cases i.name == field with
    | false => exact ih
    | true => simp [hm]

theorem nodup_fields_errors (h : s.flaws = []) (values : Values) (locale : Locale) :
    ((s.errors values locale).map FieldError.field).Nodup := by
  rw [fields_errors]
  exact (flaws_eq_nil_iff.mp h).2.sublist (List.filter_sublist.map _)

end Schema

theorem FieldError.filter_eq_of_find? {errors : List FieldError} {field message : String}
    (h : (errors.map FieldError.field).Nodup) (hfound : find? errors field = some message) :
    errors.filter (·.field == field) = [⟨field, message⟩] := by
  induction errors with
  | nil => cases hfound
  | cons e errors ih =>
    rw [List.map_cons, List.nodup_cons] at h
    rw [find?, List.find?_cons] at hfound
    rw [List.filter_cons]
    by_cases he : e.field = field
    · subst he
      have hmessage : e.message = message := by simpa using hfound
      have hrest : errors.filter (·.field == e.field) = [] := by
        rw [List.filter_eq_nil_iff]
        intro e' he' hsame
        exact h.1 (List.mem_map.mpr ⟨e', he', eq_of_beq hsame⟩)
      rw [beq_self_eq_true, if_pos rfl, hrest, ← hmessage]
    · have hne : (e.field == field) = false := by simp [he]
      rw [hne] at hfound ⊢
      exact ih h.2 hfound

-- One error is reported of each field that does not accept its value, in their order, and the
-- same fields are reported in every locale.
theorem errors_report_failing_fields (s : Schema) (values : Values) (locale : Locale) :
    let verdict (i : Item) := (Rule.ofItem i).complaint? (values.get? i.name)
    let failing := s.filter fun i => (verdict i).isSome
    let errors := s.errors values locale
    (errors = [] ↔ ∀ i ∈ s, verdict i = none) ∧
    List.Forall₂ (fun i e => ∃ m, verdict i = some m ∧ e = ⟨i.name, m.text locale⟩) failing errors ∧
    (∀ t : Schema, (s ++ t).errors values locale = errors ++ t.errors values locale) ∧
    (∀ locale', let errors' := s.errors values locale'
      (errors = [] ↔ errors' = []) ∧
      errors.map FieldError.field = errors'.map FieldError.field ∧
      List.Forall₂ (fun e e' => ∀ m : Message, e.message = m.text locale ↔
        e'.message = m.text locale') errors errors') ∧
    (∀ field, FieldError.find? errors field =
      (failing.find? (·.name == field)).bind fun i => (verdict i).map (·.text locale)) ∧
    (s.flaws = [] → (errors.map FieldError.field).Nodup ∧
      ∀ field message, FieldError.find? errors field = some message →
        errors.filter (·.field == field) = [⟨field, message⟩]) := by
  intro verdict failing errors
  refine ⟨Schema.errors_eq_nil_iff, Schema.reports_errors s values locale,
    fun t => Schema.errors_append s t values locale, fun locale' => ⟨?_, ?_, ?_⟩,
    Schema.find?_errors s values locale, fun h => ?_⟩
  · rw [Schema.errors_eq_nil_iff, Schema.errors_eq_nil_iff]
  · rw [Schema.fields_errors, Schema.fields_errors]
  · exact Schema.messages_in_locales s values locale locale'
  · have hnodup := Schema.nodup_fields_errors h values locale
    exact ⟨hnodup, fun field message => FieldError.filter_eq_of_find? hnodup⟩

end Form

end BotConsole
