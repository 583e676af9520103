import BotConsole.Proofs.Form.Edits
import BotConsole.Proofs.Form.Validation

namespace BotConsole.Form

open Json

namespace Session

variable {schema : Schema} {visibility : Visibility} {values values' : Values}

-- The values that bear on what a form shows and on what it finds wrong.
structure SameToSee (schema : Schema) (visibility : Visibility) (values values' : Values) :
    Prop where
  authType : values.get? "auth-type" = values'.get? "auth-type"
  visible : ∀ name ∈ (showing schema visibility values).visible,
    values.get? name = values'.get? name

theorem SameToSee.visibleItems (h : SameToSee schema visibility values values') :
    (showing schema visibility values').visibleItems =
      (showing schema visibility values).visibleItems := by
  have hauth : authTypeOf values' = authTypeOf values := by
    rw [authTypeOf_eq, authTypeOf_eq, h.authType]
  show schema.visible visibility (authTypeOf values') =
    schema.visible visibility (authTypeOf values)
  rw [hauth]

theorem SameToSee.shown (h : SameToSee schema visibility values values') :
    (showing schema visibility values').visible = (showing schema visibility values).visible :=
  congrArg (List.map Item.name) h.visibleItems

theorem SameToSee.errors (h : SameToSee schema visibility values values') (locale : Locale) :
    (showing schema visibility values').errors locale =
      (showing schema visibility values).errors locale := by
  simp only [Session.errors, h.visibleItems]
  apply Schema.errors_congr
  intro i hi
  exact (h.visible i.name (List.mem_map_of_mem hi)).symm

theorem sameToSee_insert {name : String} (hname : name ≠ "auth-type")
    (hhidden : name ∉ (showing schema visibility values).visible) (value : Value) :
    SameToSee schema visibility values (values.insert name value) where
  authType := by simp [hname.symm]
  visible := by
    intro shown hshown
    have hne : shown ≠ name := fun h => hhidden (h ▸ hshown)
    simp [hne]

theorem visible_set {name : String} (hname : name ≠ "auth-type") (value : Value) :
    ((showing schema visibility values).set name value).1.visible =
      (showing schema visibility values).visible := by
  have hauth : authTypeOf (values.insert name value) = authTypeOf values := by
    rw [authTypeOf_eq, authTypeOf_eq, Dict.get?_insert, if_neg hname.symm]
  show (schema.visible visibility (authTypeOf (values.insert name value))).map Item.name =
    (schema.visible visibility (authTypeOf values)).map Item.name
  rw [hauth]

end Session

-- What is given to a name that is not shown changes nothing about what is shown and what is found
-- wrong.
theorem hidden_fields_do_not_interfere (schema : Schema) (visibility : Visibility)
    (edits edits' : List Edit) :
    let s := (Session.start schema visibility).after edits
    let t := (Session.start schema visibility).after edits'
    (∀ name value, name ≠ "auth-type" →
      (s.set name value).1.visible = s.visible ∧
      (name ∉ s.visible → ∀ locale, (s.set name value).1.errors locale = s.errors locale)) ∧
    (s.values.get? "auth-type" = t.values.get? "auth-type" →
      (∀ name ∈ s.visible, s.values.get? name = t.values.get? name) →
      s.visible = t.visible ∧ ∀ locale, s.errors locale = t.errors locale) := by
  intro s t
  have hs : s = .showing schema visibility _ := Session.after_start schema visibility edits
  have ht : t = .showing schema visibility _ := Session.after_start schema visibility edits'
  rw [hs, ht]
  refine ⟨fun name value hname => ⟨Session.visible_set hname value, fun hhidden locale => ?_⟩,
    fun hauth hshown => ?_⟩
  · exact (Session.sameToSee_insert hname hhidden value).errors locale
  · have hsame : Session.SameToSee schema visibility _ _ := ⟨hauth, hshown⟩
    exact ⟨hsame.shown.symm, fun locale => (hsame.errors locale).symm⟩

end BotConsole.Form
