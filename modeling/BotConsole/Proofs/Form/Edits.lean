import BotConsole.Form.Session
import Mathlib.Data.List.Induction

namespace BotConsole.Form

open Json

inductive Edit where
  | set (name : String) (value : Value)
  | setMany (values : Values)
  | reset

namespace Edit

-- Giving no values at all is no edit.
def isVoid : Edit → Bool
  | .setMany values => values.isEmpty
  | _ => false

def isReset : Edit → Bool
  | .reset => true
  | _ => false

def apply (schema : Schema) (values : Values) : Edit → Values
  | .set name value => values.insert name value
  | .setMany more => values.overlay more
  | .reset => schema.defaults

def writes : Edit → List (String × Value)
  | .set name value => [(name, value)]
  | .setMany values => values.entries
  | .reset => []

-- The values that were given since the form was last reset, the latest one at the end.
def written (edits : List Edit) : List (String × Value) :=
  (edits.reverse.takeWhile (!·.isReset)).reverse.flatMap writes

theorem written_concat (edits : List Edit) (e : Edit) :
    written (edits ++ [e]) = if e.isReset then [] else written edits ++ e.writes := by
  cases h : e.isReset <;> simp [written, h]

theorem apply_written (schema : Schema) (edits : List Edit) (e : Edit) :
    e.apply schema (schema.defaults.insertMany (written edits)) =
      schema.defaults.insertMany (written (edits ++ [e])) := by
  rw [written_concat]
  cases e with
  | set name value =>
    exact (Dict.insertMany_append schema.defaults (written edits) [(name, value)]).symm
  | setMany more =>
    exact (Dict.insertMany_append schema.defaults (written edits) more.entries).symm
  | reset => rfl

end Edit

namespace Session

theorem authTypeOf_eq (values : Values) : authTypeOf values =
    match values.get? "auth-type" with
    | some (.text text) => text
    | _ => "" := by
  show ((values.get? "auth-type").bind Value.text?).getD "" = _
  cases values.get? "auth-type" with
  | none => rfl
  | some v => cases v <;> rfl

theorem shows_iff (s : Session) (name : String) : s.shows name = true ↔ name ∈ s.visible := by
  simp [shows]

def edit (s : Session) : Edit → Session × Option Change
  | .set name value => ((s.set name value).1, some (s.set name value).2)
  | .setMany values => s.setMany values
  | .reset => (s.reset.1, some s.reset.2)

def after (s : Session) (edits : List Edit) : Session :=
  edits.foldl (fun s e => (s.edit e).1) s

theorem after_concat (s : Session) (edits : List Edit) (e : Edit) :
    s.after (edits ++ [e]) = ((s.after edits).edit e).1 := by
  simp [after]

def showing (schema : Schema) (visibility : Visibility) (values : Values) : Session :=
  withValues ⟨schema, visibility, .empty, []⟩ values

theorem edit_of_void {e : Edit} (he : e.isVoid = true) (s : Session) : s.edit e = (s, none) := by
  cases e with
  | set name value => cases he
  | reset => cases he
  | setMany more => exact if_pos he

theorem edit_showing (schema : Schema) (visibility : Visibility) (values : Values) (e : Edit) :
    let s := showing schema visibility (e.apply schema values)
    (showing schema visibility values).edit e = (s, if e.isVoid then none else some s.change) := by
  intro s
  cases e with
  | set name value => rfl
  | reset => rfl
  | setMany more =>
    by_cases hvoid : (Edit.setMany more).isVoid = true
    · have hnone : more.entries = [] := List.isEmpty_iff.mp hvoid
      have hsame : values.overlay more = values := by simp [Dict.overlay, hnone]
      rw [edit_of_void hvoid, if_pos hvoid]
      simp only [s, Edit.apply, hsame]
    · rw [if_neg hvoid]
      exact if_neg hvoid

theorem after_start (schema : Schema) (visibility : Visibility) (edits : List Edit) :
    (start schema visibility).after edits =
      showing schema visibility (schema.defaults.insertMany (Edit.written edits)) := by
  induction edits using List.reverseRecOn with
  | nil => rfl
  | append_singleton edits e ih => rw [after_concat, ih, edit_showing, Edit.apply_written]

end Session

end BotConsole.Form
