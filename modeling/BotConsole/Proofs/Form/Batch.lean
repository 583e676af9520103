import BotConsole.Proofs.Dict
import BotConsole.Proofs.Form.Edits

namespace BotConsole.Form

open Json

def Edit.oneByOne (order : List (String × Value)) : List Edit :=
  order.map fun (name, value) => .set name value

theorem Edit.all_isVoid_oneByOne (order : List (String × Value)) :
    (oneByOne order).all Edit.isVoid = order.isEmpty := by
  cases order <;> rfl

namespace Session

def told (s : Session) : List Edit → List Change
  | [] => []
  | e :: edits => (s.edit e).2.toList ++ (s.edit e).1.told edits

theorem after_cons (s : Session) (e : Edit) (edits : List Edit) :
    s.after (e :: edits) = (s.edit e).1.after edits := rfl

theorem after_append (s : Session) (first second : List Edit) :
    s.after (first ++ second) = (s.after first).after second :=
  List.foldl_append

theorem told_append (s : Session) (first second : List Edit) :
    s.told (first ++ second) = s.told first ++ (s.after first).told second := by
  induction first generalizing s with
  | nil => rfl
  | cons e first ih => rw [List.cons_append, told, told, ih, after_cons, List.append_assoc]

theorem told_edit (s : Session) (e : Edit) :
    (s.edit e).2 = if e.isVoid then none else some (s.edit e).1.change := by
  by_cases hvoid : e.isVoid = true
  · rw [edit_of_void hvoid, if_pos hvoid]
  · rw [if_neg hvoid]
    cases e with
    | set name value => rfl
    | reset => rfl
    | setMany values =>
      have hedit : s.setMany values = _ := if_neg hvoid
      rw [edit, hedit]

theorem length_told (s : Session) (edits : List Edit) :
    (s.told edits).length = edits.countP (!·.isVoid) := by
  induction edits generalizing s with
  | nil => rfl
  | cons e edits ih =>
    rw [told, List.length_append, ih, told_edit, List.countP_cons]
    cases e.isVoid <;> simp [Nat.add_comm]

theorem getLast?_told (s : Session) (edits : List Edit) :
    (s.told edits).getLast? =
      if edits.all Edit.isVoid then none else some (s.after edits).change := by
  induction edits using List.reverseRecOn with
  | nil => rfl
  | append_singleton edits e ih =>
    rw [told_append, List.getLast?_append, ih, after_append, List.all_append]
    by_cases hvoid : e.isVoid = true
    · have hsame : (s.after edits).after [e] = s.after edits := by
        rw [after_cons, edit_of_void hvoid]
        rfl
      have hnone : (s.after edits).told [e] = [] := by
        rw [told, edit_of_void hvoid]
        rfl
      rw [hsame, hnone]
      simp [hvoid]
    · have hlast : (s.after edits).told [e] = [((s.after edits).after [e]).change] := by
        rw [told, told_edit, if_neg hvoid]
        rfl
      rw [hlast]
      simp [hvoid]

variable {schema : Schema} {visibility : Visibility}

theorem after_oneByOne (values : Values) (order : List (String × Value)) :
    (showing schema visibility values).after (Edit.oneByOne order) =
      showing schema visibility (values.insertMany order) := by
  induction order generalizing values with
  | nil => rfl
  | cons entry order ih => exact ih _

theorem length_told_oneByOne (s : Session) (order : List (String × Value)) :
    (s.told (Edit.oneByOne order)).length = order.length := by
  rw [length_told, Edit.oneByOne, List.countP_map, List.countP_eq_length.mpr]
  intro entry _
  rfl

end Session

-- Values given in one edit lead to the same form as each of them in an edit of its own, in any
-- order. The one edit is told of once, of the others each one is.
theorem batch_agrees_with_single_edits (schema : Schema) (visibility : Visibility)
    (edits : List Edit) :
    let s := (Session.start schema visibility).after edits
    (∀ (values : Values) (order : List (String × Value)), order.Perm values.entries →
      s.after (Edit.oneByOne order) = (s.setMany values).1 ∧
      (s.told (Edit.oneByOne order)).getLast? = (s.setMany values).2 ∧
      (s.told (Edit.oneByOne order)).length = values.entries.length ∧
      ((s.setMany values).2 = none ↔ values.isEmpty = true)) ∧
    s.reset.1 = Session.start schema visibility := by
  intro s
  have hs : s = .showing schema visibility _ := Session.after_start schema visibility edits
  refine ⟨fun values order horder => ?_, ?_⟩
  · have hkeys : (order.map (·.1)).Nodup :=
      (horder.map (·.1)).symm.nodup values.ascending.nodup_keys
    have hbatch : (s.setMany values).2 =
        if values.isEmpty then none else some (s.setMany values).1.change :=
      Session.told_edit s (.setMany values)
    have hsame : s.after (Edit.oneByOne order) = (s.setMany values).1 := by
      rw [hs, Session.after_oneByOne, Dict.insertMany_perm horder hkeys]
      exact (congrArg Prod.fst (Session.edit_showing schema visibility _ (.setMany values))).symm
    refine ⟨hsame, ?_, ?_, ?_⟩
    · have hempty : order.isEmpty = values.isEmpty := horder.isEmpty_eq
      rw [Session.getLast?_told, Edit.all_isVoid_oneByOne, hempty, hsame, hbatch]
    · rw [Session.length_told_oneByOne, horder.length_eq]
    · rw [hbatch]
      cases values.isEmpty <;> simp
  · rw [hs]
    exact congrArg Prod.fst (Session.edit_showing schema visibility _ .reset)

end BotConsole.Form
