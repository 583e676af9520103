import BotConsole.Proofs.Settings.Layers
import BotConsole.Proofs.Text.Replace
import BotConsole.Settings.Warning

namespace BotConsole

theorem Settings.noTaskMark_mem_warnings_iff (s : Settings) (path : String) :
    Warning.noTaskMark path ∈ s.warnings ↔ path = s.backend.taskStatusPath ∧
      ¬ Task.Client.mark <:+: s.backend.taskStatusPath.toList := by
  simp only [warnings, List.mem_append, List.mem_ite_nil_right, List.mem_singleton, reduceCtorEq,
    and_false, or_false, false_or, Warning.noTaskMark.injEq, Bool.not_eq_true', ← Bool.not_eq_true,
    Text.occurs_iff]
  exact and_comm

namespace Task.Client

open Text

variable {template : List Char} {task a b : Int}

theorem mark_ne_nil : mark ≠ [] := List.cons_ne_nil _ _

-- A number has no character of the mark, and no slash.
theorem notMem_mark_of_mem_integerText {c : Char} (hc : c ∈ integerText task) :
    c ∉ mark ∧ c ≠ '/' := by
  have hmark : ∀ d ∈ mark, d.isDigit = false := by simp [mark]
  rcases eq_minus_or_isDigit_of_mem_integerText hc with rfl | hdigit
  · decide
  · constructor
    · intro hmem
      rw [hmark c hmem] at hdigit
      cases hdigit
    · rintro rfl
      cases hdigit

def lead (template : List Char) : List Char :=
  if template.head? = some '/' then [] else ['/']

-- Whether a slash is missing does not depend on the task.
theorem path_eq (template : List Char) (task : Int) :
    path template task = lead template ++ replaceAll mark (integerText task) template := by
  have hnumber : (integerText task).head? ≠ some '/' := by
    intro h
    exact (notMem_mark_of_mem_integerText (List.mem_of_mem_head? h)).2 rfl
  have hmark : mark.head? ≠ some '/' := by decide
  have hfirst := head?_replaceAll hmark (integerText_ne_nil task) hnumber template
  unfold path lead
  split
  · next rest hrest =>
    rw [if_pos (hfirst.mp (by rw [hrest]; rfl)), hrest, List.nil_append]
  · next hrest =>
    have hbare : template.head? ≠ some '/' := by
      intro h
      obtain ⟨rest, hslash⟩ := List.head?_eq_some_iff.mp (hfirst.mpr h)
      exact hrest rest hslash
    rw [if_neg hbare, List.singleton_append]

theorem head?_path (template : List Char) (task : Int) : (path template task).head? = some '/' := by
  unfold path
  split <;> rfl

-- A path without the mark is the same for all tasks, one with the mark for none.
theorem path_injective_iff : Function.Injective (path template) ↔ mark <:+: template := by
  constructor
  · intro hinjective
    by_contra h
    have hsame : path template 0 = path template 1 := by
      rw [path_eq, path_eq, replaceAll_of_not_infix h, replaceAll_of_not_infix h]
    exact absurd (hinjective hsame) (by decide)
  · intro h a b hab
    obtain ⟨pieces, hjoin, hfree, hreplace⟩ := exists_pieces mark_ne_nil template
    have htwo : 2 ≤ pieces.length := by
      match pieces with
      | [] =>
        subst hjoin
        exact absurd (List.eq_nil_of_infix_nil h) mark_ne_nil
      | [piece] =>
        subst hjoin
        exact absurd h (hfree _ List.mem_cons_self)
      | _ :: _ :: _ => exact Nat.le_add_left 2 _
    rw [path_eq, path_eq, hreplace, hreplace] at hab
    exact integerText_injective (eq_of_joinWith_eq htwo (List.append_cancel_left hab))

theorem not_infix_path (template : List Char) (task : Int) : ¬ mark <:+: path template task := by
  obtain ⟨pieces, -, hfree, hreplace⟩ := exists_pieces mark_ne_nil template
  have hpath : ¬ mark <:+: replaceAll mark (integerText task) template := by
    rw [hreplace]
    exact not_infix_joinWith mark_ne_nil (integerText_ne_nil task)
      (fun c hc => (notMem_mark_of_mem_integerText hc).1) hfree
  rw [path_eq, lead]
  split
  · exact hpath
  · intro h
    rcases infix_of_infix_append_cons (s := []) (by decide) h with hnone | hrest
    · exact mark_ne_nil (List.eq_nil_of_infix_nil hnone)
    · exact hpath hrest

theorem toList_statusUrl (c : Client) (task : Int) :
    (c.statusUrl task).toList = c.base.toList ++ path c.template.toList task := by
  rw [statusUrl, String.toList_append, String.toList_ofList]

theorem statusUrl_injective_iff (c : Client) :
    (∀ a b, c.statusUrl a = c.statusUrl b → a = b) ↔ mark <:+: c.template.toList := by
  rw [← path_injective_iff]
  constructor
  · intro h a b hab
    apply h
    rw [statusUrl, statusUrl, hab]
  · intro h a b hab
    have hlist := congrArg String.toList hab
    rw [toList_statusUrl, toList_statusUrl] at hlist
    exact h (List.append_cancel_left hlist)

-- The mark keeps the tasks apart: with it no two of them have their status at the same address,
-- and without it the settings are warned about.
theorem task_addresses_differ (base template : String) (token : Option String) :
    (∀ s : Settings, s.backend.taskStatusPath = template →
      (Settings.Warning.noTaskMark template ∈ s.warnings ↔ ¬ mark <:+: template.toList)) ∧
    let c := Client.new base template token
    let path (task : Int) := path template.toList task
    ((∀ a b, c.statusUrl a = c.statusUrl b → a = b) ↔ mark <:+: template.toList) ∧
    (∃ pieces, joinWith mark pieces = template.toList ∧ (∀ piece ∈ pieces, ¬ mark <:+: piece) ∧
      ∀ task, path task = (if template.toList.head? = some '/' then [] else ['/']) ++
        joinWith (toString task).toList pieces) ∧
    (∀ task, ¬ mark <:+: path task ∧ (path task).head? = some '/') ∧
    (∃ trimmed n, base.toList = trimmed ++ List.replicate n '/' ∧ trimmed.getLast? ≠ some '/' ∧
      ∀ task, (c.statusUrl task).toList = trimmed ++ path task) ∧
    (∀ task, (Client.new c.base template token).statusUrl task = c.statusUrl task) ∧
    ∀ l : Settings.Layers, l.file.backend.taskStatusPath = template →
      (l.baseUrl.or (l.environment "BOTDECK_BASE_URL")).getD l.file.backend.baseUrl = base →
      ∀ task, l.client.statusUrl task = c.statusUrl task := by
  refine ⟨fun s hs => ?_, ?_⟩
  · rw [s.noTaskMark_mem_warnings_iff, hs]
    exact and_iff_right rfl
  intro c path
  refine ⟨c.statusUrl_injective_iff, ?_, fun task => ⟨not_infix_path _ task, head?_path _ task⟩,
    ?_, fun task => ?_, fun l htemplate hbase task => ?_⟩
  · obtain ⟨pieces, hjoin, hfree, hreplace⟩ := exists_pieces mark_ne_nil template.toList
    refine ⟨pieces, hjoin, hfree, fun task => ?_⟩
    show Client.path _ _ = _
    rw [path_eq, hreplace, integerText_eq, lead]
  · obtain ⟨n, hn⟩ := exists_eq_trimSlashes_append base.toList
    refine ⟨trimSlashes base.toList, n, hn, getLast?_trimSlashes _, fun task => ?_⟩
    rw [toList_statusUrl]
    exact congrArg (· ++ _) String.toList_ofList
  · simp only [c, Client.new, statusUrl, String.toList_ofList, trimSlashes_trimSlashes]
  · rw [l.statusUrl_client, htemplate, Settings.Layers.effectiveBaseUrl, hbase]
    rfl

-- A template in which a mark is left over as soon as another one is replaced.
def nested : Settings.Layers where
  file := { backend := { taskStatusPath := "\x7bi\x7bid\x7dd\x7d/\x7bid\x7d" } }
  environment := fun _ => none
  baseUrl := some "http://localhost//"

theorem task_addresses_differ_nested :
    let template := nested.file.backend.taskStatusPath
    let c := Client.new "http://localhost//" template none
    c.statusUrl (-7) = "http://localhost/\x7bi-7d\x7d/-7" ∧
      (∀ a b, c.statusUrl a = c.statusUrl b → a = b) ∧ ¬ mark <:+: path template.toList (-7) ∧
      Settings.Warning.noTaskMark template ∉ nested.file.warnings ∧
      nested.client.statusUrl (-7) = c.statusUrl (-7) := by
  intro template c
  obtain ⟨hwarned, hdiffer, -, hpath, -, -, hlayers⟩ :=
    task_addresses_differ "http://localhost//" template none
  have hmark : mark <:+: template.toList := occurs_iff.mp (by decide +kernel)
  exact ⟨by decide, hdiffer.mpr hmark, (hpath (-7)).1,
    fun h => (hwarned nested.file rfl).mp h hmark, hlayers nested rfl rfl (-7)⟩

end Task.Client

end BotConsole
