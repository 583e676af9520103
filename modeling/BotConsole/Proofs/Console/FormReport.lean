import BotConsole.Console.Run
import BotConsole.Proofs.Console.Invocation
import BotConsole.Proofs.Form.Edits
import BotConsole.Proofs.Form.Flaws
import BotConsole.Proofs.Form.Validation

namespace BotConsole

theorem Message.noBreak (m : Message) (locale : Locale) : '\n' ∉ (m.text locale).toList := by
  cases m <;> cases locale <;> decide +kernel

namespace Form.Schema

-- The fields that are checked with certain values: those that go with the authentication type if
-- the form has a field for it, and all otherwise.
def checked (s : Schema) (values : Values) : Schema :=
  if Visibility.authField ∈ s.map Item.name then
    s.visible (.grouped Visibility.sharedFields) (Session.authTypeOf values)
  else s

theorem visible_grouped_eq_filter (s : Schema) (shared : List String) (authType : String) :
    s.visible (.grouped shared) authType =
      s.filter (·.name ∈ (s.visible (.grouped shared) authType).map Item.name) := by
  apply List.filter_congr
  intro i hi
  rw [Bool.eq_iff_iff, decide_eq_true_iff, List.mem_map]
  constructor
  · intro hshown
    exact ⟨i, List.mem_filter.mpr ⟨hi, hshown⟩, rfl⟩
  · rintro ⟨j, hj, hname⟩
    have hshown := (List.mem_filter.mp hj).2
    simpa only [Visibility.grouped, hname] using hshown

end Form.Schema

namespace Console

namespace Report

theorem toList_unlines (lines : List String) :
    (unlines lines).toList = lines.flatMap fun line => line.toList ++ ['\n'] := by
  rw [unlines, String.toList_join, List.flatMap_map]
  simp [String.toList_append]

theorem count_unlines {lines : List String} (h : ∀ line ∈ lines, '\n' ∉ line.toList) :
    (unlines lines).toList.count '\n' = lines.length := by
  rw [toList_unlines]
  induction lines with
  | nil => rfl
  | cons line lines ih =>
    have hline := List.count_eq_zero.mpr (h line List.mem_cons_self)
    rw [List.flatMap_cons, List.count_append, List.count_append, hline,
      ih fun l hl => h l (List.mem_cons_of_mem _ hl)]
    simp [Nat.add_comm]

end Report

namespace FormReport

open Form

variable (s : Schema) (v : Values)

theorem errors_session_setMany (locale : Locale) : ((session s).setMany v).1.errors locale =
    (s.checked (s.defaults.overlay v)).errors (s.defaults.overlay v) locale := by
  have hedit (visibility : Visibility) : ((Session.start s visibility).setMany v).1 =
      .showing s visibility (s.defaults.overlay v) :=
    congrArg Prod.fst (Session.edit_showing s visibility s.defaults (.setMany v))
  have hany : s.any (·.name == Visibility.authField) = true ↔
      Visibility.authField ∈ s.map Item.name := by
    simp
  by_cases hauth : Visibility.authField ∈ s.map Item.name
  · rw [session, if_pos (hany.mpr hauth), hedit, Schema.checked, if_pos hauth]
    rfl
  · have hall : s.visible .all (Session.authTypeOf (s.defaults.overlay v)) = s :=
      List.filter_eq_self.mpr fun _ _ => rfl
    rw [session, if_neg (hany.not.mpr hauth), hedit, Schema.checked, if_neg hauth]
    exact congrArg (Schema.errors · _ locale) hall

def line? (values : Values) (locale : Locale) (i : Item) : Option String :=
  (i.complaint? values).map fun m => "  ✗ " ++ i.name ++ ": " ++ m.text locale

def failing (locale : Locale) : List String :=
  (s.checked (s.defaults.overlay v)).filterMap (line? (s.defaults.overlay v) locale)

theorem failing_eq_map (locale : Locale) : failing s v locale =
    ((s.checked (s.defaults.overlay v)).errors (s.defaults.overlay v) locale).map
      ("  ✗ " ++ ·.line) := by
  rw [Schema.errors_eq_filterMap, List.map_filterMap, failing]
  congr 1
  funext i
  simp [line?, Item.error?, FieldError.line, Function.comp_def, String.append_assoc]

theorem length_failing (locale : Locale) : (failing s v locale).length =
    (s.checked (s.defaults.overlay v)).countP fun i =>
      (i.complaint? (s.defaults.overlay v)).isSome := by
  rw [failing_eq_map, List.length_map, Schema.length_errors]

theorem failing_eq_nil_iff (locale : Locale) : failing s v locale = [] ↔
    ∀ i ∈ s.checked (s.defaults.overlay v), i.complaint? (s.defaults.overlay v) = none := by
  rw [failing_eq_map, List.map_eq_nil_iff, Schema.errors_eq_nil_iff]

theorem validation_of_nil {locale : Locale} (h : failing s v locale = []) :
    validation locale s v = .ofLines ["All fields are valid."] := by
  rw [failing_eq_map, List.map_eq_nil_iff] at h
  simp only [validation, errors_session_setMany, h]

theorem validation_of_ne_nil {locale : Locale} (h : failing s v locale ≠ []) :
    validation locale s v =
      { Report.ofLines (failing s v locale) with
        ending := .failed (toString (failing s v locale).length ++
          " field(s) failed validation") } := by
  rw [failing_eq_map] at h ⊢
  simp only [validation, errors_session_setMany]
  split
  · next hnone => exact absurd (by rw [hnone]; rfl) h
  · rw [List.length_map]
    rfl

theorem exitCode_validation_eq_zero_iff (locale : Locale) :
    (validation locale s v).ending.exitCode = 0 ↔ failing s v locale = [] := by
  by_cases h : failing s v locale = []
  · rw [validation_of_nil s v h]
    exact iff_of_true rfl h
  · rw [validation_of_ne_nil s v h]
    exact iff_of_false Nat.one_ne_zero h

theorem count_failing {locale : Locale}
    (h : ∀ i ∈ s.checked (s.defaults.overlay v), '\n' ∉ i.name.toList) :
    (Report.unlines (failing s v locale)).toList.count '\n' = (failing s v locale).length := by
  apply Report.count_unlines
  intro line hline
  obtain ⟨i, hi, hwrong⟩ := List.mem_filterMap.mp hline
  obtain ⟨message, -, rfl⟩ := Option.map_eq_some_iff.mp hwrong
  simp [String.toList_append, h i hi, message.noBreak locale]

end FormReport

namespace Machine

open Form

variable {m : Machine} {p : Project} {l : Settings.Layers} {path valuesPath : String} {s : Schema}
  {v : Values}

theorem perform_validateValues (hs : FormReport.schema m.disk m.folder path = .ok s)
    (hv : FormReport.values m.disk m.folder valuesPath = .ok v) :
    (m.perform p l (.validateValues path valuesPath)).1 =
      FormReport.validation (m.language p l).locale s v := by
  simp only [perform, perform.onSchema, hs, hv, FormReport.onSuccess]

theorem perform_listVisible (hs : FormReport.schema m.disk m.folder path = .ok s)
    (authType : String) :
    (m.perform p l (.listVisible path authType)).1 = FormReport.visible authType s := by
  simp only [perform, perform.onSchema, hs, FormReport.onSuccess]

end Machine

-- Values are laid over the defaults, and the fields listed as visible are checked: the run fails
-- with one line for each that does not accept its value.
theorem validation_checks_listed {m : Machine} {p : Project} {l : Settings.Layers}
    {path valuesPath : String} {s : Form.Schema} {v : Form.Values}
    (hs : FormReport.schema m.disk m.folder path = .ok s)
    (hv : FormReport.values m.disk m.folder valuesPath = .ok v) :
    let merged := s.defaults.overlay v
    let authType := Form.Session.authTypeOf merged
    let checked := s.checked merged
    let listing := (m.perform p l (.listVisible path authType)).1
    let report := (m.perform p l (.validateValues path valuesPath)).1
    let lines := checked.filterMap (FormReport.line? merged (m.language p l).locale)
    (∀ name, merged.get? name =
      (v.get? name).or ((s.reverse.find? (·.name == name)).map Form.Item.default)) ∧
    authType = (match merged.get? "auth-type" with
      | some (.text text) => text
      | _ => "") ∧
    ("auth-type" ∈ s.map Form.Item.name →
      listing = Report.ofLines (checked.map Form.Item.name) ∧
      checked = s.filter (·.name ∈ checked.map Form.Item.name)) ∧
    ("auth-type" ∉ s.map Form.Item.name → checked = s) ∧
    (report.ending.exitCode = 0 ↔ ∀ i ∈ checked,
      (Form.Rule.ofItem i).complaint? (merged.get? i.name) = none) ∧
    (report.ending.exitCode = 0 → report = Report.ofLines ["All fields are valid."]) ∧
    (report.ending.exitCode ≠ 0 →
      report.output = Report.unlines lines ∧
      report.ending = .failed (toString lines.length ++ " field(s) failed validation") ∧
      lines.length = checked.countP fun i =>
        ((Form.Rule.ofItem i).complaint? (merged.get? i.name)).isSome) ∧
    -- A name with a line break in it would be printed as more than one line.
    (report.ending.exitCode ≠ 0 → (∀ i ∈ checked, '\n' ∉ i.name.toList) →
      report.output.toList.count '\n' = lines.length) ∧
    -- These are the commands that the command line asks for, unless a path looks like a switch.
    (Invocation.isPath path = true → Level.isValue path = true →
      Invocation.ofArguments ["form", "visible", path, "--auth-type=" ++ authType] =
        .ok ⟨false, none, none, .listVisible path authType⟩ ∧
      (Invocation.isPath valuesPath = true → Level.isValue valuesPath = true →
        Invocation.ofArguments ["form", "validate", path, valuesPath] =
          .ok ⟨false, none, none, .validateValues path valuesPath⟩)) := by
  intro merged authType checked listing report lines
  have hreport : report = FormReport.validation (m.language p l).locale s v :=
    Machine.perform_validateValues hs hv
  have hexit : report.ending.exitCode = 0 ↔ lines = [] := by
    rw [hreport]
    exact FormReport.exitCode_validation_eq_zero_iff s v _
  have hfailed (h : report.ending.exitCode ≠ 0) : report =
      { Report.ofLines lines with
        ending := .failed (toString lines.length ++ " field(s) failed validation") } :=
    hreport.trans (FormReport.validation_of_ne_nil s v (hexit.not.mp h))
  refine ⟨fun name => ?_, Form.Session.authTypeOf_eq merged, fun hauth => ?_, fun hauth => ?_,
    hexit.trans (FormReport.failing_eq_nil_iff s v _), fun h => ?_, fun h => ⟨?_, ?_, ?_⟩,
    fun h hnames => ?_, fun hpath hplain => ⟨?_, fun hpath' hplain' => ?_⟩⟩
  · rw [Dict.get?_overlay, Form.Schema.get?_defaults]
  · have hchecked : checked = s.visible (.grouped Form.Visibility.sharedFields) authType :=
      if_pos hauth
    rw [hchecked]
    exact ⟨Machine.perform_listVisible hs authType, Form.Schema.visible_grouped_eq_filter _ _ _⟩
  · exact if_neg hauth
  · rw [hreport]
    exact FormReport.validation_of_nil s v (hexit.mp h)
  · rw [hfailed h]
    rfl
  · rw [hfailed h]
  · exact FormReport.length_failing s v _
  · rw [hfailed h]
    exact FormReport.count_failing s v hnames
  · exact Invocation.ofArguments_visible hpath hplain authType
  · exact Invocation.ofArguments_validate hpath hplain hpath' hplain'

def loginText : String :=
  "[[\"\",\"auth-type\",\"select\",\"none\"],[\"\",\"basic-user\"],[\"\",\"jwt-token\"]," ++
    "[\"\",\"basic-user\",\"boolean\",true]]"

def loginForm : Form.Schema :=
  [⟨"", "auth-type", .choice, .text "none", false, .empty, none, [], none⟩,
    ⟨"", "basic-user", .unknown, .null, false, .empty, none, [], none⟩,
    ⟨"", "jwt-token", .unknown, .null, false, .empty, none, [], none⟩,
    ⟨"", "basic-user", .boolean, .bool true, false, .empty, none, [], none⟩]

def answersText : String :=
  "\x7b\"auth-type\":\"basic\",\"jwt-token\":7\x7d"

def answers : List (String × Json.Value) :=
  [("auth-type", .text "basic"), ("jwt-token", .number (.int 7))]

def atHome : Machine where
  environment := fun _ => none
  disk := [(["form.json"], .file loginText), (["values.json"], .file answersText)]
  folder := []
  server := fun _ => .refused
  patience := 1

theorem validation_checks_listed_repeated :
    let run := atHome.perform ⟨[], {}⟩ { file := {}, environment := fun _ => none }
    (run (.listVisible "form.json" "basic")).1 =
        Report.ofLines ["auth-type", "basic-user", "basic-user"] ∧
      (run (.validateValues "form.json" "values.json")).1.output =
        Report.unlines ["  ✗ basic-user: Expected text"] ∧
      (run (.validateValues "form.json" "values.json")).1.ending =
        .failed "1 field(s) failed validation" := by
  intro run
  have hs : FormReport.schema atHome.disk atHome.folder "form.json" = .ok loginForm := by
    have hfile : atHome.disk.readPath? atHome.folder "form.json" = some loginText := by
      decide +kernel
    have hformat : Form.Format.ofPath "form.json" = .json := by decide +kernel
    have htext : Form.Schema.ofJson? loginText.toList = some loginForm := by decide +kernel
    rw [FormReport.schema, hfile, hformat, Option.bind_some, Form.Schema.ofText?, htext]
  have hv : FormReport.values atHome.disk atHome.folder "values.json" = .ok (.ofPairs answers) := by
    have hfile : atHome.disk.readPath? atHome.folder "values.json" = some answersText := by
      decide +kernel
    have htext : Json.Value.read? answersText.toList = some (.object answers) := by decide +kernel
    rw [FormReport.values, hfile]
    simp only [htext]
  obtain ⟨-, htype, hlisted, -, hexit, -, hfailed, -⟩ := validation_checks_listed
    (p := ⟨[], {}⟩) (l := { file := {}, environment := fun _ => none }) hs hv
  have hmerged : (loginForm.defaults.overlay (.ofPairs answers)).get? "auth-type" =
      some (.text "basic") := by
    decide
  have hchecked : loginForm.checked (loginForm.defaults.overlay (.ofPairs answers)) =
      loginForm.eraseIdx 2 := by
    decide
  have hlocale : (atHome.language ⟨[], {}⟩ { file := {}, environment := fun _ => none }).locale =
      .english := by
    decide
  have hlines : (loginForm.eraseIdx 2).filterMap (FormReport.line?
      (loginForm.defaults.overlay (.ofPairs answers)) .english) =
        ["  ✗ basic-user: Expected text"] := by
    decide
  rw [hmerged] at htype
  rw [htype, hchecked] at hlisted
  rw [hchecked] at hexit hfailed
  rw [hlocale, hlines] at hfailed
  have hnonzero : (run (.validateValues "form.json" "values.json")).1.ending.exitCode ≠ 0 := by
    intro hzero
    have haccepted := hexit.mp hzero loginForm[1] (by simp [loginForm])
    have hrejected : (Form.Rule.ofItem loginForm[1]).complaint?
        ((loginForm.defaults.overlay (.ofPairs answers)).get? loginForm[1].name) =
          some .expectedText := by
      decide
    rw [hrejected] at haccepted
    cases haccepted
  obtain ⟨houtput, hending, -⟩ := hfailed hnonzero
  exact ⟨(hlisted (by decide)).1, houtput, hending.trans (by rfl)⟩

end Console

end BotConsole
