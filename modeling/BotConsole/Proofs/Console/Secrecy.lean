import BotConsole.Proofs.Console.Effective
import BotConsole.Proofs.Settings.Token

namespace BotConsole

-- Environments with the same variables, but for what the token is if it is not empty.
structure Environment.SameButToken (e other : Environment) : Prop where
  others : ∀ name ≠ "BOTDECK_TOKEN", other name = e name
  token : (other "BOTDECK_TOKEN").any (!·.isEmpty) = (e "BOTDECK_TOKEN").any (!·.isEmpty)

namespace Settings.Layers

variable {l l' : Layers}

theorem isSome_effectiveToken (l : Layers) : l.effectiveToken.isSome =
    ((l.environment "BOTDECK_TOKEN").any (!·.isEmpty) || l.file.veiled.backend.token.isSome) := by
  rw [effectiveToken, Option.isSome_or, Option.isSome_filter]
  simp [veiled, Backend.veiled]

end Settings.Layers

namespace Console

theorem SettingsReport.fileLines_veiled (s : Settings) : fileLines s.veiled = fileLines s := by
  simp [fileLines, Settings.veiled, Settings.Backend.veiled]

theorem SettingsReport.summary_congr {l l' : Settings.Layers}
    (hfile : l'.file.veiled = l.file.veiled) (h : l.environment.SameButToken l'.environment)
    (hurl : l'.baseUrl = l.baseUrl) (hinterval : l'.interval = l.interval) (file : Place)
    (isSaved : Bool) : summary file isSaved l' = summary file isSaved l := by
  have hlines : fileLines l'.file = fileLines l.file := by
    rw [← fileLines_veiled, hfile, fileLines_veiled]
  have hbase : l'.file.backend.baseUrl = l.file.backend.baseUrl :=
    congrArg (·.backend.baseUrl) hfile
  have hpolling : l'.file.polling = l.file.polling := congrArg (·.polling) hfile
  have hdisplay : l'.file.display = l.file.display := congrArg (·.display) hfile
  have hshown : effectiveLines l' = effectiveLines l := by
    simp only [effectiveLines, Settings.Layers.isSome_effectiveToken, hfile, h.token,
      Settings.Layers.effectiveBaseUrl, Settings.Layers.effectiveInterval,
      Settings.Layers.environmentInterval, Settings.Layers.effectiveLocale, hbase, hpolling,
      hdisplay, hurl, hinterval, h.others "BOTDECK_BASE_URL" (by decide),
      h.others "BOTDECK_POLL_INTERVAL_MS" (by decide), h.others "BOTDECK_LOCALE" (by decide)]
  rw [summary, summary, hlines, hshown]

namespace Machine

-- The servers of two such machines may be different ones.
structure SameButTokens (m m' : Machine) : Prop where
  environment : m.environment.SameButToken m'.environment
  disk : m.disk.SameButTokens m'.disk
  folder : m'.folder = m.folder

variable {m m' : Machine}

theorem isSaved_withLogFolder (m : Machine) (p : Project) :
    perform.isSaved (m.withLogFolder p) p = !m.disk.isVacant p.settingsFile := by
  have hfind : (m.withLogFolder p).disk.find? p.settingsFile = m.disk.find? p.settingsFile :=
    m.find?_withLogFolder p (by decide)
  rw [perform.isSaved, Disk.isVacant, hfind, Disk.isVacant]

theorem SameButTokens.invoke (h : m.SameButTokens m') {i : Invocation}
    (hi : i.command = .showSettings) : (m'.invoke i).1 = (m.invoke i).1 := by
  have hload := Project.veiled_load h.disk m.folder (i.projectFolder.getD m.folder.toText)
  simp only [Machine.invoke, h.folder, hi]
  generalize Project.load m.disk m.folder _ = found, Project.load m'.disk m.folder _ = found'
    at hload
  cases found with
  | error failure =>
    cases found' with
    | error failure' =>
      obtain rfl := Except.error.inj hload
      rfl
    | ok p' => cases hload
  | ok p =>
    cases found' with
    | error failure' => cases hload
    | ok p' =>
      have hveiled : p'.veiled = p.veiled := Except.ok.inj hload
      have hfolder : p'.folder = p.folder := congrArg (·.folder) hveiled
      have hplace : p'.settingsFile = p.settingsFile := congrArg Project.settingsFileOf hfolder
      have hfile : (m'.layers p' i).file.veiled = (m.layers p i).file.veiled :=
        congrArg (·.settings) hveiled
      have hshown : (m.layers p i).environment.SameButToken (m'.layers p' i).environment :=
        h.environment
      show SettingsReport.summary p'.settingsFile _ _ = SettingsReport.summary p.settingsFile _ _
      rw [isSaved_withLogFolder, isSaved_withLogFolder, hplace, h.disk.isVacant]
      exact SettingsReport.summary_congr hfile hshown rfl rfl _ _

def withTokens (m : Machine) (place : Place) (s : Settings) (stored given : String) : Machine :=
  { m with
    environment := fun name => if name = "BOTDECK_TOKEN" then some given else m.environment name
    disk := m.disk.put place (.file ({ s with backend.token := some stored } : Settings).toText) }

theorem sameButTokens_withTokens (m : Machine) {place : Place} (hplace : place ≠ []) (s : Settings)
    (stored stored' : String) {given given' : String} (h : given.isEmpty = given'.isEmpty) :
    (m.withTokens place s stored given).SameButTokens (m.withTokens place s stored' given') where
  environment := {
    others := by
      intro name hname
      simp only [withTokens, if_neg hname]
    token := by simp [withTokens, h] }
  disk := by
    intro q
    simp only [withTokens, Disk.find?_put hplace]
    split
    · exact DiskEntry.sameButToken_toText s stored stored'
    · exact .same _
  folder := rfl

theorem SameButTokens.run (h : m.SameButTokens m') {arguments : List String}
    (hi : ∀ i, Invocation.ofArguments arguments = .ok i → i.command = .showSettings) :
    (m'.run arguments).1 = (m.run arguments).1 := by
  unfold Machine.run
  cases hread : Invocation.ofArguments arguments with
  | ok i => exact h.invoke (hi i hread)
  | error stop => cases stop <;> rfl

end Machine

-- What is printed and how the run ends does not depend on the text of tokens, in the environment
-- or in files, whatever characters they are made of.
theorem shown_settings_conceal_tokens (arguments : List String)
    (h : ∀ i, Invocation.ofArguments arguments = .ok i → i.command = .showSettings) :
    let SameReports (m m' : Machine) := (m'.run arguments).1.output = (m.run arguments).1.output ∧
      (m'.run arguments).1.ending.exitCode = (m.run arguments).1.ending.exitCode
    (∀ m m' : Machine, m.SameButTokens m' → SameReports m m') ∧
      ∀ (m : Machine) (place : Place) (s : Settings) (stored stored' given given' : String),
        place ≠ [] → given.isEmpty = given'.isEmpty →
        SameReports (m.withTokens place s stored given) (m.withTokens place s stored' given') := by
  intro SameReports
  have hreports (m m' : Machine) (hsame : m.SameButTokens m') : SameReports m m' := by
    have hrun := hsame.run h
    exact ⟨congrArg Report.output hrun, congrArg (·.ending.exitCode) hrun⟩
  refine ⟨hreports, fun m place s stored stored' given given' hplace hgiven => ?_⟩
  exact hreports _ _ (m.sameButTokens_withTokens hplace s stored stored' hgiven)

def handwritten (token : String) : Machine where
  environment := fun _ => none
  disk := Disk.put [([".botdeck"], .folder)] (Project.settingsFileOf [])
    (.file ("[backend]\ntoken = " ++ token ++ "\ntimeout_secs = 0"))
  folder := []
  server := fun _ => .refused
  patience := 1

theorem shown_settings_conceal_tokens_handwritten :
    let arguments := ["config", "show", "--base-url", "http://localhost"]
    let m := handwritten "'secret'"
    let m' := handwritten "\"\\u0022\\n[ui]\\n\""
    let saved := m.withTokens (Project.settingsFileOf []) {}
    (m'.run arguments).1.output = (m.run arguments).1.output ∧
      (m.run arguments).1.ending = .done ∧
      ((saved "" "'''\\").run arguments).1.output =
        ((saved "\"\n[ui]\nlocale = 'ja_JP'" "\x00").run arguments).1.output := by
  intro arguments m m' saved
  have hread : Invocation.ofArguments arguments =
      .ok ⟨false, none, some "http://localhost", .showSettings⟩ := by
    decide
  have hshows : ∀ i, Invocation.ofArguments arguments = .ok i → i.command = .showSettings := by
    intro i hi
    obtain rfl := Except.ok.inj (hread.symm.trans hi)
    rfl
  obtain ⟨hsame, hwith⟩ := shown_settings_conceal_tokens arguments hshows
  have hdisks : m.disk.SameButTokens m'.disk := by
    intro q
    have hplace : Project.settingsFileOf [] ≠ [] := by decide
    simp only [m, m', handwritten, Disk.find?_put hplace]
    split
    · exact .files _ _ (by decide +kernel)
    · exact .same _
  refine ⟨(hsame m m' ⟨⟨fun _ _ => rfl, rfl⟩, hdisks, rfl⟩).1, ?_,
    (hwith m _ {} _ _ _ _ (by decide) (by decide)).1⟩
  have hload : Project.load m.disk m.folder m.folder.toText =
      .ok ⟨[], { backend := { token := some "secret", timeoutSecs := 0 } }⟩ := by
    decide +kernel
  simp only [Machine.run, hread, Machine.invoke, Option.getD_none, hload]
  rfl

end Console

end BotConsole
