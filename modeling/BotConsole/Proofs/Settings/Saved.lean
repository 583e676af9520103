import BotConsole.Project
import BotConsole.Proofs.Disk
import BotConsole.Proofs.Settings.Text
import BotConsole.Settings.Warning

namespace BotConsole

theorem Project.exists_of_save {disk disk' : Disk} {start : Place} {path : String} {s : Settings}
    (h : save disk start path s = .ok disk') : ∃ place,
      disk.resolve? start path = some place ∧ disk.write? place s.toText = some disk' := by
  unfold save at h
  split at h
  · next written hwrite =>
    obtain rfl := Except.ok.inj h
    exact Option.bind_eq_some_iff.mp hwrite
  · cases h

theorem Project.loadSettings_of_write? {disk disk' : Disk} {folder : Place} {s : Settings}
    (h : disk.write? (settingsFileOf folder) s.toText = some disk') :
    loadSettings disk' folder = .ok s := by
  obtain ⟨hplace, -, rfl⟩ := Disk.write?_eq_some h
  have hfind := Disk.find?_put (d := disk) hplace (.file s.toText) (settingsFileOf folder)
  rw [if_pos rfl] at hfind
  simp only [loadSettings, hfind, s.ofText?_toText]

namespace Settings

-- Settings are read back from the text they are saved as. What is deleted from it is at its
-- default afterwards, and the rest as it was.
theorem saved_settings_survive {disk disk' : Disk} {start : Place} {path : String} {s : Settings}
    (h : Project.save disk start path s = .ok disk') :
    (∃ text gap, disk'.readPath? start path = some text ∧ ofText? text = some s ∧
      (ofText? text).map warnings = some s.warnings ∧ text = s.document.spaced gap 0) ∧
    (∀ folder, disk.resolve? start path = some (Project.settingsFileOf folder) →
      Project.loadSettings disk' folder = .ok s) ∧
    ∀ (c : Toml.Cut) (gap : String → Nat) (foot : Nat),
      ofText? ((s.document.without c).spaced gap foot) = some (s.without c) := by
  obtain ⟨place, hplace, hwrite⟩ := Project.exists_of_save h
  obtain ⟨gap, hgap⟩ :=
    Toml.Document.exists_spaced (List.nodup_append.mp s.legible_document.names).2.1
  refine ⟨⟨s.toText, gap, Disk.readPath?_of_write? hplace hwrite, s.ofText?_toText, ?_, hgap⟩,
    fun folder hfolder => ?_, fun c gap foot => ofText?_spaced c s gap foot⟩
  · rw [s.ofText?_toText, Option.map_some]
  · obtain rfl : place = Project.settingsFileOf folder :=
      Option.some.inj (hplace.symm.trans hfolder)
    exact Project.loadSettings_of_write? hwrite

-- Settings with texts that need quotes of every kind, and with values that are warned about.
def unruly : Settings where
  backend := { baseUrl := "a.b = \"c\" # 'd'\n\t\\", token := some "", timeoutSecs := 0 }
  polling := { intervalMs := 18446744073709551615 }
  display := { locale := "\"\"\"'''\r\n\x01\x7f\\" }
  logging := { level := "[ui]\nlocale = \"ja_JP\"", json := true }

theorem saved_settings_survive_unruly :
    let disk : Disk := [(["work"], .folder), (["work", ".botdeck"], .folder)]
    let cut : Toml.Cut := ⟨(· == "logging"), fun _ entry => entry == "token"⟩
    ∃ disk', Project.save disk ["work"] ".botdeck/botdeck.toml" unruly = .ok disk' ∧
      Project.loadSettings disk' ["work"] = .ok unruly ∧
      ofText? ((unruly.document.without cut).spaced (fun _ => 2) 1) =
        some { unruly with backend := { unruly.backend with token := none }, logging := {} } := by
  intro disk cut
  have hplace : disk.resolve? ["work"] ".botdeck/botdeck.toml" =
      some (Project.settingsFileOf ["work"]) := by
    decide +kernel
  have hfree : (disk.isFolder (Project.settingsFileOf ["work"]).dropLast &&
      !disk.isFolder (Project.settingsFileOf ["work"])) = true := by
    decide +kernel
  have hsave : Project.save disk ["work"] ".botdeck/botdeck.toml" unruly =
      .ok (disk.put (Project.settingsFileOf ["work"]) (.file unruly.toText)) := by
    simp only [Project.save, hplace, Option.bind_some, Disk.write?, hfree, if_true]
  obtain ⟨-, hloaded, hrest⟩ := saved_settings_survive hsave
  exact ⟨_, hsave, hloaded _ hplace, hrest cut (fun _ => 2) 1⟩

end Settings

end BotConsole
