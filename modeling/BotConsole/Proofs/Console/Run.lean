import BotConsole.Console.Run
import BotConsole.Proofs.Disk
import BotConsole.Proofs.Language.Choice

namespace BotConsole

def Project.chosenLocale? (p : Project) (d : Disk) : Option Locale := do
  let content ← d.read? p.preferenceFile
  let entries ← Preference.Store.ofDocument? content
  let code ← entries.get? Language.preference
  Locale.ofCode? code

theorem Preference.Store.entriesOf_text (content : String) :
    entriesOf (.text content) = (ofDocument? content).elim (.error .unreadable) .ok := by
  cases hread : ofDocument? content <;>
    simp [entriesOf, Slot.read, hread, bind, Except.bind]

theorem Language.stored_slot (d : Disk) (p : Project) (fallback : Locale) :
    stored (.file (d.slot p.preferenceFile)) fallback = (p.chosenLocale? d).getD fallback := by
  unfold Project.chosenLocale? Disk.read? Disk.slot
  cases d.find? p.preferenceFile with
  | none =>
    dsimp only
    split <;> rfl
  | some entry =>
    cases entry with
    | folder => rfl
    | file content =>
      have hentries : (Preference.Store.file (.text content)).entries = _ :=
        Preference.Store.entriesOf_text content
      dsimp only [Option.bind_eq_bind, Option.bind_some]
      cases hread : Preference.Store.ofDocument? content with
      | none =>
        rw [hread] at hentries
        simp [stored, Preference.Store.get, hentries, bind, Except.bind]
      | some entries =>
        rw [hread] at hentries
        simp only [stored, Preference.Store.get_eq hentries, Option.bind_some]
        cases entries.get? preference <;> rfl

namespace Console

namespace Machine

variable {m : Machine} {p : Project} {l : Settings.Layers}

theorem language_locale (m : Machine) (p : Project) (l : Settings.Layers) :
    (m.language p l).locale = (p.chosenLocale? m.disk).getD l.effectiveLocale :=
  Language.stored_slot m.disk p l.effectiveLocale

theorem find?_withLogFolder (m : Machine) (p : Project) {name : String} (h : name ≠ "logs") :
    (m.withLogFolder p).disk.find? (p.configFolder.child name) =
      m.disk.find? (p.configFolder.child name) := by
  unfold withLogFolder
  split
  · cases hmade : m.disk.makeFolders? p.logFolder with
    | none => rfl
    | some disk => exact Disk.find?_makeFolders? hmade (Place.child_notMem_ancestry h)
  · rfl

theorem chosenLocale?_withLogFolder (m : Machine) (p : Project) :
    p.chosenLocale? (m.withLogFolder p).disk = p.chosenLocale? m.disk := by
  have hfind : (m.withLogFolder p).disk.find? p.preferenceFile = m.disk.find? p.preferenceFile :=
    m.find?_withLogFolder p (by decide)
  simp only [Project.chosenLocale?, Disk.read?, hfind]

@[simp] theorem server_withLogFolder (m : Machine) (p : Project) :
    (m.withLogFolder p).server = m.server := by
  unfold withLogFolder
  split <;> rfl

@[simp] theorem watch_withLogFolder (m : Machine) (p : Project) :
    (m.withLogFolder p).watch = m.watch := by
  unfold withLogFolder
  split <;> rfl

theorem invoke_of_load {verbose : Bool} {projectFolder baseUrl : Option String}
    (h : Project.load m.disk m.folder (projectFolder.getD m.folder.toText) = .ok p)
    (command : Command) : m.invoke ⟨verbose, projectFolder, baseUrl, command⟩ =
      (m.withLogFolder p).perform p (m.layers p ⟨verbose, projectFolder, baseUrl, .showSettings⟩)
        command := by
  simp only [invoke, h]
  rfl

theorem invoke_watchTask {verbose : Bool} {projectFolder baseUrl : Option String}
    (h : Project.load m.disk m.folder (projectFolder.getD m.folder.toText) = .ok p)
    (task : Int) (interval : Option UInt64) :
    let l := m.layers p ⟨verbose, projectFolder, baseUrl, .showSettings⟩
    let w := m.watch l ((p.chosenLocale? m.disk).getD l.effectiveLocale) task interval
    m.invoke ⟨verbose, projectFolder, baseUrl, .watchTask task interval⟩ =
      (w.report m.server, (m.withLogFolder p).afterRequests (w.requests m.server)) := by
  intro l w
  rw [invoke_of_load h]
  simp only [perform, language_locale, chosenLocale?_withLogFolder, server_withLogFolder,
    watch_withLogFolder]
  rfl

end Machine

end Console

end BotConsole
