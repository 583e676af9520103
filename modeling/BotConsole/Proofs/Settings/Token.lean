import BotConsole.Console.SettingsReport
import BotConsole.Proofs.Disk
import BotConsole.Proofs.Settings.Text

namespace BotConsole

namespace Toml.Record

def replaceAt (key : String) (f : Value → Value) (entries : List (String × Value)) :
    List (String × Value) :=
  entries.map fun (name, v) => (name, if name = key then f v else v)

theorem lookup_replaceAt (key : String) (f : Value → Value) (entries : List (String × Value))
    (name : String) : (replaceAt key f entries).lookup name =
      (entries.lookup name).map fun v => if name = key then f v else v :=
  lookup_map_value entries (fun name v => if name = key then f v else v) (fun _ => rfl) name

-- What a part that may be left out is read as once it has been replaced.
theorem orElse_map {α : Type} {default : α} {read? : Value → Option α} {f : Value → Value}
    {g : α → α} (hdefault : g default = default) (hread : ∀ v, read? (f v) = (read? v).map g)
    (v : Option Value) : orElse default read? (v.map f) = (orElse default read? v).map g := by
  cases v with
  | none => exact congrArg some hdefault.symm
  | some v => exact hread v

end Toml.Record

namespace Settings

open Toml (Value)
open Toml.Record

-- Of a text only that it is one.
def veilText : Value → Value
  | .scalar (.text _) => .scalar (.text "")
  | v => v

-- A section without the text of its token, which is the second field.
def Backend.veil : Value → Value
  | .table entries => .table (replaceAt "token" veilText entries)
  | .list items => .list (items.modify 1 veilText)
  | v => v

def veil (entries : List (String × Value)) : List (String × Value) :=
  replaceAt "backend" Backend.veil entries

def Backend.veiled (b : Backend) : Backend :=
  { b with token := b.token.map fun _ => "" }

def veiled (s : Settings) : Settings :=
  { s with backend := s.backend.veiled }

theorem Backend.fields?_veil (v : Value) :
    fields? fields (veil v) = (fields? fields v).map (·.modify 1 (Option.map veilText)) := by
  cases v with
  | scalar v => cases v <;> rfl
  | list items => simp [fields?, veil, fields, List.getElem?_modify]
  | table entries => simp [fields?, veil, fields, lookup_replaceAt]

theorem Backend.fields?_cases (v : Value) : fields? fields v = none ∨
    ∃ url token path timeout, fields? fields v = some [url, token, path, timeout] := by
  cases v with
  | scalar v =>
    cases v with
    | moment literal => exact .inr ⟨_, _, _, _, rfl⟩
    | _ => exact .inl rfl
  | list items => exact .inr ⟨_, _, _, _, rfl⟩
  | table entries => exact .inr ⟨_, _, _, _, rfl⟩

theorem Backend.orElse_veilText (v : Option Value) :
    orElse none (fun v => (text? v).map some) (v.map veilText) =
      (orElse none (fun v => (text? v).map some) v).map (Option.map fun _ => "") := by
  apply orElse_map rfl
  intro v
  cases v with
  | scalar v => cases v <;> rfl
  | list items => rfl
  | table entries => rfl

theorem Backend.ofValue?_veil (v : Value) : ofValue? (veil v) = (ofValue? v).map veiled := by
  rw [ofValue?, ofValue?, fields?_veil]
  rcases fields?_cases v with hnone | ⟨url, token, path, timeout, hfields⟩
  · rw [hnone]
    rfl
  · simp only [hfields, Option.map_some, Option.bind_eq_bind, Option.bind_some,
      List.modify_succ_cons, List.modify_zero_cons, orElse_veilText]
    cases orElse _ text? url <;> cases orElse none _ token <;> cases orElse _ text? path <;>
      cases orElse _ unsigned64? timeout <;> rfl

theorem ofEntries?_veil (entries : List (String × Value)) :
    ofEntries? (veil entries) = (ofEntries? entries).map veiled := by
  have hbackend (v : Option Value) : orElse {} Backend.ofValue? (v.map Backend.veil) =
      (orElse {} Backend.ofValue? v).map Backend.veiled :=
    orElse_map rfl Backend.ofValue?_veil v
  have hveiled : (veil entries).lookup "backend" = (entries.lookup "backend").map Backend.veil :=
    lookup_replaceAt "backend" Backend.veil entries "backend"
  have hothers (name : String) (h : name ≠ "backend") :
      (veil entries).lookup name = entries.lookup name := by
    rw [veil, lookup_replaceAt]
    simp [h]
  simp only [ofEntries?, fields?, sections, List.map_cons, List.map_nil, Option.bind_eq_bind,
    Option.bind_some, hveiled, hbackend, hothers "poller" (by decide), hothers "ui" (by decide),
    hothers "logging" (by decide)]
  cases orElse {} Backend.ofValue? (entries.lookup "backend") <;>
    cases orElse {} Polling.ofValue? (entries.lookup "poller") <;>
    cases orElse {} Display.ofValue? (entries.lookup "ui") <;>
    cases orElse {} Logging.ofValue? (entries.lookup "logging") <;> rfl

theorem map_veiled_ofText? (text : String) :
    (ofText? text).map veiled = ((Toml.read? text).map veil).bind ofEntries? := by
  rw [ofText?, Option.map_bind, Option.bind_map]
  apply congrArg
  funext entries
  exact (ofEntries?_veil entries).symm

theorem veil_entries (s : Settings) (token : String) :
    veil ({ s with backend.token := some token } : Settings).document.entries =
      ({ s with backend.token := some "" } : Settings).document.entries := by
  rfl

end Settings

-- What stands in a place of two disks: the same, or two files that hold the same but for the text
-- of the token, or nothing that can be read.
inductive DiskEntry.SameButToken : Option DiskEntry → Option DiskEntry → Prop
  | same (entry : Option DiskEntry) : SameButToken entry entry
  | files (text text' : String)
      (h : (Toml.read? text').map Settings.veil = (Toml.read? text).map Settings.veil) :
      SameButToken (some (.file text)) (some (.file text'))

-- Saved settings may differ in the text of the token, whatever characters are in it.
theorem DiskEntry.sameButToken_toText (s : Settings) (token token' : String) :
    SameButToken (some (.file ({ s with backend.token := some token } : Settings).toText))
      (some (.file ({ s with backend.token := some token' } : Settings).toText)) := by
  apply SameButToken.files
  rw [Settings.toText, Settings.toText, Toml.read?_write (Settings.legible_document _),
    Toml.read?_write (Settings.legible_document _), Option.map_some, Option.map_some,
    Settings.veil_entries, Settings.veil_entries]

namespace Disk

def SameButTokens (d d' : Disk) : Prop :=
  ∀ place, DiskEntry.SameButToken (d.find? place) (d'.find? place)

variable {d d' : Disk}

theorem SameButTokens.isFolder (h : d.SameButTokens d') (place : Place) :
    d'.isFolder place = d.isFolder place := by
  have hplace := h place
  unfold Disk.isFolder
  generalize d.find? place = entry, d'.find? place = entry' at hplace
  cases hplace with
  | same => rfl
  | files => rfl

theorem SameButTokens.isVacant (h : d.SameButTokens d') (place : Place) :
    d'.isVacant place = d.isVacant place := by
  have hplace := h place
  unfold Disk.isVacant
  generalize d.find? place = entry, d'.find? place = entry' at hplace
  cases hplace with
  | same => rfl
  | files => rfl

theorem SameButTokens.existing? (h : d.SameButTokens d') (start : Place) (path : String) :
    d'.existing? start path = d.existing? start path := by
  simp only [Disk.existing?, resolve?_of_isFolder h.isFolder, h.isVacant]

end Disk

namespace Project

def veiled (p : Project) : Project :=
  { p with settings := p.settings.veiled }

variable {d d' : Disk}

theorem veiled_loadSettings (h : d.SameButTokens d') (folder : Place) :
    (loadSettings d' folder).map Settings.veiled = (loadSettings d folder).map Settings.veiled := by
  have hplace := h (settingsFileOf folder)
  simp only [loadSettings]
  generalize d.find? (settingsFileOf folder) = entry, d'.find? (settingsFileOf folder) = entry'
    at hplace ⊢
  cases hplace with
  | same => rfl
  | files text text' htext =>
    have hsettings : (Settings.ofText? text').map Settings.veiled =
        (Settings.ofText? text).map Settings.veiled := by
      rw [Settings.map_veiled_ofText?, Settings.map_veiled_ofText?, htext]
    dsimp only
    generalize Settings.ofText? text = read, Settings.ofText? text' = read' at hsettings
    cases read with
    | none =>
      obtain rfl := Option.map_eq_none_iff.mp hsettings
      rfl
    | some s =>
      obtain ⟨s', rfl, hs⟩ := Option.map_eq_some_iff.mp hsettings
      exact congrArg Except.ok hs

theorem veiled_load (h : d.SameButTokens d') (start : Place) (path : String) :
    (load d' start path).map veiled = (load d start path).map veiled := by
  unfold load
  rw [h.existing?]
  cases d.existing? start path with
  | none => rfl
  | some folder =>
    have hload (loaded : Except Failure Settings) :
        (loaded >>= fun settings => .ok ⟨folder, settings⟩).map veiled =
          (loaded.map Settings.veiled).map (Project.mk folder) := by
      cases loaded <;> rfl
    dsimp only
    rw [hload, hload, veiled_loadSettings h folder]

end Project

end BotConsole
