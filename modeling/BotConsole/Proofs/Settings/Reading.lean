import BotConsole.Project

namespace BotConsole

namespace Toml.Record

variable {α : Type} {default x : α} {read? : Value → Option α} {v : Option Value}

-- What holds of the default and of all that can be read holds of a part that may be left out.
theorem of_orElse {β : Type} {g : α → β} {k : Option Value → β}
    (h : orElse default read? v = some x) (hdefault : g default = k none)
    (hread : ∀ v x, read? v = some x → g x = k (some v)) : g x = k v := by
  cases v with
  | none =>
    obtain rfl := Option.some.inj h
    exact hdefault
  | some v => exact hread v x h

theorem eq_of_orElse (h : orElse default read? v = some x) : x = (v.bind read?).getD default :=
  of_orElse (g := id) (k := fun v => (v.bind read?).getD default) h rfl fun v x hx => by simp [hx]

def field? (names : List String) (name : String) (v : Value) : Option Value :=
  (fields? names v).bind fun values => ((names.zip values).lookup name).join

end Toml.Record

namespace Settings

open Toml (Value)
open Toml.Record

theorem Backend.of_ofValue? {v : Value} {b : Backend} (h : ofValue? v = some b) :
    b.baseUrl = ((field? fields "base_url" v).bind text?).getD "http://127.0.0.1:5300" ∧
    b.token = (field? fields "token" v).bind text? := by
  obtain ⟨values, hvalues, h⟩ := Option.bind_eq_some_iff.mp h
  split at h
  · next url? token? path? timeout? =>
    simp only [Option.bind_eq_bind, Option.bind_eq_some_iff] at h
    obtain ⟨url, hurl, token, htoken, path, -, timeout, -, hb⟩ := h
    obtain rfl := Option.some.inj hb
    have hfields : field? fields "base_url" v = url? ∧ field? fields "token" v = token? := by
      rw [field?, field?, hvalues]
      exact ⟨rfl, rfl⟩
    rw [hfields.1, hfields.2]
    refine ⟨eq_of_orElse hurl, (eq_of_orElse htoken).trans ?_⟩
    cases token? with
    | none => rfl
    | some v => cases hv : text? v <;> simp [hv]
  · cases h

theorem Polling.of_ofValue? {v : Value} {p : Polling} (h : ofValue? v = some p) :
    p.intervalMs = ((field? fields "interval_ms" v).bind unsigned64?).getD 1000 := by
  obtain ⟨values, hvalues, h⟩ := Option.bind_eq_some_iff.mp h
  split at h
  · next interval? =>
    simp only [Option.bind_eq_bind, Option.bind_eq_some_iff] at h
    obtain ⟨interval, hinterval, hp⟩ := h
    obtain rfl := Option.some.inj hp
    have hfield : field? fields "interval_ms" v = interval? := by
      rw [field?, hvalues]
      rfl
    rw [hfield]
    exact eq_of_orElse hinterval
  · cases h

theorem Display.of_ofValue? {v : Value} {d : Display} (h : ofValue? v = some d) :
    d.locale = ((field? fields "locale" v).bind text?).getD "en_US" := by
  obtain ⟨values, hvalues, h⟩ := Option.bind_eq_some_iff.mp h
  split at h
  · next code? =>
    simp only [Option.bind_eq_bind, Option.bind_eq_some_iff] at h
    obtain ⟨code, hcode, hd⟩ := h
    obtain rfl := Option.some.inj hd
    have hfield : field? fields "locale" v = code? := by
      rw [field?, hvalues]
      rfl
    rw [hfield]
    exact eq_of_orElse hcode
  · cases h

def said? (entries : List (String × Value)) (part : String) (names : List String) (name : String) :
    Option Value :=
  (entries.lookup part).bind (field? names name)

theorem of_ofEntries? {entries : List (String × Value)} {s : Settings}
    (h : ofEntries? entries = some s) :
    s.backend.baseUrl = ((said? entries "backend" Backend.fields "base_url").bind text?).getD
      "http://127.0.0.1:5300" ∧
    s.backend.token = (said? entries "backend" Backend.fields "token").bind text? ∧
    s.polling.intervalMs =
      ((said? entries "poller" Polling.fields "interval_ms").bind unsigned64?).getD 1000 ∧
    s.display.locale = ((said? entries "ui" Display.fields "locale").bind text?).getD "en_US" := by
  simp only [ofEntries?, fields?, sections, List.map_cons, List.map_nil, Option.bind_eq_bind,
    Option.bind_some, Option.bind_eq_some_iff] at h
  obtain ⟨backend, hbackend, polling, hpolling, display, hdisplay, logging, -, hs⟩ := h
  obtain rfl := Option.some.inj hs
  exact ⟨of_orElse (k := fun v => ((v.bind _).bind text?).getD _) hbackend rfl
      fun _ _ h => (Backend.of_ofValue? h).1,
    of_orElse (k := fun v => (v.bind _).bind text?) hbackend rfl
      fun _ _ h => (Backend.of_ofValue? h).2,
    of_orElse (k := fun v => ((v.bind _).bind unsigned64?).getD _) hpolling rfl
      fun _ _ h => Polling.of_ofValue? h,
    of_orElse (k := fun v => ((v.bind _).bind text?).getD _) hdisplay rfl
      fun _ _ h => Display.of_ofValue? h⟩

-- The settings in the file of a project are those of a document; without a file it is empty.
theorem exists_of_loadSettings {disk : Disk} {folder : Place} {s : Settings}
    (h : Project.loadSettings disk folder = .ok s) : ∃ entries,
      (match disk.find? (Project.settingsFileOf folder) with
        | none => entries = []
        | some .folder => False
        | some (.file text) => Toml.read? text = some entries) ∧ ofEntries? entries = some s := by
  unfold Project.loadSettings at h
  cases hfind : disk.find? (Project.settingsFileOf folder) with
  | none =>
    simp only [hfind] at h
    obtain rfl := Except.ok.inj h
    exact ⟨[], rfl, rfl⟩
  | some entry =>
    cases entry with
    | folder =>
      simp only [hfind] at h
      cases h
    | file text =>
      simp only [hfind] at h
      split at h
      · next settings hread =>
        obtain rfl := Except.ok.inj h
        exact Option.bind_eq_some_iff.mp hread
      · cases h

end Settings

end BotConsole
