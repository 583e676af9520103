import BotConsole.Proofs.Lookup
import BotConsole.Proofs.Toml.Scalar
import BotConsole.Proofs.Toml.Sections
import BotConsole.Settings.Text

namespace BotConsole

namespace Toml.Record

variable {α : Type} {default x : α} {read? : Value → Option α} {v : Value}

theorem orElse_ite (h : read? v = some x) (gone : Bool) :
    orElse default read? (if !gone then some v else none) = some (if gone then default else x) := by
  cases gone with
  | true => rfl
  | false => exact h

theorem text?_text (s : String) : text? (.scalar (.text s)) = some s :=
  rfl

theorem bool?_bool (b : Bool) : bool? (.scalar (.bool b)) = some b :=
  rfl

theorem unsigned64?_integer (n : UInt64) : unsigned64? (.scalar (Settings.integer n)) = some n := by
  have hn : n.toNat < 1 <<< 64 := n.toNat_lt
  show (if n.toNat < 1 <<< 64 then some (UInt64.ofNat n.toNat) else none) = some n
  rw [if_pos hn, UInt64.ofNat_toNat]

def tableOf (as : List (String × Scalar)) (gone : String → Bool) : Value :=
  .table ((as.filter fun a => !gone a.1).map fun (name, v) => (name, .scalar v))

theorem fields?_tableOf (names : List String) (as : List (String × Scalar)) (gone : String → Bool) :
    fields? names (tableOf as gone) =
      some (names.map fun name => if !gone name then (as.lookup name).map .scalar else none) := by
  rw [tableOf, fields?, Option.some.injEq]
  apply List.map_congr_left
  intro name _
  rw [lookup_map_value _ (fun _ => Value.scalar) fun _ => rfl,
    lookup_filter_key as fun name => !gone name]
  split <;> rfl

end Toml.Record

namespace Settings

open Toml (Scalar Value Cut)
open Toml.Record

def Backend.without (b : Backend) (gone : String → Bool) : Backend :=
  let d : Backend := {}
  { baseUrl := if gone "base_url" then d.baseUrl else b.baseUrl
    token := if gone "token" then d.token else b.token
    taskStatusPath := if gone "task_status_path" then d.taskStatusPath else b.taskStatusPath
    timeoutSecs := if gone "timeout_secs" then d.timeoutSecs else b.timeoutSecs }

def Polling.without (p : Polling) (gone : String → Bool) : Polling :=
  let d : Polling := {}
  { intervalMs := if gone "interval_ms" then d.intervalMs else p.intervalMs }

def Display.without (p : Display) (gone : String → Bool) : Display :=
  let d : Display := {}
  { locale := if gone "locale" then d.locale else p.locale }

def Logging.without (l : Logging) (gone : String → Bool) : Logging :=
  let d : Logging := {}
  { level := if gone "level" then d.level else l.level
    json := if gone "json" then d.json else l.json
    file := if gone "file" then d.file else l.file }

-- Settings of which each one that is deleted is back at its default.
def without (s : Settings) (c : Cut) : Settings where
  backend := s.backend.without (c.deletes "backend")
  polling := s.polling.without (c.deletes "poller")
  display := s.display.without (c.deletes "ui")
  logging := s.logging.without (c.deletes "logging")

theorem Backend.lookup_assignments (b : Backend) :
    b.assignments.lookup "base_url" = some (.text b.baseUrl) ∧
    b.assignments.lookup "token" = b.token.map .text ∧
    b.assignments.lookup "task_status_path" = some (.text b.taskStatusPath) ∧
    b.assignments.lookup "timeout_secs" = some (integer b.timeoutSecs) := by
  obtain ⟨baseUrl, token, taskStatusPath, timeoutSecs⟩ := b
  cases token <;> exact ⟨rfl, rfl, rfl, rfl⟩

theorem Backend.ofValue?_tableOf (b : Backend) (gone : String → Bool) :
    Backend.ofValue? (tableOf b.assignments gone) = some (b.without gone) := by
  obtain ⟨hurl, htoken, hpath, htimeout⟩ := b.lookup_assignments
  have hread : orElse none (fun v => (text? v).map some)
      (if !gone "token" then (b.token.map .text).map Value.scalar else none) =
        some (if gone "token" then none else b.token) := by
    cases b.token <;> cases gone "token" <;> rfl
  simp only [ofValue?, fields?_tableOf, fields, List.map_cons, List.map_nil, hurl, htoken,
    hpath, htimeout, Option.map_some, orElse_ite (text?_text _),
    orElse_ite (unsigned64?_integer _), hread, Option.bind_eq_bind, Option.bind_some]
  rfl

theorem Polling.ofValue?_tableOf (p : Polling) (gone : String → Bool) :
    Polling.ofValue? (tableOf p.assignments gone) = some (p.without gone) := by
  have hinterval : p.assignments.lookup "interval_ms" = some (integer p.intervalMs) := rfl
  simp only [ofValue?, fields?_tableOf, fields, List.map_cons, List.map_nil, hinterval,
    Option.map_some, orElse_ite (unsigned64?_integer _), Option.bind_eq_bind, Option.bind_some]
  rfl

theorem Display.ofValue?_tableOf (d : Display) (gone : String → Bool) :
    Display.ofValue? (tableOf d.assignments gone) = some (d.without gone) := by
  have hlocale : d.assignments.lookup "locale" = some (.text d.locale) := rfl
  simp only [ofValue?, fields?_tableOf, fields, List.map_cons, List.map_nil, hlocale,
    Option.map_some, orElse_ite (text?_text _), Option.bind_eq_bind, Option.bind_some]
  rfl

theorem Logging.ofValue?_tableOf (l : Logging) (gone : String → Bool) :
    Logging.ofValue? (tableOf l.assignments gone) = some (l.without gone) := by
  have hlevel : l.assignments.lookup "level" = some (.text l.level) := rfl
  have hjson : l.assignments.lookup "json" = some (.bool l.json) := rfl
  have hfile : l.assignments.lookup "file" = some (.bool l.file) := rfl
  simp only [ofValue?, fields?_tableOf, fields, List.map_cons, List.map_nil, hlevel, hjson,
    hfile, Option.map_some, orElse_ite (text?_text _), orElse_ite (bool?_bool _),
    Option.bind_eq_bind, Option.bind_some]
  rfl

variable (c : Cut) (name : String)

-- A section is read without what is deleted from it, and is at its default if all of it is.
theorem orElse_section {α : Type} {default : α} {ofValue? : Value → Option α}
    {rest : (String → Bool) → α} {as : List (String × Scalar)}
    (hread : ∀ gone, ofValue? (tableOf as gone) = some (rest gone))
    (hdefault : rest (fun _ => true) = default) :
    orElse default ofValue?
        (if !c.sections name then some (tableOf as (c.entries name)) else none) =
      some (rest (c.deletes name)) := by
  have hdeletes : c.deletes name = fun entry => c.sections name || c.entries name entry := rfl
  rw [hdeletes]
  cases c.sections name with
  | true => exact congrArg some hdefault.symm
  | false => exact hread (c.entries name)

theorem without_nothing (s : Settings) : s.without .nothing = s := by
  simp [without, Cut.deletes, Cut.nothing, Backend.without, Polling.without, Display.without,
    Logging.without]

theorem lookup_entries_without (s : Settings) :
    (s.document.without c).entries.lookup name = if !c.sections name then
      (s.document.sections.lookup name).map fun as => tableOf as (c.entries name) else none := by
  have hentries : (s.document.without c).entries =
      (s.document.sections.filter fun t => !c.sections t.1).map fun t =>
        (t.1, tableOf t.2 (c.entries t.1)) := by
    rw [Toml.Document.entries, Toml.Document.without, List.map_map]
    rfl
  rw [hentries, lookup_map_value _ (fun name as => tableOf as (c.entries name)) fun _ => rfl,
    lookup_filter_key s.document.sections fun name => !c.sections name]
  split <;> rfl

theorem ofEntries?_without (s : Settings) :
    ofEntries? (s.document.without c).entries = some (s.without c) := by
  have hbackend : s.document.sections.lookup "backend" = some s.backend.assignments := rfl
  have hpolling : s.document.sections.lookup "poller" = some s.polling.assignments := rfl
  have hdisplay : s.document.sections.lookup "ui" = some s.display.assignments := rfl
  have hlogging : s.document.sections.lookup "logging" = some s.logging.assignments := rfl
  have hreadBackend := orElse_section c "backend" s.backend.ofValue?_tableOf (show _ = {} from rfl)
  have hreadPolling := orElse_section c "poller" s.polling.ofValue?_tableOf (show _ = {} from rfl)
  have hreadDisplay := orElse_section c "ui" s.display.ofValue?_tableOf (show _ = {} from rfl)
  have hreadLogging := orElse_section c "logging" s.logging.ofValue?_tableOf (show _ = {} from rfl)
  simp only [ofEntries?, fields?, sections, List.map_cons, List.map_nil, lookup_entries_without,
    hbackend, hpolling, hdisplay, hlogging, Option.map_some, hreadBackend, hreadPolling,
    hreadDisplay, hreadLogging, Option.bind_eq_bind, Option.bind_some]
  rfl

theorem legible_integer (n : UInt64) : (integer n).Legible := by
  have hn : n.toNat < 1 <<< 128 := n.toNat_lt.trans (by decide)
  exact Scalar.legible_integer hn

theorem Backend.legible_assignments (b : Backend) : ∀ a ∈ b.assignments, a.2.Legible := by
  obtain ⟨baseUrl, token, taskStatusPath, timeoutSecs⟩ := b
  cases token <;>
    simp [assignments, Scalar.legible_text, legible_integer]

theorem Backend.nodup_assignments (b : Backend) : (b.assignments.map (·.1)).Nodup := by
  obtain ⟨baseUrl, token, taskStatusPath, timeoutSecs⟩ := b
  cases token <;> simp [assignments]

theorem legible_document (s : Settings) : s.document.Legible where
  own := nofun
  sections := by
    simp only [document, List.forall_mem_cons, List.not_mem_nil, false_imp_iff, implies_true,
      and_true]
    refine ⟨s.backend.legible_assignments, ?_, ?_, ?_⟩ <;>
      simp [Polling.assignments, Display.assignments, Logging.assignments, Scalar.legible_text,
        Scalar.legible_bool, legible_integer]
  names := by
    show ["backend", "poller", "ui", "logging"].Nodup
    decide
  keys := by
    simp only [document, List.forall_mem_cons, List.not_mem_nil, false_imp_iff, implies_true,
      and_true]
    refine ⟨s.backend.nodup_assignments, ?_, ?_, ?_⟩ <;>
      simp [Polling.assignments, Display.assignments, Logging.assignments]

theorem ofText?_spaced (s : Settings) (gap : String → Nat) (foot : Nat) :
    ofText? ((s.document.without c).spaced gap foot) = some (s.without c) := by
  rw [ofText?, Toml.read?_spaced (s.legible_document.without c), Option.bind_some,
    ofEntries?_without]

theorem ofText?_toText (s : Settings) : ofText? s.toText = some s := by
  have hrest := ofEntries?_without .nothing s
  rw [s.document.without_nothing, s.without_nothing] at hrest
  rw [ofText?, toText, Toml.read?_write s.legible_document, Option.bind_some, hrest]

end Settings

end BotConsole
