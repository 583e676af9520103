import BotConsole.Proofs.Event.Delivery
import BotConsole.Proofs.Form.Edits
import BotConsole.Proofs.Form.Validation

namespace BotConsole.Form

open Event (Bus Course Listener)
open Json

-- What is done with the bus of a form other than telling of changes. Those who are told cannot get
-- at the form; all they can do is to give up subscriptions.
inductive Watching where
  | subscribe (tag : String) (givesUp : Nat → Change → List String)
  | unsubscribe (tag : String)
  | detach (tag : String)

def Watching.action : Watching → Event.Action Change
  | .subscribe tag givesUp => .subscribe tag fun calls c => (givesUp calls c).map .unsubscribe
  | .unsubscribe tag => .unsubscribe tag
  | .detach tag => .detach tag

theorem Watching.onlyCancels (w : Watching) : (Event.Pending.action w.action).OnlyCancels := by
  cases w with
  | subscribe tag givesUp =>
    intro calls c a ha
    obtain ⟨tag', -, rfl⟩ := List.mem_map.mp ha
    exact ⟨tag', rfl⟩
  | unsubscribe tag => trivial
  | detach tag => trivial

structure Live where
  session : Session
  course : Course Change

namespace Live

variable {schema : Schema} {visibility : Visibility} {edits : List Edit} {l : Live}

def edit (l : Live) (e : Edit) : Live :=
  ⟨(l.session.edit e).1, l.course.bus, (l.session.edit e).2.toList.map fun c => .action (.emit c)⟩

-- The forms that a list of edits leads to. An edit or a subscription waits until everybody has been
-- told of the last change.
inductive Reached (schema : Schema) (visibility : Visibility) : List Edit → Live → Prop where
  | start : Reached schema visibility [] ⟨.start schema visibility, .empty, []⟩
  | next {edits : List Edit} {l : Live} (h : Reached schema visibility edits l) :
    Reached schema visibility edits ⟨l.session, l.course.next⟩
  | edit {edits : List Edit} {l : Live} (h : Reached schema visibility edits l)
    (ha : l.course.agenda = []) (e : Edit) : Reached schema visibility (edits ++ [e]) (l.edit e)
  | watch {edits : List Edit} {l : Live} (h : Reached schema visibility edits l)
    (ha : l.course.agenda = []) (w : Watching) :
    Reached schema visibility edits ⟨l.session, l.course.bus, [.action w.action]⟩

theorem Reached.session_eq (h : Reached schema visibility edits l) :
    l.session = .showing schema visibility (schema.defaults.insertMany (Edit.written edits)) := by
  induction h with
  | start => rfl
  | next _ ih => exact ih
  | watch _ _ _ ih => exact ih
  | edit _ _ e ih => rw [Live.edit, ih, Session.edit_showing, Edit.apply_written]

theorem edit_of_void {e : Edit} (he : e.isVoid = true) (ha : l.course.agenda = []) :
    l.edit e = l := by
  obtain ⟨session, bus, agenda⟩ := l
  obtain rfl : agenda = [] := ha
  rw [edit, Session.edit_of_void he]
  rfl

theorem Reached.edit_of_not_void (h : Reached schema visibility edits l) {e : Edit}
    (he : ¬ e.isVoid = true) :
    l.edit e = ⟨(l.edit e).session, l.course.bus, [.action (.emit (l.edit e).session.change)]⟩ := by
  simp only [Live.edit, h.session_eq, Session.edit_showing, if_neg he]
  rfl

theorem Reached.bus (h : Reached schema visibility edits l) :
    l.course.Reached ∧ l.course.OwnersOnly := by
  induction h with
  | start => exact ⟨.refl, rfl, nofun, nofun⟩
  | next _ ih => exact ⟨ih.1.next, ih.2.next⟩
  | watch _ ha w ih => exact ⟨ih.1.act ha w.action, ih.2.act w.onlyCancels⟩
  | edit h ha e ih =>
    by_cases he : e.isVoid = true
    · rwa [edit_of_void he ha]
    · rw [h.edit_of_not_void he]
      exact ⟨ih.1.act ha _, ih.2.act trivial⟩

theorem Reached.told (h : Reached schema visibility edits l) (ha : l.course.agenda = []) {e : Edit}
    (he : ¬ e.isVoid = true) :
    ∃ n, let c := Course.next^[n] (l.edit e).course
      c.agenda = [] ∧ c.bus.emissions = l.course.bus.emissions + 1 ∧
      c.bus.callsOf l.course.bus.emissions = l.course.bus.snapshot (l.edit e).session.change := by
  obtain ⟨hreached, honly⟩ := (h.edit ha e).bus
  have hedit := h.edit_of_not_void he
  obtain ⟨n, hdone, hcount, hcalls⟩ := honly.delivered hreached.nested (by rw [hedit])
  have hbus : (l.edit e).course.bus = l.course.bus := by rw [hedit]
  rw [hbus] at hcount hcalls
  exact ⟨n, hdone, hcount, hcalls⟩

end Live

-- The values are the defaults with those laid over them that were given since the last reset. The
-- fields shown are validated, and everybody who listens is told once of every edit.
theorem session_shows_values {schema : Schema} {visibility : Visibility} {edits : List Edit}
    {l : Live} (h : Live.Reached schema visibility edits l) :
    let s := l.session
    let given := Edit.written edits
    let shown := schema.filter (visibility · s.authType)
    s.values = schema.defaults.insertMany given ∧
    (∀ name, s.values.get? name = (given.reverse.lookup name).or (schema.defaults.get? name)) ∧
    s.authType = (match s.values.get? "auth-type" with
      | some (.text text) => text
      | _ => "") ∧
    s.visible = shown.map Item.name ∧ s.visibleItems = shown ∧
    (∀ name, s.shows name = true ↔ ∃ i ∈ shown, i.name = name) ∧
    (∀ locale, s.errors locale = shown.filterMap (Item.error? s.values locale)) ∧
    (l.course.agenda = [] → ∀ e : Edit,
      (e.isVoid = true → l.edit e = l) ∧
      (¬ e.isVoid = true → ∃ n,
        let c := Course.next^[n] (l.edit e).course
        c.agenda = [] ∧ c.bus.emissions = l.course.bus.emissions + 1 ∧
        c.bus.callsOf l.course.bus.emissions = l.course.bus.registry.entries.map fun entry =>
          (entry.1, entry.2.tag, ⟨(l.edit e).session.values, (l.edit e).session.visible⟩))) := by
  intro s given shown
  have hs : s = .showing schema visibility (schema.defaults.insertMany given) := h.session_eq
  have hvalues : s.values = schema.defaults.insertMany given := congrArg Session.values hs
  have hitems : s.visibleItems = shown := by
    have hschema : s.schema = schema := congrArg Session.schema hs
    have hvisibility : s.visibility = visibility := congrArg Session.visibility hs
    simp only [Session.visibleItems, Schema.visible, hschema, hvisibility, shown]
  have hvisible : s.visible = shown.map Item.name := by
    rw [← hitems, hs]
    rfl
  refine ⟨hvalues, fun name => ?_, Session.authTypeOf_eq _, hvisible, hitems, fun name => ?_,
    fun locale => ?_, fun ha e => ⟨fun he => Live.edit_of_void he ha, fun he => h.told ha he⟩⟩
  · rw [hvalues, Dict.get?_insertMany]
  · rw [Session.shows_iff, hvisible, List.mem_map]
  · rw [← hitems]
    exact Schema.errors_eq_filterMap _ _ _

def watchedForm : Schema :=
  [.ofName "timeout" .integer, { Item.ofName "auth-type" .choice with default := .text "none" },
    .ofName "basic-user" .shortText, .ofName "jwt-token" .shortText, .ofName "basic-user" .boolean]

def rivals : List Watching :=
  [.subscribe "first" fun _ _ => ["second"], .subscribe "second" fun _ _ => []]

def Live.watchedBy (l : Live) (w : Watching) : Live :=
  ⟨l.session, Course.next ⟨l.course.bus, [.action w.action]⟩⟩

theorem session_shows_values_watched :
    let l := rivals.foldl Live.watchedBy
      ⟨.start watchedForm (.grouped Visibility.sharedFields), .empty, []⟩
    let l' := l.edit (.set "auth-type" (.text "basic"))
    l'.session.visible = ["timeout", "auth-type", "basic-user", "basic-user"] ∧
    ∃ n, let bus := (Course.next^[n] l'.course).bus
      bus.emissions = 1 ∧
      bus.callsOf 0 = [(0, "first", l'.session.change), (1, "second", l'.session.change)] := by
  intro l l'
  have hwatched : Live.Reached watchedForm (.grouped Visibility.sharedFields) [] l :=
    ((Live.Reached.start.watch rfl rivals[0]).next.watch rfl rivals[1]).next
  have hedited := hwatched.edit rfl (.set "auth-type" (.text "basic"))
  obtain ⟨-, -, -, -, -, -, -, htold⟩ := session_shows_values hwatched
  obtain ⟨n, -, hcount, hcalls⟩ := (htold rfl (.set "auth-type" (.text "basic"))).2 (by decide)
  obtain ⟨-, -, -, hvisible, -⟩ := session_shows_values hedited
  exact ⟨hvisible.trans (by decide +kernel), n, hcount.trans (by rfl), hcalls.trans (by rfl)⟩

end BotConsole.Form
