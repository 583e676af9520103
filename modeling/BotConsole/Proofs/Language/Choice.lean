import BotConsole.Language
import BotConsole.Proofs.Preference.Store

namespace BotConsole

section

variable {ε σ α β : Type}

theorem run_get_bind (f : σ → EStateM ε σ α) (s : σ) :
    (EStateM.get >>= f).run s = (f s).run s := rfl

theorem run_ofExcept_bind (x : Except ε α) (f : α → EStateM ε σ β) (s : σ) :
    (ofExcept x >>= f).run s = match x with
      | .ok a => (f a).run s
      | .error e => .error e s := by
  cases x <;> rfl

end

namespace Preference.Store

-- Keeping a preference, one effect after the other, in a place that may refuse what is written
-- to it. A write that is refused or fails leaves the place as it was.
def keep (isGranted : Bool) (name value : String) : EStateM Failure Store Unit := do
  let s ← EStateM.get
  let entries ← ofExcept s.entries
  let new := entries.insert name value
  match s with
  | .memory _ => EStateM.set (.memory new)
  | .file slot =>
    if isGranted then
      let slot ← ofExcept (slot.write (document new).write)
      EStateM.set (.file slot)
    else throw .unreachable

-- The preferences that are there can be read, and the place takes what is written to it.
def Accepts (isGranted : Bool) (s : Store) : Prop :=
  (∃ d, s.entries = .ok d) ∧ ∀ slot, s = file slot → isGranted = true ∧ slot ≠ .sealed

variable {s s' : Store} {d : Dict String} {name value : String} {e : Failure}

theorem accepts_memory (d : Dict String) (isGranted : Bool) : (memory d).Accepts isGranted :=
  ⟨⟨d, rfl⟩, fun _ hslot => by cases hslot⟩

theorem accepts_file {slot : Slot} {isGranted : Bool} : (file slot).Accepts isGranted ↔
    (∃ d, entriesOf slot = .ok d) ∧ isGranted = true ∧ slot ≠ .sealed := by
  constructor
  · rintro ⟨hentries, hslot⟩
    exact ⟨hentries, hslot slot rfl⟩
  · rintro ⟨hentries, hslot⟩
    refine ⟨hentries, fun slot' heq => ?_⟩
    cases heq
    exact hslot

theorem keep_of_error (h : s.entries = .error e) (isGranted : Bool) :
    (keep isGranted name value).run s = .error e s := by
  simp only [keep, run_get_bind, run_ofExcept_bind, h]

theorem keep_refused {slot : Slot} (h : entriesOf slot = .ok d) :
    (keep false name value).run (file slot) = .error .unreachable (file slot) := by
  have hentries : (file slot).entries = .ok d := h
  simp only [keep, run_get_bind, run_ofExcept_bind, hentries]
  rfl

-- Where nothing is refused, the effects add up to what `set` gives.
theorem keep_granted (s : Store) (name value : String) :
    (keep true name value).run s = match s.set name value with
      | .ok s' => .ok () s'
      | .error e => .error e s := by
  simp only [keep, run_get_bind, run_ofExcept_bind, set, if_true]
  cases s with
  | memory d => rfl
  | file slot =>
    cases h : (file slot).entries with
    | error e => rfl
    | ok d =>
      simp only [bind, Except.bind]
      cases hwrite : slot.write (document (d.insert name value)).write <;> rfl

theorem exists_set_file {slot : Slot} (h : entriesOf slot = .ok d) (hslot : slot ≠ .sealed)
    (name value : String) : ∃ s', (file slot).set name value = .ok s' := by
  obtain ⟨slot', hcall, -⟩ := exists_call h hslot (.set name value)
  cases hset : (file slot).set name value with
  | ok s' => exact ⟨s', rfl⟩
  | error e =>
    simp only [call, hset] at hcall
    cases hcall

theorem set_sealed (name value : String) :
    (file .sealed).set name value = .error .unreachable := rfl

-- A preference is kept beside all the others, or nothing at all changes. What can be kept, and
-- where, is the same afterwards.
theorem keep_cases (s : Store) (isGranted : Bool) (name value : String) :
    (s.Accepts isGranted ∧ ∃ d s', s.entries = .ok d ∧
      (keep isGranted name value).run s = .ok () s' ∧ s'.entries = .ok (d.insert name value) ∧
      ∀ later, s'.Accepts later ↔ s.Accepts later) ∨
    ¬ s.Accepts isGranted ∧ ∃ e, (keep isGranted name value).run s = .error e s := by
  cases s with
  | memory d =>
    refine .inl ⟨accepts_memory d isGranted, d, _, rfl, rfl, rfl, fun later => ?_⟩
    exact ⟨fun _ => accepts_memory _ _, fun _ => accepts_memory _ _⟩
  | file slot =>
    rw [accepts_file]
    cases h : entriesOf slot with
    | error e =>
      have hentries : (file slot).entries = .error e := h
      refine .inr ⟨?_, e, keep_of_error hentries isGranted⟩
      rintro ⟨⟨d, hd⟩, -⟩
      cases hd
    | ok d =>
      cases isGranted with
      | false => exact .inr ⟨fun hs => by simpa using hs.2.1, _, keep_refused h⟩
      | true =>
        have hrun := keep_granted (file slot) name value
        by_cases hslot : slot = .sealed
        · subst hslot
          rw [set_sealed] at hrun
          exact .inr ⟨fun hs => hs.2.2 rfl, _, hrun⟩
        · obtain ⟨s', hset⟩ := exists_set_file h hslot name value
          obtain ⟨d', slot', hd', rfl, hwrite⟩ := set_file hset
          rw [hset] at hrun
          obtain rfl : d' = d := Except.ok.inj (hd'.symm.trans h)
          have hentries := entriesOf_of_write hwrite
          refine .inl ⟨⟨⟨d', rfl⟩, rfl, hslot⟩, d', _, h, hrun, hentries, fun later => ?_⟩
          have hslot' : slot' ≠ .sealed := by
            rintro rfl
            cases slot <;> cases hwrite
          simp [accepts_file, h, hentries, hslot, hslot']

end Preference.Store

namespace Language

open Preference (Failure Store)

-- What is done to the store of a language, also when it fails half-way.
def onStore {α : Type} (x : EStateM Failure Store α) : EStateM Failure Language α := fun l =>
  match x.run l.store with
  | .ok a store => .ok a { l with store }
  | .error e store => .error e { l with store }

-- Changing the locale, one effect after the other: first the choice is kept, then it is in use.
def choose (isGranted : Bool) (locale : Locale) : EStateM Failure Language Unit := do
  onStore (Store.keep isGranted preference locale.code)
  modify fun l => { l with locale }

-- What may happen to a language and to its store, which others write to as well.
inductive Step where
  | choose (locale : Locale) (isGranted : Bool)
  | keep (name value : String) (isGranted : Bool)
  | reload (fallback : Locale)

namespace Step

def run : Step → EStateM Failure Language Unit
  | .choose locale isGranted => Language.choose isGranted locale
  | .keep name value isGranted => onStore (Store.keep isGranted name value)
  | .reload fallback => modify fun l => load l.store fallback

def write? : Step → Option (String × String)
  | .choose locale _ => some (preference, locale.code)
  | .keep name value _ => some (name, value)
  | .reload _ => none

end Step

def after (l : Language) (step : Step) : Language :=
  match step.run.run l with
  | .ok _ l' => l'
  | .error _ l' => l'

def writes (l : Language) : List Step → List (String × String)
  | [] => []
  | step :: steps =>
    let kept := match step.run.run l with
      | .ok _ _ => step.write?.toList
      | .error _ _ => []
    kept ++ (l.after step).writes steps

variable {l l' : Language} {d : Dict String} {e : Failure}

theorem choose_eq (l : Language) (isGranted : Bool) (locale : Locale) :
    (choose isGranted locale).run l =
      match (Store.keep isGranted preference locale.code).run l.store with
      | .ok _ store => .ok () ⟨locale, store⟩
      | .error e store => .error e ⟨l.locale, store⟩ := by
  show EStateM.bind (onStore _) _ l = _
  unfold EStateM.bind onStore
  cases (Store.keep isGranted preference locale.code).run l.store <;> rfl

theorem choose_granted (l : Language) (locale : Locale) :
    (choose true locale).run l = match l.setLocale locale with
      | .ok l' => .ok () l'
      | .error e => .error e l := by
  rw [choose_eq, Store.keep_granted, setLocale]
  cases l.store.set preference locale.code <;> rfl

theorem choose_cases (l : Language) (isGranted : Bool) (locale : Locale) :
    (l.store.Accepts isGranted ∧ ∃ d store, l.store.entries = .ok d ∧
      (choose isGranted locale).run l = .ok () ⟨locale, store⟩ ∧
      store.entries = .ok (d.insert preference locale.code) ∧
      ∀ later, store.Accepts later ↔ l.store.Accepts later) ∨
    ¬ l.store.Accepts isGranted ∧ ∃ e, (choose isGranted locale).run l = .error e l := by
  rw [choose_eq]
  rcases l.store.keep_cases isGranted preference locale.code with
    ⟨haccepts, d, store, hd, hrun, hstore⟩ | ⟨haccepts, e, hrun⟩
  · exact .inl ⟨haccepts, d, store, hd, by rw [hrun], hstore⟩
  · exact .inr ⟨haccepts, e, by rw [hrun]⟩

-- A step that succeeds adds what it is meant to keep to a store that can be read, and one that
-- fails changes nothing.
theorem step_cases (l : Language) (step : Step) :
    (∃ l', step.run.run l = .ok () l' ∧
      (∀ d, l.store.entries = .ok d →
        l'.store.entries = .ok (d.insertMany step.write?.toList)) ∧
      (∀ e, l.store.entries = .error e → l'.store = l.store) ∧
      ∀ later, l'.store.Accepts later ↔ l.store.Accepts later) ∨
    ∃ e, step.run.run l = .error e l := by
  cases step with
  | choose locale isGranted =>
    rcases choose_cases l isGranted locale with
      ⟨-, d, store, hd, hrun, hstore, hlater⟩ | ⟨-, e, hrun⟩
    · refine .inl ⟨_, hrun, fun d' hd' => ?_, fun e he => ?_, hlater⟩
      · obtain rfl : d = d' := Except.ok.inj (hd.symm.trans hd')
        exact hstore
      · rw [hd] at he
        cases he
    · exact .inr ⟨e, hrun⟩
  | keep name value isGranted =>
    have heq : (Step.keep name value isGranted).run.run l =
        onStore (Store.keep isGranted name value) l := rfl
    rcases l.store.keep_cases isGranted name value with
      ⟨-, d, store, hd, hrun, hstore, hlater⟩ | ⟨-, e, hrun⟩
    · refine .inl ⟨{ l with store }, by simp only [heq, onStore, hrun], fun d' hd' => ?_,
        fun e he => ?_, hlater⟩
      · obtain rfl : d = d' := Except.ok.inj (hd.symm.trans hd')
        exact hstore
      · rw [hd] at he
        cases he
    · exact .inr ⟨e, by simp only [heq, onStore, hrun]⟩
  | reload fallback => exact .inl ⟨_, rfl, fun _ hd => hd, fun _ _ => rfl, fun _ => Iff.rfl⟩

theorem entries_foldl_after (h : l.store.entries = .ok d) (steps : List Step) :
    (steps.foldl after l).store.entries = .ok (d.insertMany (l.writes steps)) := by
  induction steps generalizing l d with
  | nil => exact h
  | cons step steps ih =>
    rw [List.foldl_cons, writes]
    rcases l.step_cases step with ⟨l', hrun, hstore, -, -⟩ | ⟨e, hrun⟩
    · have hafter : l.after step = l' := by rw [after, hrun]
      rw [hafter, ih (hstore d h), hrun, Dict.insertMany_append]
    · have hafter : l.after step = l := by rw [after, hrun]
      rw [hafter, ih h, hrun]
      rfl

theorem store_foldl_after (h : l.store.entries = .error e) (steps : List Step) :
    (steps.foldl after l).store = l.store := by
  induction steps generalizing l with
  | nil => rfl
  | cons step steps ih =>
    have hafter : (l.after step).store = l.store := by
      rcases l.step_cases step with ⟨l', hrun, -, hstore, -⟩ | ⟨e, hrun⟩
      · rw [after, hrun]
        exact hstore e h
      · rw [after, hrun]
    rw [List.foldl_cons, ih (hafter ▸ h), hafter]

theorem accepts_foldl_after (l : Language) (steps : List Step) (isGranted : Bool) :
    (steps.foldl after l).store.Accepts isGranted ↔ l.store.Accepts isGranted := by
  induction steps generalizing l with
  | nil => exact Iff.rfl
  | cons step steps ih =>
    rw [List.foldl_cons, ih]
    rcases l.step_cases step with ⟨l', hrun, -, -, hlater⟩ | ⟨e, hrun⟩
    · rw [after, hrun]
      exact hlater isGranted
    · rw [after, hrun]

theorem mem_writes {p : String × String} {steps : List Step} (h : p ∈ l.writes steps) :
    ∃ step ∈ steps, step.write? = some p := by
  induction steps generalizing l with
  | nil => cases h
  | cons step steps ih =>
    rcases List.mem_append.mp h with h | h
    · refine ⟨step, List.mem_cons_self, ?_⟩
      split at h
      · exact Option.mem_toList.mp h
      · cases h
    · obtain ⟨other, hother, hp⟩ := ih h
      exact ⟨other, List.mem_cons_of_mem _ hother, hp⟩

theorem stored_of_code {s : Store} {code : String} {locale : Locale}
    (h : s.get preference = .ok (some code)) (hcode : Locale.ofCode? code = some locale)
    (fallback : Locale) : stored s fallback = locale := by
  simp only [stored, h, hcode, Option.getD_some]

theorem stored_of_none {s : Store}
    (h : ∀ code, s.get preference = .ok (some code) → Locale.ofCode? code = none)
    (fallback : Locale) : stored s fallback = fallback := by
  unfold stored
  split
  · rename_i code hcode
    rw [h code hcode, Option.getD_none]
  · rfl
  · rfl

theorem stored_after_writes {s : Store} (hs : s.entries = .ok d) {locale : Locale}
    (hd : d.get? preference = some locale.code) (hl : l.store = s) {steps : List Step}
    (hsteps : ∀ p ∈ l.writes steps, p.1 ≠ preference) (fallback : Locale) :
    stored (steps.foldl after l).store fallback = locale := by
  have hentries := entries_foldl_after (hl ▸ hs) steps
  have hnone : (l.writes steps).reverse.lookup preference = none := by
    rw [List.lookup_eq_none_iff]
    intro p hp
    simpa using (hsteps p (List.mem_reverse.mp hp)).symm
  refine stored_of_code ?_ locale.ofCode?_code fallback
  rw [Store.get_eq hentries, Dict.get?_insertMany, hnone, hd]
  rfl

-- A change of the locale that fails leaves everything as it was. After one that succeeds whoever
-- begins anew finds the locale, until something else is kept in its place.
theorem choice_atomic (start : Language) (history : List Step) (isGranted : Bool)
    (locale : Locale) :
    let l := history.foldl after start
    (∀ e l', (choose isGranted locale).run l = .error e l' → l' = l) ∧
    (∀ l', (choose isGranted locale).run l = .ok () l' →
      l'.locale = locale ∧
      (∀ name, name ≠ preference → l'.store.get name = l.store.get name) ∧
      ∀ later, (∀ p ∈ l'.writes later, p.1 ≠ preference) →
        ∀ fallback, (load (later.foldl after l').store fallback).locale = locale) ∧
    ((∃ l', (choose isGranted locale).run l = .ok () l') ↔ start.store.Accepts isGranted) ∧
    ((choose true locale).run l = match l.setLocale locale with
      | .ok l' => .ok () l'
      | .error e => .error e l) ∧
    (∀ d, start.store.entries = .ok d → ∀ name, l.store.get name =
      .ok (((start.writes history).reverse.lookup name).or (d.get? name))) ∧
    (∀ e, start.store.entries = .error e → l.store = start.store) ∧
    ∀ fallback,
      (l.after (.reload fallback)).store = l.store ∧
      (∀ code chosen, l.store.get preference = .ok (some code) →
        Locale.ofCode? code = some chosen → (l.after (.reload fallback)).locale = chosen) ∧
      ((∀ code, l.store.get preference = .ok (some code) → Locale.ofCode? code = none) →
        (l.after (.reload fallback)).locale = fallback) := by
  intro l
  refine ⟨fun e l' hfailed => ?_, fun l' hdone => ?_, ?_, choose_granted l locale,
    fun d hd name => ?_, fun e he => store_foldl_after he history,
    fun fallback => ⟨rfl, fun code chosen hcode hchosen => stored_of_code hcode hchosen fallback,
      fun hnone => stored_of_none hnone fallback⟩⟩
  · rcases choose_cases l isGranted locale with ⟨-, d, store, -, hrun, -⟩ | ⟨-, e', hrun⟩
    · rw [hrun] at hfailed
      cases hfailed
    · rw [hrun] at hfailed
      cases hfailed
      rfl
  · rcases choose_cases l isGranted locale with ⟨-, d, store, hd, hrun, hstore, -⟩ | ⟨-, e, hrun⟩
    · rw [hrun] at hdone
      cases hdone
      refine ⟨rfl, fun name hname => ?_, fun later hlater fallback => ?_⟩
      · rw [Store.get_eq hstore, Store.get_eq hd, Dict.get?_insert, if_neg hname]
      · exact stored_after_writes hstore (by simp) rfl hlater fallback
    · rw [hrun] at hdone
      cases hdone
  · rw [← accepts_foldl_after start history isGranted]
    rcases choose_cases l isGranted locale with ⟨haccepts, d, store, -, hrun, -⟩ | ⟨hno, e, hrun⟩
    · exact ⟨fun _ => haccepts, fun _ => ⟨_, hrun⟩⟩
    · refine ⟨?_, fun haccepts => absurd haccepts hno⟩
      rintro ⟨l', hdone⟩
      rw [hrun] at hdone
      cases hdone
  · rw [Store.get_eq (entries_foldl_after hd history), Dict.get?_insertMany]

-- Somebody keeps another preference in a new file, and a first choice is refused.
def refusedOnce : List Step :=
  [.keep "theme" "dark" true, .choose .japanese false]

theorem choice_atomic_after_refusal :
    let l := refusedOnce.foldl after ⟨.english, .file .vacant⟩
    (∃ e, (choose false .japanese).run l = .error e l) ∧
    ∃ l', (choose true .japanese).run l = .ok () l' ∧ l'.locale = .japanese ∧
      l'.store.get "theme" = l.store.get "theme" ∧
      (load (l'.after (.keep "theme" "light" true)).store .traditionalChinese).locale =
        .japanese := by
  intro l
  have hempty : Store.entriesOf .vacant = .ok .empty := rfl
  have hsealed : Preference.Slot.vacant ≠ .sealed := by decide
  have hvacant (isGranted : Bool) : (Store.file .vacant).Accepts isGranted ↔ isGranted = true := by
    rw [Store.accepts_file]
    exact ⟨fun h => h.2.1, fun h => ⟨⟨_, hempty⟩, h, hsealed⟩⟩
  obtain ⟨hfails, -, hrefused, -⟩ :=
    choice_atomic ⟨.english, .file .vacant⟩ refusedOnce false .japanese
  obtain ⟨-, hsucceeds, hgranted, -⟩ :=
    choice_atomic ⟨.english, .file .vacant⟩ refusedOnce true .japanese
  constructor
  · cases hrun : (choose false .japanese).run l with
    | ok a l' => simpa using (hvacant false).mp (hrefused.mp ⟨l', hrun⟩)
    | error e l' => exact ⟨e, by rw [hfails e l' hrun]⟩
  · obtain ⟨l', hrun⟩ := hgranted.mpr ((hvacant true).mpr rfl)
    obtain ⟨hlocale, hothers, hlasts⟩ := hsucceeds l' hrun
    refine ⟨l', hrun, hlocale, hothers _ (by decide), ?_⟩
    refine hlasts [.keep "theme" "light" true] (fun p hp => ?_) .traditionalChinese
    obtain ⟨step, hstep, hwrite⟩ := mem_writes hp
    obtain rfl := List.mem_singleton.mp hstep
    cases hwrite
    decide

end Language

end BotConsole
