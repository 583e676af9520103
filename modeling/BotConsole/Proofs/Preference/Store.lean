import BotConsole.Preference.Store
import BotConsole.Proofs.Dict
import BotConsole.Proofs.Toml.Sections

namespace BotConsole.Preference

inductive Call where
  | get (name : String)
  | set (name value : String)

inductive Answer where
  | found (value : Option String)
  | kept
  deriving DecidableEq

namespace Call

def write? : Call → Option (String × String)
  | .get _ => none
  | .set name value => some (name, value)

def lastSet (name : String) (calls : List Call) : Option String :=
  (calls.filterMap write?).reverse.lookup name

def apply (d : Dict String) : Call → Dict String
  | .get _ => d
  | .set name value => d.insert name value

def answer (d : Dict String) : Call → Answer
  | .get name => .found (d.get? name)
  | .set _ _ => .kept

def answers (d : Dict String) : List Call → List Answer
  | [] => []
  | c :: calls => c.answer d :: answers (c.apply d) calls

theorem foldl_apply (d : Dict String) (calls : List Call) :
    calls.foldl apply d = d.insertMany (calls.filterMap write?) := by
  induction calls generalizing d with
  | nil => rfl
  | cons c calls ih =>
    cases c with
    | get name => exact ih d
    | set name value => exact ih (d.insert name value)

theorem get?_foldl_apply (d : Dict String) (calls : List Call) (name : String) :
    (calls.foldl apply d).get? name = (lastSet name calls).or (d.get? name) := by
  rw [foldl_apply, Dict.get?_insertMany, lastSet]

-- Each call is answered by what the calls before it have made of the map.
theorem getElem?_answers (d : Dict String) (calls : List Call) (i : Nat) :
    (answers d calls)[i]? = calls[i]?.map (answer ((calls.take i).foldl apply d)) := by
  induction calls generalizing d i with
  | nil => simp [answers]
  | cons c calls ih =>
    cases i with
    | zero => rfl
    | succ i => simpa [answers] using ih (c.apply d) i

end Call

namespace Store

def call (s : Store) : Call → Except Failure (Answer × Store)
  | .get name => do
    let value ← s.get name
    .ok (.found value, s)
  | .set name value => do
    let s ← s.set name value
    .ok (.kept, s)

def run (s : Store) : List Call → Except Failure (List Answer × Store)
  | [] => .ok ([], s)
  | c :: calls => do
    let (answer, s) ← s.call c
    let (answers, s) ← s.run calls
    .ok (answer :: answers, s)

theorem mapM_text? (entries : List (String × String)) :
    (entries.map fun (name, value) => (name, Toml.Value.scalar (.text value))).mapM
      (fun (name, value) => (Toml.Record.text? value).map (name, ·)) = some entries := by
  induction entries with
  | nil => rfl
  | cons e entries ih =>
    rw [List.map_cons, List.mapM_cons, ih]
    rfl

theorem ofDocument?_document (d : Dict String) : ofDocument? (document d).write = some d := by
  have hlegible : ∀ a ∈ (document d).own, a.2.Legible := by
    intro a ha
    obtain ⟨e, -, rfl⟩ := List.mem_map.mp ha
    exact Toml.Scalar.legible_text e.2
  have hnames : ((document d).own.map (·.1)).Nodup := by
    have hkeys : (document d).own.map (·.1) = d.entries.map (·.1) := by simp [document]
    rw [hkeys]
    exact d.ascending.nodup_keys
  have hread : Toml.read? (document d).write = some (document d).entries :=
    Toml.read?_write ⟨hlegible, nofun, by simpa [document] using hnames, nofun⟩
  have hentries : (document d).entries =
      d.entries.map fun (name, value) => (name, .scalar (.text value)) := by
    simp [Toml.Document.entries, document]
  have hback : Dict.ofPairs d.entries = d := by
    refine Dict.ext_get? fun key => ?_
    rw [Dict.ofPairs, Dict.get?_insertMany, lookup_reverse d.ascending, Dict.get?_empty,
      Option.or_none]
    rfl
  rw [ofDocument?, hread, hentries]
  simp only [Option.bind_eq_bind, Option.bind_some, mapM_text?, hback]

variable {s s' : Store} {d : Dict String}

theorem get_eq (h : s.entries = .ok d) (name : String) : s.get name = .ok (d.get? name) := by
  simp only [get, h]
  rfl

theorem set_file {slot : Slot} {name value : String} (h : (file slot).set name value = .ok s') :
    ∃ d slot', entriesOf slot = .ok d ∧ s' = file slot' ∧
      slot.write (document (d.insert name value)).write = .ok slot' := by
  simp only [set, entries, bind, Except.bind] at h
  cases hentries : entriesOf slot with
  | error e =>
    rw [hentries] at h
    cases h
  | ok d =>
    simp only [hentries] at h
    cases hwrite : slot.write (document (d.insert name value)).write with
    | error e =>
      rw [hwrite] at h
      cases h
    | ok slot' =>
      rw [hwrite] at h
      cases h
      exact ⟨d, slot', rfl, rfl, hwrite⟩

theorem entriesOf_of_write {slot slot' : Slot}
    (h : slot.write (document d).write = .ok slot') : entriesOf slot' = .ok d := by
  have htext : slot' = .text (document d).write := by
    cases slot with
    | text _ | vacant =>
      cases h
      rfl
    | sealed | folder => cases h
  simp only [htext, entriesOf, Slot.read, bind, Except.bind, ofDocument?_document]

theorem entries_of_set {name value : String} (h : s.entries = .ok d)
    (hset : s.set name value = .ok s') : s'.entries = .ok (d.insert name value) := by
  cases s with
  | memory entries =>
    cases h
    cases hset
    rfl
  | file slot =>
    obtain ⟨d', slot', hentries, rfl, hwrite⟩ := set_file hset
    obtain rfl : d' = d := Except.ok.inj (hentries.symm.trans h)
    exact entriesOf_of_write hwrite

theorem call_ok {c : Call} {answer : Answer} (h : s.entries = .ok d)
    (hcall : s.call c = .ok (answer, s')) :
    answer = c.answer d ∧ s'.entries = .ok (c.apply d) := by
  cases c with
  | get name =>
    simp only [call, get_eq h] at hcall
    cases hcall
    exact ⟨rfl, h⟩
  | set name value =>
    cases hset : s.set name value with
    | error e =>
      simp only [call, hset] at hcall
      cases hcall
    | ok s₁ =>
      simp only [call, hset] at hcall
      cases hcall
      exact ⟨rfl, entries_of_set h hset⟩

theorem run_cons {c : Call} {calls : List Call} {answers : List Answer}
    (h : s.run (c :: calls) = .ok (answers, s')) :
    ∃ answer s₁ rest, s.call c = .ok (answer, s₁) ∧ s₁.run calls = .ok (rest, s') ∧
      answers = answer :: rest := by
  simp only [run, bind, Except.bind] at h
  cases hcall : s.call c with
  | error e =>
    rw [hcall] at h
    cases h
  | ok result =>
    obtain ⟨answer, s₁⟩ := result
    cases hrest : s₁.run calls with
    | error e =>
      simp only [hcall, hrest] at h
      cases h
    | ok result =>
      obtain ⟨rest, s₂⟩ := result
      simp only [hcall, hrest] at h
      cases h
      exact ⟨answer, s₁, rest, rfl, hrest, rfl⟩

theorem run_ok {calls : List Call} {answers : List Answer} (h : s.entries = .ok d)
    (hrun : s.run calls = .ok (answers, s')) :
    answers = Call.answers d calls ∧ s'.entries = .ok (calls.foldl Call.apply d) := by
  induction calls generalizing s d answers with
  | nil =>
    cases hrun
    exact ⟨rfl, h⟩
  | cons c calls ih =>
    obtain ⟨answer, s₁, rest, hcall, hrest, rfl⟩ := run_cons hrun
    obtain ⟨rfl, hs₁⟩ := call_ok h hcall
    obtain ⟨rfl, hs'⟩ := ih hs₁ hrest
    exact ⟨rfl, hs'⟩

theorem run_memory (d : Dict String) (calls : List Call) :
    (memory d).run calls = .ok (Call.answers d calls, memory (calls.foldl Call.apply d)) := by
  induction calls generalizing d with
  | nil => rfl
  | cons c calls ih =>
    have hcall : (memory d).call c = .ok (c.answer d, memory (c.apply d)) := by cases c <;> rfl
    simp only [run, hcall, bind, Except.bind, ih]
    rfl

theorem call_file {slot : Slot} {c : Call} {answer : Answer}
    (h : (file slot).call c = .ok (answer, s')) : ∃ slot', s' = file slot' := by
  cases c with
  | get name =>
    cases hget : (file slot).get name with
    | error e =>
      simp only [call, hget] at h
      cases h
    | ok value =>
      simp only [call, hget] at h
      cases h
      exact ⟨slot, rfl⟩
  | set name value =>
    cases hset : (file slot).set name value with
    | error e =>
      simp only [call, hset] at h
      cases h
    | ok s₁ =>
      simp only [call, hset] at h
      cases h
      obtain ⟨-, slot', -, rfl, -⟩ := set_file hset
      exact ⟨slot', rfl⟩

theorem run_file {slot : Slot} {calls : List Call} {answers : List Answer}
    (h : (file slot).run calls = .ok (answers, s')) : ∃ slot', s' = file slot' := by
  induction calls generalizing slot answers with
  | nil =>
    cases h
    exact ⟨slot, rfl⟩
  | cons c calls ih =>
    obtain ⟨answer, s₁, rest, hcall, hrest, -⟩ := run_cons h
    obtain ⟨slot₁, rfl⟩ := call_file hcall
    exact ih hrest

-- Where there is a file, or one can be made, every call succeeds.
theorem exists_call {slot : Slot} (h : entriesOf slot = .ok d) (hslot : slot ≠ .sealed)
    (c : Call) : ∃ slot', (file slot).call c = .ok (c.answer d, file slot') ∧ slot' ≠ .sealed := by
  have hentries : (file slot).entries = .ok d := h
  cases c with
  | get name =>
    refine ⟨slot, ?_, hslot⟩
    simp only [call, get_eq hentries]
    rfl
  | set name value =>
    have hwrite : slot.write (document (d.insert name value)).write =
        .ok (.text (document (d.insert name value)).write) := by
      cases slot with
      | text _ | vacant => rfl
      | sealed => exact absurd rfl hslot
      | folder => cases h
    refine ⟨.text (document (d.insert name value)).write, ?_, by simp⟩
    simp only [call, set, hentries, hwrite, bind, Except.bind]
    rfl

theorem exists_run {slot : Slot} (h : entriesOf slot = .ok d) (hslot : slot ≠ .sealed)
    (calls : List Call) :
    ∃ slot', (file slot).run calls = .ok (Call.answers d calls, file slot') := by
  induction calls generalizing slot d with
  | nil => exact ⟨slot, rfl⟩
  | cons c calls ih =>
    obtain ⟨slot₁, hcall, hslot₁⟩ := exists_call h hslot c
    have hentries : (file slot).entries = .ok d := h
    obtain ⟨slot', hrest⟩ := ih (call_ok hentries hcall).2 hslot₁
    refine ⟨slot', ?_⟩
    simp only [run, hcall, hrest, bind, Except.bind]
    rfl

end Store

-- As long as no call fails, each is answered as it would be by the same preferences in memory,
-- and whoever opens the file afterwards finds what was set last.
theorem file_behaves_as_map {slot : Slot} {d : Dict String} (h : Store.entriesOf slot = .ok d)
    (calls : List Call) :
    (∀ (answers : List Answer) (s' : Store), (Store.file slot).run calls = .ok (answers, s') →
      (Store.memory d).run calls = .ok (answers, .memory (calls.foldl Call.apply d)) ∧
      (∀ (i : Nat) (name : String), calls[i]? = some (Call.get name) → answers[i]? =
        some (Answer.found ((Call.lastSet name (calls.take i)).or (d.get? name)))) ∧
      ∃ slot', s' = .file slot' ∧ Store.entriesOf slot' = .ok (calls.foldl Call.apply d) ∧
        ∀ name, (Store.file slot').get name =
          .ok ((Call.lastSet name calls).or (d.get? name))) ∧
    (slot ≠ .sealed → ∃ answers s', (Store.file slot).run calls = .ok (answers, s')) ∧
    ∀ d', Store.ofDocument? (Store.document d').write = some d' := by
  refine ⟨fun answers s' hrun => ?_, fun hslot => ?_, Store.ofDocument?_document⟩
  · obtain ⟨slot', rfl⟩ := Store.run_file hrun
    have hstart : (Store.file slot).entries = .ok d := h
    obtain ⟨rfl, hentries⟩ := Store.run_ok hstart hrun
    refine ⟨Store.run_memory d calls, fun i name hcall => ?_, slot', rfl, hentries, fun name => ?_⟩
    · rw [Call.getElem?_answers, hcall, Option.map_some, Call.answer, Call.get?_foldl_apply]
    · rw [Store.get_eq hentries, Call.get?_foldl_apply]
  · obtain ⟨slot', hrun⟩ := Store.exists_run h hslot calls
    exact ⟨_, _, hrun⟩

-- Texts that need every kind of quoting there is.
def unruly : String := "a.b = \"c\" # 'd'\n\t\\"

def unrulier : String := "\"\"\"'''\r\n\x01\x7f\\"

def unrulyCalls : List Call :=
  [.set unruly unrulier, .set "" "", .get unruly, .set unrulier unruly, .get ""]

theorem file_behaves_as_map_of_unruly :
    ∃ slot', (Store.file .vacant).run unrulyCalls = .ok
      ([.kept, .kept, .found (some unrulier), .kept, .found (some "")], .file slot') ∧
    (Store.file slot').get unruly = .ok (some unrulier) ∧
    (Store.file slot').get "language" = .ok none := by
  have hvacant : Store.entriesOf .vacant = .ok .empty := rfl
  obtain ⟨hsuccessful, hsucceeds, -⟩ := file_behaves_as_map hvacant unrulyCalls
  obtain ⟨answers, s', hrun⟩ := hsucceeds (by decide)
  obtain ⟨hmemory, -, slot', rfl, -, hget⟩ := hsuccessful _ _ hrun
  have hanswers : answers = [.kept, .kept, .found (some unrulier), .kept, .found (some "")] := by
    have hempty : unruly ≠ "" := by decide
    have hempty' : unrulier ≠ "" := by decide
    rw [Store.run_memory] at hmemory
    obtain ⟨rfl, -⟩ := Prod.mk.inj (Except.ok.inj hmemory)
    simp [unrulyCalls, Call.answers, Call.answer, Call.apply, hempty, hempty'.symm]
  have hlast : Call.lastSet unruly unrulyCalls = some unrulier := by decide
  have hnone : Call.lastSet "language" unrulyCalls = none := by decide
  refine ⟨slot', hanswers ▸ hrun, ?_, ?_⟩
  · rw [hget, hlast]
    rfl
  · rw [hget, hnone]
    rfl

end BotConsole.Preference
