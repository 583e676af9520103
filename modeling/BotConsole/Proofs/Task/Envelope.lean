import BotConsole.Poll.Session
import BotConsole.Proofs.Json.Record

namespace BotConsole

open Json

namespace Task

namespace Envelope

-- Each field of an envelope stands at most once and holds what it should: a code of the
-- signed 64-bit range, a text as the message, and a status or null as the data.
structure WellTyped (members : List (Option String × Tree)) : Prop where
  code : ∃ t, Record.field? "code" members = some (some t) ∧ (Record.signed64? t).isSome
  message : ∃ field, Record.field? "msg" members = some field ∧
    ∀ t ∈ field, (Record.text? t).isSome
  status : ∃ field, Record.field? "data" members = some field ∧
    ∀ t ∈ field, t = .null ∨ (Status.ofTree? t).isSome

theorem ofTree?_object {members : List (Option String × Tree)}
    (hkeys : members.all (·.1.isSome) = true) :
    ofTree? (.object members) = do
      let code ← Record.field? "code" members
      let message ← Record.field? "msg" members
      let status ← Record.field? "data" members
      return {
        code := ← Record.required Record.signed64? code
        message := ← Record.orElse "" Record.text? message
        status := ← Record.nullable Status.ofTree? status } := by
  unfold ofTree?
  simp only [Record.fields?, hkeys, if_true, fieldNames, List.mapM_cons, List.mapM_nil]
  cases Record.field? "code" members with
  | none => rfl
  | some code =>
    cases Record.field? "msg" members with
    | none => rfl
    | some message =>
      cases Record.field? "data" members with
      | none => rfl
      | some status => rfl

theorem required_isSome_iff {α : Type} {read? : Tree → Option α} {field : Option Tree} :
    (Record.required read? field).isSome = true ↔ ∃ t, field = some t ∧ (read? t).isSome := by
  cases field <;> simp [Record.required]

theorem orElse_isSome_iff {α : Type} {default : α} {read? : Tree → Option α}
    {field : Option Tree} :
    (Record.orElse default read? field).isSome = true ↔ ∀ t ∈ field, (read? t).isSome := by
  cases field <;> simp [Record.orElse]

theorem nullable_isSome_iff {α : Type} {read? : Tree → Option α} {field : Option Tree} :
    (Record.nullable read? field).isSome = true ↔
      ∀ t ∈ field, t = .null ∨ (read? t).isSome := by
  rcases field with _ | t
  · simp [Record.nullable]
  · cases t <;> simp [Record.nullable]

theorem ofTree?_eq_some_iff {members : List (Option String × Tree)} {e : Envelope}
    (hkeys : members.all (·.1.isSome) = true) :
    ofTree? (.object members) = some e ↔
      ∃ code message status, Record.field? "code" members = some code ∧
        Record.field? "msg" members = some message ∧
        Record.field? "data" members = some status ∧
        Record.required Record.signed64? code = some e.code ∧
        Record.orElse "" Record.text? message = some e.message ∧
        Record.nullable Status.ofTree? status = some e.status := by
  rw [ofTree?_object hkeys]
  simp only [Option.bind_eq_bind, Option.bind_eq_some_iff]
  constructor
  · rintro ⟨code, hcode, message, hmessage, status, hstatus, c, hc, m, hm, s, hs, he⟩
    obtain rfl := Option.some.inj he
    exact ⟨code, message, status, hcode, hmessage, hstatus, hc, hm, hs⟩
  · rintro ⟨code, message, status, hcode, hmessage, hstatus, hc, hm, hs⟩
    exact ⟨code, hcode, message, hmessage, status, hstatus, _, hc, _, hm, _, hs, rfl⟩

theorem ofTree?_isSome_iff {members : List (Option String × Tree)}
    (hkeys : members.all (·.1.isSome) = true) :
    (ofTree? (.object members)).isSome = true ↔ WellTyped members := by
  constructor
  · intro h
    obtain ⟨e, he⟩ := Option.isSome_iff_exists.mp h
    obtain ⟨code, message, status, hcode, hmessage, hstatus, hc, hm, hs⟩ :=
      (ofTree?_eq_some_iff hkeys).mp he
    obtain ⟨t, rfl, ht⟩ := required_isSome_iff.mp (Option.isSome_of_eq_some hc)
    exact ⟨⟨t, hcode, ht⟩,
      ⟨message, hmessage, orElse_isSome_iff.mp (Option.isSome_of_eq_some hm)⟩,
      ⟨status, hstatus, nullable_isSome_iff.mp (Option.isSome_of_eq_some hs)⟩⟩
  · rintro ⟨⟨t, hcode, ht⟩, ⟨message, hmessage, hm⟩, ⟨status, hstatus, hs⟩⟩
    have hsome : (Record.orElse "" Record.text? message).isSome = true :=
      orElse_isSome_iff.mpr hm
    obtain ⟨c, hc⟩ := Option.isSome_iff_exists.mp (required_isSome_iff.mpr ⟨t, rfl, ht⟩)
    obtain ⟨m, hm⟩ := Option.isSome_iff_exists.mp hsome
    obtain ⟨s, hs⟩ := Option.isSome_iff_exists.mp (nullable_isSome_iff.mpr hs)
    exact Option.isSome_iff_exists.mpr ⟨⟨c, m, s⟩, (ofTree?_eq_some_iff hkeys).mpr
      ⟨_, _, _, hcode, hmessage, hstatus, hc, hm, hs⟩⟩

theorem code_eq_of_mem {members : List (Option String × Tree)} {e : Envelope} {c : Int}
    (hkeys : members.all (·.1.isSome) = true) (he : ofTree? (.object members) = some e)
    (hc : (some "code", .number (some (.int c))) ∈ members) : e.code = c := by
  obtain ⟨code, message, status, hcode, -, -, hn, -, -⟩ := (ofTree?_eq_some_iff hkeys).mp he
  obtain rfl := Record.field?_eq_of_mem hcode hc
  simp only [Record.required, Record.signed64?] at hn
  split at hn
  · exact (Option.some.inj hn).symm
  · cases hn

end Envelope

namespace Status

theorem ofBody_eq_ofTree {body : List Char} {t : Tree} (hread : Tree.read? body = some t)
    (hreadable : t.isReadable = true) (hdepth : t.depth ≤ Tree.maxDepth) :
    ofBody body = ofTree t := by
  simp [ofBody, hread, hreadable, hdepth]

theorem ofBody_of_not_readable {body : List Char} {t : Tree} (hread : Tree.read? body = some t)
    (h : ¬ (t.isReadable = true ∧ t.depth ≤ Tree.maxDepth)) :
    ∃ m, ofBody body = .error (.transport m) := by
  have hif : (t.isReadable && t.depth ≤ Tree.maxDepth) = false := by simpa using h
  simp only [ofBody, hread, hif]
  exact ⟨_, rfl⟩

theorem ofTree_of_wellTyped {members : List (Option String × Tree)} {c : Int}
    (hkeys : members.all (·.1.isSome) = true)
    (hc : (some "code", .number (some (.int c))) ∈ members) (hne : c ≠ 0)
    (h : Envelope.WellTyped members) :
    ∃ m, ofTree (.object members) = .error (.transport m) := by
  obtain ⟨e, he⟩ := Option.isSome_iff_exists.mp ((Envelope.ofTree?_isSome_iff hkeys).mpr h)
  have hcode : e.code ≠ 0 := by rwa [Envelope.code_eq_of_mem hkeys he hc]
  simp only [ofTree, he, Envelope.deliver, bne_iff_ne, ne_eq, hcode, not_false_eq_true, if_true]
  exact ⟨_, rfl⟩

theorem ofTree_of_not_wellTyped {members : List (Option String × Tree)}
    (hkeys : members.all (·.1.isSome) = true) (h : ¬ Envelope.WellTyped members) :
    ofTree (.object members) =
      (ofTree? (.object members)).elim (.error (invalid mismatch)) .ok := by
  have he : Envelope.ofTree? (.object members) = none := by
    rw [← Option.not_isSome_iff_eq_none, Envelope.ofTree?_isSome_iff hkeys]
    exact h
  unfold ofTree
  rw [he]
  cases ofTree? (.object members) <;> rfl

end Status

section NonzeroCode

variable {body : List Char} {members : List (Option String × Tree)} {c : Int}

-- A code other than zero is a failed fetch, unless a field of the envelope is flawed and the
-- object is a status by itself: then the code is passed over.
theorem nonzero_code_fails_iff (hread : Tree.read? body = some (.object members))
    (hcode : (some "code", .number (some (.int c))) ∈ members) (hne : c ≠ 0) :
    ((∃ m, Status.ofBody body = .error (.transport m)) ↔
      ¬ ((Tree.object members).isReadable = true ∧ (Tree.object members).depth ≤ Tree.maxDepth) ∨
      Envelope.WellTyped members ∨ Status.ofTree? (.object members) = none) ∧
    (∀ m, Status.ofBody body = .error (.transport m) →
      ∀ (s : Poll.Session) (generation : Nat) (task : Int), s.isCurrent generation = true →
        (s.commit generation task (Status.ofBody body)).1.state = .error ∧
        (s.commit generation task (Status.ofBody body)).1.error = some m) ∧
    (∀ s, (Tree.object members).isReadable = true → (Tree.object members).depth ≤ Tree.maxDepth →
      ¬ Envelope.WellTyped members → Status.ofTree? (.object members) = some s →
      Status.ofBody body = .ok s) := by
  have hflawed : ∀ s, (Tree.object members).isReadable = true →
      (Tree.object members).depth ≤ Tree.maxDepth → ¬ Envelope.WellTyped members →
      Status.ofTree? (.object members) = some s → Status.ofBody body = .ok s := by
    intro s hreadable hdepth hw hs
    rw [Status.ofBody_eq_ofTree hread hreadable hdepth,
      Status.ofTree_of_not_wellTyped (Tree.keys_of_isReadable hreadable) hw, hs]
    rfl
  refine ⟨⟨?_, ?_⟩, ?_, hflawed⟩
  · rintro ⟨m, hm⟩
    by_contra hno
    simp only [not_or, not_not] at hno
    obtain ⟨⟨hreadable, hdepth⟩, hw, hnone⟩ := hno
    obtain ⟨s, hs⟩ := Option.ne_none_iff_exists'.mp hnone
    rw [hflawed s hreadable hdepth hw hs] at hm
    cases hm
  · intro h
    by_cases hreadable : (Tree.object members).isReadable = true ∧
        (Tree.object members).depth ≤ Tree.maxDepth
    · have hkeys := Tree.keys_of_isReadable hreadable.1
      rw [Status.ofBody_eq_ofTree hread hreadable.1 hreadable.2]
      by_cases hw : Envelope.WellTyped members
      · exact Status.ofTree_of_wellTyped hkeys hcode hne hw
      · have hnone := (h.resolve_left (not_not.mpr hreadable)).resolve_left hw
        rw [Status.ofTree_of_not_wellTyped hkeys hw, hnone]
        exact ⟨_, rfl⟩
    · exact Status.ofBody_of_not_readable hread hreadable
  · intro m hm s generation task hs
    rw [hm]
    simp [Poll.Session.commit, hs, Poll.Verdict.ofResult?, Failure.message]

end NonzeroCode

-- An envelope without a message that carries a finished task beside its code.
theorem nonzero_code_fails_without_message :
    ∃ m, Status.ofBody "\x7b\"code\":-3,\"runtime\":\x7b\"done\":true\x7d\x7d".toList =
      .error (.transport m) :=
  (@nonzero_code_fails_iff _
    [(some "code", .number (some (.int (-3)))),
      (some "runtime", .object [(some "done", .bool true)])] (-3)
    (by decide +kernel) (by simp) (by decide)).1.mpr
    (.inr (.inl ⟨⟨_, by rfl, by rfl⟩, ⟨none, by rfl, by simp⟩, ⟨none, by rfl, by simp⟩⟩))

def flawedBody : List Char :=
  "\x7b\"code\":5,\"msg\":\"task not found\",\"data\":7,\"runtime\":\x7b\"done\":true\x7d\x7d".toList

def flawedMembers : List (Option String × Tree) :=
  [(some "code", .number (some (.int 5))), (some "msg", .text (some "task not found")),
    (some "data", .number (some (.int 7))), (some "runtime", .object [(some "done", .bool true)])]

-- The message of a flawed envelope is lost, and its task counts as a success.
theorem flawed_envelope_succeeds :
    ¬ ∀ (body : List Char) (members : List (Option String × Tree)) (c : Int),
      Tree.read? body = some (.object members) → (Tree.object members).isReadable = true →
      (Tree.object members).depth ≤ Tree.maxDepth →
      Record.field? "code" members = some (some (.number (some (.int c)))) →
      -(1 <<< 63 : Nat) ≤ c → c < (1 <<< 63 : Nat) → c ≠ 0 →
      ∃ m, Status.ofBody body = .error (.transport m) := by
  intro h
  have hok : Status.ofBody flawedBody = .ok ⟨none, none, Runtime.succeeded⟩ := by decide +kernel
  obtain ⟨m, hm⟩ := h flawedBody flawedMembers 5 (by decide +kernel) (by decide) (by decide)
    (by rfl) (by decide) (by decide) (by decide)
  rw [hok] at hm
  cases hm

end Task

end BotConsole
