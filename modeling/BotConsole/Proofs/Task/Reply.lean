import BotConsole.Proofs.Task.Envelope
import BotConsole.Task.Client

namespace BotConsole

open Json

theorem Http.Url.target_withdrawUser (url : Url) : url.withdrawUser.1.target = url.target := by
  unfold withdrawUser
  split <;> rfl

namespace Task

-- A reply that brings a status: the request succeeded, and the whole body can be read as one.
inductive Reply.Tells (s : Status) : Reply → Prop where
  | response {code : Nat} {body : String} (hc : Http.isSuccess code = true)
    (hb : Http.hasBody code = true) (hs : Status.ofBody (Client.bodyText body) = .ok s) :
    Tells s (.response code body true)

theorem Reply.Tells.eq {s s' : Status} {reply : Reply} (h : reply.Tells s) (h' : reply.Tells s') :
    s = s' := by
  cases h with
  | response _ _ hs =>
    cases h' with
    | response _ _ hs' => exact Except.ok.inj (hs.symm.trans hs')

variable {c : Client} {task : Int} {url : Http.Url} {request : Request} {s : Status}

theorem Client.read_eq_ok_iff {reply : Reply} : c.read task url reply = .ok s ↔ reply.Tells s := by
  constructor
  · intro h
    cases reply with
    | refused => cases h
    | response code body isComplete =>
      simp only [read] at h
      split at h
      · cases h
      · rename_i hwhole
        split at h
        · rename_i hc
          -- without a body there is no status
          have hb : Http.hasBody code = true := by
            by_contra hb
            rw [if_neg hb] at h
            cases h
          rw [if_pos hb] at h
          obtain rfl : isComplete = true := by simpa [hb] using hwhole
          exact .response hc hb h
        · cases h
  · rintro ⟨hc, hb, hs⟩
    simp [read, hc, hb, hs]

theorem Client.eq_of_request (h : c.request task = .ok request) :
    ∃ url, Http.Url.ofText? (c.statusUrl task).toList = some url ∧
      url.withdrawUser = (request.url, request.credentials) ∧ request.target = url.target := by
  unfold Client.request at h
  split at h
  · cases h
  · next url hurl =>
    split at h
    · cases h
    · split at h
      · cases h
      · dsimp only at h
        split at h
        · obtain rfl := Except.ok.inj h
          exact ⟨url, hurl, rfl, url.target_withdrawUser⟩
        · cases h

theorem Client.fetch_of_request (h : c.request task = .ok request) (reply : Reply) :
    c.fetch task reply = (c.read task request.url reply, some request) := by
  simp only [fetch, h]

theorem Client.result_of_request (h : c.request task = .ok request) (reply : Reply) :
    (c.fetch task reply).1 = c.read task request.url reply := by
  rw [fetch_of_request h]

namespace Envelope

-- An object that reports a failure: a code other than zero, with a message that is not blank. The
-- data may be anything.
structure Reports (members : List (Option String × Tree)) (m : String) : Prop where
  code : ∃ c : Int, Record.field? "code" members = some (some (.number (some (.int c)))) ∧
    -(1 <<< 63 : Nat) ≤ c ∧ c < (1 <<< 63 : Nat) ∧ c ≠ 0
  message : Record.field? "msg" members = some (some (.text (some m)))
  not_blank : Text.allBlank m = false

variable {members : List (Option String × Tree)} {m : String} {body : List Char}

theorem Reports.wellTyped_iff (h : Reports members m) :
    WellTyped members ↔ ∃ field, Record.field? "data" members = some field ∧
      ∀ t ∈ field, t = .null ∨ (Status.ofTree? t).isSome := by
  refine ⟨WellTyped.status, fun hstatus => ⟨?_, ?_, hstatus⟩⟩
  · obtain ⟨c, hcode, hlow, hhigh, -⟩ := h.code
    exact ⟨_, hcode, by rw [Record.signed64?_int hlow hhigh]; rfl⟩
  · exact ⟨_, h.message, by simp [Record.text?]⟩

theorem Reports.exists_envelope (h : Reports members m)
    (hkeys : members.all (·.1.isSome) = true) (hw : WellTyped members) :
    ∃ e, ofTree? (.object members) = some e ∧ e.code ≠ 0 ∧ e.message = m := by
  obtain ⟨e, he⟩ := Option.isSome_iff_exists.mp ((ofTree?_isSome_iff hkeys).mpr hw)
  obtain ⟨code, text, -, hcode, htext, -, hc, hm, -⟩ := (ofTree?_eq_some_iff hkeys).mp he
  obtain ⟨c, hcode', hlow, hhigh, hne⟩ := h.code
  obtain rfl := Option.some.inj (hcode.symm.trans hcode')
  obtain rfl := Option.some.inj (htext.symm.trans h.message)
  have hcode : c = e.code := Option.some.inj ((Record.signed64?_int hlow hhigh).symm.trans hc)
  exact ⟨e, he, hcode ▸ hne, (Option.some.inj hm).symm⟩

-- What the answer to a failed request is read for can be read: no name is broken, and the parts
-- that count are not nested too deeply.
def IsLegible (members : List (Option String × Tree)) : Prop :=
  members.all (·.1.isSome) = true ∧
    (Record.readPart shape (.object members)).depth ≤ Tree.maxDepth

theorem messageOf?_of_wellTyped (hread : Tree.read? body = some (.object members))
    (h : Reports members m) (hl : IsLegible members) (hw : WellTyped members) :
    messageOf? body = some m := by
  obtain ⟨e, he, -, hmessage⟩ := h.exists_envelope hl.1 hw
  have hdepth := Nat.not_lt.mpr hl.2
  simp [messageOf?, hread, hdepth, he, hmessage, h.not_blank]

theorem messageOf?_eq_none (hread : Tree.read? body = some (.object members))
    (h : ¬ (IsLegible members ∧ WellTyped members)) : messageOf? body = none := by
  by_cases hdepth : (Record.readPart shape (.object members)).depth ≤ Tree.maxDepth
  · have hnone : ofTree? (.object members) = none := by
      by_cases hkeys : members.all (·.1.isSome) = true
      · rw [← Option.not_isSome_iff_eq_none, ofTree?_isSome_iff hkeys]
        exact fun hw => h ⟨⟨hkeys, hdepth⟩, hw⟩
      · simp [ofTree?, Record.fields?, hkeys]
    simp [messageOf?, hread, hnone]
  · simp [messageOf?, hread, Nat.not_le.mp hdepth]

end Envelope

theorem Failure.ofTransport_of_not_blank {m : String} (h : Text.allBlank m = false) :
    Failure.ofTransport m = .transport m := by
  simp [Failure.ofTransport, h]

theorem Status.invalid_eq (reason : String) :
    Status.invalid reason = .transport ("Invalid task status response: " ++ reason) := by
  have hinvalid : Text.allBlank "Invalid task status response: " = false := by decide
  exact Failure.ofTransport_of_not_blank (by simp [hinvalid])

theorem Client.read_refused (c : Client) (task : Int) (url : Http.Url) :
    c.read task url .refused =
      .error (.transport ("error sending request for url (" ++ url.toText ++ ")")) := by
  have hsending : Text.allBlank "error sending request for url (" = false := by decide
  exact congrArg _ (Failure.ofTransport_of_not_blank (by simp [hsending]))

def Client.unexplained (c : Client) (task : Int) (code : Nat) : Failure :=
  .transport ("HTTP " ++ Http.statusLine code ++ " from " ++ c.statusUrl task)

theorem Client.read_of_failed {code : Nat} {text : String} (hc : Http.isSuccess code = false)
    (hb : Http.hasBody code = true) :
    c.read task url (.response code text true) = .error
      ((Envelope.messageOf? (bodyText text)).elim (c.unexplained task code) .ofTransport) := by
  have hline : Text.allBlank ("HTTP " ++ Http.statusLine code ++ " from " ++ c.statusUrl task) =
      false := by
    have hhttp : Text.allBlank "HTTP " = false := by decide
    simp [hhttp]
  cases hm : Envelope.messageOf? (bodyText text) with
  | none => simp [read, hc, hb, hm, unexplained, Failure.ofTransport_of_not_blank hline]
  | some m => simp [read, hc, hb, hm]

def Failure.IsTransport (f : Failure) : Prop :=
  ∃ m, f = .transport m ∧ Text.allBlank m = false

theorem Failure.isTransport_ofTransport (m : String) : (Failure.ofTransport m).IsTransport := by
  unfold ofTransport
  split
  · exact ⟨unknown, rfl, by decide⟩
  · rename_i h
    exact ⟨m, rfl, by simpa using h⟩

theorem Failure.isTransport_of_error {α : Type} {m : String} {f : Failure}
    (h : (Except.error (Failure.ofTransport m) : Except Failure α) = .error f) : f.IsTransport :=
  Except.error.inj h ▸ isTransport_ofTransport m

theorem Envelope.isTransport_of_deliver {e : Envelope} {f : Failure} (h : e.deliver = .error f) :
    f.IsTransport := by
  unfold deliver at h
  split at h
  · exact Failure.isTransport_of_error h
  · split at h
    · cases h
    · exact Failure.isTransport_of_error h

theorem Status.isTransport_of_ofTree {t : Tree} {f : Failure} (h : ofTree t = .error f) :
    f.IsTransport := by
  unfold ofTree at h
  split at h
  · exact Envelope.isTransport_of_deliver h
  · split at h
    · cases h
    · exact Failure.isTransport_of_error h

theorem Status.isTransport_of_ofBody {body : List Char} {f : Failure} (h : ofBody body = .error f) :
    f.IsTransport := by
  unfold ofBody at h
  split at h
  · split at h
    · exact isTransport_of_ofTree h
    · exact Failure.isTransport_of_error h
  · exact Failure.isTransport_of_error h

theorem Client.isTransport_of_read {reply : Reply} {f : Failure}
    (h : c.read task url reply = .error f) : f.IsTransport := by
  cases reply with
  | refused =>
    exact Failure.isTransport_of_error h
  | response code body isComplete =>
    simp only [read] at h
    split at h
    · exact Failure.isTransport_of_error h
    · split at h
      · exact Status.isTransport_of_ofBody h
      · exact Failure.isTransport_of_error h

theorem Client.isTransport_of_request {f : Failure} (h : c.request task = .error f) :
    f.IsTransport := by
  unfold request at h
  split at h
  · exact Failure.isTransport_of_error h
  · split at h
    · exact Failure.isTransport_of_error h
    · split at h
      · exact Failure.isTransport_of_error h
      · dsimp only at h
        split at h
        · cases h
        · exact Failure.isTransport_of_error h

theorem Client.isTransport_of_fetch {reply : Reply} {f : Failure}
    (h : (c.fetch task reply).1 = .error f) : f.IsTransport := by
  unfold fetch at h
  split at h
  · rename_i hrequest
    cases h
    exact isTransport_of_request hrequest
  · exact isTransport_of_read h

theorem Client.tells_of_fetch {reply : Reply} (h : (c.fetch task reply).1 = .ok s) :
    reply.Tells s := by
  unfold fetch at h
  split at h
  · cases h
  · exact read_eq_ok_iff.mp h

-- Where the data beside a code other than zero are left out, null or a status, the message is why
-- the fetch has failed. Where they are anything else, the message is lost.
theorem reported_message_told {body : List Char} {members : List (Option String × Tree)}
    {m : String} (hread : Tree.read? body = some (.object members))
    (h : Envelope.Reports members m) :
    (Envelope.WellTyped members ↔ ∃ field, Record.field? "data" members = some field ∧
      ∀ t ∈ field, t = .null ∨ (Status.ofTree? t).isSome) ∧
    ((Tree.object members).isReadable = true ∧ (Tree.object members).depth ≤ Tree.maxDepth →
      (Envelope.WellTyped members → Status.ofBody body = .error (.transport m)) ∧
      (¬ Envelope.WellTyped members → Status.ofBody body =
        (Status.ofTree? (.object members)).elim (.error (Status.invalid Status.mismatch)) .ok)) ∧
    (¬ ((Tree.object members).isReadable = true ∧
        (Tree.object members).depth ≤ Tree.maxDepth) →
      ∃ reason, Status.ofBody body = .error (.transport reason)) ∧
    ∀ (c : Client) (task : Int) (url : Http.Url) (code : Nat) (text : String),
      Http.isSuccess code = false → Http.hasBody code = true → Client.bodyText text = body →
      (Envelope.IsLegible members ∧ Envelope.WellTyped members →
        c.read task url (.response code text true) = .error (.transport m)) ∧
      (¬ (Envelope.IsLegible members ∧ Envelope.WellTyped members) →
        c.read task url (.response code text true) = .error (c.unexplained task code)) := by
  refine ⟨h.wellTyped_iff, ?_, Status.ofBody_of_not_readable hread, ?_⟩
  · rintro ⟨hreadable, hdepth⟩
    have hkeys := Tree.keys_of_isReadable hreadable
    constructor
    · intro hw
      obtain ⟨e, he, hne, rfl⟩ := h.exists_envelope hkeys hw
      rw [Status.ofBody_eq_ofTree hread hreadable hdepth]
      simp [Status.ofTree, he, Envelope.deliver, hne,
        Failure.ofTransport_of_not_blank h.not_blank]
    · intro hw
      rw [Status.ofBody_eq_ofTree hread hreadable hdepth,
        Status.ofTree_of_not_wellTyped hkeys hw]
  · rintro c task url code text hc hb rfl
    constructor
    · rintro ⟨hl, hw⟩
      rw [Client.read_of_failed hc hb, Envelope.messageOf?_of_wellTyped hread h hl hw]
      simp [Failure.ofTransport_of_not_blank h.not_blank]
    · intro hno
      rw [Client.read_of_failed hc hb, Envelope.messageOf?_eq_none hread hno]
      rfl

def refusalMembers (data : Tree) : List (Option String × Tree) :=
  [(some "code", .number (some (.int (-1)))), (some "msg", .text (some "task not found")),
    (some "data", data)]

theorem reports_refusal (data : Tree) :
    Envelope.Reports (refusalMembers data) "task not found" where
  code := ⟨-1, rfl, by decide, by decide, by decide⟩
  message := rfl
  not_blank := by decide

def refusal : String := "\x7b\"code\":-1,\"msg\":\"task not found\",\"data\":null\x7d"

theorem reported_message_told_with_null :
    Status.ofBody refusal.toList = .error (.transport "task not found") ∧
    (Client.new "http://localhost" Client.defaultTemplate none).read 7 default
      (.response 404 refusal true) = .error (.transport "task not found") := by
  have hread : Tree.read? refusal.toList = some (.object (refusalMembers .null)) := by
    decide +kernel
  obtain ⟨hw, htold, -, hfailed⟩ := reported_message_told hread (reports_refusal .null)
  have hw := hw.mpr ⟨_, rfl, by simp⟩
  exact ⟨(htold (by decide)).1 hw,
    (hfailed _ _ _ _ _ rfl rfl (by decide)).1 ⟨⟨rfl, by decide⟩, hw⟩⟩

def flawedRefusal : String :=
  "\x7b\"code\":-1,\"msg\":\"task not found\",\"data\":\x7b\x7d\x7d"

-- The message that comes with data other than a status is told neither where the request succeeded
-- nor where it failed.
theorem flawed_data_hides_message :
    (¬ ∀ (body : String) (members : List (Option String × Tree)) (m : String),
      Tree.read? body.toList = some (.object members) → (Tree.object members).isReadable = true →
      (Tree.object members).depth ≤ Tree.maxDepth → Envelope.Reports members m →
      Status.ofBody body.toList = .error (.transport m)) ∧
    ¬ ∀ (body : String) (members : List (Option String × Tree)) (m : String),
      Tree.read? body.toList = some (.object members) → (Tree.object members).isReadable = true →
      (Tree.object members).depth ≤ Tree.maxDepth → Envelope.Reports members m →
      ∀ (c : Client) (task : Int) (url : Http.Url) (code : Nat),
        Http.isSuccess code = false → Http.hasBody code = true →
        c.read task url (.response code body true) = .error (.transport m) := by
  have hread : Tree.read? flawedRefusal.toList = some (.object (refusalMembers (.object []))) := by
    decide +kernel
  have hstatus : Status.ofTree? (.object []) = none := by rfl
  have hflawed : ¬ Envelope.WellTyped (refusalMembers (.object [])) := by
    rw [(reports_refusal _).wellTyped_iff]
    rintro ⟨field, hfield, hall⟩
    obtain rfl := Option.some.inj hfield
    simpa [hstatus] using hall _ rfl
  have hbare : Status.ofTree? (.object (refusalMembers (.object []))) = none := by rfl
  -- the reasons given instead begin with other letters
  have hfirst : ∀ {m m' : String}, (Except.error (.transport m) : Except Failure Status) =
      .error (.transport m') → m.toList.head? = m'.toList.head? := by
    intro m m' h
    cases h
    rfl
  constructor
  · intro h
    have htold := h flawedRefusal _ _ hread (by rfl) (by decide) (reports_refusal _)
    rw [Status.ofBody_eq_ofTree hread (by rfl) (by decide),
      Status.ofTree_of_not_wellTyped rfl hflawed, hbare, Option.elim_none, Status.invalid_eq]
      at htold
    simpa [String.toList_append] using hfirst htold
  · intro h
    have htold := h flawedRefusal _ _ hread (by rfl) (by decide) (reports_refusal _)
      (Client.new "http://localhost" Client.defaultTemplate none) 7 default 404 rfl rfl
    rw [Client.read_of_failed rfl rfl,
      Envelope.messageOf?_eq_none (by decide +kernel) fun h => hflawed h.2] at htold
    simpa [String.toList_append] using hfirst htold

end Task

end BotConsole
