import BotConsole.Proofs.Console.Invocation
import BotConsole.Proofs.Console.Run
import BotConsole.Proofs.Poll.Onlooker
import BotConsole.Proofs.Task.Reply

namespace BotConsole

namespace Console

open Poll (Poller Telling Entry Verdict Moment GoesOn EndsIn)

namespace Watch

variable {w : Watch} {server : Server} {n : Nat}

def conclusion (w : Watch) : Option String → Report
  | none =>
    { output := Report.unlines [w.headline, "✓ " ++ Message.taskSucceeded.text w.locale] }
  | some message =>
    { output := Report.unlines [w.headline]
      notices := ["✗ " ++ Message.taskFailed.text w.locale ++ ": " ++ message]
      ending := .failed ("Task " ++ toString w.task ++ " failed: " ++ message) }

def success? (w : Watch) : Telling → Option String
  | .called _ .success _ => some ("✓ " ++ Message.taskSucceeded.text w.locale)
  | _ => none

def failure? (w : Watch) : Telling → Option String
  | .called _ .failure ⟨_, .failed f⟩ =>
    some ("✗ " ++ Message.taskFailed.text w.locale ++ ": " ++ f.message)
  | _ => none

theorem successLine?_eq (w : Watch) (e : Entry) :
    w.successLine? e = e.telling?.bind w.success? := by
  cases e with
  | called _ _ interest _ => cases interest <;> rfl
  | _ => rfl

theorem failureLine?_eq (w : Watch) (e : Entry) :
    w.failureLine? e = e.telling?.bind w.failure? := by
  cases e with
  | called _ _ interest o => cases interest <;> rcases o with ⟨_, _ | _⟩ <;> rfl
  | _ => rfl

theorem filterMap_log {line? : Entry → Option String} {told? : Telling → Option String}
    (h : ∀ e, line? e = e.telling?.bind told?) (p : Poller) :
    (p.log.map (·.2)).filterMap line? = p.tellings.filterMap told? := by
  obtain rfl : line? = fun e => e.telling?.bind told? := funext h
  simp only [Poller.tellings, Poller.logged, List.map_filterMap, List.filterMap_map,
    List.filterMap_filterMap]
  congr 1
  funext entry
  cases he : entry.2.telling? <;> simp [he]

-- The watching is decided by the first fetch that does not find the task going on.
theorem run_of_first (hfirst : ∀ i < n, GoesOn (w.source server i).2)
    (hends : ¬ GoesOn (w.source server n).2) (hprompt : w.duration n < w.started.interval)
    (hlimit : (n + 1) * w.started.interval + w.duration n ≤ w.started.interval * w.patience) :
    ∃ state error, EndsIn (w.source server n).2 state error ∧
      (w.run server).1.fetches = n + 1 ∧ w.report server = w.conclusion error := by
  let silent (tag : String) (interest : Poll.Interest) : Poll.Listener :=
    ⟨tag, interest, fun _ _ => []⟩
  let m₀ := (Moment.initial w.interval).run (w.source server)
    [.subscribe (silent "success" .success), .subscribe (silent "failure" .failure)]
  have hm : Moment.Reached (w.source server) w.interval m₀ := ⟨_, rfl⟩
  have honly : m₀.poller.OnlyOnlookers := by
    intro entry he
    rcases he with _ | ⟨_, _ | ⟨_, he⟩⟩
    · exact fun _ _ => rfl
    · exact fun _ _ => rfl
    · cases he
  have hsource : ∀ k, w.source server (m₀.poller.fetches + k) = w.source server k := by
    intro k
    rw [show m₀.poller.fetches = 0 from rfl, Nat.zero_add]
  have hgoes : ∀ i < n, GoesOn (w.source server (m₀.poller.fetches + i)).2 := by
    intro i hi
    rw [hsource]
    exact hfirst i hi
  have hstops : ¬ GoesOn (w.source server (m₀.poller.fetches + n)).2 := by
    rw [hsource]
    exact hends
  have hcomes : (w.source server (m₀.poller.fetches + n)).1 < m₀.poller.interval := by
    rw [hsource]
    exact hprompt
  have htime : (n + 1) * m₀.poller.interval + (w.source server (m₀.poller.fetches + n)).1 ≤
      w.started.interval * w.patience := by
    rw [hsource]
    exact hlimit
  obtain ⟨q, v, hawait, hv, hfetches, herror, ht⟩ :=
    Moment.await_start hm rfl rfl honly w.task hgoes hstops hcomes htime
  have hrun : w.run server = (q, some v.leaves.1) := hawait
  have htold : q.tellings = m₀.poller.announcement ⟨w.task, v⟩ := ht
  rw [hsource] at hv
  refine ⟨_, _, hv, ?_, ?_⟩
  · rw [hrun, hfetches]
    exact Nat.zero_add _
  · simp only [report, hrun, filterMap_log w.successLine?_eq, filterMap_log w.failureLine?_eq,
      htold]
    cases v with
    | succeeded => rfl
    | failed f =>
      have hmessage : q.session.error = some f.message := herror
      simp only [ending, hmessage, Verdict.leaves]
      rfl

theorem sent_of_request {request : Task.Request} (h : w.client.request w.task = .ok request) :
    w.sent server = List.replicate (w.run server).1.fetches request := by
  have hfetch : ∀ i, (w.client.fetch w.task (server i)).2 = some request :=
    fun i => by rw [Task.Client.fetch_of_request h]
  simp [sent, hfetch, List.map_const']

theorem report_of_unsent (server : Server) {failure : Task.Failure}
    (h : w.client.request w.task = .error failure) (hpatience : 1 ≤ w.patience) :
    w.sent server = [] ∧ w.report server = w.conclusion (some failure.message) := by
  have hfetch : ∀ reply, w.client.fetch w.task reply = (.error failure, none) :=
    fun reply => by simp only [Task.Client.fetch, h]
  have hsource : w.source server 0 = (0, .error failure) := by
    simp only [source, duration, h, hfetch]
  have hstop : ¬ GoesOn (w.source server 0).2 := by
    rw [hsource]
    rintro ⟨s, hs, -⟩
    cases hs
  have hduration : w.duration 0 = 0 := congrArg Prod.fst hsource
  have hinterval : 0 < w.started.interval := by
    show 0 < max w.interval 1
    omega
  have hlimit : (0 + 1) * w.started.interval + w.duration 0 ≤ w.started.interval * w.patience := by
    rw [hduration, Nat.zero_add, Nat.one_mul]
    exact Nat.le_mul_of_pos_right _ hpatience
  obtain ⟨state, error, hends, -, hreport⟩ := run_of_first
    (fun i hi => absurd hi (Nat.not_lt_zero i)) hstop (by rwa [hduration]) hlimit
  rw [hsource] at hends
  cases hends
  exact ⟨by simp [sent, hfetch], hreport⟩

theorem source_of_request {request : Task.Request} (h : w.client.request w.task = .ok request)
    (i : Nat) : (w.source server i).2 = w.client.read w.task request.url (w.received server i) :=
  Task.Client.result_of_request h _

structure TellsFailure (w : Watch) (r : Report) (message : String) : Prop where
  output : r.output = Report.unlines [w.headline]
  notices : r.notices = ["✗ " ++ Message.taskFailed.text w.locale ++ ": " ++ message]
  ending : r.ending = .failed ("Task " ++ toString w.task ++ " failed: " ++ message)

theorem tellsFailure_conclusion (w : Watch) (message : String) :
    w.TellsFailure (w.conclusion (some message)) message :=
  ⟨rfl, rfl, rfl⟩

theorem TellsFailure.exitCode_ne_zero {r : Report} {message : String}
    (h : w.TellsFailure r message) : r.ending.exitCode ≠ 0 := by
  rw [h.ending]
  exact nofun

theorem report_of_first {request : Task.Request} (h : w.client.request w.task = .ok request)
    (hfirst : ∀ i < n, ∃ s, (w.received server i).Tells s ∧ s.runtime.done = false)
    (hends : ¬ ∃ s, (w.received server n).Tells s ∧ s.runtime.done = false)
    (hprompt : w.duration n < w.started.interval)
    (hlimit : (n + 1) * w.started.interval + w.duration n ≤ w.started.interval * w.patience) :
    w.sent server = List.replicate (n + 1) request ∧
    ((w.report server).ending.exitCode = 0 ↔ ∃ s, (w.received server n).Tells s ∧
      s.runtime.done = true ∧ ∀ x, s.runtime.exception = some x → Text.allBlank x = true) ∧
    ((w.report server).ending.exitCode = 0 → w.report server = w.conclusion none) ∧
    ((w.report server).ending.exitCode ≠ 0 → ∃ message,
      w.TellsFailure (w.report server) message ∧
      ((∃ s, (w.received server n).Tells s ∧ s.runtime.done = true ∧
          s.runtime.exception = some message ∧ Text.allBlank message = false) ∨
        ∃ failure, w.client.read w.task request.url (w.received server n) = .error failure ∧
          message = failure.message)) := by
  have hgoes : ∀ i, GoesOn (w.source server i).2 ↔
      ∃ s, (w.received server i).Tells s ∧ s.runtime.done = false := by
    intro i
    simp only [GoesOn, source_of_request h, Task.Client.read_eq_ok_iff]
  obtain ⟨state, error, hresult, hfetches, hreport⟩ := run_of_first
    (fun i hi => (hgoes i).mpr (hfirst i hi)) (fun hgo => hends ((hgoes n).mp hgo)) hprompt hlimit
  refine ⟨by rw [sent_of_request h, hfetches], ?_⟩
  rw [source_of_request h] at hresult
  rw [hreport]
  generalize hr : w.client.read w.task request.url (w.received server n) = r at hresult
  have hfails (message : String) : (w.conclusion (some message)).ending.exitCode ≠ 0 :=
    (w.tellsFailure_conclusion message).exitCode_ne_zero
  cases hresult with
  | succeeded s hd hx =>
    have htells := Task.Client.read_eq_ok_iff.mp hr
    exact ⟨⟨fun _ => ⟨s, htells, hd, hx⟩, fun _ => rfl⟩, fun _ => rfl, fun h => absurd rfl h⟩
  | exception s x hd hx hb =>
    have htells := Task.Client.read_eq_ok_iff.mp hr
    refine ⟨⟨fun h => absurd h (hfails x), ?_⟩, fun h => absurd h (hfails x),
      fun _ => ⟨x, w.tellsFailure_conclusion x, .inl ⟨s, htells, hd, hx, hb⟩⟩⟩
    rintro ⟨s', htells', -, hblank⟩
    obtain rfl := htells.eq htells'
    rw [hblank x hx] at hb
    cases hb
  | failed f =>
    refine ⟨⟨fun h => absurd h (hfails _), ?_⟩, fun h => absurd h (hfails _),
      fun _ => ⟨f.message, w.tellsFailure_conclusion _, .inr ⟨f, rfl, rfl⟩⟩⟩
    rintro ⟨s', htells', -, -⟩
    have hok := hr.symm.trans (Task.Client.read_eq_ok_iff.mpr htells')
    cases hok

end Watch

-- As many requests are sent as it takes to find the task no longer going on, and the run ends by
-- the reply to the last one. A reply that comes after the client has given up is none.
theorem watch_ends_with_first_decision {m : Machine} {arguments : List String} {verbose : Bool}
    {projectFolder baseUrl : Option String} {task : Int} {interval : Option UInt64} {p : Project}
    (hline : Invocation.ofArguments arguments =
      .ok ⟨verbose, projectFolder, baseUrl, .watchTask task interval⟩)
    (hload : Project.load m.disk m.folder (projectFolder.getD m.folder.toText) = .ok p) :
    let l := m.layers p ⟨verbose, projectFolder, baseUrl, .watchTask task interval⟩
    let w := m.watch l ((p.chosenLocale? m.disk).getD l.effectiveLocale) task interval
    let reply := w.received m.server
    let report := (m.run arguments).1
    let m' := (m.run arguments).2
    (∀ failure, w.client.request task = .error failure → 1 ≤ m.patience →
      w.sent m.server = [] ∧ m'.server = m.server ∧ w.TellsFailure report failure.message) ∧
    ∀ n request, w.client.request task = .ok request →
      (∀ i < n, ∃ s, (reply i).Tells s ∧ s.runtime.done = false) →
      (¬ ∃ s, (reply n).Tells s ∧ s.runtime.done = false) →
      w.duration n < w.started.interval →
      (n + 1) * w.started.interval + w.duration n ≤ w.started.interval * m.patience →
      w.sent m.server = List.replicate (n + 1) request ∧
      (∃ url, Http.Url.ofText? (w.client.statusUrl task).toList = some url ∧
        url.withdrawUser = (request.url, request.credentials)) ∧
      (m'.server = fun i => m.server (i + (n + 1))) ∧
      (report.ending.exitCode = 0 ↔ ∃ s, (reply n).Tells s ∧ s.runtime.done = true ∧
        ∀ x, s.runtime.exception = some x → Text.allBlank x = true) ∧
      (report.ending.exitCode = 0 →
        report.output = Report.unlines [w.headline, "✓ " ++ Message.taskSucceeded.text w.locale] ∧
        report.notices = []) ∧
      (report.ending.exitCode ≠ 0 → ∃ message, w.TellsFailure report message ∧
        ((∃ s, (reply n).Tells s ∧ s.runtime.done = true ∧ s.runtime.exception = some message ∧
            Text.allBlank message = false) ∨
          ∃ failure, w.client.read task request.url (reply n) = .error failure ∧
            message = failure.message)) := by
  intro l w reply report m'
  have hrun : m.run arguments = (w.report m.server,
      (m.withLogFolder p).afterRequests (w.requests m.server)) := by
    simp only [Machine.run, hline]
    exact Machine.invoke_watchTask hload task interval
  have hreport : report = w.report m.server := by
    simp only [report, hrun]
  have hserver : m'.server = fun i => m.server (i + w.requests m.server) := by
    simp only [m', hrun, Machine.afterRequests, Machine.server_withLogFolder]
  clear_value report m'
  subst hreport
  constructor
  · intro failure hrequest hpatience
    obtain ⟨hsent, hunsent⟩ := Watch.report_of_unsent m.server hrequest hpatience
    rw [Watch.requests, hsent] at hserver
    exact ⟨hsent, hserver, hunsent ▸ w.tellsFailure_conclusion failure.message⟩
  · intro n request hrequest hfirst hends hprompt hlimit
    obtain ⟨hsent, hexit, hsuccess, hfailure⟩ :=
      Watch.report_of_first hrequest hfirst hends hprompt hlimit
    obtain ⟨url, hurl, huser, -⟩ := Task.Client.eq_of_request hrequest
    rw [Watch.requests, hsent, List.length_replicate] at hserver
    refine ⟨hsent, ⟨url, hurl, huser⟩, hserver, hexit, fun hzero => ?_, hfailure⟩
    rw [hsuccess hzero]
    exact ⟨rfl, rfl⟩

-- A task that is found going on at first. That it is done is told too late.
def straggling : Machine where
  environment := fun _ => none
  disk := []
  folder := []
  server n :=
    if n = 0 then .response 200 "\x7b\"runtime\":\x7b\"done\":false\x7d\x7d" true
    else .response 200 "\x7b\"runtime\":\x7b\"done\":true\x7d\x7d" true
  patience := 3
  delay n := 15000 * n

theorem watch_ends_with_first_decision_straggling :
    let arguments := ["task", "watch", "--base-url=" ++ "http://[::1]:8080",
      "--interval-ms=" ++ toString (20000 : UInt64).toNat, "--", toString (-7 : Int)]
    let report := (straggling.run arguments).1
    let m' := (straggling.run arguments).2
    (m'.server = fun i => straggling.server (i + 2)) ∧
    report.ending = .failed ("Task -7 failed: error sending request for url " ++
      "(http://[::1]:8080/api/v1/system/tasks/-7)") := by
  intro arguments report m'
  have hline : Invocation.ofArguments arguments =
      .ok ⟨false, none, some "http://[::1]:8080", .watchTask (-7) (some 20000)⟩ :=
    Invocation.ofArguments_watch (by decide) (by decide) _ _
  have hload : Project.load straggling.disk straggling.folder straggling.folder.toText =
      .ok ⟨[], {}⟩ := by
    rfl
  obtain ⟨-, hfirst⟩ := watch_ends_with_first_decision hline hload
  let l := straggling.layers ⟨[], {}⟩
    ⟨false, none, some "http://[::1]:8080", .watchTask (-7) (some 20000)⟩
  let w := straggling.watch l ((Project.chosenLocale? ⟨[], {}⟩ straggling.disk).getD
    l.effectiveLocale) (-7) (some 20000)
  let url : Http.Url :=
    ⟨"http", none, some "[::1]:8080", "/api/v1/system/tasks/-7", none, none⟩
  have hrequest : w.client.request (-7) = .ok ⟨url, "application/json", none, none⟩ := by decide
  have hinterval : w.started.interval = 20000 := by decide
  have hduration : w.duration 1 = 10000 := by decide
  have hpending : (w.received straggling.server 0).Tells ⟨none, none, .pending⟩ :=
    .response rfl rfl (by decide +kernel)
  have hlate : w.received straggling.server 1 = .refused := by rfl
  have hgoing : ∀ i < 1, ∃ s, (w.received straggling.server i).Tells s ∧
      s.runtime.done = false := by
    intro i hi
    obtain rfl : i = 0 := by omega
    exact ⟨_, hpending, rfl⟩
  have hends : ∀ s, ¬ (w.received straggling.server 1).Tells s := by
    intro s
    rw [hlate]
    exact nofun
  obtain ⟨-, -, hserver, hexit, -, hfailure⟩ := hfirst 1 _ hrequest hgoing
    (fun ⟨s, hs, _⟩ => hends s hs) (by rw [hduration, hinterval]; decide)
    (by rw [hduration, hinterval]; decide)
  refine ⟨hserver, ?_⟩
  have hnonzero : report.ending.exitCode ≠ 0 := by
    intro hzero
    obtain ⟨s, hs, -⟩ := hexit.mp hzero
    exact hends s hs
  obtain ⟨message, htold, ⟨s, hs, -⟩ | ⟨failure, hread, rfl⟩⟩ := hfailure hnonzero
  · exact absurd hs (hends s)
  · rw [hlate, Task.Client.read_refused] at hread
    obtain rfl := Except.error.inj hread
    have hurl : url.toText = "http://[::1]:8080/api/v1/system/tasks/-7" := by decide
    rw [htold.ending, Task.Failure.message, hurl]
    rfl

end Console

end BotConsole
