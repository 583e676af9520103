import BotConsole.Poll.Clock
import BotConsole.Proofs.Poll.Timed

namespace BotConsole.Poll

namespace Poller

variable {p q : Poller}

theorem earlier_eq (a b : Option (Nat × Due)) : earlier a b = a ∨ earlier a b = b := by
  unfold earlier
  split
  · split
    · exact .inr rfl
    · exact .inl rfl
  · exact .inl rfl
  · exact .inr rfl

theorem earlier_le {a b : Option (Nat × Due)} {y : Nat × Due} (hy : a = some y ∨ b = some y) :
    ∃ x, earlier a b = some x ∧ x.1 ≤ y.1 := by
  cases a with
  | none =>
    cases b with
    | none => simp at hy
    | some b => exact ⟨b, rfl, by simp_all⟩
  | some a =>
    cases b with
    | none => exact ⟨a, rfl, by simp_all⟩
    | some b =>
      simp only [Option.some.injEq] at hy
      by_cases hlt : b.1 < a.1
      · refine ⟨b, by simp [earlier, hlt], ?_⟩
        rcases hy with rfl | rfl <;> omega
      · refine ⟨a, by simp [earlier, hlt], ?_⟩
        rcases hy with rfl | rfl <;> omega

theorem foldl_earlier_mem (events : List (Option (Nat × Due))) (first : Option (Nat × Due)) :
    events.foldl earlier first ∈ first :: events := by
  induction events generalizing first with
  | nil => exact List.mem_singleton.mpr rfl
  | cons event events ih =>
    rcases List.mem_cons.mp (ih (earlier first event)) with he | hm
    · rcases earlier_eq first event with hfirst | hevent
      · rw [List.foldl_cons, he, hfirst]
        exact List.mem_cons_self
      · rw [List.foldl_cons, he, hevent]
        exact List.mem_cons_of_mem _ List.mem_cons_self
    · exact List.mem_cons_of_mem _ (List.mem_cons_of_mem _ hm)

theorem foldl_earlier_le (events : List (Option (Nat × Due))) (first : Option (Nat × Due))
    {y : Nat × Due} (hy : some y ∈ first :: events) :
    ∃ x, events.foldl earlier first = some x ∧ x.1 ≤ y.1 := by
  induction events generalizing first y with
  | nil => exact ⟨y, (List.mem_singleton.mp hy).symm, Nat.le_refl _⟩
  | cons event events ih =>
    rw [List.foldl_cons]
    rcases List.mem_cons.mp hy with hfirst | hy
    · obtain ⟨x, hx, hle⟩ := earlier_le (b := event) (.inl hfirst.symm)
      obtain ⟨z, hz, hle'⟩ := ih (earlier first event) (y := x) (by rw [hx]; exact .head _)
      exact ⟨z, hz, Nat.le_trans hle' hle⟩
    · rcases List.mem_cons.mp hy with hevent | hy
      · obtain ⟨x, hx, hle⟩ := earlier_le (a := first) (.inr hevent.symm)
        obtain ⟨z, hz, hle'⟩ := ih (earlier first event) (y := x) (by rw [hx]; exact .head _)
        exact ⟨z, hz, Nat.le_trans hle' hle⟩
      · exact ih _ (List.mem_cons_of_mem _ hy)

def Has (p : Poller) (due : Nat) : Due → Prop
  | .tick t => t ∈ p.timers ∧ t.due p.interval = due
  | .landing place f => p.flights[place]? = some f ∧ f.due = due

theorem Has.agree {due : Nat} {event : Due} (hh : p.Has due event) (ha : Agree p q) :
    q.Has due event := by
  cases event with
  | tick t => exact ⟨ha.timers ▸ hh.1, ha.interval ▸ hh.2⟩
  | landing place f => exact ⟨ha.flights ▸ hh.1, hh.2⟩

theorem next?_mem {due : Nat} {event : Due} (hn : p.next? = some (due, event)) :
    p.Has due event := by
  unfold next? at hn
  have hm := hn ▸ foldl_earlier_mem _ none
  simp only [List.mem_cons, reduceCtorEq, List.mem_append, List.mem_map, Option.some.injEq,
    Prod.mk.injEq, false_or] at hm
  rcases hm with ⟨⟨f, place⟩, hf, rfl, rfl⟩ | ⟨t, ht, rfl, rfl⟩
  · exact ⟨List.mk_mem_zipIdx_iff_getElem?.mp hf, rfl⟩
  · exact ⟨ht, rfl⟩

theorem next?_le {due : Nat} {event : Due} (hh : p.Has due event) :
    ∃ x, p.next? = some x ∧ x.1 ≤ due := by
  refine foldl_earlier_le _ none (y := (due, event)) (List.mem_cons_of_mem _ ?_)
  rw [List.mem_append]
  cases event with
  | tick t => exact .inr (List.mem_map.mpr ⟨t, hh.1, by rw [hh.2]⟩)
  | landing place f =>
    exact .inl (List.mem_map.mpr ⟨(f, place), List.mk_mem_zipIdx_iff_getElem?.mpr hh.1,
      by simp only [hh.2]⟩)

theorem idleUntil_of_has {time : Nat} (hh : ∀ due event, p.Has due event → time ≤ due) :
    p.IdleUntil time := by
  refine ⟨fun t ht => hh _ (.tick t) ⟨ht, rfl⟩, fun f hf => ?_⟩
  obtain ⟨place, hplace⟩ := List.getElem?_of_mem hf
  exact hh _ (.landing place f) ⟨hplace, rfl⟩

theorem idleUntil_next? {due : Nat} {event : Due} (hn : p.next? = some (due, event)) :
    p.IdleUntil due := by
  refine idleUntil_of_has fun due' event' hh => ?_
  obtain ⟨x, hx, hle⟩ := next?_le hh
  rw [hn] at hx
  obtain rfl := Option.some.inj hx
  exact hle

theorem idleUntil_of_next?_eq_none (hn : p.next? = none) (time : Nat) : p.IdleUntil time := by
  refine idleUntil_of_has fun due event hh => ?_
  obtain ⟨x, hx, -⟩ := next?_le hh
  rw [hn] at hx
  cases hx

end Poller

namespace Timer

variable {t : Timer} {interval time now : Nat}

-- How many fetches of a timer are still to come until a time.
def rest (interval time : Nat) (t : Timer) : Nat :=
  (time - t.begun) / interval - t.fetches

theorem lt_due_of_rest (hi : 0 < interval) (hr : t.rest interval time = 0) :
    time < t.due interval := by
  have hlt : (time - t.begun) / interval < t.fetches + 1 := by
    unfold rest at hr
    omega
  rw [Nat.div_lt_iff_lt_mul hi] at hlt
  unfold due
  omega

theorem rest_fetch (hi : 0 < interval) (hd : t.due interval ≤ time) :
    rest interval time { t with fetches := t.fetches + 1 } + 1 = t.rest interval time := by
  have hle : t.fetches + 1 ≤ (time - t.begun) / interval := by
    rw [Nat.le_div_iff_mul_le hi]
    unfold due at hd
    omega
  simp only [rest]
  omega

-- From one fetch to the next at least a moment passes.
theorem rest_le (hi : 0 < interval) (hnow : now ≤ t.due interval) (hle : now ≤ time) :
    t.rest interval time ≤ time + 1 - now := by
  unfold rest
  have hmul := Nat.div_mul_le_self (time - t.begun) interval
  by_cases hf : (time - t.begun) / interval ≤ t.fetches
  · omega
  · obtain ⟨more, hmore⟩ := Nat.exists_eq_add_of_lt (Nat.lt_of_not_le hf)
    have hpos : more ≤ more * interval := Nat.le_mul_of_pos_right more hi
    rw [hmore] at hmul ⊢
    unfold due at hnow
    have hsplit : (t.fetches + more + 1) * interval =
        (t.fetches + 1) * interval + more * interval := by
      rw [← Nat.add_mul]
      congr 1
      omega
    omega

-- A timer that begins now has no more to do than one that goes on.
theorem rest_of_begun (time : Nat) (hi : 0 < interval) (hb : t.begun + t.fetches * interval ≤ now) :
    (time - now) / interval ≤ t.rest interval time := by
  by_cases hle : now ≤ time
  · have hge : t.fetches + (time - now) / interval ≤ (time - t.begun) / interval := by
      rw [Nat.le_div_iff_mul_le hi, Nat.add_mul]
      have := Nat.div_mul_le_self (time - now) interval
      omega
    unfold rest
    omega
  · rw [Nat.sub_eq_zero_of_le (by omega), Nat.zero_div]
    exact Nat.zero_le _

end Timer

namespace Poller

variable {p q : Poller} {source : Source} {interval time : Nat} {carried : List (Nat × Flight)}
  {h : History}

-- How much is still to happen until a time: what is on its way, and every fetch to come with its
-- landing. Sessions that are begun in between add nothing to it.
def remaining (p : Poller) (time : Nat) : Nat :=
  2 * p.timers.foldr (fun t n => t.rest p.interval time + n) 0 + p.flights.length

theorem remaining_agree (ha : Agree p q) : q.remaining time = p.remaining time := by
  simp [remaining, ha.timers, ha.interval, ha.flights]

theorem idleUntil_of_remaining (hs : Sound p carried h) (hr : p.remaining time = 0) :
    p.IdleUntil (time + 1) := by
  obtain ⟨htimers, hflights⟩ : p.timers.foldr (fun t n => t.rest p.interval time + n) 0 = 0 ∧
      p.flights.length = 0 := by
    unfold remaining at hr
    omega
  refine ⟨fun t ht => ?_, fun f hf => ?_⟩
  · rw [hs.eq_timer ht] at htimers
    exact Timer.lt_due_of_rest hs.interval htimers
  · rw [List.length_eq_zero_iff.mp hflights] at hf
    cases hf

theorem remaining_le_fuel (hs : Sound p carried h) (ht : p.Timely) (hle : p.now ≤ time) :
    p.remaining time ≤ p.fuel time := by
  unfold remaining fuel
  rcases hp : p.timers with _ | ⟨t, rest⟩
  · simp only [List.foldr_nil]
    omega
  · have hm : t ∈ p.timers := by simp [hp]
    have heq := hs.eq_timer hm
    have hrest := Timer.rest_le hs.interval (ht t hm).2 hle
    rw [← hp, heq]
    simp only [List.foldr_cons, List.foldr_nil]
    omega

theorem remaining_tick (hs : Sound p carried h) {t : Timer} (hm : t ∈ p.timers)
    (hd : t.due p.interval ≤ time) :
    (p.tick source t).remaining time + 1 = p.remaining time := by
  have hrest := Timer.rest_fetch hs.interval hd
  have htimers := hs.timers_tick source hm
  unfold remaining
  rw [htimers, hs.eq_timer hm, Poller.tick_of_current source (hs.timer_isCurrent hm)]
  simp only [record, List.foldr_cons, List.foldr_nil, List.length_append, List.length_singleton]
  omega

-- Only a session that goes on can end, and it has a timer.
theorem timers_land_of_nil (hs : Sound p carried h) {place : Nat} {f : Flight}
    (hf : p.flights[place]? = some f) (hn : p.timers = []) : (p.land place f).timers = [] := by
  rw [hs.flights, List.getElem?_map, Option.map_eq_some_iff] at hf
  obtain ⟨⟨session, g⟩, hg, rfl⟩ := hf
  have hstale : p.session.isCurrent g.generation = false := by
    rw [← Bool.not_eq_true, hs.isCurrent_iff (hs.carries _ (List.mem_of_getElem? hg))]
    rintro ⟨hc, hv⟩
    have htimers := hs.timers
    rw [hn, (hs.current session hc).2, hv] at htimers
    cases htimers
  unfold land apply
  simp only [commit_of_stale (p := { p with flights := p.flights.eraseIdx place }) g.task
    g.result hstale]
  exact hn

theorem remaining_land (hs : Sound p carried h) (ht : p.Timely) {place : Nat} {f : Flight}
    (hf : p.flights[place]? = some f) {carried' : List (Nat × Flight)} {h' : History}
    (hs' : Sound (p.land place f) carried' h') :
    (p.land place f).remaining time + 1 ≤ p.remaining time := by
  have hland := onward_land p place f
  have hlt : place < p.flights.length := (List.getElem?_eq_some_iff.mp hf).1
  have htimers : (p.land place f).timers.foldr (fun t n => t.rest p.interval time + n) 0 ≤
      p.timers.foldr (fun t n => t.rest p.interval time + n) 0 := by
    rcases hp : (p.land place f).timers with _ | ⟨t, rest⟩
    · simp
    · have hm : t ∈ (p.land place f).timers := by simp [hp]
      rw [← hp, hs'.eq_timer hm]
      rcases hland.timers t hm with hm | ⟨hb, hfetches⟩
      · exact Nat.le_of_eq (by rw [hs.eq_timer hm])
      · rcases hold : p.timers with _ | ⟨old, olds⟩
        · rw [timers_land_of_nil hs hf hold] at hp
          cases hp
        · have hmold : old ∈ p.timers := by simp [hold]
          have hle := Timer.rest_of_begun time hs.interval (ht old hmold).1
          rw [← hold, hs.eq_timer hmold]
          simpa [Timer.rest, hb, hfetches] using hle
  unfold remaining
  rw [hland.interval, hland.flights]
  simp only [List.length_eraseIdx_of_lt hlt]
  omega

theorem happen_now (source : Source) (p : Poller) (event : Due) :
    (p.happen source event).now = p.now := by
  cases event with
  | tick t =>
    simp only [happen, tick]
    split <;> rfl
  | landing place f => exact (onward_land p place f).now

theorem remaining_happen (hs : Sound p carried h) (ht : p.Timely) {due : Nat} {event : Due}
    (hh : p.Has due event) (hle : due ≤ time) {carried' : List (Nat × Flight)} {h' : History}
    (hs' : Sound (p.happen source event) carried' h') :
    (p.happen source event).remaining time + 1 ≤ p.remaining time := by
  cases event with
  | tick t =>
    obtain ⟨hm, rfl⟩ := hh
    exact Nat.le_of_eq (remaining_tick hs hm hle)
  | landing place f => exact remaining_land hs ht hh.1 hs'

end Poller

namespace Moment

variable {source : Source} {m : Moment}

theorem timed_happen (source : Source) (hm : m.Consistent) (ha : m.agenda = []) {due : Nat}
    {event : Due} (hh : m.poller.Has due event) (hle : due ≤ m.poller.now) :
    ∃ m', Timed source m m' ∧ m'.agenda = [] ∧ m'.poller = m.poller.happen source event := by
  cases event with
  | tick t =>
    obtain ⟨hmem, rfl⟩ := hh
    have htimers := hm.sound.eq_timer hmem
    have hpunctual : m.Punctual (.tick t.number) := by
      intro u hu _
      rw [htimers, List.mem_singleton] at hu
      exact hu ▸ hle
    refine ⟨_, .accept ha hpunctual, ?_⟩
    simp [accept, htimers, tick, ha, Poller.happen]
  | landing place f =>
    obtain ⟨hplace, rfl⟩ := hh
    have hpunctual : m.Punctual (.land place) := by
      intro g hg
      obtain rfl := Option.some.inj (hplace.symm.trans hg)
      exact hle
    have hflights := hm.sound.flights
    rw [hflights, List.getElem?_map, Option.map_eq_some_iff] at hplace
    obtain ⟨⟨session, g⟩, hcarried, rfl⟩ := hplace
    have haccept : Timed source m _ := .accept ha hpunctual
    simp only [accept, hcarried] at haccept
    obtain ⟨history, hlead⟩ := leadsTo_land source m ha place session g
    exact ⟨_, haccept.trans hlead.timed, ha, rfl⟩

end Moment

namespace Poller

variable {p q r : Poller} {source : Source} {time : Nat}

-- Some history explains the poller, and no timer is ahead of its time or behind it.
structure Steady (p : Poller) : Prop where
  explained : ∃ carried h, Sound p carried h
  timely : p.Timely

namespace Steady

theorem settle (hp : p.Steady) : p.settle.Steady := by
  obtain ⟨carried, h, hs⟩ := hp.explained
  have ha := agree_settle p
  exact ⟨⟨carried, h, hs.agree ha⟩, hp.timely.onward (.of_agree ha)⟩

theorem elapse (hp : p.Steady) (hle : p.now ≤ time) (hi : p.IdleUntil time) :
    Steady { p with now := time } := by
  obtain ⟨carried, h, hs⟩ := hp.explained
  exact ⟨⟨carried, h, hs.elapse time⟩, hp.timely.elapse hle hi⟩

theorem happen (hp : p.Steady) (source : Source) {due : Nat} {event : Due}
    (hh : p.Has due event) (hle : due ≤ p.now) : (p.happen source event).Steady := by
  obtain ⟨carried, h, hs⟩ := hp.explained
  have hm : Moment.Consistent ⟨p, [], carried, h⟩ := ⟨hs, fun hne => absurd rfl hne⟩
  obtain ⟨m', htimed, -, hpoller⟩ := Moment.timed_happen source hm rfl hh hle
  have hs' := (htimed.consistent hm).sound
  have ht' : m'.poller.Timely := htimed.timely hm hp.timely
  rw [hpoller] at hs' ht'
  exact ⟨⟨m'.carried, m'.history, hs'⟩, ht'⟩

end Steady

-- What the clock leads to by itself: those who watch look, time goes on to where nothing is due
-- before, and what is due happens.
inductive Passes (source : Source) (p : Poller) : Poller → Prop where
  | refl : Passes source p p
  | settle {q : Poller} (h : Passes source p q) : Passes source p q.settle
  | elapse {q : Poller} {time : Nat} (h : Passes source p q) (hle : q.now ≤ time)
    (hi : q.IdleUntil time) : Passes source p { q with now := time }
  | happen {q : Poller} {due : Nat} {event : Due} (h : Passes source p q) (hh : q.Has due event)
    (hle : due ≤ q.now) : Passes source p (q.happen source event)

namespace Passes

theorem trans (h : Passes source p q) (h' : Passes source q r) : Passes source p r := by
  induction h' with
  | refl => exact h
  | settle _ ih => exact .settle ih
  | elapse _ hle hi ih => exact .elapse ih hle hi
  | happen _ hh hle ih => exact .happen ih hh hle

theorem steady (hp : p.Steady) (h : Passes source p q) : q.Steady := by
  induction h with
  | refl => exact hp
  | settle _ ih => exact ih.settle
  | elapse _ hle hi ih => exact ih.elapse hle hi
  | happen _ hh hle ih => exact ih.happen source hh hle

theorem now_le (h : Passes source p q) : p.now ≤ q.now := by
  induction h with
  | refl => exact Nat.le_refl _
  | settle _ ih => exact Nat.le_trans ih (Nat.le_of_eq (agree_settle _).now.symm)
  | elapse _ hle _ ih => exact Nat.le_trans ih hle
  | happen _ _ _ ih => exact Nat.le_trans ih (Nat.le_of_eq (happen_now source _ _).symm)

theorem next (source : Source) (time : Nat) {due : Nat} {event : Due}
    (hn : p.next? = some (due, event)) :
    ∃ q, Passes source p q ∧
      q = (if p.now < due then { p.settle with now := due } else p) ∧
      q.Has due event ∧ due ≤ q.now ∧ (due ≤ time → p.now ≤ time → q.now ≤ time) ∧
      q.remaining time = p.remaining time := by
  by_cases hnow : p.now < due
  · have ha := agree_settle p
    have hidle := (idleUntil_next? hn).agree ha
    have hle : p.settle.now ≤ due := ha.now ▸ Nat.le_of_lt hnow
    have hhas : p.settle.Has due event := (next?_mem hn).agree ha
    have hrest : p.settle.remaining time = p.remaining time := remaining_agree ha
    rw [if_pos hnow]
    exact ⟨_, .elapse (.settle .refl) hle hidle, rfl, hhas, Nat.le_refl _, fun hdue _ => hdue,
      hrest⟩
  · rw [if_neg hnow]
    exact ⟨p, .refl, rfl, next?_mem hn, Nat.le_of_not_lt hnow, fun _ hle => hle, rfl⟩

theorem advance (source : Source) (fuel : Nat) (hp : p.Steady) (hle : p.now ≤ time)
    (hr : p.remaining time ≤ fuel) :
    Passes source p (p.advance source time fuel) ∧ (p.advance source time fuel).now ≤ time ∧
      (p.advance source time fuel).IdleUntil (time + 1) := by
  -- every event lowers what remains, so the fuel does not run out before it
  induction fuel generalizing p with
  | zero =>
    obtain ⟨carried, h, hs⟩ := hp.explained
    exact ⟨.refl, hle, idleUntil_of_remaining hs (Nat.eq_zero_of_le_zero hr)⟩
  | succ fuel ih =>
    rcases hn : p.next? with _ | ⟨due, event⟩
    · simp only [Poller.advance, hn]
      exact ⟨.refl, hle, idleUntil_of_next?_eq_none hn _⟩
    · by_cases hlt : time < due
      · simp only [Poller.advance, hn, if_pos hlt]
        exact ⟨.refl, hle, (idleUntil_next? hn).mono hlt⟩
      · have hdue := Nat.le_of_not_lt hlt
        simp only [Poller.advance, hn, if_neg hlt]
        obtain ⟨q, hpass, hq, hhas, hnow, hle', hrest⟩ := next source time hn
        rw [← hq]
        have hsteady := (hpass.steady hp).happen source hhas hnow
        obtain ⟨carried, h, hs⟩ := (hpass.steady hp).explained
        obtain ⟨carried', h', hs'⟩ := hsteady.explained
        have hless := remaining_happen hs (hpass.steady hp).timely hhas hdue hs'
        have hle'' : (q.happen source event).now ≤ time := by
          rw [happen_now]
          exact hle' hdue hle
        obtain ⟨hrun, hend⟩ := ih hsteady hle'' (by omega)
        exact ⟨(hpass.happen hhas hnow).trans hrun, hend⟩

-- What `fuel` counts is enough for everything that is due until a time.
theorem advance_fuel (source : Source) (hp : p.Steady) (hle : p.now ≤ time) :
    Passes source p (p.advance source time (p.fuel time)) ∧
      (p.advance source time (p.fuel time)).now ≤ time ∧
      (p.advance source time (p.fuel time)).IdleUntil (time + 1) := by
  obtain ⟨carried, h, hs⟩ := hp.explained
  exact advance source _ hp hle (remaining_le_fuel hs hp.timely hle)

theorem sleep (source : Source) (hp : p.Steady) (duration : Nat) :
    Passes source p (p.sleep source duration) ∧ (p.sleep source duration).Settled := by
  obtain ⟨hpass, hnow, hidle⟩ := advance_fuel source hp (Nat.le_add_right p.now duration)
  have ha := agree_settle (p.advance source (p.now + duration) (p.fuel (p.now + duration)))
  have hidle' := hidle.agree ha
  exact ⟨.elapse hpass.settle (ha.now ▸ hnow) (hidle'.mono (Nat.le_succ _)), hidle'.timers,
    hidle'.flights⟩

end Passes

end Poller

namespace Moment

variable {source : Source} {m : Moment} {q : Poller}

-- The clock by itself does nothing that a run which keeps to the clock does not do.
theorem timed_of_passes (hm : m.Consistent) (ha : m.agenda = [])
    (h : Poller.Passes source m.poller q) :
    ∃ m', Timed source m m' ∧ m'.agenda = [] ∧ m'.poller = q := by
  induction h with
  | refl => exact ⟨m, .refl, ha, rfl⟩
  | settle _ ih =>
    obtain ⟨m', htimed, ha', rfl⟩ := ih
    have hsettle : Timed source m' (m'.accept source .settle) := .accept ha' trivial
    exact ⟨_, htimed.trans hsettle, ha', rfl⟩
  | @elapse q time _ hle hi ih =>
    obtain ⟨m', htimed, ha', rfl⟩ := ih
    have hnow : m'.poller.now + (time - m'.poller.now) = time := by omega
    have helapse : m'.Punctual (.elapse (time - m'.poller.now)) := by
      show m'.poller.IdleUntil (m'.poller.now + (time - m'.poller.now))
      rw [hnow]
      exact hi
    refine ⟨_, htimed.trans (.accept ha' helapse), ha', ?_⟩
    simp only [accept, hnow]
  | happen _ hh hle ih =>
    obtain ⟨m', htimed, ha', rfl⟩ := ih
    obtain ⟨m₁, htimed₁, ha₁, hpoller⟩ :=
      timed_happen source (htimed.consistent hm) ha' hh hle
    exact ⟨m₁, htimed.trans htimed₁, ha₁, hpoller⟩

theorem timed_sleep (source : Source) (hm : m.Consistent) (ha : m.agenda = [])
    (ht : m.poller.Timely) (duration : Nat) :
    ∃ m', Timed source m m' ∧ m'.agenda = [] ∧ m'.poller = m.poller.sleep source duration ∧
      m'.poller.Settled := by
  have hsteady : m.poller.Steady := ⟨⟨m.carried, m.history, hm.sound⟩, ht⟩
  obtain ⟨hpass, hsettled⟩ := Poller.Passes.sleep source hsteady duration
  obtain ⟨m', htimed, ha', hpoller⟩ := timed_of_passes hm ha hpass
  exact ⟨m', htimed, ha', hpoller, hpoller ▸ hsettled⟩

end Moment

end BotConsole.Poll
