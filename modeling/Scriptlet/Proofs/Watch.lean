import Mathlib
import Scriptlet.Watch

/-!
# No change is forgotten

A change to the watched file makes the watch stop its timer, take the tick that may be waiting, and
start the timer anew. These are three operations, and the timer may run out before, between and after
them. So the watch is looked at here between any two operations: it is in one of a few phases, and
what it does next depends on the phase and on the timer.

The invariant is that at its wait the timer is running, or has left its tick, exactly if there was a
change after the last run of the file. The operations of one change may be taken for one step, which
is done when the timer is started; so the watch that makes single steps passes through the same states.

## Main definitions

* `Watch.Concerns`: a change after which the file has to be run again
* `Watch.Phase`, `Watch.Point`, `Watch.Move`: a watch between two operations, and what it does next
* `Watch.Reached`: the points that a watch gets to, with what has happened on the way
* `Watch.Due`: a change has happened after the last run of the file

## Main statements

* `Watch.Move.holds`: every operation keeps the invariant
* `Watch.Reached.tracked`: the invariant holds wherever a watch gets to
* `Watch.reruns_of_reached`: a watch neither loses nor invents a run of its file
-/

namespace Scriptlet.Watch

/-- Something was done to the target after which its content may be new. -/
inductive Concerns (target : String) : Event → Prop where
  | change {name : String} {operations : List Operation}
      (hn : Path.clean name = Path.clean target)
      (ho : ∃ o ∈ operations, o = .write ∨ o = .create ∨ o = .rename) :
      Concerns target (.change name operations)

theorem isRelevant_iff {target name : String} {operations : List Operation} :
    isRelevant target name operations ↔ Concerns target (.change name operations) := by
  simp only [isRelevant, Bool.and_eq_true, beq_iff_eq, List.any_eq_true, Bool.or_eq_true, or_assoc]
  constructor
  · rintro ⟨hn, ho⟩
    exact .change hn ho
  · rintro ⟨hn, ho⟩
    exact ⟨hn, ho⟩

instance (target : String) : DecidablePred (Concerns target)
  | .change _ _ => decidable_of_iff _ isRelevant_iff
  | .expire | .tick | .cancel | .eventsClosed | .errorsClosed | .error _ => .isFalse nofun

/-- How an event ends the watch that receives it, if it does. -/
def Event.ending? : Event → Option Ending
  | .cancel | .eventsClosed | .errorsClosed => some .normal
  | .error message => some (.failed message)
  | .change .. | .expire | .tick => none

/-! ## Operation by operation -/

/-- Where a watch is between two operations. While a change is dealt with, the phase holds it. -/
inductive Phase where
  /-- The timer is new and has to be stopped. -/
  | setup
  /-- The new timer ran out before it was stopped, and its tick has to come. -/
  | clearing
  /-- The watch waits for whatever comes first. -/
  | waiting
  | stopping (change : Event)
  | draining (change : Event)
  | starting (change : Event)

/-- A watch between two operations. -/
structure Point where
  phase : Phase
  state : State

/-- A new timer is running. -/
def Point.initial (target : String) : Point := ⟨.setup, { target, timer := .running }⟩

/--
One operation, with the event that it completes, if any. Time may pass in every phase. A change is
complete only when the timer has been started anew.
-/
inductive Move : Point → Option Event → Point → Prop where
  | expire {phase s} (he : s.ending = none) :
      Move ⟨phase, s⟩ (some .expire) ⟨phase, { s with timer := s.timer.expire }⟩
  | setup {s} :
      Move ⟨.setup, s⟩ none
        ⟨if s.timer.stop.2 then .waiting else .clearing, { s with timer := s.timer.stop.1 }⟩
  | clear {s} (ht : s.timer = .expired) :
      Move ⟨.clearing, s⟩ none ⟨.waiting, { s with timer := s.timer.drain }⟩
  | receive {s e} (he : s.ending = none) (hc : ¬ Concerns s.target e) (hx : e ≠ .expire)
      (ht : e = .tick → s.timer = .expired) :
      Move ⟨.waiting, s⟩ (some e) ⟨.waiting, s.next e⟩
  | notice {s e} (he : s.ending = none) (hc : Concerns s.target e) :
      Move ⟨.waiting, s⟩ none ⟨.stopping e, s⟩
  | stop {s e} :
      Move ⟨.stopping e, s⟩ none
        ⟨if s.timer.stop.2 then .starting e else .draining e, { s with timer := s.timer.stop.1 }⟩
  | drain {s e} :
      Move ⟨.draining e, s⟩ none ⟨.starting e, { s with timer := s.timer.drain }⟩
  | start {s e} :
      Move ⟨.starting e, s⟩ (some e) ⟨.waiting, { s with timer := s.timer.start }⟩

/-- The points that a watch of `target` gets to, with the events that were completed on the way. -/
inductive Reached (target : String) : List Event → Point → Prop where
  | initial : Reached target [] (.initial target)
  | step {events p e q} (h : Reached target events p) (hm : Move p e q) :
      Reached target (events ++ e.toList) q

/-- A change has been dealt with, and after it no tick was received. -/
def Due (target : String) (events : List Event) : Prop :=
  ∃ before e after, events = before ++ e :: after ∧ Concerns target e ∧ Event.tick ∉ after

theorem not_due_nil {target : String} : ¬ Due target [] := by
  rintro ⟨before, e, after, h, -⟩
  simp at h

theorem due_concat {target : String} {events : List Event} {e : Event} :
    Due target (events ++ [e]) ↔ Concerns target e ∨ e ≠ .tick ∧ Due target events := by
  constructor
  · rintro ⟨before, c, after, h, hc, ht⟩
    rcases List.eq_nil_or_concat after with rfl | ⟨after, e', rfl⟩
    · obtain ⟨-, rfl⟩ : events = before ∧ e = c := by simpa using h
      exact .inl hc
    · have h' : events ++ [e] = before ++ c :: after ++ [e'] := by simpa using h
      obtain ⟨rfl, he⟩ := List.append_inj' h' rfl
      obtain rfl := List.singleton_inj.mp he
      simp only [List.concat_eq_append, List.mem_append, List.mem_singleton, not_or] at ht
      exact .inr ⟨Ne.symm ht.2, before, c, after, rfl, hc, ht.1⟩
  · rintro (hc | ⟨hn, before, c, after, rfl, hc, ht⟩)
    · exact ⟨events, e, [], rfl, hc, by simp⟩
    · exact ⟨before, c, after ++ [e], by simp, hc, by simp [ht, Ne.symm hn]⟩

/-! ## The invariant -/

/--
What holds in each phase. Here `due` says whether a change was dealt with after the last tick, and `c`
is the state of a watch that makes single steps. Between the start of the timer and the stop before it
the two timers may differ, but not at the wait.
-/
def Phase.Holds (due : Prop) (s c : State) : Phase → Prop
  | .setup => s.ending = none ∧ ¬ due ∧ s.timer ≠ .stopped ∧ c = { s with timer := .stopped }
  | .clearing => s.ending = none ∧ ¬ due ∧ s.timer = .expired ∧ c = { s with timer := .stopped }
  | .waiting => (s.timer ≠ .stopped ↔ due) ∧ c = s
  | .stopping e => s.ending = none ∧ Concerns s.target e ∧ (s.timer ≠ .stopped ↔ due) ∧ c = s
  | .draining e =>
    s.ending = none ∧ Concerns s.target e ∧ s.timer ≠ .running ∧ c = { s with timer := c.timer }
  | .starting e =>
    s.ending = none ∧ Concerns s.target e ∧ s.timer = .stopped ∧ c = { s with timer := c.timer }

namespace Timer

theorem expire_ne_stopped_iff (t : Timer) : t.expire ≠ stopped ↔ t ≠ stopped := by
  cases t <;> decide

theorem expire_of_stopped {t : Timer} (h : t = stopped) : t.expire = stopped := by
  rw [h]
  rfl

theorem expire_ne_running (t : Timer) : t.expire ≠ running := by
  cases t <;> decide

theorem drain_of_ne_running {t : Timer} (h : t ≠ running) : t.drain = stopped := by
  cases t <;> simp_all [drain]

end Timer

theorem run_concat (s : State) (events : List Event) (e : Event) :
    run s (events ++ [e]) = step (run s events) e := by
  simp [run]

theorem step_of_ending_eq_none {s : State} (h : s.ending = none) (e : Event) :
    step s e = s.next e := by
  simp [step, h]

/-- After a change the timer runs, whatever it did before. -/
theorem step_of_concerns {s : State} {timer : Timer} {e : Event} (he : s.ending = none)
    (h : Concerns s.target e) : step { s with timer } e = { s with timer := .running } := by
  cases h with
  | change hn ho => simp [step, he, State.next, isRelevant_iff.mpr (.change hn ho)]

/-- What a watch is told about other files, or about changes that leave the content alone. -/
theorem next_change_of_not_concerns {s : State} {name : String} {operations : List Operation}
    (h : ¬ Concerns s.target (.change name operations)) : s.next (.change name operations) = s := by
  simp [State.next, Bool.eq_false_iff.mpr fun hr => h (isRelevant_iff.mp hr)]

/-- The timer runs or has left its tick exactly while a change is due, whatever is received. -/
theorem timer_next_iff {target : String} {events : List Event} {s : State} {e : Event}
    (hs : s.timer ≠ .stopped ↔ Due target events) (hc : ¬ Concerns target e)
    (hx : e ≠ .expire) (ht : e = .tick → s.timer = .expired) (htarget : s.target = target) :
    (s.next e).timer ≠ .stopped ↔ Due target (events ++ [e]) := by
  subst htarget
  rw [due_concat]
  cases e with
  | change name operations => simp [next_change_of_not_concerns hc, hc, hs]
  | expire => exact absurd rfl hx
  | tick => simp [State.next, ht rfl, Timer.drain, hc]
  | cancel | eventsClosed | errorsClosed | error message => simp [State.next, hs, hc]

/-- Time changes no timer that is stopped, and leaves every other one due. -/
theorem Phase.Holds.expire {phase : Phase} {target : String} {events : List Event} {s : State}
    (he : s.ending = none) (h : phase.Holds (Due target events) s (run { target } events)) :
    phase.Holds (Due target (events ++ [.expire])) { s with timer := s.timer.expire }
      (run { target } (events ++ [.expire])) := by
  have hdue : Due target (events ++ [.expire]) ↔ Due target events := by
    rw [due_concat]
    exact ⟨fun h => h.elim nofun And.right, fun h => .inr ⟨nofun, h⟩⟩
  have hrun : (run { target } events).ending = none →
      run { target } (events ++ [.expire]) =
        { run { target } events with timer := (run { target } events).timer.expire } := by
    intro hn
    rw [run_concat, step_of_ending_eq_none hn]
    rfl
  generalize run { target } events = c at h hrun
  cases phase with
  | setup =>
    obtain ⟨-, hd, ht, rfl⟩ := h
    exact ⟨he, mt hdue.mp hd, s.timer.expire_ne_stopped_iff.mpr ht, hrun he⟩
  | clearing =>
    obtain ⟨-, hd, ht, rfl⟩ := h
    exact ⟨he, mt hdue.mp hd, by rw [ht]; rfl, hrun he⟩
  | waiting =>
    obtain ⟨ht, rfl⟩ := h
    exact ⟨by rw [hdue, ← ht]; exact Timer.expire_ne_stopped_iff _, hrun he⟩
  | stopping e =>
    obtain ⟨-, hc, ht, rfl⟩ := h
    exact ⟨he, hc, by rw [hdue, ← ht]; exact Timer.expire_ne_stopped_iff _, hrun he⟩
  | draining e =>
    obtain ⟨-, hc, -, hs⟩ := h
    rw [hs] at hrun
    exact ⟨he, hc, s.timer.expire_ne_running, by rw [hrun he]⟩
  | starting e =>
    obtain ⟨-, hc, ht, hs⟩ := h
    rw [hs] at hrun
    exact ⟨he, hc, Timer.expire_of_stopped ht, by rw [hrun he]⟩

/-- Every operation keeps the invariant. -/
theorem Move.holds {target : String} {events : List Event} {p q : Point} {e : Option Event}
    (hm : Move p e q) (htarget : p.state.target = target)
    (h : p.phase.Holds (Due target events) p.state (run { target } events)) :
    q.phase.Holds (Due target (events ++ e.toList)) q.state
      (run { target } (events ++ e.toList)) := by
  cases hm with
  | expire he => exact h.expire he
  | @setup s =>
    obtain ⟨he, hd, ht, hc⟩ := h
    simp only [Option.toList_none, List.append_nil]
    cases hs : s.timer with
    | stopped => exact absurd hs ht
    | running => exact ⟨by simp [Timer.stop, hd], by simpa [Timer.stop] using hc⟩
    | expired => exact ⟨he, hd, rfl, by simpa using hc⟩
  | clear ht =>
    obtain ⟨he, hd, -, hc⟩ := h
    simp only [Option.toList_none, List.append_nil]
    exact ⟨by simp [ht, Timer.drain, hd], by simp [ht, Timer.drain, hc]⟩
  | receive he hc hx ht =>
    obtain ⟨htimer, hs⟩ := h
    refine ⟨timer_next_iff htimer (htarget ▸ hc) hx ht htarget, ?_⟩
    rw [Option.toList_some, run_concat, hs, step_of_ending_eq_none he]
  | notice he hc =>
    simp only [Option.toList_none, List.append_nil]
    exact ⟨he, hc, h.1, h.2⟩
  | @stop s e =>
    obtain ⟨he, hc, ht, hs⟩ := h
    simp only [Option.toList_none, List.append_nil]
    cases htimer : s.timer with
    | running => exact ⟨he, hc, rfl, by simp [hs]⟩
    | stopped | expired => exact ⟨he, hc, nofun, by simp [hs]⟩
  | drain =>
    obtain ⟨he, hc, ht, hs⟩ := h
    simp only [Option.toList_none, List.append_nil]
    exact ⟨he, hc, Timer.drain_of_ne_running ht, hs⟩
  | @start s e =>
    obtain ⟨he, hc, ht, hs⟩ := h
    have hstart : s.timer.start = .running := by rw [show s.timer = .stopped from ht]; rfl
    have hdue : Due target (events ++ [e]) := due_concat.mpr (.inl (htarget ▸ hc))
    have hrun : run { target } (events ++ [e]) = { s with timer := .running } := by
      rw [run_concat, hs]
      exact step_of_concerns he hc
    rw [Option.toList_some, hrun, hstart]
    exact ⟨by simp [hdue], rfl⟩

/-- Every tick that was received is paid for by a change, and a change that is due is one more. -/
structure Paid (target : String) (events : List Event) : Prop where
  ticks : ∀ before after, events = before ++ .tick :: after → Due target before
  count_le : events.count .tick ≤ events.countP (Concerns target ·)
  count_lt : Due target events → events.count .tick < events.countP (Concerns target ·)

theorem paid_nil (target : String) : Paid target [] := by
  refine ⟨fun before after h => ?_, by simp, fun h => absurd h not_due_nil⟩
  simp at h

theorem Paid.concat {target : String} {events : List Event} {e : Event} (h : Paid target events)
    (ht : e = .tick → Due target events) : Paid target (events ++ [e]) := by
  have hcount : (events ++ [e]).count .tick ≤ (events ++ [e]).countP (Concerns target ·) := by
    have hle := h.count_le
    by_cases he : e = .tick
    · have hlt := h.count_lt (ht he)
      simp [List.count_append, List.countP_append, he]
      omega
    · simp [List.count_append, List.countP_append, he]
      omega
  refine ⟨fun before after hb => ?_, hcount, fun hd => ?_⟩
  · rcases List.eq_nil_or_concat after with rfl | ⟨after, e', rfl⟩
    · obtain ⟨rfl, he⟩ := List.append_inj' hb rfl
      exact ht (List.singleton_inj.mp he)
    · have hb' : events ++ [e] = before ++ .tick :: after ++ [e'] := by simpa using hb
      exact h.ticks before after (List.append_inj' hb' rfl).1
  · rcases due_concat.mp hd with hc | ⟨hn, hd⟩
    · have hn : e ≠ .tick := by
        rintro rfl
        cases hc
      have hle := h.count_le
      simp [List.count_append, List.countP_append, hn, hc]
      omega
    · have hlt := h.count_lt hd
      simp [List.count_append, List.countP_append, hn]
      omega

/-! ## Whole runs -/

/-- What is known of a watch wherever it is. -/
structure Tracked (target : String) (events : List Event) (p : Point) : Prop where
  target_eq : p.state.target = target
  reruns_eq : p.state.reruns = events.count .tick
  ending_eq : p.state.ending = events.findSome? Event.ending?
  holds : p.phase.Holds (Due target events) p.state (run { target } events)
  paid : Paid target events

@[simp] theorem target_next (s : State) (e : Event) : (s.next e).target = s.target := by
  cases e <;> simp only [State.next] <;> split <;> rfl

theorem Move.target_eq {p q : Point} {e : Option Event} (hm : Move p e q) :
    q.state.target = p.state.target := by
  cases hm with
  | receive => exact target_next ..
  | _ => rfl

theorem not_concerns_tick {target : String} : ¬ Concerns target .tick := nofun

theorem reruns_next {s : State} {e : Event} (ht : e = .tick → s.timer = .expired) :
    (s.next e).reruns = s.reruns + [e].count .tick := by
  cases e with
  | change name operations =>
    simp only [State.next]
    split <;> simp
  | tick => simp [State.next, ht rfl]
  | expire | cancel | eventsClosed | errorsClosed | error => simp [State.next]

theorem ending_next {s : State} (e : Event) (h : s.ending = none) :
    (s.next e).ending = e.ending? := by
  cases e with
  | change name operations =>
    simp only [State.next]
    split <;> exact h
  | tick =>
    simp only [State.next]
    split <;> exact h
  | expire => exact h
  | cancel | eventsClosed | errorsClosed | error => rfl

/-- Only a watch that has not ended does anything. -/
theorem Tracked.ending_eq_none {target : String} {events : List Event} {p q : Point}
    {e : Option Event} (h : Tracked target events p) (hm : Move p e q) : p.state.ending = none := by
  have hh := h.holds
  cases hm with
  | expire he | receive he | notice he => exact he
  | setup | clear | stop | drain | start => exact hh.1

/-- The tick is received at the wait only, where the timer tells whether a change is due. -/
theorem Tracked.due_of_tick {target : String} {events : List Event} {p q : Point}
    (h : Tracked target events p) (hm : Move p (some .tick) q) : Due target events := by
  have hh := h.holds
  cases hm with
  | receive he hc hx ht => exact hh.1.mp (by simp [ht rfl])
  | start => exact absurd hh.2.1 not_concerns_tick

theorem Tracked.reruns_of_move {target : String} {events : List Event} {p q : Point}
    {e : Option Event} (h : Tracked target events p) (hm : Move p e q) :
    q.state.reruns = (events ++ e.toList).count .tick := by
  have hh := h.holds
  rw [List.count_append, ← h.reruns_eq]
  cases hm with
  | receive he hc hx ht => exact reruns_next ht
  | @start s e =>
    have he : e ≠ .tick := by
      rintro rfl
      exact not_concerns_tick hh.2.1
    simp [he]
  | expire | setup | clear | notice | stop | drain => simp

theorem Tracked.ending_of_move {target : String} {events : List Event} {p q : Point}
    {e : Option Event} (h : Tracked target events p) (hm : Move p e q) :
    q.state.ending = (events ++ e.toList).findSome? Event.ending? := by
  have hh := h.holds
  have hn := h.ending_eq_none hm
  rw [List.findSome?_append, ← h.ending_eq, hn, Option.none_or]
  cases hm with
  | @receive s e he => simpa using ending_next e he
  | start =>
    cases hh.2.1
    simpa [Event.ending?] using hn
  | expire | setup | clear | notice | stop | drain => simpa [Event.ending?] using hn

theorem Tracked.move {target : String} {events : List Event} {p q : Point} {e : Option Event}
    (h : Tracked target events p) (hm : Move p e q) : Tracked target (events ++ e.toList) q where
  target_eq := hm.target_eq.trans h.target_eq
  reruns_eq := h.reruns_of_move hm
  ending_eq := h.ending_of_move hm
  holds := hm.holds h.target_eq h.holds
  paid := by
    cases e with
    | none => simpa using h.paid
    | some e =>
      refine h.paid.concat fun he => ?_
      subst he
      exact h.due_of_tick hm

theorem Reached.tracked {target : String} {events : List Event} {p : Point}
    (h : Reached target events p) : Tracked target events p := by
  induction h with
  | initial => exact ⟨rfl, rfl, rfl, ⟨rfl, not_due_nil, nofun, rfl⟩, paid_nil target⟩
  | step _ hm ih => exact ih.move hm

theorem Timer.running_or_expired {t : Timer} (h : t ≠ .stopped) : t = .running ∨ t = .expired := by
  cases t <;> simp_all

/-- The timer of a change that is due is stopped only in order to start it again. -/
theorem Tracked.timer_of_due {target : String} {events : List Event} {phase : Phase} {s : State}
    (h : Tracked target events ⟨phase, s⟩) (hd : Due target events) :
    s.timer = .running ∨ s.timer = .expired ∨
      ∃ e, Concerns target e ∧ (phase = .draining e ∨ phase = .starting e) := by
  obtain ⟨rfl, -, -, hh, -⟩ := h
  rw [← or_assoc]
  cases phase with
  | setup | clearing => exact absurd hd hh.2.1
  | waiting => exact .inl (Timer.running_or_expired (hh.1.mpr hd))
  | stopping e => exact .inl (Timer.running_or_expired (hh.2.2.1.mpr hd))
  | draining e => exact .inr ⟨e, hh.2.1, .inl rfl⟩
  | starting e => exact .inr ⟨e, hh.2.1, .inr rfl⟩

/-- Once time has passed, a change that is due leads to a run of the file. -/
theorem Reached.exists_rerun {target : String} {events : List Event} {s : State}
    (h : Reached target events ⟨.waiting, s⟩) (hd : Due target events) (he : s.ending = none) :
    ∃ q, Reached target (events ++ [.expire, .tick]) q := by
  have htimer : s.timer.expire = .expired := by
    rcases Timer.running_or_expired (h.tracked.holds.1.mpr hd) with ht | ht <;> rw [ht] <;> rfl
  have htick : Move ⟨.waiting, { s with timer := s.timer.expire }⟩ (some .tick) _ :=
    .receive he not_concerns_tick nofun fun _ => htimer
  have hr := (h.step (.expire he)).step htick
  exact ⟨_, by simpa using hr⟩

theorem Move.eq_of_not_concerns {p q : Point} {name : String} {operations : List Operation}
    {due : Prop} {c : State} (hm : Move p (some (.change name operations)) q)
    (hc : ¬ Concerns p.state.target (.change name operations))
    (hp : p.phase.Holds due p.state c) : q = p := by
  cases hm with
  | receive => rw [next_change_of_not_concerns hc]
  | start => exact absurd hp.2.1 hc

/--
A watch neither loses nor invents a run of its file, in whatever order changes, ticks, the passing of
time and what ends the watch come. Each tick that it receives is one run, and follows on a change since
the run before. While such a change waits, the timer runs or has left its tick, or is about to be
started for a further change; so the next tick to be received is a run. Changes that do not concern
the file do nothing. The first event that ends the watch is the last one it receives. Taking the
operations of a change for one step makes no difference.
-/
theorem reruns_of_reached {target : String} {events : List Event} {p : Point}
    (h : Reached target events p) :
    p.state.reruns = events.count .tick ∧
    (∀ before after, events = before ++ .tick :: after → Due target before) ∧
    p.state.reruns ≤ events.countP (Concerns target ·) ∧
    (Due target events →
      p.state.timer = .running ∨ p.state.timer = .expired ∨
        ∃ e, Concerns target e ∧ (p.phase = .draining e ∨ p.phase = .starting e)) ∧
    (Due target events → p.state.ending = none → p.phase = .waiting →
      ∃ q, Reached target (events ++ [.expire, .tick]) q) ∧
    (∀ name operations q, ¬ Concerns target (.change name operations) →
      Move p (some (.change name operations)) q → q = p) ∧
    p.state.ending = events.findSome? Event.ending? ∧
    (p.state.ending ≠ none → ∀ e q, ¬ Move p e q) ∧
    (p.phase = .clearing → p.state.timer = .expired) ∧
    (p.phase = .waiting → p.state = run { target } events) := by
  have ht := h.tracked
  obtain ⟨phase, s⟩ := p
  refine ⟨ht.reruns_eq, ht.paid.ticks, ht.reruns_eq.trans_le ht.paid.count_le, ?_, ?_, ?_,
    ht.ending_eq, fun hn e q hm => hn (ht.ending_eq_none hm), ?_, ?_⟩
  · intro hd
    exact ht.timer_of_due hd
  · rintro hd he rfl
    exact h.exists_rerun hd he
  · intro name operations q hc hm
    exact hm.eq_of_not_concerns (ht.target_eq ▸ hc) ht.holds
  · rintro rfl
    exact ht.holds.2.2.1
  · rintro rfl
    exact ht.holds.2.symm

/-- The timer runs out before it is first stopped, and again while a second change is dealt with. -/
theorem reruns_of_reached_race :
    ∃ p, Reached "a" [.expire, .change "a" [.write], .expire, .change "./a" [.chmod, .rename],
        .expire, .tick] p ∧
      p.state.reruns = 1 ∧ p.state = run { target := "a" } [.expire, .change "a" [.write], .expire,
        .change "./a" [.chmod, .rename], .expire, .tick] := by
  have hwrite : Concerns "a" (.change "a" [.write]) := .change rfl ⟨.write, by simp⟩
  have hrename : Concerns "a" (.change "./a" [.chmod, .rename]) :=
    .change (by decide +kernel) ⟨.rename, by simp⟩
  have hsetup : Reached "a" [.expire] ⟨.clearing, ⟨"a", .expired, 0, none⟩⟩ :=
    (Reached.initial.step (.expire rfl)).step .setup
  have hfirst : Reached "a" [.expire, .change "a" [.write]] ⟨.waiting, ⟨"a", .running, 0, none⟩⟩ :=
    ((((hsetup.step (.clear rfl)).step (.notice rfl hwrite)).step .stop).step .drain).step .start
  have hsecond : Reached "a" [.expire, .change "a" [.write], .expire]
      ⟨.draining (.change "./a" [.chmod, .rename]), ⟨"a", .expired, 0, none⟩⟩ :=
    ((hfirst.step (.notice rfl hrename)).step (.expire rfl)).step .stop
  have hrunning : Reached "a" [.expire, .change "a" [.write], .expire,
      .change "./a" [.chmod, .rename]] ⟨.waiting, ⟨"a", .running, 0, none⟩⟩ :=
    (hsecond.step .drain).step .start
  have htick : Move ⟨.waiting, ⟨"a", .expired, 0, none⟩⟩ (some .tick)
      ⟨.waiting, ⟨"a", .stopped, 1, none⟩⟩ := .receive rfl not_concerns_tick nofun fun _ => rfl
  have hdone := (hrunning.step (.expire rfl)).step htick
  obtain ⟨hreruns, -, -, -, -, -, -, -, -, hrun⟩ := reruns_of_reached hdone
  exact ⟨_, hdone, hreruns.trans (by decide), hrun rfl⟩

end Scriptlet.Watch
