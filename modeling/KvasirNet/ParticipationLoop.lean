import KvasirNet.Runs
import Mathlib.Data.List.Basic
import Mathlib.Tactic.Common

/-! The poll loop of a participating machine: a tick asks the bridge for work and reports
what the machine holds, and sets the timer of the tick after it. -/
namespace KvasirNet.Participation

/-- A call of the bridge that a tick waits for: a request for work, or the report of one
slot with the reports that come after it (of which some have nothing to send). -/
inductive Call
  | volunteer
  | coverage (rest : List Bool)
  deriving DecidableEq, Repr

/-- Where a tick is suspended. `again` says that the token was refused once. -/
inductive Phase
  | token (call : Call) (again : Bool)
  | call (call : Call) (again : Bool)
  | asking
  | ending
  deriving DecidableEq, Repr

/-- What `tickOnce` does first, by its budget and its slots. -/
inductive Plan
  | volunteer
  | report (reports : List Bool)
  | throws
  deriving DecidableEq, Repr

inductive Outcome
  | token
  | unauthorized
  | volunteered (assigned : Bool) (reports : List Bool)
  | reported
  | failed (notAdmitted : Bool)
  | settled
  deriving DecidableEq, Repr

inductive Begun
  | volunteer
  | coverage
  | provision
  deriving DecidableEq, Repr

/-- The loop. `timer` is the handle that was stored last, `pending` the timers that are
set and have neither fired nor been cleared. -/
structure State where
  running : Bool
  inTick : Bool
  pokeWanted : Bool
  timer : Option ℕ
  pending : List ℕ
  timers : ℕ
  ticks : List Phase
  deriving DecidableEq, Repr

def State.initial : State := ⟨false, false, false, none, [], 0, []⟩

inductive Action
  | start (plan : Plan)
  | stop
  | poke
  | fire (timer : ℕ) (plan : Plan)
  | resume (tick : ℕ) (outcome : Outcome)
  deriving DecidableEq, Repr

namespace State

/-- `this.timer = setTimeout(..)`. -/
def setTimer (s : State) : State :=
  { s with timer := some s.timers, pending := s.pending ++ [s.timers], timers := s.timers + 1 }

/-- `if (this.timer) { clearTimeout(this.timer); this.timer = null }`. -/
def clearTimer (s : State) : State :=
  match s.timer with
  | none => s
  | some id => { s with timer := none, pending := s.pending.filter (· ≠ id) }

def poke (s : State) : State := if s.running then s.clearTimer.setTimer else s

def stop (s : State) : State := { s with running := false }.clearTimer

end State

/-- The end of `tickOnce`: the next tick is set, unless the loop was stopped. -/
def schedule (s : State) : State × Phase := (if s.running then s.setTimer else s, .ending)

def report (s : State) : List Bool → State × Phase
  | [] => schedule s
  | false :: rest => report s rest
  | true :: rest => (s, .token (.coverage rest) false)

/-- The `catch` of `tickOnce`. -/
def failed (s : State) (notAdmitted : Bool) : State × Phase :=
  if notAdmitted then (s, .asking) else schedule s

def tickOnce (s : State) : Plan → State × Phase
  | .volunteer => (s, .token .volunteer false)
  | .report reports => report s reports
  | .throws => failed s false

def tick (s : State) (plan : Plan) : State :=
  if s.running then
    if s.inTick then { s with pokeWanted := true }
    else
      let (s', phase) := tickOnce { s with inTick := true } plan
      { s' with ticks := s'.ticks ++ [phase] }
  else s

def Call.begun : Call → Begun
  | .volunteer => .volunteer
  | .coverage _ => .coverage

/-- A tick goes on: what it begins, and where it is suspended next. `hosted` says that
the machine has something to provision. -/
def resumed (hosted : Bool) (s : State) : Phase → Outcome → Option (State × Phase × List Begun)
  | .token call again, .token => some (s, .call call again, [call.begun])
  | .call call false, .unauthorized => some (s, .token call true, [])
  | .call .volunteer _, .volunteered assigned reports =>
    let (s', phase) := report s reports
    some (s', phase, if assigned && hosted then [.provision] else [])
  | .call (.coverage rest) _, .reported =>
    let (s', phase) := report s rest
    some (s', phase, [])
  | .token _ _, .failed notAdmitted | .call _ _, .failed notAdmitted =>
    let (s', phase) := failed s notAdmitted
    some (s', phase, [])
  | .call _ true, .unauthorized =>
    let (s', phase) := failed s false
    some (s', phase, [])
  | .asking, .settled =>
    let (s', phase) := schedule s
    some (s', phase, [])
  | _, _ => none

/-- The `finally` of `tick`, and the poke that was remembered. -/
def ended (s : State) (i : ℕ) : State :=
  let s' := { s with inTick := false, ticks := s.ticks.eraseIdx i }
  if s'.pokeWanted then { s' with pokeWanted := false }.poke else s'

def perform (hosted : Bool) (s : State) : Action → Option (State × List Begun)
  | .start plan => some (if s.running then s else tick { s with running := true } plan, [])
  | .stop => some (s.stop, [])
  | .poke => some (s.poke, [])
  | .fire id plan =>
    if id ∈ s.pending then some (tick { s with pending := s.pending.filter (· ≠ id) } plan, [])
    else none
  | .resume i outcome =>
    match s.ticks[i]?, outcome with
    | none, _ => none
    | some .ending, .settled => some (ended s i, [])
    | some phase, outcome =>
      (resumed hosted s phase outcome).map fun (s', phase', evs) =>
        ({ s' with ticks := s'.ticks.set i phase' }, evs)

def step (hosted : Bool) (s : State) (a : Action) : Option State :=
  (perform hosted s a).map (·.1)

def begun (hosted : Bool) (s : State) (a : Action) : List Begun :=
  ((perform hosted s a).map (·.2)).getD []

/-! ### What a step does to the timers and to the ticks -/

variable {hosted : Bool} {s s' : State} {a : Action} {phase : Phase}

def Phase.last : Phase → Bool
  | .asking | .ending => true
  | .token _ _ | .call _ _ => false

/-- Where the end of a part of a tick leads: to the next wait with nothing changed, or to
the end of the tick. -/
theorem report_cases (s : State) (rs : List Bool) :
    report s rs = schedule s ∨ ∃ rest, report s rs = (s, .token (.coverage rest) false) := by
  induction rs with
  | nil => exact Or.inl rfl
  | cons r rs ih =>
    cases r with
    | false => exact ih
    | true => exact Or.inr ⟨rs, rfl⟩

theorem failed_cases (s : State) (notAdmitted : Bool) :
    failed s notAdmitted = schedule s ∨ failed s notAdmitted = (s, .asking) := by
  cases notAdmitted with
  | false => exact Or.inl rfl
  | true => exact Or.inr rfl

theorem tickOnce_cases (s : State) (plan : Plan) :
    tickOnce s plan = schedule s ∨ ∃ phase, tickOnce s plan = (s, phase) := by
  cases plan with
  | volunteer => exact Or.inr ⟨_, rfl⟩
  | report rs => exact (report_cases s rs).imp_right fun ⟨rest, h⟩ => ⟨_, h⟩
  | throws => exact (failed_cases s false).imp_right fun h => ⟨_, h⟩

variable {outcome : Outcome} {evs : List Begun}

theorem resumed_cases {phase' : Phase}
    (h : resumed hosted s phase outcome = some (s', phase', evs)) :
    ((s', phase') = schedule s ∨ s' = s) ∧
      (phase.last = true → (s', phase') = schedule s ∧ evs = []) := by
  have hkept : ∀ {x : State × Phase}, x = schedule s ∨ x.1 = s →
      (x.1, x.2) = schedule s ∨ x.1 = s := id
  unfold resumed at h
  split at h
  · obtain ⟨rfl, rfl, rfl⟩ := by simpa using h
    exact ⟨Or.inr rfl, by simp [Phase.last]⟩
  · obtain ⟨rfl, rfl, rfl⟩ := by simpa using h
    exact ⟨Or.inr rfl, by simp [Phase.last]⟩
  · obtain ⟨rfl, rfl, rfl⟩ := by simpa using h
    refine ⟨hkept ((report_cases s _).imp_right ?_), by simp [Phase.last]⟩
    rintro ⟨rest, hrest⟩
    rw [hrest]
  · obtain ⟨rfl, rfl, rfl⟩ := by simpa using h
    refine ⟨hkept ((report_cases s _).imp_right ?_), by simp [Phase.last]⟩
    rintro ⟨rest, hrest⟩
    rw [hrest]
  · obtain ⟨rfl, rfl, rfl⟩ := by simpa using h
    refine ⟨hkept ((failed_cases s _).imp_right ?_), by simp [Phase.last]⟩
    intro hasking
    rw [hasking]
  · obtain ⟨rfl, rfl, rfl⟩ := by simpa using h
    refine ⟨hkept ((failed_cases s _).imp_right ?_), by simp [Phase.last]⟩
    intro hasking
    rw [hasking]
  · obtain ⟨rfl, rfl, rfl⟩ := by simpa using h
    refine ⟨hkept ((failed_cases s _).imp_right ?_), by simp [Phase.last]⟩
    intro hasking
    rw [hasking]
  · obtain ⟨rfl, rfl, rfl⟩ := by simpa using h
    exact ⟨Or.inl rfl, fun _ => ⟨rfl, rfl⟩⟩
  · cases h

theorem perform_resume {i : ℕ}
    (h : perform hosted s (.resume i outcome) = some (s', evs)) :
    (s.ticks[i]? = some .ending ∧ s' = ended s i ∧ evs = []) ∨
      ∃ phase t phase', s.ticks[i]? = some phase ∧
        resumed hosted s phase outcome = some (t, phase', evs) ∧
        s' = { t with ticks := t.ticks.set i phase' } := by
  simp only [perform] at h
  split at h
  · cases h
  · rename_i hphase
    obtain ⟨rfl, rfl⟩ := Prod.mk.inj (Option.some.inj h)
    exact Or.inl ⟨hphase, rfl, rfl⟩
  · rename_i phase hphase _
    obtain ⟨⟨t, phase', evs'⟩, hres, hpair⟩ := Option.map_eq_some_iff.mp h
    obtain ⟨rfl, rfl⟩ := Prod.mk.inj hpair
    exact Or.inr ⟨phase, t, phase', hphase, hres, rfl⟩

/-- What the loop rests on: a stop finds no tick that still has a call to make, and no
timer of a poke is left when a tick comes to its end. -/
def undisturbed (hosted : Bool) (s : State) : Action → Bool
  | .stop => s.ticks.all Phase.last
  | .resume i outcome =>
    s.pending.isEmpty || (s.ticks[i]?.bind (resumed hosted s · outcome)).all (·.2.1 ≠ .ending)
  | .start _ | .poke | .fire _ _ => true

/-! ### One tick at a time -/

/-- The flag says whether there is a tick, and there is one at most. -/
def OneTick (s : State) : Prop :=
  (s.ticks = [] ∧ s.inTick = false) ∨ ∃ phase, s.ticks = [phase] ∧ s.inTick = true

structure SameTicks (s s' : State) : Prop where
  ticks : s'.ticks = s.ticks
  inTick : s'.inTick = s.inTick

theorem SameTicks.oneTick (h : SameTicks s s') (hs : OneTick s) : OneTick s' := by
  unfold OneTick
  rw [h.ticks, h.inTick]
  exact hs

theorem sameTicks_clearTimer (s : State) : SameTicks s s.clearTimer := by
  unfold State.clearTimer
  cases s.timer <;> exact ⟨rfl, rfl⟩

theorem sameTicks_poke (s : State) : SameTicks s s.poke := by
  have hclear := sameTicks_clearTimer s
  unfold State.poke
  split_ifs
  · exact ⟨hclear.ticks, hclear.inTick⟩
  · exact ⟨rfl, rfl⟩

theorem sameTicks_schedule (s : State) : SameTicks s (schedule s).1 := by
  unfold schedule
  split_ifs <;> exact ⟨rfl, rfl⟩

theorem sameTicks_resumed {phase' : Phase}
    (h : resumed hosted s phase outcome = some (s', phase', evs)) : SameTicks s s' := by
  rcases (resumed_cases h).1 with hend | rfl
  · obtain rfl : s' = (schedule s).1 := congrArg Prod.fst hend
    exact sameTicks_schedule s
  · exact ⟨rfl, rfl⟩

theorem oneTick_tick (hs : OneTick s) (plan : Plan) : OneTick (tick s plan) := by
  unfold tick
  split_ifs with hrunning hin
  · exact (SameTicks.mk rfl rfl : SameTicks s { s with pokeWanted := true }).oneTick hs
  · -- no tick is under way
    have hnone : s.ticks = [] := by
      rcases hs with ⟨hticks, -⟩ | ⟨phase, -, hflag⟩
      · exact hticks
      · exact absurd hflag hin
    refine Or.inr ⟨(tickOnce { s with inTick := true } plan).2, ?_⟩
    rcases tickOnce_cases { s with inTick := true } plan with hend | ⟨phase, hwait⟩
    · rw [hend]
      have hsame := sameTicks_schedule { s with inTick := true }
      have hticks : (schedule { s with inTick := true }).1.ticks = [] := hsame.ticks.trans hnone
      exact ⟨congrArg (· ++ [_]) hticks, hsame.inTick⟩
    · rw [hwait]
      exact ⟨by simp [hnone], rfl⟩
  · exact hs

theorem oneTick_ended (hs : OneTick s) {i : ℕ} (hi : i < s.ticks.length) : OneTick (ended s i) := by
  have hnone : OneTick { s with inTick := false, ticks := s.ticks.eraseIdx i } := by
    refine Or.inl ⟨?_, rfl⟩
    rcases hs with ⟨hticks, -⟩ | ⟨phase, hticks, -⟩
    · simp [hticks] at hi
    · obtain rfl : i = 0 := by simpa [hticks] using hi
      simp [hticks]
  unfold ended
  dsimp only
  split_ifs
  · exact (sameTicks_poke _).oneTick hnone
  · exact hnone

theorem oneTick_step (hs : OneTick s) (h : step hosted s a = some s') : OneTick s' := by
  obtain ⟨⟨t, evs⟩, ht, rfl⟩ := Option.map_eq_some_iff.mp h
  cases a with
  | start plan =>
    obtain ⟨rfl, -⟩ := by simpa [perform] using ht
    split_ifs
    · exact hs
    · exact oneTick_tick ((SameTicks.mk rfl rfl : SameTicks s { s with running := true }).oneTick hs)
        plan
  | stop =>
    obtain ⟨rfl, -⟩ := by simpa [perform] using ht
    have hsame := sameTicks_clearTimer { s with running := false }
    exact (SameTicks.mk hsame.ticks hsame.inTick : SameTicks s s.stop).oneTick hs
  | poke =>
    obtain ⟨rfl, -⟩ := by simpa [perform] using ht
    exact (sameTicks_poke s).oneTick hs
  | fire id plan =>
    simp only [perform] at ht
    split_ifs at ht with hid
    obtain ⟨rfl, -⟩ := by simpa using ht
    refine oneTick_tick (SameTicks.oneTick ?_ hs) plan
    exact ⟨rfl, rfl⟩
  | resume i outcome =>
    rcases perform_resume ht with ⟨hphase, rfl, -⟩ | ⟨phase, t, phase', hphase, hres, rfl⟩
    · exact oneTick_ended hs (List.getElem?_eq_some_iff.mp hphase).1
    · have hsame := sameTicks_resumed hres
      have hi : i < s.ticks.length := (List.getElem?_eq_some_iff.mp hphase).1
      rcases hs with ⟨hticks, -⟩ | ⟨phase₀, hticks, hflag⟩
      · simp [hticks] at hi
      · obtain rfl : i = 0 := by simpa [hticks] using hi
        refine Or.inr ⟨phase', ?_, hsame.inTick.trans hflag⟩
        simp [hsame.ticks, hticks]

/-! ### One timer, and nothing after a stop -/

/-- The timer that is set is the one whose handle is stored. -/
def OneTimer (s : State) : Prop := s.pending = [] ∨ ∃ id, s.pending = [id] ∧ s.timer = some id

/-- What a loop keeps whose ticks are not disturbed. -/
structure Sound (s : State) : Prop where
  timer : OneTimer s
  stopped : s.running = false → s.pending = [] ∧ ∀ phase ∈ s.ticks, phase.last = true

theorem sound_initial : Sound .initial := ⟨Or.inl rfl, fun _ => ⟨rfl, by simp [State.initial]⟩⟩

theorem pending_clearTimer (h : OneTimer s) : s.clearTimer.pending = [] := by
  unfold State.clearTimer
  rcases h with hnone | ⟨id, hone, htimer⟩
  · cases s.timer with
    | none => exact hnone
    | some id => simp [hnone]
  · simp [htimer, hone]

theorem running_clearTimer (s : State) : s.clearTimer.running = s.running := by
  unfold State.clearTimer
  cases s.timer <;> rfl

theorem oneTimer_setTimer (h : s.pending = []) : OneTimer s.setTimer :=
  Or.inr ⟨s.timers, by simp [State.setTimer, h], rfl⟩

theorem sound_poke (h : Sound s) : Sound s.poke := by
  unfold State.poke
  split_ifs with hrunning
  · refine ⟨oneTimer_setTimer (pending_clearTimer h.timer), fun hstopped => ?_⟩
    have hstill : s.running = false := (running_clearTimer s).symm.trans hstopped
    exact absurd hrunning (by simp [hstill])
  · exact h

theorem schedule_timer (hnone : s.pending = []) :
    OneTimer (schedule s).1 ∧ (s.running = false → (schedule s).1.pending = []) := by
  unfold schedule
  split_ifs with hrunning
  · exact ⟨oneTimer_setTimer hnone, fun hstopped => absurd hrunning (by simp [hstopped])⟩
  · exact ⟨Or.inl hnone, fun _ => hnone⟩

theorem running_schedule (s : State) : (schedule s).1.running = s.running := by
  unfold schedule
  split_ifs <;> rfl

theorem sound_tick (h : Sound s) (hnone : s.pending = []) (plan : Plan) : Sound (tick s plan) := by
  unfold tick
  split_ifs with hrunning hin
  · exact ⟨h.timer, h.stopped⟩
  · have hstill : ¬ s.running = false := by simp [hrunning]
    rcases tickOnce_cases { s with inTick := true } plan with hend | ⟨phase, hwait⟩
    · rw [hend]
      have htimer := schedule_timer (s := { s with inTick := true }) hnone
      exact ⟨htimer.1, fun hstopped =>
        absurd ((running_schedule { s with inTick := true }).symm.trans hstopped) hstill⟩
    · rw [hwait]
      exact ⟨h.timer, fun hstopped => absurd hstopped hstill⟩
  · exact h

theorem sound_ended (h : Sound s) (i : ℕ) : Sound (ended s i) := by
  have hless : Sound { s with inTick := false, ticks := s.ticks.eraseIdx i } :=
    ⟨h.timer, fun hstopped => ⟨(h.stopped hstopped).1, fun phase hmem =>
      (h.stopped hstopped).2 phase (List.mem_of_mem_eraseIdx hmem)⟩⟩
  unfold ended
  dsimp only
  split_ifs
  · exact sound_poke ⟨hless.timer, hless.stopped⟩
  · exact hless

theorem sound_step (h : Sound s) (hclear : undisturbed hosted s a = true)
    (hstep : step hosted s a = some s') :
    Sound s' ∧ (s.running = false → begun hosted s a = []) := by
  obtain ⟨⟨t, evs⟩, ht, rfl⟩ := Option.map_eq_some_iff.mp hstep
  have hbegun : begun hosted s a = evs := by simp [begun, ht]
  rw [hbegun]
  cases a with
  | start plan =>
    obtain ⟨rfl, rfl⟩ := by simpa [perform] using ht
    refine ⟨?_, fun _ => rfl⟩
    split_ifs with hrunning
    · exact h
    · have hnone : s.pending = [] := (h.stopped (by simpa using hrunning)).1
      have hset : Sound { s with running := true } :=
        ⟨Or.inl hnone, fun hstopped => by cases hstopped⟩
      exact sound_tick hset hnone plan
  | stop =>
    obtain ⟨rfl, rfl⟩ := by simpa [perform] using ht
    have hnone : s.stop.pending = [] := pending_clearTimer (s := { s with running := false }) h.timer
    refine ⟨⟨Or.inl hnone, fun _ => ⟨hnone, fun phase hmem => ?_⟩⟩, fun _ => rfl⟩
    have hticks : s.stop.ticks = s.ticks := (sameTicks_clearTimer { s with running := false }).ticks
    exact List.all_eq_true.mp hclear phase (hticks ▸ hmem)
  | poke =>
    obtain ⟨rfl, rfl⟩ := by simpa [perform] using ht
    exact ⟨sound_poke h, fun _ => rfl⟩
  | fire id plan =>
    simp only [perform] at ht
    split_ifs at ht with hid
    obtain ⟨rfl, rfl⟩ := Prod.mk.inj (Option.some.inj ht)
    have hnone : s.pending.filter (· ≠ id) = [] := by
      rcases h.timer with hnone | ⟨id', hone, -⟩
      · simp [hnone]
      · obtain rfl : id = id' := by simpa [hone] using hid
        simp [hone]
    have hfired : Sound { s with pending := s.pending.filter (· ≠ id) } :=
      ⟨Or.inl hnone, fun hstopped => ⟨hnone, (h.stopped hstopped).2⟩⟩
    exact ⟨sound_tick hfired hnone plan, fun _ => rfl⟩
  | resume i outcome =>
    rcases perform_resume ht with ⟨hphase, rfl, rfl⟩ | ⟨phase, t, phase', hphase, hres, rfl⟩
    · exact ⟨sound_ended h i, fun _ => rfl⟩
    · obtain ⟨hcase, hlast⟩ := resumed_cases hres
      have hends : phase' = .ending → s.pending = [] := by
        intro hending
        simpa [undisturbed, hphase, hres, hending] using hclear
      have hstopped : s.running = false → (t, phase') = schedule s ∧ evs = [] := fun hs =>
        hlast ((h.stopped hs).2 phase (List.mem_of_getElem? hphase))
      have hticks : t.ticks = s.ticks := (sameTicks_resumed hres).ticks
      rcases hcase with hend | rfl
      · -- the next tick is set
        obtain ⟨rfl, rfl⟩ := Prod.mk.inj hend
        have hnone : s.pending = [] := hends rfl
        obtain ⟨htimer, hkept⟩ := schedule_timer hnone
        refine ⟨⟨htimer, fun hs => ?_⟩, fun hs => (hstopped hs).2⟩
        have hs' : s.running = false := (running_schedule s).symm.trans hs
        refine ⟨hkept hs', fun q hq => ?_⟩
        rcases List.mem_or_eq_of_mem_set hq with hold | rfl
        · exact (h.stopped hs').2 q (hticks ▸ hold)
        · rfl
      · refine ⟨⟨h.timer, fun hs => ⟨(h.stopped hs).1, fun q hq => ?_⟩⟩, fun hs => (hstopped hs).2⟩
        rcases List.mem_or_eq_of_mem_set hq with hold | rfl
        · exact (h.stopped hs).2 q hold
        · have hending : q = .ending := congrArg Prod.snd (hstopped hs).1
          rw [hending]
          rfl

/-- Two ticks never run at once. Where no stop finds a tick that still has a call to make
and no tick ends before the timer of a poke has fired, at most one timer is set, and nothing
is begun while the loop is stopped. -/
theorem participation_is_one_loop (hosted : Bool) (as : List Action) (s : State)
    (hrun : runs (step hosted) .initial as = some s) :
    s.ticks.length ≤ 1 ∧
      (Along (step hosted) (fun t a => undisturbed hosted t a = true) .initial as →
        s.pending.length ≤ 1 ∧
          Along (step hosted) (fun t a => t.running = false → begun hosted t a = []) .initial as) := by
  constructor
  · have hone : OneTick s :=
      runs_invariant (P := fun _ _ => True) (I := OneTick)
        (fun _ _ _ _ hs hstep => oneTick_step hs hstep) (along_of_forall (fun _ _ => trivial) _ as)
        hrun (Or.inl ⟨rfl, rfl⟩)
    rcases hone with ⟨hticks, -⟩ | ⟨phase, hticks, -⟩ <;> simp [hticks]
  · intro hclear
    have hsound : Sound s :=
      runs_invariant (fun _ _ _ hP hI hstep => (sound_step hI hP hstep).1) hclear hrun sound_initial
    refine ⟨?_, Along.of_invariant (I := Sound) ?_ hclear hrun sound_initial⟩
    · rcases hsound.timer with hnone | ⟨id, hone, -⟩ <;> simp [*]
    · intro t a t' hP hI hstep
      exact ⟨(sound_step hI hP hstep).2, (sound_step hI hP hstep).1⟩

/-- A poke, whose timer the end of the tick forgets. -/
def forgottenTimer : List Action :=
  [.start .volunteer, .poke, .resume 0 (.failed false), .resume 0 .settled]

/-- A request for work that is answered after the stop. -/
def lateAssignment : List Action :=
  [.start .volunteer, .resume 0 .token, .stop]

theorem loop_undisturbed :
    ∃ s, runs (step true) .initial [.start .volunteer, .resume 0 .token,
        .resume 0 (.volunteered true []), .resume 0 .settled, .stop] = some s ∧
      s.pending.length ≤ 1 := by
  obtain ⟨s, hrun, -⟩ := runs_exists (step true) .initial [.start .volunteer, .resume 0 .token,
    .resume 0 (.volunteered true []), .resume 0 .settled, .stop] (fun _ => true) (by decide)
  exact ⟨s, hrun, ((participation_is_one_loop true _ s hrun).2 (by decide)).1⟩

/-- The poke's timer and the poll timer are both set, and after a stop a slot is
provisioned and a report begun. -/
theorem loop_disturbed :
    (∃ s, runs (step true) .initial forgottenTimer = some s ∧ s.pending.length = 2) ∧
    (∃ s, runs (step true) .initial lateAssignment = some s ∧ s.running = false ∧
      begun true s (.resume 0 (.volunteered true [true])) = [.provision]) := by
  constructor
  · obtain ⟨s, hrun, hs⟩ := runs_exists (step true) .initial forgottenTimer
      (fun s => s.pending.length = 2) (by decide)
    exact ⟨s, hrun, of_decide_eq_true hs⟩
  · obtain ⟨s, hrun, hs⟩ := runs_exists (step true) .initial lateAssignment
      (fun s => s.running = false ∧ begun true s (.resume 0 (.volunteered true [true])) = [.provision])
      (by decide)
    exact ⟨s, hrun, of_decide_eq_true hs⟩

end KvasirNet.Participation
