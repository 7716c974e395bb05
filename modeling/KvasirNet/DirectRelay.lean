import KvasirNet.Runs

/-! The direct relay: an ssh forward to the bridge host. A start awaits a free port and then the
forward; a stop, an exit or another start may come in between. -/
namespace KvasirNet.DirectRelay

structure Settings where
  host : String
  port : ℕ
  user : String
  keyPath : String
  bridgePort : ℕ
  deriving DecidableEq, Repr

/-- The arguments of `ssh` for a forward from `port`. -/
def sshArgs (s : Settings) (port : ℕ) : List String :=
  ["-N", "-T", "-o", "BatchMode=yes", "-o", "ExitOnForwardFailure=yes", "-o", "ServerAliveInterval=15",
    "-o", "ServerAliveCountMax=3", "-o", "StrictHostKeyChecking=accept-new", "-o",
    "IdentitiesOnly=yes", "-i", s.keyPath, "-p", toString s.port, "-L",
    s!"127.0.0.1:{port}:127.0.0.1:{s.bridgePort}", s!"{s.user}@{s.host}"]

inductive Status
  | off
  | starting
  | up
  | failed
  deriving DecidableEq, Repr

/-- A spawned process; its exit is told when it dies. -/
structure Proc where
  args : List String
  port : ℕ
  alive : Bool
  killed : Bool
  deriving DecidableEq, Repr

def Proc.loose (p : Proc) : Bool := p.alive && !p.killed

/-- Where a start that has passed its guards is. -/
inductive Task
  | allocating
  | waiting (proc port : ℕ)
  | done
  deriving DecidableEq, Repr

/-- A timer is `true` until it has fired or is cleared. -/
structure Relay where
  settings : Option Settings
  proc : Option ℕ
  port : Option ℕ
  state : Status
  error : Option String
  timer : Option ℕ
  stopped : Bool
  procs : List Proc
  tasks : List Task
  timers : List Bool
  deriving DecidableEq, Repr

def Relay.initial (settings : Option Settings) : Relay :=
  ⟨settings, none, none, .off, none, none, true, [], [], []⟩

namespace Relay

def base (s : Relay) : Option String :=
  match s.state, s.port with
  | .up, some port => if port = 0 then none else some s!"ws://127.0.0.1:{port}"
  | _, _ => none

/-- `start` goes past its first two returns. -/
def begins (s : Relay) : Bool := s.settings.isSome && s.proc.isNone && decide (s.state ≠ .starting)

/-- `start`, up to its first `await`. -/
def start (s : Relay) (keyExists : Bool) : Relay :=
  if s.settings = none then s
  else
    let s := { s with stopped := false }
    if s.proc ≠ none ∨ s.state = .starting then s
    else if keyExists then
      { s with
        state := .starting
        error := none
        tasks := s.tasks ++ [.allocating] }
    else
      { s with
        state := .failed
        error := some "ssh key not found" }

/-- `setTimeout`, as the retry timer. -/
def retryLater (s : Relay) : Relay :=
  { s with
    timer := some s.timers.length
    timers := s.timers ++ [true] }

def kill (s : Relay) (p : ℕ) : Relay :=
  { s with procs := s.procs.modify p fun x => { x with killed := true } }

/-- The `catch` of a start. -/
def fail (s : Relay) (message : String) : Relay :=
  let s := { s with
    state := .failed
    error := some message
    procs := s.proc.elim s.procs fun p => (s.kill p).procs
    proc := none }
  if s.stopped = false ∧ s.timer = none then s.retryLater else s

/-- After the port is allocated: `ssh` is spawned, or that throws. -/
def spawn (s : Relay) (i port : ℕ) (settings : Settings) : Relay :=
  { s with
    proc := some s.procs.length
    procs := s.procs ++ [⟨sshArgs settings port, port, true, false⟩]
    tasks := s.tasks.set i (.waiting s.procs.length port) }

/-- After `wait`: the forward of `p` is open. -/
def opened (s : Relay) (p port : ℕ) : Relay :=
  if s.proc = some p then
    { s with
      port := some port
      state := .up }
  else s

/-- The `exit` handler of `p`. -/
def onExit (s : Relay) (p : ℕ) (code : String) : Relay :=
  if s.proc ≠ some p then s
  else
    let s := { s with
      proc := none
      port := none
      state := if s.stopped then .off else .failed }
    if s.stopped then s else retryLater { s with error := some s!"ssh exited ({code})" }

def stop (s : Relay) : Relay :=
  { s with
    stopped := true
    timers := s.timer.elim s.timers fun k => s.timers.set k false
    timer := none
    procs := s.proc.elim s.procs fun p => (s.kill p).procs
    proc := none
    port := none
    state := .off }

end Relay

/-- What an `await` or a spawn gives. -/
inductive Action
  | start (keyExists : Bool)
  | stop
  | allocated (i port : ℕ)
  | refused (i : ℕ) (message : String)
  | waited (i : ℕ)
  | timedOut (i : ℕ) (message : String)
  | exited (p : ℕ) (code : String)
  | fire (k : ℕ) (keyExists : Bool)
  deriving DecidableEq, Repr

/-- A step. A start is `refused` when no port can be allocated or the spawn throws. -/
def step (s : Relay) : Action → Option Relay
  | .start keyExists => some (s.start keyExists)
  | .stop => some s.stop
  | .allocated i port =>
    match s.tasks[i]?, s.settings with
    | some .allocating, some settings => some (s.spawn i port settings)
    | _, _ => none
  | .refused i message =>
    match s.tasks[i]? with
    | some .allocating => some (Relay.fail { s with tasks := s.tasks.set i .done } message)
    | _ => none
  | .waited i =>
    match s.tasks[i]? with
    | some (.waiting p port) => some (Relay.opened { s with tasks := s.tasks.set i .done } p port)
    | _ => none
  | .timedOut i message =>
    match s.tasks[i]? with
    | some (.waiting _ _) => some (Relay.fail { s with tasks := s.tasks.set i .done } message)
    | _ => none
  | .exited p code =>
    if (s.procs[p]?).any Proc.alive then
      some (Relay.onExit { s with procs := s.procs.modify p fun x => { x with alive := false } } p code)
    else none
  | .fire k keyExists =>
    if s.timers[k]? = some true then
      some (Relay.start { s with
        timers := s.timers.set k false
        timer := none } keyExists)
    else none

/-- A port comes while the start is wanted and no process is there; a process that ends, or a
start that finds no key, has the one retry that it leaves. -/
def Orderly (s : Relay) : Action → Bool
  | .allocated _ _ => !s.stopped && s.proc.isNone
  | .exited p _ => decide (s.proc = some p → s.timer = none)
  | .start keyExists => !s.begins || keyExists || s.timer.isSome
  | .fire _ keyExists => !s.begins || keyExists
  | _ => true

/-- The step is the failure of a start that has got past its first returns. -/
def fails (s : Relay) : Action → Bool
  | .start keyExists | .fire _ keyExists => s.begins && !keyExists
  | .refused _ _ | .timedOut _ _ => true
  | .exited p _ => decide (s.proc = some p)
  | .stop | .allocated _ _ | .waited _ => false

def Relay.loose (s : Relay) (p : ℕ) : Prop := ∃ x, s.procs[p]? = some x ∧ x.loose = true

/-- What runs is the current process, what is pending is the current timer. -/
structure Base (s : Relay) : Prop where
  loose : ∀ p, s.loose p → s.proc = some p
  held : ∀ p, s.proc = some p → s.loose p ∧ s.stopped = false
  up : s.state = .up → ∃ p x, s.proc = some p ∧ s.procs[p]? = some x ∧ s.port = some x.port
  waiting : ∀ (i p port : ℕ), s.tasks[i]? = some (.waiting p port) →
    ∃ x, s.procs[p]? = some x ∧ x.port = port
  timer : ∀ k : ℕ, s.timers[k]? = some true ↔ s.timer = some k
  stopped : s.stopped = true → s.timer = none
  bare : s.settings = none → s.tasks = [] ∧ s.timer = none ∧ s.proc = none

structure Sound (s : Relay) : Prop extends Base s where
  failed : s.stopped = false → s.state = .failed → s.proc = none → s.timer ≠ none

theorem sound_initial (settings : Option Settings) : Sound (.initial settings) where
  loose p h := by
    obtain ⟨x, hx, -⟩ := h
    cases hx
  held p h := by cases h
  up h := by cases h
  waiting i p port h := by cases h
  timer k := ⟨fun h => (by cases h), fun h => (by cases h)⟩
  stopped _ := rfl
  bare _ := ⟨rfl, rfl, rfl⟩
  failed h := by cases h

variable {s s' : Relay} {p i : ℕ}

/-! ### Processes -/

theorem modify_inv {f : Proc → Proc} {procs : List Proc} {q : ℕ} {x : Proc}
    (h : (procs.modify p f)[q]? = some x) : ∃ y, procs[q]? = some y ∧ x = if p = q then f y else y := by
  rw [List.getElem?_modify] at h
  obtain ⟨y, hy, rfl⟩ := Option.map_eq_some_iff.mp h
  refine ⟨y, hy, ?_⟩
  split_ifs <;> rfl

theorem modify_port {f : Proc → Proc} (hf : ∀ x, (f x).port = x.port) {procs : List Proc}
    (h : ∀ (i p port : ℕ), s.tasks[i]? = some (.waiting p port) →
      ∃ x, procs[p]? = some x ∧ x.port = port) (q : ℕ) :
    ∀ (i p port : ℕ), s.tasks[i]? = some (.waiting p port) →
      ∃ x, (procs.modify q f)[p]? = some x ∧ x.port = port := by
  intro i p port hi
  obtain ⟨x, hx, hport⟩ := h i p port hi
  rw [List.getElem?_modify, hx]
  refine ⟨if q = p then f x else x, rfl, ?_⟩
  split_ifs
  · exact (hf x).trans hport
  · exact hport

theorem killed_procs (h : Base s) {q : ℕ} {x : Proc}
    (hx : (s.proc.elim s.procs fun p => (s.kill p).procs)[q]? = some x) : x.loose = false := by
  cases hproc : s.proc with
  | none =>
    rw [hproc] at hx
    by_contra hloose
    have := h.loose q ⟨x, hx, Bool.not_eq_false _ ▸ hloose⟩
    rw [hproc] at this
    cases this
  | some p =>
    rw [hproc] at hx
    obtain ⟨y, hy, rfl⟩ := modify_inv hx
    split_ifs with hq
    · exact Bool.and_false _
    · by_contra hloose
      have := h.loose q ⟨y, hy, Bool.not_eq_false _ ▸ hloose⟩
      rw [hproc] at this
      exact hq (Option.some.inj this)

theorem killed_waiting (h : Base s) : ∀ (i p port : ℕ), s.tasks[i]? = some (.waiting p port) →
    ∃ x, (s.proc.elim s.procs fun p => (s.kill p).procs)[p]? = some x ∧ x.port = port := by
  cases s.proc with
  | none => exact h.waiting
  | some p => exact modify_port (f := fun x => { x with killed := true }) (fun _ => rfl) h.waiting p

/-! ### Timers -/

theorem timers_concat (h : ∀ k : ℕ, s.timers[k]? = some true ↔ s.timer = some k)
    (hnone : s.timer = none) (k : ℕ) :
    (s.timers ++ [true])[k]? = some true ↔ some s.timers.length = some k := by
  rcases Nat.lt_trichotomy k s.timers.length with hlt | rfl | hgt
  · rw [List.getElem?_append_left hlt, h k, hnone]
    exact ⟨fun hk => (by cases hk), fun hk => absurd (Option.some.inj hk) (by omega)⟩
  · exact ⟨fun _ => rfl, fun _ => List.getElem?_concat_length⟩
  · rw [List.getElem?_eq_none (by rw [List.length_append, List.length_singleton]; omega)]
    exact ⟨fun hk => (by cases hk), fun hk => absurd (Option.some.inj hk) (by omega)⟩

theorem timers_set (h : ∀ k : ℕ, s.timers[k]? = some true ↔ s.timer = some k) {j : ℕ}
    (hj : s.timer = some j) (k : ℕ) : (s.timers.set j false)[k]? ≠ some true := by
  intro hk
  by_cases hjk : j = k
  · subst hjk
    rw [List.getElem?_set_self'] at hk
    obtain ⟨_, -, hf⟩ := Option.map_eq_some_iff.mp hk
    cases hf
  · rw [List.getElem?_set_ne hjk] at hk
    exact hjk (Option.some.inj (hj.symm.trans ((h k).mp hk)))

/-! ### What each call keeps -/

theorem Sound.settled (h : Sound s) : Sound { s with tasks := s.tasks.set i .done } := by
  refine ⟨⟨h.loose, h.held, h.up, fun j p port hj => ?_, h.timer, h.stopped, fun hs => ?_⟩, h.failed⟩
  swap
  · obtain ⟨htasks, hrest⟩ := h.bare hs
    refine ⟨?_, hrest⟩
    dsimp only
    rw [htasks]
    rfl
  dsimp only at hj
  by_cases hij : i = j
  · subst hij
    rw [List.getElem?_set_self'] at hj
    obtain ⟨_, -, hf⟩ := Option.map_eq_some_iff.mp hj
    cases hf
  · rw [List.getElem?_set_ne hij] at hj
    exact h.waiting j p port hj

theorem Sound.fail (h : Sound s) (hset : s.settings ≠ none) (message : String) :
    Sound (s.fail message) ∧ (s.fail message).proc = none ∧ (s.fail message).state = .failed := by
  have hbase : ∀ timer timers, (∀ k : ℕ, timers[k]? = some true ↔ timer = some k) →
      (s.stopped = true → timer = none) → (s.stopped = false → timer ≠ none) →
      Sound { s with
        state := .failed
        error := some message
        procs := s.proc.elim s.procs fun p => (s.kill p).procs
        proc := none
        timer := timer
        timers := timers } := by
    intro timer timers htimer hstopped hfailed
    have hwaiting := killed_waiting h.toBase
    refine ⟨⟨fun q hq => ?_, fun q hq => (by cases hq), fun hup => (by cases hup), hwaiting, htimer,
      hstopped, fun hs => absurd hs hset⟩, fun hs _ _ => hfailed hs⟩
    obtain ⟨x, hx, hloose⟩ := hq
    rw [killed_procs h.toBase hx] at hloose
    cases hloose
  unfold Relay.fail
  dsimp only
  by_cases hretry : s.stopped = false ∧ s.timer = none
  · rw [if_pos hretry]
    refine ⟨hbase _ _ (timers_concat h.timer hretry.2) (fun hs => ?_) fun _ => ?_, rfl, rfl⟩
    · exact absurd (hs.symm.trans hretry.1) Bool.noConfusion
    · exact Option.some_ne_none _
  · rw [if_neg hretry]
    exact ⟨hbase _ _ h.timer h.stopped fun hs hnone => hretry ⟨hs, hnone⟩, rfl, rfl⟩

theorem Sound.stop (h : Sound s) : Sound s.stop := by
  have hwaiting := killed_waiting h.toBase
  refine ⟨⟨fun q hq => ?_, fun q hq => (by cases hq), fun hup => (by cases hup), hwaiting,
    fun k => ?_, fun _ => rfl, fun hs => ⟨(h.bare hs).1, rfl, rfl⟩⟩, fun hs => (by cases hs)⟩
  · obtain ⟨x, hx, hloose⟩ := hq
    have hx' : (s.proc.elim s.procs fun p => (s.kill p).procs)[q]? = some x := hx
    rw [killed_procs h.toBase hx'] at hloose
    cases hloose
  · have hnone : s.stop.timers[k]? ≠ some true := by
      unfold Relay.stop
      dsimp only
      cases htimer : s.timer with
      | none =>
        intro hk
        have := (h.timer k).mp hk
        rw [htimer] at this
        cases this
      | some j => exact timers_set h.timer htimer k
    exact ⟨fun hk => absurd hk hnone, fun hk => (by cases hk)⟩

theorem Sound.spawn (h : Sound s) (hon : s.stopped = false) (hnone : s.proc = none) (port : ℕ)
    {settings : Settings} (hset : s.settings = some settings) : Sound (s.spawn i port settings) := by
  have hnew : (s.procs ++ [⟨sshArgs settings port, port, true, false⟩])[s.procs.length]? =
      some ⟨sshArgs settings port, port, true, false⟩ := List.getElem?_concat_length
  have hup : s.state ≠ .up := by
    intro hup
    obtain ⟨p, x, hp, -, -⟩ := h.up hup
    rw [hnone] at hp
    cases hp
  refine ⟨⟨fun q hq => ?_, fun q hq => ?_, fun hs => absurd hs hup, fun j p port' hj => ?_, h.timer,
    h.stopped, fun hs => (by cases hset.symm.trans hs)⟩, fun _ _ hq => (by cases hq)⟩
  · obtain ⟨x, hx, hloose⟩ := hq
    have hx' : (s.procs ++ [⟨sshArgs settings port, port, true, false⟩])[q]? = some x := hx
    rcases Nat.lt_trichotomy q s.procs.length with hlt | rfl | hgt
    · rw [List.getElem?_append_left hlt] at hx'
      have := h.loose q ⟨x, hx', hloose⟩
      rw [hnone] at this
      cases this
    · rfl
    · rw [List.getElem?_eq_none (by rw [List.length_append, List.length_singleton]; omega)] at hx'
      cases hx'
  · obtain rfl := Option.some.inj hq
    exact ⟨⟨_, hnew, rfl⟩, hon⟩
  · have hj' : (s.tasks.set i (.waiting s.procs.length port))[j]? = some (.waiting p port') := hj
    by_cases hij : i = j
    · subst hij
      rw [List.getElem?_set_self'] at hj'
      obtain ⟨_, -, hf⟩ := Option.map_eq_some_iff.mp hj'
      obtain ⟨rfl, rfl⟩ := Task.waiting.inj hf
      exact ⟨_, hnew, rfl⟩
    · rw [List.getElem?_set_ne hij] at hj'
      obtain ⟨x, hx, hport⟩ := h.waiting j p port' hj'
      have hlt : p < s.procs.length := (List.getElem?_eq_some_iff.mp hx).1
      exact ⟨x, (List.getElem?_append_left hlt).trans hx, hport⟩

theorem Sound.opened (h : Sound s) {p port : ℕ}
    (hp : ∃ x, s.procs[p]? = some x ∧ x.port = port) : Sound (s.opened p port) := by
  unfold Relay.opened
  split_ifs with hproc
  · obtain ⟨x, hx, rfl⟩ := hp
    exact ⟨⟨h.loose, h.held, fun _ => ⟨p, x, hproc, hx, rfl⟩, h.waiting, h.timer, h.stopped, h.bare⟩,
      fun _ hs => (by cases hs)⟩
  · exact h

theorem Sound.exited (h : Sound s)
    (hretry : s.proc = some p → s.timer = none) (code : String) :
    Sound (Relay.onExit { s with procs := s.procs.modify p fun x => { x with alive := false } } p
      code) ∧ (s.proc = some p →
        (Relay.onExit { s with procs := s.procs.modify p fun x => { x with alive := false } } p
          code).proc = none ∧
        (Relay.onExit { s with procs := s.procs.modify p fun x => { x with alive := false } } p
          code).state = .failed) := by
  have hloose : ∀ q x, (s.procs.modify p fun x => { x with alive := false })[q]? = some x →
      x.loose = true → q ≠ p ∧ s.loose q := by
    intro q x hx hx'
    obtain ⟨y, hy, rfl⟩ := modify_inv hx
    split_ifs at hx' with hpq
    · cases hx'
    · exact ⟨fun hqp => hpq hqp.symm, y, hy, hx'⟩
  have hwaiting := modify_port (f := fun x : Proc => { x with alive := false }) (fun _ => rfl)
    h.waiting p
  unfold Relay.onExit
  dsimp only
  by_cases hproc : s.proc = some p
  · have hon := (h.held p hproc).2
    have hoff : ¬ s.stopped = true := by
      rw [hon]
      exact Bool.false_ne_true
    rw [if_neg (not_not.mpr hproc), if_neg hoff, if_neg hoff]
    refine ⟨⟨⟨fun q hq => ?_, fun q hq => (by cases hq), fun hs => (by cases hs), hwaiting,
      timers_concat h.timer (hretry hproc), fun hs => absurd hs hoff, fun hs => ?_⟩, fun _ _ _ => ?_⟩,
      fun _ => ⟨rfl, rfl⟩⟩
    · obtain ⟨x, hx, hx'⟩ := hq
      obtain ⟨hne, hq'⟩ := hloose q x hx hx'
      exact absurd (Option.some.inj (hproc.symm.trans (h.loose q hq'))).symm hne
    · cases hproc.symm.trans (h.bare hs).2.2
    · exact Option.some_ne_none _
  · rw [if_pos hproc]
    refine ⟨⟨⟨fun q hq => ?_, fun q hq => ?_, fun hs => ?_, hwaiting, h.timer, h.stopped, h.bare⟩,
      h.failed⟩, fun hs => absurd hs hproc⟩
    · obtain ⟨x, hx, hx'⟩ := hq
      exact h.loose q (hloose q x hx hx').2
    · obtain ⟨⟨x, hx, hx'⟩, hon⟩ := h.held q hq
      have hne : p ≠ q := by
        rintro rfl
        exact hproc hq
      exact ⟨⟨x, (List.getElem?_modify_ne _ _ hne).trans hx, hx'⟩, hon⟩
    · obtain ⟨q, x, hq, hx, hport⟩ := h.up hs
      have hne : p ≠ q := by
        rintro rfl
        exact hproc hq
      exact ⟨q, x, hq, (List.getElem?_modify_ne _ _ hne).trans hx, hport⟩

theorem Base.start (h : Base s) (hset : s.settings ≠ none) {keyExists : Bool}
    (hkey : s.begins = true → keyExists = false → s.timer ≠ none) :
    Sound (s.start keyExists) ∧ (s.begins = true → keyExists = false →
      (s.start keyExists).proc = none ∧ (s.start keyExists).state = .failed) := by
  have hheld : ∀ q, s.proc = some q → s.loose q ∧ false = false := fun q hq => ⟨(h.held q hq).1, rfl⟩
  unfold Relay.start
  dsimp only
  rw [if_neg hset]
  split_ifs with hbusy hkey'
  · refine ⟨⟨⟨h.loose, hheld, h.up, h.waiting, h.timer, fun hs => (by cases hs), h.bare⟩,
      fun _ hs hnone => ?_⟩, fun hbegins => ?_⟩
    · rcases hbusy with hproc | hstarting
      · exact absurd hnone hproc
      · exact absurd (hs.symm.trans hstarting) (by decide)
    · have hno : s.begins = false := by
        rcases hbusy with hproc | hstarting
        · obtain ⟨q, hq⟩ := Option.ne_none_iff_exists'.mp hproc
          simp [Relay.begins, hq]
        · simp [Relay.begins, hstarting]
      rw [hno] at hbegins
      cases hbegins
  · refine ⟨⟨⟨h.loose, hheld, fun hs => (by cases hs), fun j p port hj => ?_, h.timer,
      fun hs => (by cases hs), fun hs => absurd hs hset⟩, fun _ hs => (by cases hs)⟩, fun _ hno => ?_⟩
    · have hj' : (s.tasks ++ [Task.allocating])[j]? = some (.waiting p port) := hj
      rcases Nat.lt_trichotomy j s.tasks.length with hlt | rfl | hgt
      · rw [List.getElem?_append_left hlt] at hj'
        exact h.waiting j p port hj'
      · rw [List.getElem?_concat_length] at hj'
        cases hj'
      · rw [List.getElem?_eq_none (by rw [List.length_append, List.length_singleton]; omega)] at hj'
        cases hj'
    · rw [hkey'] at hno
      cases hno
  · have hproc : s.proc = none := by
      by_contra hproc
      exact hbusy (.inl hproc)
    have hbegins : s.begins = true := by
      obtain ⟨settings, hs⟩ := Option.ne_none_iff_exists'.mp hset
      have hstate : s.state ≠ .starting := fun hs => hbusy (.inr hs)
      simp [Relay.begins, hs, hproc, hstate]
    have htimer := hkey hbegins (Bool.not_eq_true _ ▸ hkey')
    exact ⟨⟨⟨h.loose, hheld, fun hs => (by cases hs), h.waiting, h.timer, fun hs => (by cases hs),
      h.bare⟩, fun _ _ _ => htimer⟩, fun _ _ => ⟨hproc, rfl⟩⟩

theorem Base.fired (h : Base s) {k : ℕ} (hk : s.timers[k]? = some true) : Base { s with
    timers := s.timers.set k false
    timer := none } :=
  ⟨h.loose, h.held, h.up, h.waiting,
    fun j => ⟨fun hj => absurd hj (timers_set h.timer ((h.timer k).mp hk) j), fun hj => (by cases hj)⟩,
    fun _ => rfl, fun hs => ⟨(h.bare hs).1, rfl, (h.bare hs).2.2⟩⟩

theorem settings_of_task (h : Base s) {t : Task} (hi : s.tasks[i]? = some t) : s.settings ≠ none := by
  intro hs
  rw [(h.bare hs).1] at hi
  cases hi

/-! ### Every step -/

theorem sound_step (h : Sound s) {a : Action} (horderly : Orderly s a = true)
    (hstep : step s a = some s') :
    Sound s' ∧ (fails s a = true → s'.proc = none ∧ s'.state = .failed) := by
  cases a with
  | start keyExists =>
    obtain rfl := Option.some.inj hstep
    by_cases hset : s.settings = none
    · have hsame : s.start keyExists = s := if_pos hset
      rw [hsame]
      exact ⟨h, fun hfails => by simp [fails, Relay.begins, hset] at hfails⟩
    · obtain ⟨hsound, hfailed⟩ := @Base.start _ h.toBase hset keyExists fun hbegins hno => by
        have : s.timer.isSome = true := by
          simpa [Orderly, hbegins, hno] using horderly
        exact Option.isSome_iff_ne_none.mp this
      refine ⟨hsound, fun hfails => ?_⟩
      obtain ⟨hbegins, hno⟩ := Bool.and_eq_true_iff.mp hfails
      exact hfailed hbegins (by simpa using hno)
  | stop =>
    obtain rfl := Option.some.inj hstep
    exact ⟨h.stop, fun hfails => by cases hfails⟩
  | allocated i port =>
    unfold step at hstep
    dsimp only at hstep
    split at hstep
    next settings hi hset =>
      obtain rfl := Option.some.inj hstep
      have hfree : s.stopped = false ∧ s.proc = none := by
        simpa [Orderly] using horderly
      exact ⟨h.spawn hfree.1 hfree.2 port hset, fun hfails => by cases hfails⟩
    next => cases hstep
  | refused i message =>
    unfold step at hstep
    dsimp only at hstep
    split at hstep
    next hi =>
      obtain rfl := Option.some.inj hstep
      have hset := settings_of_task h.toBase hi
      obtain ⟨hsound, hfailed⟩ := (h.settled (i := i)).fail hset message
      exact ⟨hsound, fun _ => hfailed⟩
    next => cases hstep
  | waited i =>
    unfold step at hstep
    dsimp only at hstep
    split at hstep
    next p port hi =>
      obtain rfl := Option.some.inj hstep
      exact ⟨(h.settled (i := i)).opened (h.waiting i p port hi), fun hfails => by cases hfails⟩
    next => cases hstep
  | timedOut i message =>
    unfold step at hstep
    dsimp only at hstep
    split at hstep
    next p port hi =>
      obtain rfl := Option.some.inj hstep
      have hset := settings_of_task h.toBase hi
      obtain ⟨hsound, hfailed⟩ := (h.settled (i := i)).fail hset message
      exact ⟨hsound, fun _ => hfailed⟩
    next => cases hstep
  | exited p code =>
    unfold step at hstep
    dsimp only at hstep
    split_ifs at hstep
    obtain rfl := Option.some.inj hstep
    obtain ⟨hsound, hfailed⟩ := h.exited (p := p) (of_decide_eq_true horderly) code
    exact ⟨hsound, fun hfails => hfailed (of_decide_eq_true hfails)⟩
  | fire k keyExists =>
    unfold step at hstep
    dsimp only at hstep
    split_ifs at hstep with hk
    obtain rfl := Option.some.inj hstep
    have hset : s.settings ≠ none := by
      intro hs
      cases ((h.timer k).mp hk).symm.trans (h.bare hs).2.1
    have hgoes : s.begins = true → keyExists = true := by
      simpa [Orderly, imp_iff_not_or] using horderly
    obtain ⟨hsound, -⟩ := @Base.start _ (h.toBase.fired hk) hset keyExists fun hbegins hno => by
      cases (hgoes hbegins).symm.trans hno
    refine ⟨hsound, fun hfails => ?_⟩
    obtain ⟨hbegins, hno⟩ := Bool.and_eq_true_iff.mp hfails
    rw [hgoes hbegins] at hno
    cases hno

/-- One process at most runs and none once stopped; the base is that of a process that runs; and
a failure that is not stopped leaves one retry. -/
structure OneSsh (s : Relay) : Prop where
  one : ∀ p q, s.loose p → s.loose q → p = q
  stopped : s.stopped = true → ∀ p, ¬ s.loose p
  base : ∀ b, s.base = some b → ∃ (p : ℕ) (x : Proc), s.procs[p]? = some x ∧ x.loose = true ∧
    b = s!"ws://127.0.0.1:{x.port}"
  retry : s.stopped = false → s.state = .failed → s.proc = none →
    ∃! k : ℕ, s.timers[k]? = some true

theorem Sound.one_retry (h : Sound s) (hon : s.stopped = false) (hfailed : s.state = .failed)
    (hnone : s.proc = none) : ∃! k : ℕ, s.timers[k]? = some true := by
  obtain ⟨k, hk⟩ := Option.ne_none_iff_exists'.mp (h.failed hon hfailed hnone)
  refine ⟨k, (h.timer k).mpr hk, fun j hj => ?_⟩
  exact (Option.some.inj (hk.symm.trans ((h.timer j).mp hj))).symm

theorem Sound.oneSsh (h : Sound s) : OneSsh s := by
  refine ⟨fun p q hp hq => ?_, fun hs p hp => ?_, fun b hb => ?_, h.one_retry⟩
  · exact Option.some.inj ((h.loose p hp).symm.trans (h.loose q hq))
  · cases hs.symm.trans (h.held p (h.loose p hp)).2
  · unfold Relay.base at hb
    split at hb
    next port hup hport =>
      obtain ⟨p, x, hp, hx, hport'⟩ := h.up hup
      obtain ⟨y, hy, hloose⟩ := (h.held p hp).1
      obtain rfl := Option.some.inj (hx.symm.trans hy)
      obtain rfl := Option.some.inj (hport.symm.trans hport')
      split_ifs at hb
      exact ⟨p, x, hx, hloose, (Option.some.inj hb).symm⟩
    next => cases hb

/-- A start that fails without being stopped leaves one retry. -/
def LeavesRetry (s : Relay) (a : Action) : Prop :=
  ∀ s', step s a = some s' → fails s a = true → s'.stopped = false →
    ∃! k : ℕ, s'.timers[k]? = some true

/-- While each port that is allocated finds the relay started and without a process, and each
start that finds no key and each process that ends finds the retries as it expects, there is one
process at a time. -/
theorem one_ssh (settings : Option Settings) (as : List Action)
    (horderly : Along step (fun s a => Orderly s a = true) (.initial settings) as) {s : Relay}
    (hrun : runs step (.initial settings) as = some s) :
    OneSsh s ∧ Along step LeavesRetry (.initial settings) as := by
  constructor
  · exact (runs_invariant (fun t a t' ha ht hstep => (sound_step ht ha hstep).1) horderly hrun
      (sound_initial settings)).oneSsh
  · refine Along.of_invariant (fun t a t' ha ht hstep => ⟨fun t'' hstep' hfails hon => ?_,
      (sound_step ht ha hstep).1⟩) horderly hrun (sound_initial settings)
    obtain ⟨hsound, hfailed⟩ := sound_step ht ha hstep'
    obtain ⟨hnone, hstate⟩ := hfailed hfails
    exact hsound.one_retry hon hstate hnone

def someSettings : Settings := ⟨"bridge", 22, "u", "/k", 19000⟩

/-- A forward that comes up, ends and is opened again. -/
def reopened : List Action :=
  [.start true, .allocated 0 40001, .waited 0, .exited 0 "255", .fire 0 true, .allocated 1 40002,
    .timedOut 1 "ssh forward did not open", .stop]

theorem one_ssh_reopened : ∃ s, runs step (.initial (some someSettings)) reopened = some s ∧
    OneSsh s := by
  obtain ⟨s, hrun, -⟩ := runs_exists step (.initial (some someSettings)) reopened (fun _ => true)
    (by decide)
  exact ⟨s, hrun, (one_ssh (some someSettings) reopened (by decide) hrun).1⟩

/-- A stop while the port is allocated leaves the process that is spawned after it; started again
there are two; a missing key leaves no retry; and a start beside a retry leaves two of them. -/
theorem many_ssh :
    (∃ s, runs step (.initial (some someSettings)) [.start true, .stop, .allocated 0 40001,
        .waited 0] = some s ∧ s.stopped = true ∧ s.procs.map Proc.loose = [true]) ∧
    (∃ s, runs step (.initial (some someSettings)) [.start true, .stop, .start true,
        .allocated 0 40001, .allocated 1 40002] = some s ∧
      s.procs.map Proc.loose = [true, true]) ∧
    (∃ s, runs step (.initial (some someSettings)) [.start false] = some s ∧ s.stopped = false ∧
      s.state = .failed ∧ s.timers = []) ∧
    (∃ s, runs step (.initial (some someSettings)) [.start true, .allocated 0 40001,
        .exited 0 "255", .start true, .allocated 1 40002, .exited 1 "255"] = some s ∧
      s.timers = [true, true]) := by
  refine ⟨?_, ?_, ?_, ?_⟩
  · obtain ⟨s, hrun, hs⟩ := runs_exists step (.initial (some someSettings)) [.start true, .stop,
      .allocated 0 40001, .waited 0]
      (fun s => s.stopped = true ∧ s.procs.map Proc.loose = [true]) (by decide)
    exact ⟨s, hrun, of_decide_eq_true hs⟩
  · obtain ⟨s, hrun, hs⟩ := runs_exists step (.initial (some someSettings)) [.start true, .stop,
      .start true, .allocated 0 40001, .allocated 1 40002]
      (fun s => s.procs.map Proc.loose = [true, true]) (by decide)
    exact ⟨s, hrun, of_decide_eq_true hs⟩
  · exact ⟨_, rfl, rfl, rfl, rfl⟩
  · obtain ⟨s, hrun, hs⟩ := runs_exists step (.initial (some someSettings)) [.start true,
      .allocated 0 40001, .exited 0 "255", .start true, .allocated 1 40002, .exited 1 "255"]
      (fun s => s.timers = [true, true]) (by decide)
    exact ⟨s, hrun, of_decide_eq_true hs⟩

end KvasirNet.DirectRelay
