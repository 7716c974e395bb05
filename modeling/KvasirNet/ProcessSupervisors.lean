import KvasirNet.Runs
import Mathlib.Data.List.Basic
import Mathlib.Tactic.Common
import Mathlib.Tactic.SplitIfs

/-! The processes that the desktop starts: the hosted gateway, the p4 agent and the local
model server. The end of a process and the event that tells of it are two things. -/
namespace KvasirNet.Desktop

/-- A process that was spawned, or failed to be. `told` says that its `exit` event, or the
`error` of the failed spawn, has been delivered. -/
structure Proc where
  spawned : Bool
  alive : Bool
  killed : Bool
  told : Bool
  born : alive = true → spawned = true
  deriving DecidableEq, Repr

def Proc.start (ok : Bool) : Proc := ⟨ok, ok, false, false, id⟩

def Proc.die (p : Proc) : Proc := { p with alive := false, born := fun h => by cases h }

def Proc.kill (p : Proc) : Proc := { p with killed := true }

def Proc.tell (p : Proc) : Proc := { p with told := true }

def Proc.exits (p : Proc) : Bool := p.spawned && !p.alive && !p.told

/-- An `error` comes of a spawn that failed, once, or of a signal that could not be sent. -/
def Proc.errs (p : Proc) : Bool := if p.spawned then p.killed && !p.told else !p.told

/-- A failed spawn has told all it has to tell. -/
def Proc.afterError (p : Proc) : Proc := if p.spawned then p else p.tell

def Proc.loose (p : Proc) : Bool := p.alive && !p.killed

abbrev Procs := List Proc

/-- What a supervisor owes: the one process that is loose is the one its handle refers to,
and there is none after a stop. -/
structure Supervised (procs : Procs) (handle : Option ℕ) (stopped : Bool) : Prop where
  handle : ∀ (i : ℕ) (p : Proc), procs[i]? = some p → p.loose = true → handle = some i
  stopped : stopped = true → ∀ p ∈ procs, p.loose = false

variable {p : Proc} {i : ℕ}

theorem Supervised.unique {procs : Procs} {handle : Option ℕ} {stopped : Bool}
    (h : Supervised procs handle stopped) {j : ℕ} {q : Proc} (hi : procs[i]? = some p)
    (hj : procs[j]? = some q) (hp : p.loose = true) (hq : q.loose = true) : i = j :=
  Option.some.inj ((h.handle i p hi hp).symm.trans (h.handle j q hj hq))

/-! ### The hosted gateway -/

/-- `gwProc` and `gwLastError` of the main process. `stopped` is set by a stop and
cleared by a spawn. -/
structure Gateway where
  procs : Procs
  gwProc : Option ℕ
  gwLastError : Option String
  stopped : Bool
  deriving DecidableEq, Repr

def Gateway.initial : Gateway := ⟨[], none, none, false⟩

inductive GatewayAction
  | start (ready spawned : Bool)
  | stop
  | die (i : ℕ)
  -- an exit by a signal has no code, which counts as 0
  | exit (i : ℕ) (code : ℕ) (errBuf : String)
  | error (i : ℕ) (message : String)
  deriving DecidableEq, Repr

/-- `startGateway`; not `ready` when the code or the key cannot be read. -/
def startGateway (s : Gateway) (ready spawned : Bool) : Gateway :=
  match s.gwProc with
  | some _ => s
  | none =>
    if ready then
      { procs := s.procs ++ [.start spawned]
        gwProc := some s.procs.length
        gwLastError := none
        stopped := false }
    else { s with gwLastError := none }

def stopGateway (s : Gateway) : Gateway :=
  match s.gwProc with
  | some i => { s with procs := s.procs.modify i Proc.kill, gwProc := none, stopped := true }
  | none => { s with stopped := true }

def gatewayStep (s : Gateway) : GatewayAction → Option Gateway
  | .start ready spawned => some (startGateway s ready spawned)
  | .stop => some (stopGateway s)
  | .die i => some { s with procs := s.procs.modify i Proc.die }
  | .exit i code errBuf =>
    if s.procs[i]?.any Proc.exits then
      some { s with
        procs := s.procs.modify i Proc.tell
        gwProc := none
        gwLastError :=
          if code = 0 then s.gwLastError
          else some (if errBuf = "" then s!"gateway exited (code {code})" else errBuf) }
    else none
  | .error i message =>
    if s.procs[i]?.any Proc.errs then
      some { s with
        procs := s.procs.modify i Proc.afterError
        gwProc := none
        gwLastError := some message }
    else none

def GatewayAction.of : GatewayAction → Option ℕ
  | .exit i _ _ | .error i _ => some i
  | .start _ _ | .stop | .die _ => none

/-- No event comes of a gateway after a later one was started, save an exit without an
error while none is recorded. -/
def gatewayOrderly (s : Gateway) : GatewayAction → Bool
  | .exit i code _ => i + 1 = s.procs.length ∨ (s.gwProc = none ∧ code = 0)
  | .error i _ => i + 1 = s.procs.length
  | .start _ _ | .stop | .die _ => true

/-! ### The p4 agent -/

/-- `P4Node`, with the stops that wait for an exit or for their grace. -/
structure Node where
  procs : Procs
  proc : Option ℕ
  lastError : Option String
  lastExit : Option ℕ
  startedAt : Option ℕ
  stops : List ℕ
  stopped : Bool
  deriving DecidableEq, Repr

def Node.initial : Node := ⟨[], none, none, none, none, [], false⟩

/-- How `spawn` goes: it throws, or returns a process that runs or never will. -/
inductive Spawn
  | noBinary
  | throws (message : String)
  | returns (spawned : Bool)
  deriving DecidableEq, Repr

inductive NodeAction
  | start (spawn : Spawn) (now : ℕ)
  | stop
  | grace (k : ℕ)
  | die (i : ℕ)
  | exit (i : ℕ) (code : ℕ)
  | error (i : ℕ) (message : String)
  deriving DecidableEq, Repr

def Node.start (s : Node) (spawn : Spawn) (now : ℕ) : Node :=
  match s.proc with
  | some _ => s
  | none =>
    match spawn with
    | .noBinary => { s with lastError := some "no p4-agent binary found (set KVASIR_P4_AGENT)" }
    | .throws message => { s with lastError := some message, proc := none }
    | .returns spawned =>
      { s with
        procs := s.procs ++ [.start spawned]
        proc := some s.procs.length
        lastError := none
        lastExit := none
        startedAt := some now
        stopped := false }

def Node.stop (s : Node) : Node :=
  match s.proc with
  | some i =>
    { s with procs := s.procs.modify i Proc.kill, stops := s.stops ++ [i], stopped := true }
  | none => { s with stopped := true }

def nodeStep (s : Node) : NodeAction → Option Node
  | .start spawn now => some (s.start spawn now)
  | .stop => some s.stop
  -- the grace is over: SIGKILL, and the stop returns
  | .grace k => s.stops[k]?.map fun i =>
    { s with procs := s.procs.modify i Proc.kill, stops := s.stops.eraseIdx k }
  | .die i => some { s with procs := s.procs.modify i Proc.die }
  | .exit i code =>
    if s.procs[i]?.any Proc.exits then
      some { s with
        procs := s.procs.modify i Proc.tell
        proc := none
        lastExit := some code
        startedAt := none
        stops := s.stops.filter (· ≠ i) }
    else none
  | .error i message =>
    if s.procs[i]?.any Proc.errs then
      some { s with procs := s.procs.modify i Proc.afterError, lastError := some message }
    else none

def NodeAction.of : NodeAction → Option ℕ
  | .exit i _ | .error i _ => some i
  | .start _ _ | .stop | .grace _ | .die _ => none

/-! ### The local model server -/

/-- Where `generate` is suspended: for its port, or past its spawn with the process that
it holds. -/
inductive Generation
  | port (model : String)
  | waiting (child : ℕ)
  deriving DecidableEq, Repr

/-- `LocalServer`: `current` with its model, and the `alive` flags of the records. -/
structure Local where
  procs : Procs
  current : Option (ℕ × String)
  flags : List Bool
  generation : Option Generation
  stopped : Bool
  deriving DecidableEq, Repr

def Local.initial : Local := ⟨[], none, [], none, false⟩

inductive LocalAction
  | stop
  | generate (model : String)
  | allocated (ok spawned : Bool)
  | resume (ok last : Bool)
  | die (i : ℕ)
  | ended (i : ℕ) (error : Bool)
  deriving DecidableEq, Repr

/-- `stop()`, from inside or outside of `generate`. -/
def Local.stop (s : Local) : Local :=
  match s.current with
  | some (i, _) =>
    { s with current := none, flags := s.flags.set i false, procs := s.procs.modify i Proc.kill }
  | none => s

/-- `generate` up to its first await. -/
def Local.generate (s : Local) (model : String) : Local :=
  match s.generation with
  | some _ => s
  | none =>
    let s' := if s.current.any (·.2 ≠ model) then s.stop else s
    match s'.current with
    | none => { s' with generation := some (.port model), stopped := false }
    | some (i, _) => { s' with generation := some (.waiting i), stopped := false }

/-- `generate` past `allocatePort`. -/
def Local.allocated (s : Local) (model : String) (ok spawned : Bool) : Local :=
  if ok then
    { s with
      procs := s.procs ++ [.start spawned]
      current := some (s.procs.length, model)
      flags := s.flags ++ [true]
      generation := some (.waiting s.procs.length) }
  else { s.stop with generation := none }

/-- A later await of `generate` is over: it goes on, returns, or throws, as it does
when the process it holds has ended. -/
def Local.resume (s : Local) (child : ℕ) (ok last : Bool) : Local :=
  if ok && s.flags.getD child false then
    if last then { s with generation := none } else s
  else { s.stop with generation := none }

def localStep (s : Local) : LocalAction → Option Local
  | .stop => some { s.stop with stopped := true }
  | .generate model => some (s.generate model)
  | .allocated ok spawned =>
    match s.generation with
    | some (.port model) => some (s.allocated model ok spawned)
    | _ => none
  | .resume ok last =>
    match s.generation with
    | some (.waiting child) => some (s.resume child ok last)
    | _ => none
  | .die i => some { s with procs := s.procs.modify i Proc.die }
  | .ended i error =>
    if s.procs[i]?.any (if error then Proc.errs else Proc.exits) then
      some { s with
        procs := s.procs.modify i (if error then Proc.afterError else Proc.tell)
        flags := s.flags.set i false
        current := if s.current.any (·.1 = i) then none else s.current }
    else none

def LocalAction.of : LocalAction → Option ℕ
  | .ended i _ => some i
  | .stop | .generate _ | .allocated _ _ | .resume _ _ | .die _ => none

/-- No stop comes while `generate` waits for its port. -/
def localOrderly (s : Local) : LocalAction → Bool
  | .stop => match s.generation with
    | some (.port _) => false
    | _ => true
  | .generate _ | .allocated _ _ | .resume _ _ | .die _ | .ended _ _ => true

/-! ### Tables of processes -/

theorem loose_kill (p : Proc) : p.kill.loose = false := by simp [Proc.kill, Proc.loose]

theorem loose_afterError (p : Proc) : p.afterError.loose = p.loose := by
  unfold Proc.afterError
  split_ifs <;> rfl

theorem not_loose_of_exits (h : p.exits = true) : p.loose = false := by
  cases p
  simp_all [Proc.exits, Proc.loose]

variable {f : Proc → Proc}

theorem getElem?_modify_cases {procs : Procs} {j : ℕ}
    (h : (procs.modify i f)[j]? = some p) :
    ∃ q, procs[j]? = some q ∧ ((i = j ∧ p = f q) ∨ (i ≠ j ∧ p = q)) := by
  rw [List.getElem?_modify] at h
  obtain ⟨q, hq, hp⟩ := Option.map_eq_some_iff.mp h
  by_cases hij : i = j
  · exact ⟨q, hq, Or.inl ⟨hij, by rw [← hp, if_pos hij]⟩⟩
  · exact ⟨q, hq, Or.inr ⟨hij, by rw [← hp, if_neg hij]⟩⟩

theorem mem_modify {procs : Procs}
    (h : p ∈ procs.modify i f) : ∃ q ∈ procs, p = f q ∨ p = q := by
  obtain ⟨j, hj⟩ := List.mem_iff_getElem?.mp h
  obtain ⟨q, hq, hcase⟩ := getElem?_modify_cases hj
  exact ⟨q, List.mem_of_getElem? hq, hcase.imp And.right And.right⟩

theorem getElem?_concat_cases {procs : Procs} {q : Proc}
    (h : (procs ++ [q])[i]? = some p) :
    procs[i]? = some p ∨ (i = procs.length ∧ p = q) := by
  rcases Nat.lt_or_ge i procs.length with hlt | hge
  · rw [List.getElem?_append_left hlt] at h
    exact Or.inl h
  · rw [List.getElem?_append_right hge] at h
    obtain ⟨hk, hpq⟩ := List.getElem?_eq_some_iff.mp h
    have hi : i - procs.length < 1 := hk
    refine Or.inr ⟨by omega, ?_⟩
    simpa using hpq.symm

variable {procs : Procs} {handle : Option ℕ} {stopped : Bool}

theorem Supervised.modify (h : Supervised procs handle stopped)
    (hf : ∀ p, (f p).loose = true → p.loose = true) :
    Supervised (procs.modify i f) handle stopped := by
  refine ⟨fun j p hj hp => ?_, fun hs p hp => ?_⟩
  · obtain ⟨q, hq, ⟨-, rfl⟩ | ⟨-, rfl⟩⟩ := getElem?_modify_cases hj
    · exact h.handle j q hq (hf q hp)
    · exact h.handle j p hq hp
  · obtain ⟨q, hq, rfl | rfl⟩ := mem_modify hp
    · have hquiet := h.stopped hs q hq
      cases hloose : (f q).loose with
      | false => rfl
      | true => exact absurd (hf q hloose) (by simp [hquiet])
    · exact h.stopped hs p hq

theorem Supervised.kill (h : Supervised procs (some i) stopped) (stopped' : Bool) :
    Supervised (procs.modify i Proc.kill) none stopped' := by
  have hquiet : ∀ (j : ℕ) (p : Proc), (procs.modify i Proc.kill)[j]? = some p → p.loose = false := by
    intro j p hj
    obtain ⟨q, hq, ⟨-, rfl⟩ | ⟨hij, rfl⟩⟩ := getElem?_modify_cases hj
    · exact loose_kill q
    · cases hloose : p.loose with
      | false => rfl
      | true => exact absurd (Option.some.inj (h.handle j p hq hloose)) hij
  refine ⟨fun j p hj hp => ?_, fun _ p hp => ?_⟩
  · exact absurd hp (by simp [hquiet j p hj])
  · obtain ⟨j, hj⟩ := List.mem_iff_getElem?.mp hp
    exact hquiet j p hj

theorem Supervised.quiet (h : Supervised procs none stopped)
    (hi : procs[i]? = some p) : p.loose = false := by
  cases hloose : p.loose with
  | false => rfl
  | true => cases h.handle i p hi hloose

theorem Supervised.stop (h : Supervised procs none stopped) (stopped' : Bool) :
    Supervised procs none stopped' := by
  refine ⟨h.handle, fun _ p hp => ?_⟩
  obtain ⟨i, hi⟩ := List.mem_iff_getElem?.mp hp
  exact h.quiet hi

theorem Supervised.spawn (h : Supervised procs none stopped) (ok : Bool) :
    Supervised (procs ++ [.start ok]) (some procs.length) false := by
  refine ⟨fun i p hi hp => ?_, fun hs => by cases hs⟩
  rcases getElem?_concat_cases hi with hold | ⟨rfl, -⟩
  · exact absurd hp (by simp [h.quiet hold])
  · rfl

theorem Supervised.clear (h : Supervised procs handle stopped)
    (hended : ∀ i p, handle = some i → procs[i]? = some p → p.loose = false) :
    Supervised procs none stopped := by
  refine ⟨fun i p hi hp => ?_, h.stopped⟩
  exact absurd hp (by simp [hended i p (h.handle i p hi hp) hi])

theorem of_guard {σ : Type} {c : Bool} {x y : σ} (h : (if c then some x else none) = some y) :
    c = true ∧ x = y := by
  split_ifs at h with hc
  exact ⟨hc, Option.some.inj h⟩

/-! ### The gateway keeps track -/

structure Gateway.Sound (s : Gateway) : Prop where
  supervised : Supervised s.procs s.gwProc s.stopped
  last : ∀ i, s.gwProc = some i → i + 1 = s.procs.length

theorem Gateway.sound_initial : Gateway.Sound .initial :=
  ⟨⟨fun i p hi => by simp [Gateway.initial] at hi, fun hs => by cases hs⟩, fun i hi => by cases hi⟩

theorem exits_of_any {f : Proc → Bool} (h : procs[i]?.any f = true) :
    ∃ p, procs[i]? = some p ∧ f p = true := by
  cases hp : procs[i]? with
  | none => simp [hp] at h
  | some p => exact ⟨p, rfl, by simpa [hp] using h⟩

theorem not_loose_of_errs (h : p.errs = true) : p.loose = false := by
  obtain ⟨spawned, alive, killed, told, born⟩ := p
  cases spawned with
  | true => simp_all [Proc.errs, Proc.loose]
  | false =>
    have hdead : alive = false := by simpa using born
    simp [Proc.loose, hdead]

theorem Gateway.Sound.event {s : Gateway} (h : s.Sound)
    {e : Option String} (hi : s.procs[i]? = some p) (hp : p.loose = false)
    (hf : ∀ q, (f q).loose = true → q.loose = true)
    (hlast : i + 1 = s.procs.length ∨ s.gwProc = none) :
    Gateway.Sound ⟨s.procs.modify i f, none, e, s.stopped⟩ := by
  have hnone : Supervised s.procs none s.stopped := by
    refine h.supervised.clear fun j q hj hq => ?_
    rcases hlast with hlast | hnone
    · have hj' := h.last j hj
      obtain rfl : i = j := by omega
      obtain rfl := Option.some.inj (hi.symm.trans hq)
      exact hp
    · cases hnone.symm.trans hj
  exact ⟨hnone.modify hf, fun j hj => by cases hj⟩

theorem loose_of_loose_die (p : Proc) (h : p.die.loose = true) : p.loose = true := by
  cases h

theorem loose_of_loose_kill (p : Proc) (h : p.kill.loose = true) : p.loose = true := by
  simp [loose_kill] at h

theorem loose_of_loose_tell (p : Proc) (h : p.tell.loose = true) : p.loose = true := h

theorem loose_of_loose_afterError (p : Proc) (h : p.afterError.loose = true) : p.loose = true :=
  loose_afterError p ▸ h

theorem Gateway.sound_step {s s' : Gateway} {a : GatewayAction} (h : s.Sound)
    (hclear : gatewayOrderly s a = true) (hstep : gatewayStep s a = some s') :
    s'.Sound ∧ ∀ i, a.of = some i → i + 1 < s.procs.length →
      s'.gwProc = s.gwProc ∧ s'.gwLastError = s.gwLastError := by
  cases a with
  | start ready spawned =>
    obtain rfl := Option.some.inj hstep
    refine ⟨?_, fun i hi => by cases hi⟩
    unfold startGateway
    cases hproc : s.gwProc with
    | some i => exact h
    | none =>
      have hnone : Supervised s.procs none s.stopped := hproc ▸ h.supervised
      cases ready with
      | true =>
        refine ⟨hnone.spawn spawned, fun i hi => ?_⟩
        obtain rfl := Option.some.inj hi
        simp
      | false =>
        exact ⟨hnone, fun i hi => by cases hi⟩
  | stop =>
    obtain rfl := Option.some.inj hstep
    refine ⟨?_, fun i hi => by cases hi⟩
    unfold stopGateway
    cases hproc : s.gwProc with
    | some i =>
      have hone : Supervised s.procs (some i) s.stopped := hproc ▸ h.supervised
      exact ⟨hone.kill true, fun j hj => by cases hj⟩
    | none =>
      have hnone : Supervised s.procs none s.stopped := hproc ▸ h.supervised
      exact ⟨hnone.stop true, fun i hi => by cases hi⟩
  | die i =>
    obtain rfl := Option.some.inj hstep
    refine ⟨⟨h.supervised.modify loose_of_loose_die, fun j hj => ?_⟩, fun i hi => by cases hi⟩
    simpa using h.last j hj
  | exit i code errBuf =>
    obtain ⟨hany, rfl⟩ := of_guard hstep
    obtain ⟨p, hi, hexits⟩ := exits_of_any hany
    have hcases : i + 1 = s.procs.length ∨ (s.gwProc = none ∧ code = 0) := by
      simpa [gatewayOrderly] using hclear
    refine ⟨h.event hi (not_loose_of_exits hexits) loose_of_loose_tell
      (hcases.imp_right And.left), fun j hj hlt => ?_⟩
    obtain rfl := Option.some.inj hj
    rcases hcases with hlast | ⟨hnone, rfl⟩
    · omega
    · exact ⟨hnone.symm, rfl⟩
  | error i message =>
    obtain ⟨hany, rfl⟩ := of_guard hstep
    obtain ⟨p, hi, herrs⟩ := exits_of_any hany
    have hlast : i + 1 = s.procs.length := by simpa [gatewayOrderly] using hclear
    refine ⟨h.event hi (not_loose_of_errs herrs) loose_of_loose_afterError (Or.inl hlast),
      fun j hj hlt => ?_⟩
    obtain rfl := Option.some.inj hj
    omega

/-! ### The p4 agent keeps track -/

structure Node.Sound (s : Node) : Prop where
  supervised : Supervised s.procs s.proc s.stopped
  last : ∀ i, s.proc = some i → i + 1 = s.procs.length
  untold : ∀ (i : ℕ) (p : Proc), s.procs[i]? = some p → p.told = false → s.proc = some i

theorem Node.sound_initial : Node.Sound .initial where
  supervised := ⟨fun i p hi => by simp [Node.initial] at hi, fun hs => by cases hs⟩
  last i hi := by cases hi
  untold i p hi := by simp [Node.initial] at hi

theorem Node.Sound.modify {s : Node} (h : s.Sound)
    (hloose : ∀ q, (f q).loose = true → q.loose = true)
    (htold : ∀ q, (f q).told = false → q.told = false) {stops : List ℕ} {e : Option String} :
    Node.Sound { s with procs := s.procs.modify i f, stops := stops, lastError := e } where
  supervised := h.supervised.modify hloose
  last j hj := by simpa using h.last j hj
  untold j p hj hp := by
    obtain ⟨q, hq, ⟨-, rfl⟩ | ⟨-, rfl⟩⟩ := getElem?_modify_cases hj
    · exact h.untold j q hq (htold q hp)
    · exact h.untold j p hq hp

theorem untold_of_exits (h : p.exits = true) : p.told = false := by
  simp_all [Proc.exits]

theorem untold_of_errs (h : p.errs = true) : p.told = false := by
  unfold Proc.errs at h
  split_ifs at h <;> simp_all

theorem untold_of_afterError (p : Proc) (h : p.afterError.told = false) : p.told = false := by
  unfold Proc.afterError at h
  split_ifs at h
  · exact h
  · cases h

theorem Node.sound_step {s s' : Node} {a : NodeAction} (h : s.Sound)
    (hstep : nodeStep s a = some s') :
    s'.Sound ∧ ∀ i, a.of = some i → i + 1 = s.procs.length := by
  cases a with
  | start spawn now =>
    obtain rfl := Option.some.inj hstep
    refine ⟨?_, fun i hi => by cases hi⟩
    unfold Node.start
    split
    · exact h
    · rename_i hproc
      have hnone : Supervised s.procs none s.stopped := hproc ▸ h.supervised
      split
      · exact ⟨h.supervised, h.last, h.untold⟩
      · exact ⟨hnone, fun i hi => (by cases hi), fun i p hi hp => hproc ▸ h.untold i p hi hp⟩
      · refine ⟨hnone.spawn _, fun i hi => ?_, fun i p hi hp => ?_⟩
        · obtain rfl := Option.some.inj hi
          simp
        · rcases getElem?_concat_cases hi with hold | ⟨rfl, -⟩
          · cases hproc.symm.trans (h.untold i p hold hp)
          · rfl
  | stop =>
    obtain rfl := Option.some.inj hstep
    refine ⟨?_, fun i hi => by cases hi⟩
    unfold Node.stop
    split
    · -- killed, with its handle kept until the exit
      rename_i i hproc
      have hone : Supervised s.procs (some i) s.stopped := hproc ▸ h.supervised
      have hkilled : Supervised (s.procs.modify i Proc.kill) none true := hone.kill true
      have hold : Node.Sound { s with
          procs := s.procs.modify i Proc.kill, stops := s.stops ++ [i], lastError := s.lastError } :=
        h.modify loose_of_loose_kill fun q hq => hq
      refine ⟨⟨fun j p hj hp => ?_, hkilled.stopped⟩, hold.last, hold.untold⟩
      exact absurd hp (by simp [hkilled.quiet hj])
    · rename_i hproc
      have hnone : Supervised s.procs none s.stopped := hproc ▸ h.supervised
      refine ⟨⟨h.supervised.handle, (hnone.stop true).stopped⟩, h.last, h.untold⟩
  | grace k =>
    obtain ⟨i, hi, rfl⟩ := Option.map_eq_some_iff.mp hstep
    exact ⟨h.modify loose_of_loose_kill fun q hq => hq,
      fun i hi => by cases hi⟩
  | die i =>
    obtain rfl := Option.some.inj hstep
    exact ⟨h.modify loose_of_loose_die fun q hq => hq,
      fun i hi => by cases hi⟩
  | exit i code =>
    obtain ⟨hany, rfl⟩ := of_guard hstep
    obtain ⟨p, hi, hexits⟩ := exits_of_any hany
    have hproc : s.proc = some i := h.untold i p hi (untold_of_exits hexits)
    have hclear : Supervised s.procs none s.stopped := by
      refine h.supervised.clear fun j q hj hq => ?_
      obtain rfl := Option.some.inj (hproc.symm.trans hj)
      obtain rfl := Option.some.inj (hi.symm.trans hq)
      exact not_loose_of_exits hexits
    refine ⟨⟨hclear.modify loose_of_loose_tell, fun j hj => (by cases hj), fun j q hj hq => ?_⟩,
      fun j hj => ?_⟩
    · obtain ⟨q', hq', ⟨-, rfl⟩ | ⟨hij, rfl⟩⟩ := getElem?_modify_cases hj
      · cases hq
      · exact absurd (Option.some.inj (hproc.symm.trans (h.untold j q hq' hq))) hij
    · obtain rfl := Option.some.inj hj
      exact h.last i hproc
  | error i message =>
    obtain ⟨hany, rfl⟩ := of_guard hstep
    obtain ⟨p, hi, herrs⟩ := exits_of_any hany
    refine ⟨h.modify loose_of_loose_afterError untold_of_afterError, fun j hj => ?_⟩
    obtain rfl := Option.some.inj hj
    exact h.last i (h.untold i p hi (untold_of_errs herrs))

/-! ### The local server keeps track -/

structure Local.Sound (s : Local) : Prop where
  supervised : Supervised s.procs (s.current.map (·.1)) s.stopped
  last : ∀ c, s.current = some c → c.1 + 1 = s.procs.length
  port : ∀ model, s.generation = some (.port model) → s.current = none ∧ s.stopped = false

theorem Local.sound_initial : Local.Sound .initial where
  supervised := ⟨fun i p hi => by simp [Local.initial] at hi, fun hs => by cases hs⟩
  last c hc := by cases hc
  port model h := by cases h

variable {s : Local}

theorem Local.stop_quiet (h : s.Sound) (stopped : Bool) :
    s.stop.current = none ∧ Supervised s.stop.procs none stopped := by
  unfold Local.stop
  split
  · rename_i i model hcurrent
    have hone : Supervised s.procs (some i) s.stopped := by
      simpa [hcurrent] using h.supervised
    exact ⟨rfl, hone.kill stopped⟩
  · rename_i hcurrent
    have hnone : Supervised s.procs none s.stopped := by
      simpa [hcurrent] using h.supervised
    exact ⟨hcurrent, hnone.stop stopped⟩

theorem Local.generation_stop (s : Local) : s.stop.generation = s.generation := by
  unfold Local.stop
  split <;> rfl

theorem Local.sound_of_none (hcurrent : s.current = none)
    (hsupervised : Supervised s.procs none s.stopped)
    (hport : ∀ model, s.generation = some (.port model) → s.stopped = false) : s.Sound where
  supervised := by simpa [hcurrent] using hsupervised
  last c hc := by cases hcurrent.symm.trans hc
  port model hm := ⟨hcurrent, hport model hm⟩

theorem Local.sound_generate (h : s.Sound) (model : String) :
    (s.generate model).Sound := by
  unfold Local.generate
  split
  · exact h
  · rename_i hgeneration
    dsimp only
    split_ifs with hother
    · -- the process of another model is stopped first
      obtain ⟨hcurrent, hquiet⟩ := Local.stop_quiet h false
      split
      · exact Local.sound_of_none hcurrent hquiet fun _ _ => rfl
      · rename_i hsome
        cases hcurrent.symm.trans hsome
    · have hfresh : Supervised s.procs (s.current.map (·.1)) false :=
        ⟨h.supervised.handle, fun hs => by cases hs⟩
      split
      · rename_i hcurrent
        exact ⟨hfresh, h.last, fun m hm => ⟨hcurrent, rfl⟩⟩
      · exact ⟨hfresh, h.last, fun m hm => by cases hm⟩

theorem Local.sound_giveUp (h : s.Sound) :
    Local.Sound { s.stop with generation := none } := by
  obtain ⟨hcurrent, hquiet⟩ := Local.stop_quiet h s.stop.stopped
  refine Local.sound_of_none hcurrent ?_ fun model hm => ?_
  · exact hquiet
  · cases hm

theorem Local.sound_step {s' : Local} {a : LocalAction} (h : s.Sound)
    (hclear : localOrderly s a = true) (hstep : localStep s a = some s') :
    s'.Sound ∧ ∀ i, a.of = some i → i + 1 < s.procs.length →
      s'.current = s.current ∧ ∀ j ≠ i, s'.flags[j]? = s.flags[j]? := by
  cases a with
  | stop =>
    obtain rfl := Option.some.inj hstep
    obtain ⟨hcurrent, hquiet⟩ := Local.stop_quiet h true
    refine ⟨Local.sound_of_none hcurrent hquiet fun model hm => ?_, fun i hi => by cases hi⟩
    have hport : s.generation = some (.port model) := (Local.generation_stop s).symm.trans hm
    simp [localOrderly, hport] at hclear
  | generate model =>
    obtain rfl := Option.some.inj hstep
    exact ⟨Local.sound_generate h model, fun i hi => by cases hi⟩
  | allocated ok spawned =>
    refine ⟨?_, fun i hi => by cases hi⟩
    simp only [localStep] at hstep
    split at hstep
    · rename_i model hport
      obtain rfl := Option.some.inj hstep
      obtain ⟨hcurrent, hrunning⟩ := h.port model hport
      unfold Local.allocated
      split_ifs
      · have hnone : Supervised s.procs none s.stopped := by
          simpa [hcurrent] using h.supervised
        refine ⟨?_, fun c hc => ?_, fun m hm => by cases hm⟩
        · simpa [hrunning] using hnone.spawn spawned
        · obtain rfl := Option.some.inj hc
          simp
      · exact Local.sound_giveUp h
    · cases hstep
  | resume ok last =>
    refine ⟨?_, fun i hi => by cases hi⟩
    simp only [localStep] at hstep
    split at hstep
    · obtain rfl := Option.some.inj hstep
      unfold Local.resume
      split_ifs
      · exact ⟨h.supervised, h.last, fun m hm => by cases hm⟩
      · exact h
      · exact Local.sound_giveUp h
    · cases hstep
  | die i =>
    obtain rfl := Option.some.inj hstep
    refine ⟨⟨h.supervised.modify loose_of_loose_die, fun c hc => ?_, h.port⟩,
      fun i hi => by cases hi⟩
    simpa using h.last c hc
  | ended i error =>
    obtain ⟨hany, rfl⟩ := of_guard hstep
    obtain ⟨p, hi, hp⟩ := exits_of_any hany
    have hended : p.loose = false := by
      cases error with
      | true => exact not_loose_of_errs hp
      | false => exact not_loose_of_exits hp
    have hmodify : ∀ q, ((if error then Proc.afterError else Proc.tell) q).loose = true →
        q.loose = true := by
      cases error with
      | true => exact loose_of_loose_afterError
      | false => exact loose_of_loose_tell
    constructor
    · by_cases hown : s.current.any (·.1 = i) = true
      · -- the process of the handle
        simp only [hown, if_true]
        have hclear' : Supervised s.procs none s.stopped := by
          refine h.supervised.clear fun j q hj hq => ?_
          obtain rfl : i = j := by
            cases hcurrent : s.current with
            | none => simp [hcurrent] at hj
            | some c =>
              have hci : c.1 = i := by simpa [hcurrent] using hown
              have hcj : c.1 = j := by simpa [hcurrent] using hj
              exact hci.symm.trans hcj
          obtain rfl := Option.some.inj (hi.symm.trans hq)
          exact hended
        exact Local.sound_of_none rfl (hclear'.modify hmodify) fun m hm => (h.port m hm).2
      · rw [if_neg hown]
        refine ⟨h.supervised.modify hmodify, fun c hc => ?_, h.port⟩
        simpa using h.last c hc
    · intro j hj hlt
      obtain rfl := Option.some.inj hj
      refine ⟨?_, fun k hk => ?_⟩
      · have hother : ¬ s.current.any (·.1 = i) = true := by
          intro hown
          cases hcurrent : s.current with
          | none => simp [hcurrent] at hown
          | some c =>
            have hci : c.1 = i := by simpa [hcurrent] using hown
            have hlast := h.last c hcurrent
            omega
        rw [if_neg hother]
      · exact List.getElem?_set_ne (Ne.symm hk)

/-! ### The three supervisors -/

/-- What the claims on a supervisor come to: at most one process is loose, the handle
refers to it, and none is after a stop. -/
structure KeepsTrack (procs : Procs) (handle : Option ℕ) (stopped : Bool) : Prop where
  one : ∀ (i j : ℕ) (p q : Proc), procs[i]? = some p → procs[j]? = some q →
    p.loose = true → q.loose = true → i = j
  supervised : Supervised procs handle stopped

theorem Supervised.keepsTrack (h : Supervised procs handle stopped) :
    KeepsTrack procs handle stopped :=
  ⟨fun _ _ _ _ hi hj hp hq => h.unique hi hj hp hq, h⟩

/-- An event of a process leaves alone what is recorded about a later one. -/
def LeavesLater {σ α : Type} (step : σ → α → Option σ) (of : α → Option ℕ) (count : σ → ℕ)
    (Same : ℕ → σ → σ → Prop) (s : σ) (a : α) : Prop :=
  ∀ i s', of a = some i → i + 1 < count s → step s a = some s' → Same i s s'

theorem supervised_run {σ α : Type} {step : σ → α → Option σ} {P Q : σ → α → Prop} {I : σ → Prop}
    (hstep : ∀ s a s', P s a → I s → step s a = some s' → I s' ∧ Q s a)
    {s s' : σ} {as : List α} (hP : Along step P s as) (hrun : runs step s as = some s')
    (hs : I s) : I s' ∧ Along step Q s as :=
  ⟨runs_invariant (fun s a s' hp hi h => (hstep s a s' hp hi h).1) hP hrun hs,
    Along.of_invariant (fun s a s' hp hi h => (hstep s a s' hp hi h).symm) hP hrun hs⟩

/-- The gateway is kept track of while no event of an earlier one disturbs its record, the
agent always, the local server while no stop comes between its port and its spawn. -/
theorem processes_kept_track (as : List GatewayAction) (bs : List NodeAction)
    (cs : List LocalAction) :
    (∀ s : Gateway, runs gatewayStep .initial as = some s →
      Along gatewayStep (fun t a => gatewayOrderly t a = true) .initial as →
      KeepsTrack s.procs s.gwProc s.stopped ∧
        Along gatewayStep (LeavesLater gatewayStep GatewayAction.of (·.procs.length)
          fun _ t t' => t'.gwProc = t.gwProc ∧ t'.gwLastError = t.gwLastError) .initial as) ∧
    (∀ s : Node, runs nodeStep .initial bs = some s →
      KeepsTrack s.procs s.proc s.stopped ∧
        Along nodeStep (LeavesLater nodeStep NodeAction.of (·.procs.length)
          fun _ t t' => t' = t) .initial bs) ∧
    (∀ s : Local, runs localStep .initial cs = some s →
      Along localStep (fun t a => localOrderly t a = true) .initial cs →
      KeepsTrack s.procs (s.current.map (·.1)) s.stopped ∧
        Along localStep (LeavesLater localStep LocalAction.of (·.procs.length)
          fun i t t' => t'.current = t.current ∧ ∀ j ≠ i, t'.flags[j]? = t.flags[j]?)
          .initial cs) := by
  refine ⟨fun s hrun hclear => ?_, fun s hrun => ?_, fun s hrun hclear => ?_⟩
  · obtain ⟨hsound, halong⟩ := supervised_run (I := Gateway.Sound) (Q := LeavesLater gatewayStep
        GatewayAction.of (·.procs.length)
        fun _ t t' => t'.gwProc = t.gwProc ∧ t'.gwLastError = t.gwLastError)
      (fun t a t' hP hI hstep => ⟨(Gateway.sound_step hI hP hstep).1, fun i t'' hi hlt ht'' =>
        (Gateway.sound_step hI hP ht'').2 i hi hlt⟩) hclear hrun Gateway.sound_initial
    exact ⟨hsound.supervised.keepsTrack, halong⟩
  · obtain ⟨hsound, halong⟩ := supervised_run (I := Node.Sound) (P := fun _ _ => True)
      (Q := LeavesLater nodeStep NodeAction.of (·.procs.length) fun _ t t' => t' = t)
      (fun t a t' _ hI hstep => ⟨(Node.sound_step hI hstep).1, fun i t'' hi hlt ht'' =>
        absurd ((Node.sound_step hI ht'').2 i hi) (Nat.ne_of_lt hlt)⟩)
      (along_of_forall (fun _ _ => trivial) _ bs) hrun Node.sound_initial
    exact ⟨hsound.supervised.keepsTrack, halong⟩
  · obtain ⟨hsound, halong⟩ := supervised_run (I := Local.Sound) (Q := LeavesLater localStep
        LocalAction.of (·.procs.length)
        fun i t t' => t'.current = t.current ∧ ∀ j ≠ i, t'.flags[j]? = t.flags[j]?)
      (fun t a t' hP hI hstep => ⟨(Local.sound_step hI hP hstep).1, fun i t'' hi hlt ht'' =>
        (Local.sound_step hI hP ht'').2 i hi hlt⟩) hclear hrun Local.sound_initial
    exact ⟨hsound.supervised.keepsTrack, halong⟩

/-- Each of the three started, stopped and started again, one event after the other. -/
theorem processes_kept_track_in_order :
    (∃ s, runs gatewayStep .initial [.start true true, .stop, .die 0, .exit 0 0 "",
        .start true true] = some s ∧ KeepsTrack s.procs s.gwProc s.stopped) ∧
    (∃ s, runs nodeStep .initial [.start (.returns true) 0, .stop, .die 0, .exit 0 0,
        .start (.returns true) 1] = some s ∧ KeepsTrack s.procs s.proc s.stopped) ∧
    (∃ s, runs localStep .initial [.generate "m", .allocated true true, .resume true true,
        .stop, .die 0, .ended 0 false] = some s ∧
      KeepsTrack s.procs (s.current.map (·.1)) s.stopped) := by
  obtain ⟨hgateway, hnode, hlocal⟩ := processes_kept_track
    [.start true true, .stop, .die 0, .exit 0 0 "", .start true true]
    [.start (.returns true) 0, .stop, .die 0, .exit 0 0, .start (.returns true) 1]
    [.generate "m", .allocated true true, .resume true true, .stop, .die 0, .ended 0 false]
  refine ⟨?_, ?_, ?_⟩
  · obtain ⟨s, hrun, -⟩ := runs_exists gatewayStep .initial
      [.start true true, .stop, .die 0, .exit 0 0 "", .start true true] (fun _ => true) (by decide)
    exact ⟨s, hrun, (hgateway s hrun (by decide)).1⟩
  · obtain ⟨s, hrun, -⟩ := runs_exists nodeStep .initial
      [.start (.returns true) 0, .stop, .die 0, .exit 0 0, .start (.returns true) 1]
      (fun _ => true) (by decide)
    exact ⟨s, hrun, (hnode s hrun).1⟩
  · obtain ⟨s, hrun, -⟩ := runs_exists localStep .initial
      [.generate "m", .allocated true true, .resume true true, .stop, .die 0, .ended 0 false]
      (fun _ => true) (by decide)
    exact ⟨s, hrun, (hlocal s hrun (by decide)).1⟩

/-- A gateway that is stopped and started again, whose first process takes its time. -/
def lateExit : List GatewayAction :=
  [.start true true, .stop, .start true true, .die 0, .exit 0 0 "", .start true true]

/-- The late exit clears the handle of the second gateway, and a third is started beside
it; and a stop that finds the local server waiting for its port leaves the process that is
spawned after it. -/
theorem processes_lost :
    (∃ s, runs gatewayStep .initial lateExit = some s ∧
      (s.procs.map Proc.loose) = [false, true, true]) ∧
    (∃ s, runs localStep .initial [.generate "m", .stop, .allocated true true,
        .resume true true] = some s ∧ s.generation = none ∧ s.procs.map Proc.loose = [true]) := by
  constructor
  · obtain ⟨s, hrun, hs⟩ := runs_exists gatewayStep .initial lateExit
      (fun s => s.procs.map Proc.loose = [false, true, true]) (by decide)
    exact ⟨s, hrun, of_decide_eq_true hs⟩
  · obtain ⟨s, hrun, hs⟩ := runs_exists localStep .initial [.generate "m", .stop,
      .allocated true true, .resume true true]
      (fun s => s.generation = none ∧ s.procs.map Proc.loose = [true]) (by decide)
    exact ⟨s, hrun, of_decide_eq_true hs⟩

end KvasirNet.Desktop
