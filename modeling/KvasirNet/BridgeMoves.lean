import KvasirNet.BridgeSystem

/-! The moves of the bridge, one case for each thing a step can do. A call that
only goes on to its next await makes a `Turn`. -/
namespace KvasirNet.Bridge

variable {cat : Catalog} {cfg : Config} {now : ℕ} {s s' : State} {action : Action}

/-- A call that asks `ensureClient` for an agent, and the same call awaiting it. -/
inductive Asks : Agent → Wait → Task → Task → Prop
  | refresh (a : Agent) (rest : List Agent) (on : Wait) :
      Asks a on (.refresh (a :: rest)) (.refreshAwait a rest on)
  | pipeline (m : Model) (a : Agent) (rest : List Agent) (on : Wait) :
      Asks a on (.pipeline m (a :: rest)) (.pipelineAwait m rest on)

/-- What `ensureClient` answers with when it dials nothing. -/
inductive Known (s : State) (a : Agent) : Wait → Prop
  | client (k : ℕ) (h : s.openClient a = some k) : Known s a (.client k)
  | dial (d : ℕ) (h : s.connecting.lookup a = some d) : Known s a (.dial d)
  | refused (why : DialRefusal) : Known s a (.refused why)

def Task.ofPipeline : Task → Bool
  | .pipeline _ _ | .pipelineAwait _ _ _ | .installing _ _ _ => true
  | _ => false

/-- One call goes on and nothing else changes. -/
inductive Turn (s : State) : Task → Task → Prop
  | refreshed : Turn s (.refresh []) .refreshed
  | skipped (a : Agent) (rest : List Agent) : Turn s (.refresh (a :: rest)) (.refresh rest)
  | asked (a : Agent) (on : Wait) (t t' : Task) (asks : Asks a on t t') (known : Known s a on) :
      Turn s t t'
  | taken (a : Agent) (rest : List Agent) (on : Wait) :
      Turn s (.refreshAwait a rest on) (.refresh rest)
  | replied (a : Agent) (rest : List Agent) (k : ℕ) (live : s.closedAt k = false) :
      Turn s (.inspecting a rest k true) (.replied a rest k)
  | connected (m : Model) (rest : List Agent) (on : Wait) :
      Turn s (.pipelineAwait m rest on) (.pipeline m rest)
  | gaveUp (t : Task) (ht : t.ofPipeline = true) : Turn s t .pipelineDone
  | install (m : Model) (used : Used) (clients : sessionClients s m.stages = some used) :
      Turn s (.pipeline m []) (.installing m used [])
  | ready (m : Model) (used : Used) (ready ready' : List ReadyKey) :
      Turn s (.installing m used ready) (.installing m used ready')
  | installed (m : Model) (used : Used) (ready : List ReadyKey) :
      Turn s (.installing m used ready) (.installed m used)

/-- The connections after `dropClient`. -/
def closeClient (s : State) (a : Agent) : List Conn :=
  match s.clients.lookup a with
  | some k => s.conns.modify k Conn.close
  | none => s.conns

variable {a : Agent}

theorem lookup_deletePipelines {id : String} {p : Pipeline}
    (h : (deletePipelines cat s a).pipelines.lookup id = some p) :
    s.pipelines.lookup id = some p ∧ ∀ m ∈ cat.models, m.spans a = true → m.id ≠ id := by
  have herase : ∀ (ms : List Model) (t : Table String Pipeline),
      (ms.foldl (fun t m => t.erase m.id) t).lookup id = some p →
        t.lookup id = some p ∧ ∀ m ∈ ms, m.id ≠ id := by
    intro ms
    induction ms with
    | nil => intro t ht; exact ⟨ht, by simp⟩
    | cons m ms ih =>
      intro t ht
      obtain ⟨hlook, hrest⟩ := ih (t.erase m.id) ht
      have hne : m.id ≠ id := by
        rintro rfl
        rw [AList.lookup_erase] at hlook
        cases hlook
      rw [AList.lookup_erase_ne hne.symm] at hlook
      refine ⟨hlook, ?_⟩
      intro m' hm'
      rcases List.mem_cons.mp hm' with rfl | hm'
      · exact hne
      · exact hrest m' hm'
  obtain ⟨hlook, hne⟩ := herase _ _ h
  exact ⟨hlook, fun m hm hspan => hne m (List.mem_filter.mpr ⟨hm, hspan⟩)⟩

/-- `refresh` failed to reach an agent: the client is kept when it is open, and
closed and forgotten otherwise. -/
theorem probeFailed_eq (cat : Catalog) (now : ℕ) (s : State) (a : Agent) :
    ∃ probe pipelines clients conns,
      probeFailed cat now s a =
        { s with
          probe := probe
          guards := s.guards.insert a (s.guardFor a).unhealthy
          pipelines := pipelines
          clients := clients
          conns := conns } ∧
      (∀ id p, pipelines.lookup id = some p →
        s.pipelines.lookup id = some p ∧ ∀ m ∈ cat.models, m.spans a = true → m.id ≠ id) ∧
      ((clients = s.clients ∧ conns = s.conns) ∨
        (s.openClient a = none ∧ clients = s.clients.erase a ∧ conns = closeClient s a)) := by
  unfold probeFailed
  dsimp only
  split_ifs with hopen
  · exact ⟨_, _, s.clients, s.conns, rfl, fun id p hp => lookup_deletePipelines (s := s) hp,
      Or.inl ⟨rfl, rfl⟩⟩
  · have hnone : s.openClient a = none := Option.not_isSome_iff_eq_none.mp hopen
    unfold dropClient
    dsimp only [State.setGuard, deletePipelines]
    unfold closeClient
    cases hk : s.clients.lookup a with
    | none =>
      refine ⟨_, _, s.clients.erase a, s.conns, rfl, fun id p hp => ?_, Or.inr ⟨hnone, rfl, rfl⟩⟩
      have h₁ := lookup_deletePipelines (s := deletePipelines cat s a) hp
      exact ⟨(lookup_deletePipelines h₁.1).1, h₁.2⟩
    | some k =>
      refine ⟨_, _, s.clients.erase a, s.conns.modify k Conn.close, rfl, fun id p hp => ?_,
        Or.inr ⟨hnone, rfl, rfl⟩⟩
      have h₁ := lookup_deletePipelines (s := deletePipelines cat s a) hp
      exact ⟨(lookup_deletePipelines h₁.1).1, h₁.2⟩

/-- The agent for which call `i` asks `ensureClient` when it runs on. -/
def asksFor (now : ℕ) (s : State) (i : ℕ) : Option Agent :=
  match s.tasks[i]? with
  | some (.refresh (a :: _)) =>
    if (s.inspecting.lookup a).isSome || (s.probe.lookup a).any fun p => now < p.nextAt then none
    else some a
  | some (.pipeline _ (a :: _)) => some a
  | _ => none

/-- `ensureClient` dials the agent. -/
def dialsNow (cfg : Config) (now : ℕ) (s : State) (a : Agent) : Bool :=
  (s.openClient a).isNone && (s.connecting.lookup a).isNone && !s.stopping &&
    ((s.guardFor a).admitDial cfg now).2.isNone

/-- The call awaits an INSPECT of the agent over this client. -/
def Task.inspects : Task → Option (Agent × List Agent × ℕ)
  | .inspecting a rest k _ | .replied a rest k => some (a, rest, k)
  | _ => none

/-- The call, dial or client that an action is about. -/
def Action.index : Action → Option ℕ
  | .advance i | .resume i | .inspectReplied i | .inspectDone i | .inspectFailed i
  | .sessionReady i _ _ | .installFailed i | .installed i | .finishSettled i _
  | .releaseDone i => some i
  | .socketOpened d | .helloAcked d | .attemptFailed d _ | .dialHandled d | .dialSettled d => some d
  | .protocolError k | .socketLost k => some k
  | .refresh | .pipelineFor _ | .releaseClients => none

/-- The agent that `refresh` finds it cannot reach. -/
def unreached (s : State) : Action → Option Agent
  | .resume i =>
    match s.tasks[i]? with
    | some (.refreshAwait a _ on) => if outcome s on = some none then some a else none
    | _ => none
  | .inspectFailed i => (s.tasks[i]?).bind fun t => t.inspects.map Prod.fst
  | _ => none

inductive Move (cat : Catalog) (cfg : Config) (now : ℕ) (s : State) : Action → State → Prop
  | refresh : Move cat cfg now s .refresh (s.spawn (.refresh cat.agents))
  | pipelineFor (m : Model) (hm : m ∈ cat.models) :
      Move cat cfg now s (.pipelineFor m) (s.spawn (.pipeline m m.agents))
  | pipelineKnown (action : Action) : Move cat cfg now s action (s.spawn .pipelineDone)
  | turn (action : Action) (i : ℕ) (t t' : Task) (task : s.tasks[i]? = some t) (turn : Turn s t t') :
      Move cat cfg now s action (s.setTask i t')
  | refused (action : Action) (i : ℕ) (t t' : Task) (a : Agent) (why : DialRefusal)
      (task : s.tasks[i]? = some t) (asks : Asks a (.refused why) t t')
      (refuses : ((s.guardFor a).admitDial cfg now).2 = some why) :
      Move cat cfg now s action ((s.setGuard a ((s.guardFor a).admitDial cfg now).1).setTask i t')
  | dial (i : ℕ) (t t' : Task) (a : Agent) (task : s.tasks[i]? = some t)
      (asks : Asks a (.dial s.dials.length) t t') (asked : asksFor now s i = some a) (lost : s.openClient a = none)
      (free : s.connecting.lookup a = none) (running : s.stopping = false)
      (admits : ((s.guardFor a).admitDial cfg now).2 = none) :
      Move cat cfg now s (.advance i)
        ((dial cfg now (s.setGuard a ((s.guardFor a).admitDial cfg now).1) a).setTask i t')
  | inspect (action : Action) (i : ℕ) (a : Agent) (rest : List Agent) (on : Wait) (k : ℕ) (sent : Bool)
      (task : s.tasks[i]? = some (.refreshAwait a rest on)) (client : outcome s on = some (some k))
      (free : s.inspecting.lookup a = none) :
      Move cat cfg now s action
        ({ s with inspecting := s.inspecting.insert a i }.setTask i (.inspecting a rest k sent))
  | inspectDone (i : ℕ) (a : Agent) (rest : List Agent) (k : ℕ)
      (task : s.tasks[i]? = some (.replied a rest k)) :
      Move cat cfg now s (.inspectDone i) (inspectDone now s i a rest)
  | unreachable (action : Action) (i : ℕ) (t : Task) (a : Agent) (rest : List Agent)
      (inspecting : Table Agent ℕ) (probe : Table Agent Probe) (pipelines : Table String Pipeline)
      (clients : Table Agent ℕ) (conns : List Conn) (missed : unreached s action = some a)
      (task : s.tasks[i]? = some t)
      (awaited : (∃ on, t = .refreshAwait a rest on ∧ inspecting = s.inspecting) ∨
        ∃ k, t.inspects = some (a, rest, k) ∧ inspecting = s.inspecting.erase a)
      (left : ∀ id p, pipelines.lookup id = some p →
        s.pipelines.lookup id = some p ∧ ∀ m ∈ cat.models, m.spans a = true → m.id ≠ id)
      (dropped : (clients = s.clients ∧ conns = s.conns) ∨
        (s.openClient a = none ∧ clients = s.clients.erase a ∧ conns = closeClient s a)) :
      Move cat cfg now s action
        ({ s with
          inspecting := inspecting
          probe := probe
          guards := s.guards.insert a (s.guardFor a).unhealthy
          pipelines := pipelines
          clients := clients
          conns := conns }.setTask i (.refresh rest))
  | cache (i : ℕ) (m : Model) (used : Used) (task : s.tasks[i]? = some (.installed m used)) :
      Move cat cfg now s (.installed i) (cachePipeline s i m used)
  | releaseClients : Move cat cfg now s .releaseClients (releaseClients s)
  | finishSettled (i k : ℕ) (pending : List ℕ) (task : s.tasks[i]? = some (.releasing pending))
      (awaited : k ∈ pending) :
      Move cat cfg now s (.finishSettled i k) ((s.modifyConn k Conn.close).setTask i (.releasing (pending.erase k)))
  | releaseDone (i : ℕ) (task : s.tasks[i]? = some (.releasing [])) :
      Move cat cfg now s (.releaseDone i) ({ s with clients := ∅, pipelines := ∅ }.setTask i .released)
  | socketOpened (d : ℕ) (x : Dial) (k : ℕ) (fallback : Bool) (c : Conn)
      (dial : s.dials[d]? = some x) (phase : x.phase = .attempt k fallback)
      (conn : s.conns[k]? = some c) (socket : c.socket = .connecting) :
      Move cat cfg now s (.socketOpened d) (socketOpened s d x.agent k fallback c)
  | helloAcked (d : ℕ) (x : Dial) (k : ℕ) (fallback : Bool) (c : Conn)
      (dial : s.dials[d]? = some x) (phase : x.phase = .attempt k fallback)
      (conn : s.conns[k]? = some c) (socket : c.socket = .opened) :
      Move cat cfg now s (.helloAcked d)
        ((s.modifyConn k fun c => { c with settled := true }).setPhase d (.resolved k))
  | fellBack (d : ℕ) (x : Dial) (k : ℕ) (c : Conn) (why : Failure)
      (dial : s.dials[d]? = some x) (phase : x.phase = .attempt k false)
      (conn : s.conns[k]? = some c) (socket : why = .protocol → c.socket = .opened)
      (hop : cfg.hop = true) :
      Move cat cfg now s (.attemptFailed d why)
        (State.setPhase { s with
          conns := (s.conns.modify k fun c => c.connectFailed (why ≠ .protocol)) ++
            [.create x.agent false] } d (.attempt s.conns.length true))
  | attemptFailed (d : ℕ) (x : Dial) (k : ℕ) (fallback : Bool) (c : Conn) (why : Failure)
      (dial : s.dials[d]? = some x) (phase : x.phase = .attempt k fallback)
      (conn : s.conns[k]? = some c) (socket : why = .protocol → c.socket = .opened)
      (last : cfg.hop = false ∨ fallback = true ∨ why = .timeout) :
      Move cat cfg now s (.attemptFailed d why)
        ((s.modifyConn k fun c => c.connectFailed (why ≠ .protocol)).setPhase d .failed)
  | dialSucceeded (d : ℕ) (x : Dial) (k : ℕ) (dial : s.dials[d]? = some x)
      (phase : x.phase = .resolved k) : Move cat cfg now s (.dialHandled d) (dialSucceeded cat s d x.agent k)
  | dialFailed (d : ℕ) (x : Dial) (dial : s.dials[d]? = some x) (phase : x.phase = .failed) :
      Move cat cfg now s (.dialHandled d) (dialFailed now s d x.agent)
  | dialSettled (d : ℕ) (x : Dial) (result : Option ℕ) (dial : s.dials[d]? = some x)
      (phase : x.phase = result.elim .noted .stored) :
      Move cat cfg now s (.dialSettled d) (dialSettled s d x.agent result)
  | protocolError (k : ℕ) (c : Conn) (conn : s.conns[k]? = some c) (settled : c.settled = true) :
      Move cat cfg now s (.protocolError k) (s.modifyConn k Conn.fail)
  | socketLost (k : ℕ) (c : Conn) (conn : s.conns[k]? = some c) (settled : c.settled = true) :
      Move cat cfg now s (.socketLost k) (s.modifyConn k Conn.close)

/-! ## Every step is one of the moves -/

variable {i : ℕ}

theorem ensureClient_move {t : Task} (next : Wait → Task)
    (task : s.tasks[i]? = some t) (asks : ∀ on, Asks a on t (next on))
    (asked : asksFor now s i = some a) :
    Move cat cfg now s (.advance i)
      ((ensureClient cfg now s a).1.setTask i (next (ensureClient cfg now s a).2)) := by
  unfold ensureClient
  split
  · rename_i k hk
    exact .turn _ i t _ task (.asked a _ t _ (asks _) (.client k hk))
  · rename_i hlost
    split
    · rename_i d hd
      exact .turn _ i t _ task (.asked a _ t _ (asks _) (.dial d hd))
    · rename_i hfree
      unfold admitDial
      by_cases hstop : s.stopping = true
      · simp only [hstop, if_true]
        exact .turn _ i t _ task (.asked a _ t _ (asks _) (.refused .shuttingDown))
      · simp only [hstop, Bool.false_eq_true, if_false]
        split
        · rename_i s₁ why heq
          obtain ⟨rfl, hwhy⟩ := Prod.mk.inj heq
          exact .refused _ i t _ a why task (asks _) hwhy
        · rename_i s₁ heq
          obtain ⟨rfl, hnone⟩ := Prod.mk.inj heq
          exact .dial i t _ a task (asks _) asked hlost hfree (by simpa using hstop) hnone

variable {rest : List Agent}

theorem refreshTurn_move
    (task : s.tasks[i]? = some (.refresh (a :: rest))) :
    Move cat cfg now s (.advance i) (refreshTurn cfg now s i a rest) := by
  unfold refreshTurn
  split_ifs with hbusy hearly
  · exact .turn _ i _ _ task (.skipped a rest)
  · exact .turn _ i _ _ task (.skipped a rest)
  · refine ensureClient_move (.refreshAwait a rest) task (.refresh a rest) ?_
    simp only [asksFor, task, hbusy, hearly, Bool.or_self, Bool.false_eq_true, if_false]

theorem unreachable_move {t : Task}
    (inspecting : Table Agent ℕ) (missed : unreached s action = some a)
    (task : s.tasks[i]? = some t)
    (awaited : (∃ on, t = .refreshAwait a rest on ∧ inspecting = s.inspecting) ∨
      ∃ k, t.inspects = some (a, rest, k) ∧ inspecting = s.inspecting.erase a) :
    Move cat cfg now s action
      ((probeFailed cat now { s with inspecting := inspecting } a).setTask i (.refresh rest)) := by
  obtain ⟨probe, pipelines, clients, conns, heq, hleft, hdrop⟩ :=
    probeFailed_eq cat now { s with inspecting := inspecting } a
  rw [heq]
  exact .unreachable action i t a rest inspecting probe pipelines clients conns missed task awaited
    hleft hdrop

theorem refreshResume_move {on : Wait} {result : Option ℕ}
    (task : s.tasks[i]? = some (.refreshAwait a rest on)) (settled : outcome s on = some result) :
    Move cat cfg now s (.resume i) (refreshResume cat now s i a rest result) := by
  cases result with
  | none =>
    refine unreachable_move s.inspecting ?_ task (Or.inl ⟨on, rfl, rfl⟩)
    simp only [unreached, task, settled, if_true]
  | some k =>
    unfold refreshResume
    split_ifs with hbusy
    · exact .turn _ i _ _ task (.taken a rest on)
    · exact .inspect _ i a rest on k _ task settled (by simpa using hbusy)

theorem install_move {m : Model} (task : s.tasks[i]? = some (.pipeline m [])) :
    Move cat cfg now s (.advance i) (install s i m) := by
  unfold install
  split
  · exact .turn _ i _ _ task (.gaveUp _ rfl)
  · rename_i used hused
    exact .turn _ i _ _ task (.install m used hused)

theorem sessionReady_move {m : Model} {used : Used} {ready : List ReadyKey}
    (node : Option String) (task : s.tasks[i]? = some (.installing m used ready)) :
    Move cat cfg now s action (sessionReady s i m used ready node) := by
  unfold sessionReady
  dsimp only
  split_ifs
  · exact .turn _ i _ _ task (.installed m used ready)
  · exact .turn _ i _ _ task (.ready m used ready _)

theorem taskStep_move {t : Task} (task : s.tasks[i]? = some t)
    (about : action.index = some i)
    (h : taskStep cat cfg now s i action t = some s') : Move cat cfg now s action s' := by
  unfold taskStep at h
  split at h
  · cases about
    cases h
    exact .turn _ i _ _ task .refreshed
  · cases about
    cases h
    exact refreshTurn_move task
  · cases about
    cases h
    exact install_move task
  · cases about
    cases h
    exact ensureClient_move (.pipelineAwait _ _) task (.pipeline _ _ _) (by simp only [asksFor, task])
  · cases about
    obtain ⟨result, hresult, rfl⟩ := Option.map_eq_some_iff.mp h
    exact refreshResume_move task hresult
  · cases about
    obtain ⟨result, hresult, rfl⟩ := Option.map_eq_some_iff.mp h
    split_ifs
    · exact .turn _ i _ _ task (.connected _ _ _)
    · exact .turn _ i _ _ task (.gaveUp _ rfl)
  · cases about
    split_ifs at h with hlive
    cases h
    exact .turn _ i _ _ task (.replied _ _ _ (by simpa using hlive))
  · cases about
    cases h
    exact .inspectDone i _ _ _ task
  · cases about
    cases h
    exact unreachable_move _ (by simp [unreached, task, Task.inspects]) task (Or.inr ⟨_, rfl, rfl⟩)
  · cases about
    cases h
    exact unreachable_move _ (by simp [unreached, task, Task.inspects]) task (Or.inr ⟨_, rfl, rfl⟩)
  · cases about
    split_ifs at h
    cases h
    exact sessionReady_move _ task
  · cases about
    cases h
    exact .turn _ i _ _ task (.gaveUp _ rfl)
  · cases about
    cases h
    exact .cache i _ _ task
  · cases about
    split_ifs at h with hk
    cases h
    exact .finishSettled i _ _ task hk
  · cases about
    cases h
    exact .releaseDone i task
  · cases h

theorem attemptStep_move {d k : ℕ} {x : Dial} {fallback : Bool} {c : Conn}
    (about : action.index = some d)
    (dial : s.dials[d]? = some x) (phase : x.phase = .attempt k fallback)
    (conn : s.conns[k]? = some c)
    (h : attemptStep cfg s d x.agent k fallback c action = some s') :
    Move cat cfg now s action s' := by
  unfold attemptStep at h
  split at h
  · cases about
    split_ifs at h with hc
    cases h
    exact .socketOpened d x k fallback c dial phase conn hc
  · cases about
    split_ifs at h with hc
    cases h
    exact .helloAcked d x k fallback c dial phase conn hc.2
  · cases about
    split_ifs at h with hc
    cases h
    have hsocket : ∀ {why : Failure}, ¬(why = .protocol ∧ c.socket ≠ .opened) →
        why = .protocol → c.socket = .opened := fun hc hp => by_contra fun ho => hc ⟨hp, ho⟩
    unfold attemptFailed
    dsimp only [State.modifyConn]
    split_ifs with hfall
    · obtain ⟨hhop, rfl, -⟩ := hfall
      rw [List.length_modify]
      exact .fellBack d x k c _ dial phase conn (hsocket hc) hhop
    · refine .attemptFailed d x k fallback c _ dial phase conn (hsocket hc) ?_
      simpa [imp_iff_not_or] using hfall
  · cases h

theorem dialStep_move {d : ℕ} {x : Dial} (about : action.index = some d)
    (dial : s.dials[d]? = some x)
    (h : dialStep cat cfg now s d x action = some s') : Move cat cfg now s action s' := by
  unfold dialStep at h
  split at h
  · cases about
    split at h <;> cases h
    · rename_i k hk
      exact .dialSucceeded d x k dial hk
    · rename_i hk
      exact .dialFailed d x dial hk
  · cases about
    split at h <;> cases h
    · rename_i k hk
      exact .dialSettled d x (some k) dial hk
    · rename_i hk
      exact .dialSettled d x none dial hk
  · split at h
    · rename_i k fallback hk
      obtain ⟨c, hc, h⟩ := Option.bind_eq_some_iff.mp h
      exact attemptStep_move about dial hk hc h
    · cases h

theorem connStep_move {k : ℕ} {c : Conn} (about : action.index = some k)
    (conn : s.conns[k]? = some c)
    (h : connStep s k c action = some s') : Move cat cfg now s action s' := by
  unfold connStep at h
  split at h
  · cases about
    split_ifs at h with hc
    cases h
    exact .protocolError k c conn hc.1
  · cases about
    split_ifs at h with hc
    cases h
    exact .socketLost k c conn hc.1
  · cases h

theorem perform_move (h : perform cat cfg now s action = some s') :
    Move cat cfg now s action s' := by
  have hdial : ∀ {d : ℕ}, action.index = some d →
      ((s.dials[d]?).bind fun x => dialStep cat cfg now s d x action) = some s' →
      Move cat cfg now s action s' := by
    intro d about hd
    obtain ⟨x, hx, hd⟩ := Option.bind_eq_some_iff.mp hd
    exact dialStep_move about hx hd
  have hconn : ∀ {k : ℕ}, action.index = some k →
      ((s.conns[k]?).bind fun c => connStep s k c action) = some s' →
      Move cat cfg now s action s' := by
    intro k about hk
    obtain ⟨c, hc, hk⟩ := Option.bind_eq_some_iff.mp hk
    exact connStep_move about hc hk
  have htask : ∀ {i : ℕ}, action.index = some i →
      ((s.tasks[i]?).bind fun t => taskStep cat cfg now s i action t) = some s' →
      Move cat cfg now s action s' := by
    intro i about hi
    obtain ⟨t, ht, hi⟩ := Option.bind_eq_some_iff.mp hi
    exact taskStep_move ht about hi
  cases action with
  | refresh =>
    cases h
    exact .refresh
  | pipelineFor m =>
    simp only [perform] at h
    split_ifs at h with hm
    cases h
    unfold startPipeline
    split_ifs
    · exact .pipelineKnown _
    · exact .pipelineFor m hm
  | releaseClients =>
    cases h
    exact .releaseClients
  | socketOpened d => exact hdial rfl h
  | helloAcked d => exact hdial rfl h
  | attemptFailed d why => exact hdial rfl h
  | dialHandled d => exact hdial rfl h
  | dialSettled d => exact hdial rfl h
  | protocolError k => exact hconn rfl h
  | socketLost k => exact hconn rfl h
  | advance i => exact htask rfl h
  | resume i => exact htask rfl h
  | inspectReplied i => exact htask rfl h
  | inspectDone i => exact htask rfl h
  | inspectFailed i => exact htask rfl h
  | sessionReady i k node => exact htask rfl h
  | installFailed i => exact htask rfl h
  | installed i => exact htask rfl h
  | finishSettled i k => exact htask rfl h
  | releaseDone i => exact htask rfl h

theorem step_move {e : Event} (h : step cat cfg s e = some s') :
    s.clock ≤ e.now ∧ Move cat cfg e.now { s with clock := e.now } e.action s' := by
  unfold step at h
  split_ifs at h with hclock
  exact ⟨hclock, perform_move h⟩

end KvasirNet.Bridge
