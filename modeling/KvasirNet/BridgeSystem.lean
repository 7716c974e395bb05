import KvasirNet.TableSum
import KvasirNet.Runs
import KvasirNet.SlidingWindow

/-! The bridge between the gateway and the agents. It keeps one OUTER connection
an agent, dials again when a connection is lost, and caches one installed
pipeline a model. Its methods are asynchronous: what runs between two awaits is
one step here, and the steps of all calls in progress interleave freely. -/
namespace KvasirNet.Bridge

abbrev Agent := String

/-! ## The catalog and the limits -/

structure Stage where
  agent : Agent
  deriving DecidableEq, Repr

structure Model where
  id : String
  stages : List Stage
  deriving DecidableEq, Repr

structure Catalog where
  ingressAgent : Agent
  models : List Model
  deriving DecidableEq, Repr

def Model.spans (m : Model) (agent : Agent) : Bool := m.stages.any fun st => st.agent == agent

/-- `new Set(model.stages.map((stage) => stage.agent))`. -/
def Model.agents (m : Model) : List Agent := (m.stages.map Stage.agent).eraseDups

/-- Every distinct agent address a catalog refers to. -/
def Catalog.agents (c : Catalog) : List Agent :=
  (c.ingressAgent :: c.models.flatMap fun m => m.stages.map Stage.agent).eraseDups

def loneCatalog : Catalog := ⟨"a", []⟩

structure Config where
  dialHourlyCap : ℕ
  dialLifetimeCap : ℕ
  /-- `P4_BRIDGE_HOP` is `1`. -/
  hop : Bool
  deriving DecidableEq, Repr

def defaultConfig : Config where
  dialHourlyCap := 6
  dialLifetimeCap := 64
  hop := false

def hourMs : ℕ := 3600000
def dialBackoffMs : List ℕ := [60000, 120000, 240000, 480000, 900000, 1800000]
def dialSteadyMs : ℕ := 300000
def inspectBackoffMs : List ℕ := [30000, 60000]

/-- `TABLE[Math.min(count - 1, TABLE.length - 1)]`, for a count from one on. -/
def backoffAt (table : List ℕ) (count : ℕ) : ℕ :=
  table.getD (min (count - 1) (table.length - 1)) 0

/-! ## The guard of an agent's connection slots -/

structure Guard where
  spent : ℕ
  unproductive : ℕ
  recent : List ℕ
  nextDialAt : ℕ
  /-- Zero when it is not set. -/
  healthySince : ℕ
  stoppedWhy : Option String
  deriving DecidableEq, Repr

def Guard.fresh : Guard where
  spent := 0
  unproductive := 0
  recent := []
  nextDialAt := 0
  healthySince := 0
  stoppedWhy := none

inductive DialRefusal
  | shuttingDown
  | lifetime (why : String)
  | hourly (recent cap : ℕ)
  | waiting (unproductive seconds : ℕ)
  deriving DecidableEq, Repr

def DialRefusal.message (agent : Agent) : DialRefusal → String
  | shuttingDown => agent ++ ": the bridge is shutting down"
  | lifetime why => agent ++ ": " ++ why
  | hourly recent cap =>
    agent ++ ": " ++ toString recent ++ " dials in the last hour, cap is " ++ toString cap
  | waiting unproductive seconds =>
    agent ++ ": " ++ toString unproductive ++ " unproductive dials, waiting " ++
      toString seconds ++ " s"

def Guard.lifetimeText (spent : ℕ) : String :=
  "spent " ++ toString spent ++
    " of this agent's connection slots; not dialling again without an operator"

/-- What `admitDial` does to the guard once the bridge is not stopping. -/
def Guard.admitDial (cfg : Config) (now : ℕ) (old : Guard) : Guard × Option DialRefusal :=
  let g := { old with recent := inWindow hourMs now old.recent }
  if cfg.dialLifetimeCap ≤ g.spent then
    let why := lifetimeText g.spent
    ({ g with stoppedWhy := some why }, some (.lifetime why))
  else if cfg.dialHourlyCap ≤ g.recent.length then
    (g, some (.hourly g.recent.length cfg.dialHourlyCap))
  else if now < g.nextDialAt then
    -- the milliseconds left, rounded up to seconds
    (g, some (.waiting g.unproductive ((g.nextDialAt - now + 999) / 1000)))
  else
    ({ g with spent := g.spent + 1, recent := g.recent ++ [now], stoppedWhy := none }, none)

def Guard.noteUnproductive (now : ℕ) (g : Guard) : Guard :=
  { g with
    unproductive := g.unproductive + 1
    healthySince := 0
    nextDialAt := now + backoffAt dialBackoffMs (g.unproductive + 1) }

def Guard.noteSteady (now : ℕ) (g : Guard) : Guard :=
  if g.healthySince = 0 then
    { g with healthySince := now }
  else if g.unproductive ≠ 0 ∧ dialSteadyMs ≤ now - g.healthySince then
    { g with unproductive := 0, nextDialAt := 0 }
  else
    g

def Guard.unhealthy (g : Guard) : Guard := { g with healthySince := 0 }

/-! ## Connections, dials and calls in progress -/

inductive Socket
  | connecting
  | opened
  /-- The FINISH frame has been sent on it. -/
  | finished
  | destroyed
  deriving DecidableEq, Repr

/-- One `OuterClient`. -/
structure Conn where
  agent : Agent
  hop : Bool
  socket : Socket
  closed : Bool
  finishing : Bool
  /-- The promise of its `connect()` has settled. -/
  settled : Bool
  /-- It has been put into `clients`. -/
  stored : Bool
  deriving DecidableEq, Repr

namespace Conn

def create (agent : Agent) (hop : Bool) : Conn where
  agent := agent
  hop := hop
  socket := .connecting
  closed := false
  finishing := false
  settled := false
  stored := false

def close (c : Conn) : Conn := { c with closed := true, socket := .destroyed }

/-- `_fail`, which leaves the socket as it is. -/
def fail (c : Conn) : Conn := { c with closed := true }

/-- `finish()`, up to the wait for the acknowledgement. -/
def finish (c : Conn) : Conn :=
  { c with finishing := true, socket := if c.socket = .opened then .finished else c.socket }

/-- Its `connect()` is rejected. Before the socket connects, `_fail` is not yet
attached to it. -/
def connectFailed (c : Conn) (closes : Bool) : Conn :=
  match c.socket, closes with
  | .opened, true => { c.close with settled := true }
  | .opened, false => { c.fail with settled := true }
  | _, _ => { c with socket := .destroyed, settled := true }

def canSend (c : Conn) : Bool := !c.finishing && !c.closed

def hears (c : Conn) : Bool := c.socket == .opened || c.socket == .finished

end Conn

inductive DialPhase
  /-- `connect()` of this client is pending. -/
  | attempt (conn : ℕ) (fallback : Bool)
  | resolved (conn : ℕ)
  | failed
  /-- The `then` handler has run. -/
  | stored (conn : ℕ)
  /-- The `catch` handler has run. -/
  | noted
  /-- The `finally` handler has run. -/
  | done (conn : Option ℕ)
  deriving DecidableEq, Repr

structure Dial where
  agent : Agent
  /-- One of its sockets has connected. -/
  opened : Bool
  phase : DialPhase
  deriving DecidableEq, Repr

def DialPhase.inFlight : DialPhase → Bool
  | done _ => false
  | _ => true

/-- What a caller of `ensureClient` awaits. -/
inductive Wait
  | client (conn : ℕ)
  | dial (dial : ℕ)
  | refused (why : DialRefusal)
  deriving DecidableEq, Repr

/-- The sender of a SESSION_READY event, or its place when it names no node. -/
inductive ReadyKey
  | node (id : String)
  | unnamed (place : ℕ)
  deriving DecidableEq, Repr

/-- The connection of each stage's agent, as `Pipeline.install` used them. -/
abbrev Used := List (Agent × ℕ)

/-- A call of `refresh`, `pipelineFor` or `releaseClients`, and where it stands. -/
inductive Task
  | refresh (rest : List Agent)
  | refreshAwait (agent : Agent) (rest : List Agent) (on : Wait)
  /-- INSPECT is pending; `sent` is false when `send` threw. -/
  | inspecting (agent : Agent) (rest : List Agent) (conn : ℕ) (sent : Bool)
  | replied (agent : Agent) (rest : List Agent) (conn : ℕ)
  | refreshed
  | pipeline (model : Model) (rest : List Agent)
  | pipelineAwait (model : Model) (rest : List Agent) (on : Wait)
  | installing (model : Model) (used : Used) (ready : List ReadyKey)
  | installed (model : Model) (used : Used)
  | pipelineDone
  /-- These clients' `finish()` is pending. -/
  | releasing (pending : List ℕ)
  | released
  deriving DecidableEq, Repr

structure Probe where
  failures : ℕ
  nextAt : ℕ
  deriving DecidableEq, Repr

structure Pipeline where
  model : Model
  used : Used
  deriving DecidableEq, Repr

/-- What is recorded of a run, for the statements. -/
inductive Entry
  | dialed (agent : Agent) (now : ℕ)
  /-- The dial failed; `unproductive` is the guard's count with it. -/
  | failed (agent : Agent) (now unproductive : ℕ)
  /-- A TCP connection to the agent opened. -/
  | opened (agent : Agent)
  deriving DecidableEq, Repr

structure State where
  clients : Table Agent ℕ
  connecting : Table Agent ℕ
  inspecting : Table Agent ℕ
  probe : Table Agent Probe
  guards : Table Agent Guard
  pipelines : Table String Pipeline
  stopping : Bool
  conns : List Conn
  dials : List Dial
  tasks : List Task
  clock : ℕ
  log : List Entry
  deriving DecidableEq

def State.initial : State where
  clients := ∅
  connecting := ∅
  inspecting := ∅
  probe := ∅
  guards := ∅
  pipelines := ∅
  stopping := false
  conns := []
  dials := []
  tasks := []
  clock := 0
  log := []

namespace State

def guardFor (s : State) (agent : Agent) : Guard := (s.guards.lookup agent).getD .fresh

def setGuard (s : State) (agent : Agent) (g : Guard) : State :=
  { s with guards := s.guards.insert agent g }

def modifyConn (s : State) (k : ℕ) (f : Conn → Conn) : State :=
  { s with conns := s.conns.modify k f }

def setPhase (s : State) (d : ℕ) (p : DialPhase) : State :=
  { s with dials := s.dials.modify d fun x => { x with phase := p } }

def setTask (s : State) (i : ℕ) (t : Task) : State := { s with tasks := s.tasks.set i t }

def spawn (s : State) (t : Task) : State := { s with tasks := s.tasks ++ [t] }

def record (s : State) (e : Entry) : State := { s with log := s.log ++ [e] }

/-- `this.clients.get(agent)` when it is there and not closed. -/
def openClient (s : State) (agent : Agent) : Option ℕ :=
  (s.clients.lookup agent).filter fun k => (s.conns[k]?).any fun c => !c.closed

def closedAt (s : State) (k : ℕ) : Bool := (s.conns[k]?).all fun c => c.closed

end State

/-! ## ensureClient and the dial -/

section Methods
variable (cat : Catalog) (cfg : Config) (now : ℕ)

def admitDial (s : State) (agent : Agent) : State × Option DialRefusal :=
  if s.stopping then
    (s, some .shuttingDown)
  else
    let admitted := (s.guardFor agent).admitDial cfg now
    (s.setGuard agent admitted.1, admitted.2)

/-- The dial starts: `wire.connect` makes its first client. -/
def dial (s : State) (agent : Agent) : State :=
  { s with
    conns := s.conns ++ [.create agent cfg.hop]
    dials := s.dials ++ [⟨agent, false, .attempt s.conns.length false⟩]
    connecting := s.connecting.insert agent s.dials.length
    log := s.log ++ [.dialed agent now] }

def ensureClient (s : State) (agent : Agent) : State × Wait :=
  match s.openClient agent with
  | some k => (s, .client k)
  | none =>
    match s.connecting.lookup agent with
    | some d => (s, .dial d)
    | none =>
      match admitDial cfg now s agent with
      | (s', some why) => (s', .refused why)
      | (s', none) => (dial cfg now s' agent, .dial s'.dials.length)

/-- What the promise of `ensureClient` has settled to, if it has. -/
def outcome (s : State) : Wait → Option (Option ℕ)
  | .client k => some (some k)
  | .refused _ => some none
  | .dial d =>
    match s.dials[d]? with
    | some ⟨_, _, .done result⟩ => some result
    | _ => none

/-- Only the pipelines that run on this agent are affected. -/
def deletePipelines (s : State) (agent : Agent) : State :=
  { s with
    pipelines := (cat.models.filter fun m => m.spans agent).foldl
      (fun t m => t.erase m.id) s.pipelines }

def dropClient (s : State) (agent : Agent) : State :=
  let s := match s.clients.lookup agent with
    | some k => s.modifyConn k Conn.close
    | none => s
  deletePipelines cat { s with clients := s.clients.erase agent } agent

/-- The `catch` of `refresh`. -/
def probeFailed (s : State) (agent : Agent) : State :=
  let seen := (s.probe.lookup agent).getD ⟨0, 0⟩
  let failures := seen.failures + 1
  let s := { s with
    probe := s.probe.insert agent ⟨failures, now + backoffAt inspectBackoffMs failures⟩ }
  let s := s.setGuard agent (s.guardFor agent).unhealthy
  let s := deletePipelines cat s agent
  if (s.openClient agent).isSome then s else dropClient cat s agent

/-! ## The three methods, from await to await -/

/-- One turn of the loop of `refresh`. -/
def refreshTurn (s : State) (i : ℕ) (agent : Agent) (rest : List Agent) : State :=
  if (s.inspecting.lookup agent).isSome then
    s.setTask i (.refresh rest)
  else if (s.probe.lookup agent).any fun p => now < p.nextAt then
    s.setTask i (.refresh rest)
  else
    let (s', on) := ensureClient cfg now s agent
    s'.setTask i (.refreshAwait agent rest on)

/-- `refresh` goes on when `ensureClient` has settled. -/
def refreshResume (s : State) (i : ℕ) (agent : Agent) (rest : List Agent) :
    Option ℕ → State
  | none => (probeFailed cat now s agent).setTask i (.refresh rest)
  | some k =>
    if (s.inspecting.lookup agent).isSome then
      s.setTask i (.refresh rest)
    else
      let asked : State := { s with inspecting := s.inspecting.insert agent i }
      asked.setTask i (.inspecting agent rest k ((s.conns[k]?).any Conn.canSend))

/-- `refresh` goes on when INSPECT has been answered with a snapshot. -/
def inspectDone (s : State) (i : ℕ) (agent : Agent) (rest : List Agent) : State :=
  let s := { s with inspecting := s.inspecting.erase agent, probe := s.probe.erase agent }
  (s.setGuard agent ((s.guardFor agent).noteSteady now)).setTask i (.refresh rest)

def inspectFailed (s : State) (i : ℕ) (agent : Agent) (rest : List Agent) : State :=
  (probeFailed cat now { s with inspecting := s.inspecting.erase agent } agent).setTask i
    (.refresh rest)

/-- The clients of the stages, when a SESSION can be sent on each of them. -/
def sessionClients (s : State) : List Stage → Option Used
  | [] => some []
  | st :: rest =>
    match s.clients.lookup st.agent, sessionClients s rest with
    | some k, some used =>
      if (s.conns[k]?).any Conn.canSend then some ((st.agent, k) :: used) else none
    | _, _ => none

def startPipeline (s : State) (m : Model) : State :=
  if (s.pipelines.lookup m.id).isSome then s.spawn .pipelineDone
  else s.spawn (.pipeline m m.agents)

/-- `Pipeline.install` up to its wait; a missing client or one that cannot send
makes it throw. -/
def install (s : State) (i : ℕ) (m : Model) : State :=
  match sessionClients s m.stages with
  | none => s.setTask i .pipelineDone
  | some used => s.setTask i (.installing m used [])

def sessionReady (s : State) (i : ℕ) (m : Model) (used : Used) (ready : List ReadyKey)
    (node : Option String) : State :=
  let key := node.elim (.unnamed ready.length) .node
  let ready := ready.insert key
  if m.stages.length ≤ ready.length then s.setTask i (.installed m used)
  else s.setTask i (.installing m used ready)

def cachePipeline (s : State) (i : ℕ) (m : Model) (used : Used) : State :=
  let cached : State := { s with pipelines := s.pipelines.insert m.id ⟨m, used⟩ }
  cached.setTask i .pipelineDone

/-- The clients `releaseClients` waits for: not closed, and not finishing already. -/
def toFinish (s : State) : List ℕ :=
  (s.clients.entries.map fun e => e.2).filter fun k => (s.conns[k]?).any Conn.canSend

def releaseClients (s : State) : State :=
  let stopped : State := { s with
    stopping := true
    conns := s.conns.mapIdx fun k c => if k ∈ toFinish s then c.finish else c }
  stopped.spawn (.releasing (toFinish s))

/-! ## wire.connect -/

inductive Failure
  /-- The socket failed or the peer closed it. -/
  | network
  | timeout
  /-- A frame the client does not accept; the socket stays as it is. -/
  | protocol
  deriving DecidableEq, Repr

/-- The socket of the pending attempt connects. A direct connection is open then. -/
def socketOpened (s : State) (d : ℕ) (agent : Agent) (k : ℕ) (fallback : Bool) (c : Conn) :
    State :=
  let s := { s with
    conns := s.conns.modify k fun c => { c with socket := .opened, settled := !c.hop }
    dials := s.dials.modify d fun x =>
      { x with opened := true, phase := if c.hop then .attempt k fallback else .resolved k } }
  s.record (.opened agent)

def attemptFailed (s : State) (d : ℕ) (agent : Agent) (k : ℕ) (fallback : Bool)
    (why : Failure) : State :=
  let s := s.modifyConn k fun c => c.connectFailed (why ≠ .protocol)
  if cfg.hop ∧ fallback = false ∧ why ≠ .timeout then
    let retried : State := { s with conns := s.conns ++ [.create agent false] }
    retried.setPhase d (.attempt s.conns.length true)
  else
    s.setPhase d .failed

/-- The `then` handler: the client is stored. -/
def dialSucceeded (s : State) (d : ℕ) (agent : Agent) (k : ℕ) : State :=
  let s := { s with clients := s.clients.insert agent k }
  let s := s.modifyConn k fun c => { c with stored := true }
  let s := deletePipelines cat s agent
  (s.setGuard agent (s.guardFor agent).unhealthy).setPhase d (.stored k)

/-- The `catch` handler. -/
def dialFailed (s : State) (d : ℕ) (agent : Agent) : State :=
  let g := (s.guardFor agent).noteUnproductive now
  ((s.setGuard agent g).record (.failed agent now g.unproductive)).setPhase d .noted

/-- The `finally` handler. -/
def dialSettled (s : State) (d : ℕ) (agent : Agent) (result : Option ℕ) : State :=
  let cleared : State := { s with connecting := s.connecting.erase agent }
  cleared.setPhase d (.done result)

end Methods

/-! ## Steps -/

inductive Action
  | refresh
  | pipelineFor (m : Model)
  | releaseClients
  /-- The call `i` runs on to its next await. -/
  | advance (i : ℕ)
  /-- The promise of `ensureClient` that call `i` awaits has settled. -/
  | resume (i : ℕ)
  | inspectReplied (i : ℕ)
  | inspectDone (i : ℕ)
  | inspectFailed (i : ℕ)
  | sessionReady (i conn : ℕ) (node : Option String)
  | installFailed (i : ℕ)
  | installed (i : ℕ)
  | socketOpened (d : ℕ)
  | helloAcked (d : ℕ)
  | attemptFailed (d : ℕ) (why : Failure)
  /-- The `then` or `catch` handler of the dial. -/
  | dialHandled (d : ℕ)
  | dialSettled (d : ℕ)
  /-- A connected client fails on a frame; its socket stays open. -/
  | protocolError (k : ℕ)
  | socketLost (k : ℕ)
  | finishSettled (i k : ℕ)
  | releaseDone (i : ℕ)
  deriving DecidableEq, Repr

section Step
variable (cat : Catalog) (cfg : Config) (now : ℕ)

def taskStep (s : State) (i : ℕ) : Action → Task → Option State
  | .advance _, .refresh [] => some (s.setTask i .refreshed)
  | .advance _, .refresh (a :: rest) => some (refreshTurn cfg now s i a rest)
  | .advance _, .pipeline m [] => some (install s i m)
  | .advance _, .pipeline m (a :: rest) =>
    let (s', on) := ensureClient cfg now s a
    some (s'.setTask i (.pipelineAwait m rest on))
  | .resume _, .refreshAwait a rest on =>
    (outcome s on).map fun result => refreshResume cat now s i a rest result
  | .resume _, .pipelineAwait m rest on =>
    (outcome s on).map fun result =>
      s.setTask i (if result.isSome then .pipeline m rest else .pipelineDone)
  | .inspectReplied _, .inspecting a rest k true =>
    if s.closedAt k then none else some (s.setTask i (.replied a rest k))
  | .inspectDone _, .replied a rest _ => some (inspectDone now s i a rest)
  | .inspectFailed _, .inspecting a rest _ _ => some (inspectFailed cat now s i a rest)
  | .inspectFailed _, .replied a rest _ => some (inspectFailed cat now s i a rest)
  | .sessionReady _ k node, .installing m used ready =>
    if k ∈ used.map Prod.snd ∧ (s.conns[k]?).any Conn.hears then
      some (sessionReady s i m used ready node)
    else none
  | .installFailed _, .installing _ _ _ => some (s.setTask i .pipelineDone)
  | .installed _, .installed m used => some (cachePipeline s i m used)
  | .finishSettled _ k, .releasing pending =>
    if k ∈ pending then
      some ((s.modifyConn k Conn.close).setTask i (.releasing (pending.erase k)))
    else none
  | .releaseDone _, .releasing [] =>
    let cleared : State := { s with clients := ∅, pipelines := ∅ }
    some (cleared.setTask i .released)
  | _, _ => none

/-- A step of the attempt that dial `d` of `agent` is making with client `c`. -/
def attemptStep (s : State) (d : ℕ) (agent : Agent) (k : ℕ) (fallback : Bool) (c : Conn) :
    Action → Option State
  | .socketOpened _ =>
    if c.socket = .connecting then some (socketOpened s d agent k fallback c) else none
  | .helloAcked _ =>
    if c.hop ∧ c.socket = .opened then
      some ((s.modifyConn k fun c => { c with settled := true }).setPhase d (.resolved k))
    else none
  | .attemptFailed _ why =>
    -- no frame arrives before the socket has connected
    if why = .protocol ∧ c.socket ≠ .opened then none
    else some (attemptFailed cfg s d agent k fallback why)
  | _ => none

def dialStep (s : State) (d : ℕ) (x : Dial) : Action → Option State
  | .dialHandled _ =>
    match x.phase with
    | .resolved k => some (dialSucceeded cat s d x.agent k)
    | .failed => some (dialFailed now s d x.agent)
    | _ => none
  | .dialSettled _ =>
    match x.phase with
    | .stored k => some (dialSettled s d x.agent (some k))
    | .noted => some (dialSettled s d x.agent none)
    | _ => none
  | action =>
    match x.phase with
    | .attempt k fallback =>
      (s.conns[k]?).bind fun c => attemptStep cfg s d x.agent k fallback c action
    | _ => none

def connStep (s : State) (k : ℕ) (c : Conn) : Action → Option State
  | .protocolError _ =>
    if c.settled ∧ c.closed = false ∧ c.hears then some (s.modifyConn k Conn.fail) else none
  | .socketLost _ =>
    if c.settled ∧ c.hears then some (s.modifyConn k Conn.close) else none
  | _ => none

def perform (s : State) (action : Action) : Option State :=
  match action with
  | .refresh => some (s.spawn (.refresh cat.agents))
  | .pipelineFor m => if m ∈ cat.models then some (startPipeline s m) else none
  | .releaseClients => some (releaseClients s)
  | .socketOpened d | .helloAcked d | .attemptFailed d _ | .dialHandled d | .dialSettled d =>
    (s.dials[d]?).bind fun x => dialStep cat cfg now s d x action
  | .protocolError k | .socketLost k => (s.conns[k]?).bind fun c => connStep s k c action
  | .advance i | .resume i | .inspectReplied i | .inspectDone i | .inspectFailed i
  | .sessionReady i _ _ | .installFailed i | .installed i | .finishSettled i _
  | .releaseDone i => (s.tasks[i]?).bind fun t => taskStep cat cfg now s i action t

end Step

structure Event where
  now : ℕ
  action : Action
  deriving DecidableEq, Repr

/-- One step, on a clock that does not run backwards. -/
def step (cat : Catalog) (cfg : Config) (s : State) (e : Event) : Option State :=
  if s.clock ≤ e.now then perform cat cfg e.now { s with clock := e.now } e.action else none

end KvasirNet.Bridge
