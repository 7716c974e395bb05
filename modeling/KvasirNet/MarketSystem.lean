import KvasirNet.TableSum
import KvasirNet.Runs
import Mathlib.Data.Rat.Floor

/-! The participation surface of the bridge: a node asks which experts are
under-covered, reports what it holds, and opens a relay; the bytes that its relay
carries are credited to a wallet. A handler awaits only the admission check at
its start, so each request is one step. -/
namespace KvasirNet.Market

abbrev Wallet := String
abbrev WorkerId := String
abbrev Session := String

def workerStaleMs : ℕ := 120000
def pendingAssignmentMs : ℕ := 120000
def portBase : ℕ := 52970
def portSpan : ℕ := 60
def maxSegmentsPerWorker : ℕ := 256
def maxWorkers : ℕ := 4096
def maxSessionLength : ℕ := 128

structure ModelInfo where
  id : String
  name : String
  nEmbd : ℕ
  nLayer : ℕ
  nExpert : ℕ
  /-- Empty when the topology was never read. -/
  expertLayers : List ℕ
  deriving DecidableEq, Repr

structure Config where
  models : List ModelInfo
  targetReplicas : ℕ
  unitsPerMb : ℚ
  deriving DecidableEq

/-! ## State -/

/-- A run of experts in a layer, the upper end not included. -/
structure Segment where
  layer : ℚ
  lo : ℚ
  hi : ℚ
  deriving DecidableEq

/-- What a machine says it is; the empty string is not said. -/
structure Platform where
  os : String
  deviceKind : String
  accelerator : String
  backend : String
  deriving DecidableEq, Repr

structure Worker where
  model : String
  segments : List Segment
  url : String
  owner : Wallet
  platform : Platform
  ts : ℕ
  deriving DecidableEq

/-- Where a relay session leads, and whom its bytes are paid to. -/
structure Target where
  port : ℕ
  model : String
  layer : ℚ
  experts : ℚ × ℚ
  owner : Wallet
  platform : Platform
  nodeId : WorkerId
  ts : ℕ
  deriving DecidableEq

structure Stats where
  /-- The time of the close, zero while open. -/
  closed : ℕ
  ws2tcp : ℕ
  tcp2ws : ℕ
  creditedBytes : ℕ
  deriving DecidableEq, Repr

/-- A window handed out and not yet reported held. -/
structure Claim where
  owner : Wallet
  model : String
  layer : ℕ
  experts : ℚ × ℚ
  deriving DecidableEq

/-- A call of `credit`: the bytes it pays for and what travels with them. -/
structure Credit where
  session : Session
  nodeId : WorkerId
  bytes : ℕ
  owner : Wallet
  model : String
  platform : Platform
  deriving DecidableEq

structure State where
  workers : Table WorkerId Worker
  relayTargets : Table Session Target
  /-- The time each claim was made or refreshed. -/
  pending : Table Claim ℕ
  relayStats : Table Session Stats
  ports : Table WorkerId ℕ
  /-- Every call of `credit`, the last one first. -/
  credits : List Credit

def State.empty : State := ⟨∅, ∅, ∅, ∅, ∅, []⟩

/-! ## Liveness -/

def Worker.stale (nowMs : ℕ) (w : Worker) : Bool := decide (w.ts + workerStaleMs < nowMs)

def State.staleWorker (s : State) (nowMs : ℕ) (id : WorkerId) : Bool :=
  (s.workers.lookup id).any (Worker.stale nowMs)

/-- What `liveWorkers` deletes on its way: a stale worker with its port, its
relay targets and their statistics. -/
def State.evict (s : State) (nowMs : ℕ) : State :=
  { s with
    workers := s.workers.keep fun _ w => !w.stale nowMs
    ports := s.ports.keep fun id _ => !s.staleWorker nowMs id
    relayTargets := s.relayTargets.keep fun _ t => !s.staleWorker nowMs t.nodeId
    relayStats := s.relayStats.keep fun session _ =>
      !(s.relayTargets.lookup session).any fun t => s.staleWorker nowMs t.nodeId }

def State.liveWorkers (s : State) (nowMs : ℕ) : State × List (WorkerId × Worker) :=
  let s' := s.evict nowMs
  (s', s'.workers.entries.map fun e => (e.1, e.2))

/-- What `livePending` deletes on its way. -/
def State.dropClaims (s : State) (nowMs : ℕ) : State :=
  { s with pending := s.pending.keep fun _ ts => decide (nowMs ≤ ts + pendingAssignmentMs) }

/-! ## Coverage -/

/-- `ref.split('/').pop()`. -/
def baseName (ref : String) : String := String.ofList ((ref.toList.splitOn '/').getLastD [])

def Config.modelInfo (cfg : Config) (ref : String) : Option ModelInfo :=
  cfg.models.find? fun m => m.id == ref || m.id == baseName ref || m.name == ref

/-- The loop from `max(0, begin)` to `min(end, nExpert)` meets the expert. It
goes in steps of one, so from a fraction it meets none. -/
def meets (lo hi : ℚ) (nExpert e : ℕ) : Bool :=
  (max 0 lo).den == 1 && decide (max 0 lo ≤ e) && decide ((e : ℚ) < min hi nExpert)

/-- How often an expert of a layer is held or promised. -/
def State.replicas (s : State) (info : ModelInfo) (layer e : ℕ) : ℕ :=
  ((s.workers.entries.filter fun w => w.2.model == info.id || w.2.model == info.name).flatMap
      fun w => w.2.segments).countP
    (fun seg => decide (seg.layer = (layer : ℚ)) && meets seg.lo seg.hi info.nExpert e) +
  s.pending.entries.countP fun c =>
    c.1.model == info.id && decide (c.1.layer = layer) &&
      meets c.1.experts.1 c.1.experts.2 info.nExpert e

/-- A run of experts with equal replica counts. -/
structure CoverRun where
  experts : ℕ × ℕ
  replicas : ℕ
  deriving DecidableEq, Repr

def foldRuns : ℕ → ℕ → ℕ → List ℕ → List CoverRun
  | start, count, e, [] => [⟨(start, e), count⟩]
  | start, count, e, r :: rest =>
    if r = count then foldRuns start count (e + 1) rest
    else ⟨(start, e), count⟩ :: foldRuns e r (e + 1) rest

def coverRuns : List ℕ → List CoverRun
  | [] => []
  | r :: rest => foldRuns 0 r 1 rest

/-- `Math.round`. -/
def jsRound (x : ℚ) : ℤ := ⌊x + 1 / 2⌋

def CoverRun.scarcity (cfg : Config) (r : CoverRun) : ℚ :=
  let target : ℚ := cfg.targetReplicas
  jsRound (max 0 ((target - r.replicas) / target) * 1000) / 1000

/-- The layers that hold experts, each folded into runs. -/
def State.coverage (cfg : Config) (nowMs : ℕ) (s : State) (model : String) :
    State × List (ℕ × List CoverRun) :=
  match cfg.modelInfo model with
  | none => (s, [])
  | some info =>
    let s' := (s.evict nowMs).dropClaims nowMs
    (s', info.expertLayers.eraseDups.map fun layer =>
      (layer, coverRuns ((List.range info.nExpert).map (s'.replicas info layer))))

/-! ## Requests -/

inductive Who
  | service
  | node (wallet : Wallet)
  | none
  deriving DecidableEq, Repr

def Who.wallet : Who → Option Wallet
  | node w => some w
  | service | none => Option.none

inductive Refusal
  | notAdmitted
  | unauthenticated
  | required
  | censusFull
  | relayUnauthenticated
  | unknownSession
  | unknownController
  deriving DecidableEq, Repr

def Refusal.answer : Refusal → ℕ × String
  | notAdmitted => (403, "this wallet is no longer admitted to the ring")
  | unauthenticated => (401, "authentication required")
  | required => (400, "worker_id and model are required")
  | censusFull => (503, "the coverage census is full; try again shortly")
  | relayUnauthenticated => (4401, "authentication required")
  | unknownSession => (4404, "unknown relay session")
  | unknownController => (4404, "unknown ring controller")

/-- A coverage report, each field after `String` and `trim`; an absent field is
the empty string. A segment is the `Number` of each of its items, `none` for one
that is not finite; what is no array has no items. -/
structure CoverageBody where
  workerId : WorkerId
  model : String
  segments : List (List (Option ℚ))
  url : String
  owner : Wallet
  platform : Platform
  deriving DecidableEq

structure Assignment where
  model : ModelInfo
  layer : ℕ
  run : CoverRun
  experts : ℚ × ℚ
  deriving DecidableEq

inductive Reply
  | refused (e : Refusal)
  | demand (models : List (ModelInfo × List (ℕ × List CoverRun)))
  | assigned (a : Assignment)
  | atTarget
  | frozen
  | covered (workers : ℕ) (wired : Bool) (listenPort : Option ℕ) (session : Option Session)
  | relay (session : Session) (port : ℕ)
  | noted
  deriving DecidableEq

/-- `needsNode`: `allowed` is what the current list says of the caller's wallet. -/
def needsNode (who : Who) (allowed : Bool) : Except Refusal Unit :=
  match who with
  | .service => .ok ()
  | .node _ => if allowed then .ok () else .error .notAdmitted
  | .none => .error .unauthenticated

section Handlers
variable (cfg : Config)

def ModelInfo.wanted (want : String) (m : ModelInfo) : Bool :=
  want == "" || m.id == want || m.name == want || want.toList.isSuffixOf m.id.toList

def expertDemand (s : State) (nowMs : ℕ) (want : String) :
    State × List (ModelInfo × List (ℕ × List CoverRun)) :=
  (cfg.models.filter (ModelInfo.wanted want)).foldl
    (fun x m =>
      let r := x.1.coverage cfg nowMs m.id
      (r.1, x.2 ++ [(m, r.2)])) (s, [])

/-- The best run so far: more scarce, or as scarce and wider. -/
structure Best where
  model : ModelInfo
  layer : ℕ
  run : CoverRun
  deriving DecidableEq

def CoverRun.width (r : CoverRun) : ℕ := r.experts.2 - r.experts.1

def Best.improve (m : ModelInfo) (layer : ℕ) (best : Option Best) (run : CoverRun) : Option Best :=
  if run.scarcity cfg ≤ 0 then best
  else
    match best with
    | none => some ⟨m, layer, run⟩
    | some b =>
      if b.run.scarcity cfg < run.scarcity cfg ∨
        (run.scarcity cfg = b.run.scarcity cfg ∧ b.run.width < run.width) then some ⟨m, layer, run⟩
      else some b

def volunteerBest (s : State) (nowMs : ℕ) (want : String) : State × Option Best :=
  (cfg.models.filter (ModelInfo.wanted want)).foldl
    (fun x m =>
      let r := x.1.coverage cfg nowMs m.id
      (r.1, r.2.foldl (fun best l => l.2.foldl (Best.improve cfg m l.1) best) x.2)) (s, none)

/-- `claim`: a caller without a wallet makes none. -/
def State.claim (s : State) (nowMs : ℕ) (owner : Wallet) (model : String) (layer : ℕ)
    (experts : ℚ × ℚ) : State :=
  if owner = "" then s
  else
    let id := ((cfg.modelInfo model).map ModelInfo.id).getD model
    { s with pending := s.pending.insert ⟨owner, id, layer, experts⟩ nowMs }

/-- `settle`: the claims that a report has made good on. -/
def State.settle (s : State) (owner : Wallet) (model : String) (segments : List Segment) : State :=
  if owner = "" then s
  else
    let id := ((cfg.modelInfo model).map ModelInfo.id).getD model
    { s with pending := s.pending.keep fun c _ =>
        !(c.owner == owner && c.model == id && segments.any fun seg =>
          decide (seg.layer = c.layer ∧ seg.lo ≤ c.experts.1 ∧ c.experts.2 ≤ seg.hi)) }

/-- A `maxExperts` that is not positive asks for the whole run. -/
def volunteer (s : State) (nowMs : ℕ) (who : Who) (want : String) (maxExperts : ℚ) :
    State × Reply :=
  let r := volunteerBest cfg s nowMs want
  match r.2 with
  | none => (r.1, .atTarget)
  | some b =>
    let lo : ℚ := b.run.experts.1
    let hi : ℚ := if 0 < maxExperts then min b.run.experts.2 (lo + maxExperts) else b.run.experts.2
    (r.1.claim cfg nowMs (who.wallet.getD "") b.model.id b.layer (lo, hi),
      .assigned ⟨b.model, b.layer, b.run, (lo, hi)⟩)

/-- Three items, at most so many of them, all finite. -/
def parseSegments (raw : List (List (Option ℚ))) : List Segment :=
  ((raw.filter fun items => items.length == 3).take maxSegmentsPerWorker).filterMap fun
    | [some layer, some lo, some hi] => some ⟨layer, lo, hi⟩
    | _ => none

/-- `a || b` of texts. -/
def orText (a b : String) : String := if a = "" then b else a

def Platform.orElse (p q : Platform) : Platform :=
  ⟨orText p.os q.os, orText p.deviceKind q.deviceKind, orText p.accelerator q.accelerator,
    orText p.backend q.backend⟩

def Platform.unsaid : Platform := ⟨"", "", "", ""⟩

/-- The lowest port of the span that nobody holds. -/
def State.freePort (s : State) : Option ℕ :=
  ((List.range portSpan).map fun i => portBase + i).find? fun port =>
    !(s.ports.entries.any fun e => e.2 == port)

def State.portFor (s : State) (id : WorkerId) : State × Option ℕ :=
  match s.ports.lookup id with
  | some port => (s, some port)
  | none =>
    match s.freePort with
    | some port => ({ s with ports := s.ports.insert id port }, some port)
    | none => (s, none)

/-- The session a `relay:` url names. -/
def relaySession (url : String) (id : WorkerId) : Option Session :=
  if "relay:".toList.isPrefixOf url.toList then
    let named := String.ofList (url.toList.drop 6)
    some (String.ofList ((orText named ("expert-" ++ id)).toList.take maxSessionLength))
  else none

/-- The worker on record after a report; what the report leaves out stays. -/
def reportedWorker (previous : Option Worker) (b : CoverageBody) (nowMs : ℕ) : Worker where
  model := baseName b.model
  segments := parseSegments b.segments
  url := b.url
  owner := orText b.owner ((previous.map Worker.owner).getD "")
  platform := b.platform.orElse ((previous.map Worker.platform).getD Platform.unsaid)
  ts := nowMs

def relayTarget (w : Worker) (id : WorkerId) (port : ℕ) (prior : Option Target) : Target where
  port := port
  model := w.model
  layer := (w.segments.head?.map Segment.layer).getD 0
  experts := (w.segments.head?.map fun seg => (seg.lo, seg.hi)).getD (0, 0)
  owner := orText w.owner ((prior.map Target.owner).getD "")
  platform := w.platform
  nodeId := id
  ts := w.ts

/-- The part of a report that a `relay:` url adds: a port, and a target under
the session's name. -/
def State.wire (s : State) (id : WorkerId) (w : Worker) : State × Option ℕ × Option Session :=
  match relaySession w.url id with
  | none => (s, none, none)
  | some session =>
    match s.portFor id with
    | (s', none) => (s', none, some session)
    | (s', some port) =>
      let target := relayTarget w id port (s'.relayTargets.lookup session)
      ({ s' with relayTargets := s'.relayTargets.insert session target }, some port, some session)

/-- The live workers are only counted for a new one. -/
def State.census (s : State) (nowMs : ℕ) (id : WorkerId) : State :=
  if (s.workers.lookup id).isSome then s else s.evict nowMs

/-- The report takes effect: claims it fulfils are settled, the worker is put on
record and wired. -/
def State.record (s : State) (who : Who) (id : WorkerId) (w : Worker) :
    State × Option ℕ × Option Session :=
  let s' := s.settle cfg (who.wallet.getD w.owner) w.model w.segments
  { s' with workers := s'.workers.insert id w }.wire id w

def coverageReport (s : State) (nowMs : ℕ) (who : Who) (b : CoverageBody) : State × Reply :=
  if b.workerId = "" ∨ b.model = "" then (s, .refused .required)
  else
    let previous := s.workers.lookup b.workerId
    let s₁ := s.census nowMs b.workerId
    if previous.isNone ∧ maxWorkers ≤ s₁.workers.entries.length then (s₁, .refused .censusFull)
    else
      let r := s₁.record cfg who b.workerId (reportedWorker previous b nowMs)
      let s₂ := r.1.evict nowMs
      (s₂, .covered s₂.workers.entries.length r.2.1.isSome r.2.1 r.2.2)

def State.dial (s : State) (wallet : Option Wallet) (session : Session) : Option (State × ℕ) :=
  (s.relayTargets.lookup session).map fun t =>
    let owner := orText t.owner (wallet.getD "")
    ({ s with relayTargets := s.relayTargets.insert session { t with owner := owner } }, t.port)

inductive Path
  | expertRelay (session : Session)
  | ringRelay (controllerId : String)
  deriving DecidableEq, Repr

def Path.session : Path → Session
  | expertRelay session => session
  | ringRelay id => "ring-" ++ id

def resolveUpgrade (s : State) (who : Who) (path : Path) : State × Reply :=
  if who = .none then (s, .refused .relayUnauthenticated)
  else
    match s.dial who.wallet path.session with
    | some (s', port) => (s', .relay path.session port)
    | none =>
      match path with
      | .expertRelay _ => (s, .refused .unknownSession)
      | .ringRelay _ => (s, .refused .unknownController)

/-! ## Relays -/

inductive Direction
  | ws2tcp
  | tcp2ws
  deriving DecidableEq, Repr

/-- A relay is charged for the larger of its directions. -/
def Stats.carried (st : Stats) : ℕ := max st.ws2tcp st.tcp2ws

def Stats.add (st : Stats) (bytes : ℕ) : Direction → Stats
  | .ws2tcp => { st with ws2tcp := st.ws2tcp + bytes }
  | .tcp2ws => { st with tcp2ws := st.tcp2ws + bytes }

def noteRelayBytes (s : State) (session : Session) (dir : Direction) (bytes : ℕ) : State :=
  let st := (s.relayStats.lookup session).getD ⟨0, 0, 0, 0⟩
  { s with relayStats := s.relayStats.insert session (st.add bytes dir) }

def State.due (s : State) (session : Session) (st : Stats) : Option Credit :=
  match s.relayTargets.lookup session with
  | none => none
  | some t =>
    if st.carried ≤ st.creditedBytes then none
    else some ⟨session, t.nodeId, st.carried - st.creditedBytes, t.owner, t.model, t.platform⟩

def flushContributions (s : State) : State :=
  { s with
    relayStats := s.relayStats.mapRows fun session st =>
      if (s.due session st).isSome then { st with creditedBytes := st.carried } else st
    credits := (s.relayStats.entries.filterMap fun e => s.due e.1 e.2).reverse ++ s.credits }

def noteRelayClosed (s : State) (session : Session) (nowMs : ℕ) : State :=
  let s' := match s.relayStats.lookup session with
    | some st => { s with relayStats := s.relayStats.insert session { st with closed := nowMs } }
    | none => s
  flushContributions s'

/-- The units that a credit adds to the ledger. -/
def Credit.units (c : Credit) : ℚ := c.bytes / 10 ^ 6 * cfg.unitsPerMb

end Handlers

/-! ## Steps -/

/-- A request carries who is asking and whether the list admits the wallet now. -/
inductive Action
  | demand (who : Who) (allowed : Bool) (want : String) (nowMs : ℕ)
  | volunteer (who : Who) (allowed isFrozen : Bool) (want : String) (maxExperts : ℚ) (nowMs : ℕ)
  | coverage (who : Who) (allowed : Bool) (body : CoverageBody) (nowMs : ℕ)
  | upgrade (who : Who) (path : Path)
  | relayBytes (session : Session) (dir : Direction) (bytes : ℕ)
  | relayClosed (session : Session) (nowMs : ℕ)
  | flush
  deriving DecidableEq

def react (cfg : Config) (s : State) : Action → State × Reply
  | .demand who allowed want nowMs =>
    match needsNode who allowed with
    | .error e => (s, .refused e)
    | .ok () =>
      let r := expertDemand cfg s nowMs want
      (r.1, .demand r.2)
  | .volunteer who allowed isFrozen want maxExperts nowMs =>
    match needsNode who allowed with
    | .error e => (s, .refused e)
    | .ok () => if isFrozen then (s, .frozen) else volunteer cfg s nowMs who want maxExperts
  | .coverage who allowed body nowMs =>
    match needsNode who allowed with
    | .error e => (s, .refused e)
    | .ok () => coverageReport cfg s nowMs who body
  | .upgrade who path => resolveUpgrade s who path
  | .relayBytes session dir bytes => (noteRelayBytes s session dir bytes, .noted)
  | .relayClosed session nowMs => (noteRelayClosed s session nowMs, .noted)
  | .flush => (flushContributions s, .noted)

def step (cfg : Config) (s : State) (a : Action) : Option State := some (react cfg s a).1

end KvasirNet.Market
