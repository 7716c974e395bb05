import KvasirNet.GatewayTasks

/-! The gateway as a transition system: one file, the tasks in order of arrival,
and the money trail. `withLock` lets a task start once every earlier task with
its key has settled. -/
namespace KvasirNet.Gateway

structure State where
  disk : DB
  tasks : List Task
  log : List Event

inductive Action
  | submit (r : Request)
  | start (i nowMs : ℕ)
  | verified (i : ℕ) (found : Bool) (nowMs : ℕ) (saveOk : Bool)
  | probed (i : ℕ) (existed : Bool)
  | inferred (i : ℕ) (answer : Except String BridgeAnswer) (saveOk : Bool)
  | lands (i : ℕ)
  | settled (i : ℕ) (ok saveOk : Bool)
  | completed (i : ℕ) (modelId : ModelId) (usage : Option TokenUsage) (nowMs : ℕ)
  | sync (r : SyncRequest) (nowMs : ℕ)

def Phase.isDone : Phase → Bool
  | .done _ => true
  | _ => false

def Phase.snapshot : Phase → Option DB
  | .verifying db | .probing db _ | .inferring db _ _ | .paying db _ _ => some db
  | _ => none

def lockFree (tasks : List Task) (i : ℕ) (key : Option String) : Bool :=
  key.all fun k => (tasks.take i).all fun t => t.request.lockKey != some k || t.phase.isDone

/-- A task that is resumed: what it holds, what it does next, and whether a
save it makes goes through. -/
structure Resumption where
  index : ℕ
  request : Request
  snapshot : DB
  outcome : Outcome
  saveOk : Bool

def resumption (cfg : Config) (chain : Chain) (s : State) : Action → Option Resumption
  | .start i nowMs =>
    match s.tasks[i]? with
    | some ⟨r, .waiting⟩ =>
      if lockFree s.tasks i r.lockKey then
        some ⟨i, r, loadDB s.disk, r.begin cfg nowMs (loadDB s.disk), true⟩
      else none
    | _ => none
  | .verified i found nowMs saveOk =>
    match s.tasks[i]? with
    | some ⟨r, .verifying db⟩ => some ⟨i, r, db, r.verified cfg chain found nowMs db, saveOk⟩
    | _ => none
  | .probed i existed =>
    match s.tasks[i]? with
    | some ⟨.faucet a, .probing db now⟩ =>
      some ⟨i, .faucet a, db, faucetProbed cfg db a now existed, true⟩
    | _ => none
  | .inferred i answer saveOk =>
    match s.tasks[i]? with
    | some ⟨.inference rid sig, .inferring db r use⟩ =>
      some ⟨i, .inference rid sig, db, Gateway.inferred db rid sig r use answer, saveOk⟩
    | _ => none
  | .settled i ok saveOk =>
    match s.tasks[i]? with
    | some ⟨r, .paying db p landed⟩ =>
      -- a payout that returned has landed
      if ok && !landed then none else some ⟨i, r, db, p.settled db ok, saveOk⟩
    | _ => none
  | _ => none

def State.setTask (s : State) (i : ℕ) (t : Task) : State := { s with tasks := s.tasks.set i t }

/-- Carry out a resumed task. A save that throws leaves the file as it was. -/
def State.resume (s : State) (ρ : Resumption) : State :=
  match ρ.outcome with
  | .stop answer => s.setTask ρ.index ⟨ρ.request, .done answer⟩
  | .wait phase => s.setTask ρ.index ⟨ρ.request, phase⟩
  | .save db events answer =>
    if ρ.saveOk then
      { disk := db
        tasks := s.tasks.set ρ.index ⟨ρ.request, .done answer⟩
        log := events ++ s.log }
    else s.setTask ρ.index ⟨ρ.request, .done (.refused .saveFailed)⟩

def step (cfg : Config) (chain : Chain) (s : State) : Action → Option State
  | .submit r =>
    match r.precheck cfg (loadDB s.disk) with
    | .ok () => some { s with tasks := s.tasks ++ [⟨r, .waiting⟩] }
    | .error _ => some s
  -- the transfer is on chain, whether or not the handler ever hears of it
  | .lands i =>
    match s.tasks[i]? with
    | some ⟨r, .paying db p false⟩ =>
      if p.canLand cfg then
        some { s with
          tasks := s.tasks.set i ⟨r, .paying db p true⟩
          log := p.landing cfg db ++ s.log }
      else none
    | _ => none
  | .completed i modelId usage nowMs =>
    match s.tasks[i]? with
    | some ⟨.chat w ip, .completing⟩ =>
      -- a completion that reports no usage is not debited
      some { s with
        disk := usage.elim s.disk fun u => debitCredits (loadDB s.disk) w modelId u (nowMs / 1000)
        tasks := s.tasks.set i ⟨.chat w ip, .done .ok⟩ }
    | _ => none
  | .sync r nowMs =>
    match r.apply cfg nowMs (loadDB s.disk) with
    | .ok out => some { s with disk := out.db.getD s.disk, log := out.events ++ s.log }
    | .error _ => some s
  | a => (resumption cfg chain s a).map s.resume

/-- The service has just started: no request is in flight. -/
structure State.Initial (s : State) : Prop where
  tasks_nil : s.tasks = []
  log_nil : s.log = []

/-- A save by a task that awaited: the request, the snapshot it loaded and the
database it writes. -/
def commit (cfg : Config) (chain : Chain) (s : State) (a : Action) : Option (Request × DB × DB) :=
  match resumption cfg chain s a with
  | some ⟨_, r, base, .save db _ _, true⟩ => some (r, base, db)
  | _ => none

end KvasirNet.Gateway
