import KvasirNet.GatewayStore

/-! Node rows: uptime and contribution rewards, and the handlers that write a
single row (`/api/node/*` and the in-process reporters). -/
namespace KvasirNet.Gateway

inductive Refusal
  | required (fields : List String)
  | amountNotPositive
  | signatureUsed
  | transactionNotFound
  | transactionFailed
  | vaultReceived (delta need : ℤ)
  | notSentBy (owner : Wallet) (sent need : ℤ)
  | notANumber
  | noOnlineNode
  | noActiveStake
  | payoutFailed
  | saveFailed
  | operatorBalance (has need : ℚ)
  | nodeHeldByOther
  | nodeNotRegistered
  | nodeNotFound
  | notNodeOwner
  | untrustedReporter
  | noRewards
  | belowMinimumClaim (pending : ℚ)
  | rateLimited (waitMs : ℕ)
  | faucetBudgetSpent
  | unknownRequest
  | unknownModel
  | inferenceFailed (refunded : Bool)
  | notWhitelisted
  | registrationDisabled
  | badLogin
  | apiKeyOrAllRequired
  | noSuchKey
  | insufficientCredit
  | noPushAccepted
  | badPushKey
  | missingDefaultPricing
  | genesisMismatch
  | writeLocked
  | badPrice
  | badCode
  | noEnrollment
  | twoFactorOff
  deriving DecidableEq

/-- The HTTP status a refusal is answered with. -/
def Refusal.status : Refusal → ℕ
  | .signatureUsed | .genesisMismatch | .writeLocked => 409
  | .noOnlineNode | .operatorBalance _ _ | .nodeHeldByOther | .notNodeOwner
  | .notWhitelisted | .registrationDisabled => 403
  | .nodeNotRegistered | .nodeNotFound | .unknownRequest | .noSuchKey | .noPushAccepted => 404
  | .untrustedReporter | .badLogin | .badPushKey => 401
  | .rateLimited _ | .faucetBudgetSpent => 429
  | .inferenceFailed _ => 502
  | .insufficientCredit => 402
  | _ => 400

def tierFor (n : NodeRow) : TierRule :=
  match n.perfScore with
  | some tps => perfTier tps
  | none => unmeasured

theorem tierFor_mult_nonneg (n : NodeRow) : 0 ≤ (tierFor n).mult := by
  unfold tierFor
  split
  · exact (perfTier_mult_pos _).le
  · norm_num [unmeasured]

def uptimeCredit (cfg : Config) (n : NodeRow) (now : ℕ) : ℚ :=
  let last := if n.lastUptimeAt = 0 then now else n.lastUptimeAt
  let elapsed : ℕ := min (now - last) cfg.uptimeMaxGapSec
  (if n.hostsBridge = some true then elapsed * (cfg.bridgeUptimePerHour / 3600) else 0) +
    (if n.hostsGateway then elapsed * (cfg.gatewayUptimePerHour / 3600) else 0)

def accrueUptime (cfg : Config) (n : NodeRow) (now : ℕ) : NodeRow :=
  let credit := uptimeCredit cfg n now
  if 0 < credit then
    { n with
      uptimeRewards := n.uptimeRewards + credit
      pendingRewards := n.pendingRewards + credit
      lastUptimeAt := now }
  else { n with lastUptimeAt := now }

/-- Raw units credited: `creditContribution` ignores amounts that are not positive. -/
def creditContribution (cfg : Config) (n : NodeRow) (raw : ℚ) (now : ℕ) : NodeRow :=
  if raw ≤ 0 then n
  else
    let effective := raw * (tierFor n).mult * (if n.hostsGateway then cfg.gatewayBonus else 1)
    { n with
      contributedUnits := round6 (n.contributedUnits + raw)
      effectiveUnits := round6 (n.effectiveUnits + effective)
      pendingRewards := round6 (n.pendingRewards + effective * cfg.rewardPerUnit)
      lastReport := some now }

/-- `db.nodes[nodeId] || { owner, contributedUnits: 0, … }`. -/
def newNode (owner : Wallet) (now : ℕ) : NodeRow where
  owner := owner
  contributedUnits := 0
  effectiveUnits := 0
  pendingRewards := 0
  claimedTotal := 0
  hostsGateway := false
  hostsBridge := some false
  hostsHub := none
  uptimeRewards := 0
  creditedUnits := 0
  registeredAt := now
  lastReport := none
  lastUptimeAt := now
  os := none
  deviceKind := none
  accelerator := none
  label := none
  perfScore := none
  backend := none
  mode := none
  tier := none
  perfMultiplier := none

/-- `a || b` on optional strings: the empty string is falsy. -/
def orStr (a b : Option String) : Option String :=
  match a with
  | some s => if s = "" then b else some s
  | none => b

def normIn (categories : List String) (fallback : String) (v : Option String) : String :=
  let s := (v.getD "").toLower
  if s ∈ categories then s else fallback

def normOs : Option String → String :=
  normIn ["macos", "ios", "android", "windows", "linux", "unknown"] "unknown"

def normAccel : Option String → String := normIn ["cpu", "gpu", "npu"] "cpu"

def NodeRow.graded (n : NodeRow) : NodeRow :=
  { n with tier := some (tierFor n).tier, perfMultiplier := some (tierFor n).mult }

structure RegisterRequest where
  nodeId : NodeId
  owner : Wallet
  os : Option String
  deviceKind : Option String
  accelerator : Option String
  label : Option String
  perfScore : Option ℚ
  backend : Option String
  mode : Option String
  hostsGateway : Option Bool
  hostsBridge : Option Bool
  deriving DecidableEq

/-- A row that is worth taking over: a balance or an infra role. -/
def NodeRow.holdsValue (n : NodeRow) : Bool :=
  decide (0 < n.pendingRewards) || n.hostsBridge == some true || n.hostsGateway

/-- The row `POST /api/node/register` stores once it is admitted. -/
def registeredRow (cfg : Config) (r : RegisterRequest) (trusted : Bool) (now : ℕ)
    (existing : Option NodeRow) : NodeRow :=
  let n := existing.getD (newNode r.owner now)
  let n := { n with
    owner := r.owner
    os := some (normOs (r.os.or n.os))
    deviceKind := orStr (orStr r.deviceKind n.deviceKind) (some "unknown")
    accelerator := some (normAccel (r.accelerator.or n.accelerator))
    label := orStr (orStr r.label n.label) (some r.nodeId)
    perfScore := if trusted then r.perfScore.or n.perfScore else n.perfScore
    backend := r.backend.or n.backend
    mode := r.mode.or n.mode }
  -- elapsed uptime is credited under the roles in force before this report
  let n := if trusted then
    let m := accrueUptime cfg n now
    { m with
      hostsGateway := r.hostsGateway.getD m.hostsGateway
      hostsBridge := r.hostsBridge.or m.hostsBridge }
    else n
  n.graded

/-- The checks of `POST /api/node/register`. `trusted` is the outcome of
`trustedReporter`, `balance` that of `kvrBalance`. -/
def registerRow (cfg : Config) (r : RegisterRequest) (trusted : Bool) (balance : ℚ) (now : ℕ)
    (existing : Option NodeRow) : Except Refusal NodeRow :=
  if r.nodeId = "" ∨ r.owner = "" then .error (.required ["nodeId", "owner"])
  else if 0 < cfg.minOperatorKvr ∧ balance < cfg.minOperatorKvr then
    .error (.operatorBalance balance cfg.minOperatorKvr)
  else if existing.any fun e => e.owner != "" && e.owner != r.owner && !trusted && e.holdsValue then
    .error .nodeHeldByOther
  else .ok (registeredRow cfg r trusted now existing)

/-- The row `POST /api/node/heartbeat` stores. -/
def heartbeatRow (cfg : Config) (hostsGateway hostsBridge : Option Bool) (trusted : Bool) (now : ℕ)
    (n : NodeRow) : NodeRow :=
  -- an untrusted heartbeat only refreshes `lastReport`
  let n := if trusted then
    let m := accrueUptime cfg n now
    { m with
      hostsGateway := hostsGateway.getD m.hostsGateway
      hostsBridge := hostsBridge.or m.hostsBridge }
    else n
  { n with lastReport := some now }

/-- The row `POST /api/node/contribution` stores. -/
def contributionRow (cfg : Config) (units : ℚ) (now : ℕ) (n : NodeRow) : NodeRow :=
  creditContribution cfg (accrueUptime cfg n now) units now

structure InfraReport where
  nodeId : NodeId
  owner : Wallet
  hostsGateway : Bool
  hostsBridge : Bool
  label : String
  deviceKind : String
  deriving DecidableEq

/-- The row `upsertInfraNode` stores. -/
def infraRow (cfg : Config) (r : InfraReport) (now : ℕ) (existing : Option NodeRow) : NodeRow :=
  let n := existing.getD (newNode r.owner now)
  let n := { n with
    owner := r.owner
    deviceKind := some r.deviceKind
    label := some r.label
    os := orStr n.os (some cfg.hostOs)
    accelerator := orStr n.accelerator (some "cpu") }
  -- as in a registration, before the roles of this report replace the old ones
  let n := accrueUptime cfg n now
  let n := { n with hostsGateway := r.hostsGateway, hostsBridge := some r.hostsBridge }
  { n.graded with lastReport := some now }

/-- One entry of the bridge's `/api/contributions`, as `reportInferenceContribution` passes it on. -/
structure InferenceReport where
  nodeId : NodeId
  owner : Wallet
  label : Option String
  units : ℚ
  backend : Option String
  os : Option String
  accelerator : Option String
  deviceKind : Option String
  perfScore : Option ℚ
  deriving DecidableEq

/-- The units a poll credits: the counter above the stored baseline, or the
whole counter when it is below the baseline (the bridge restarted). -/
def pollDelta (cumulative baseline : ℚ) : ℚ :=
  let credited := if cumulative < baseline then 0 else baseline
  max 0 (cumulative - credited)

/-- The row `upsertInferenceNode` stores. -/
def inferenceRow (cfg : Config) (r : InferenceReport) (now : ℕ) (existing : Option NodeRow) :
    NodeRow :=
  let n := existing.getD (newNode r.owner now)
  let n := { n with
    owner := r.owner
    label := orStr (orStr r.label n.label) (some r.nodeId)
    deviceKind := orStr (orStr r.deviceKind n.deviceKind) (some "node")
    os := orStr (orStr r.os n.os) (some cfg.hostOs)
    accelerator := orStr (orStr r.accelerator n.accelerator) (some "gpu")
    backend := r.backend.or n.backend
    perfScore := r.perfScore.or n.perfScore }
  -- a poll accrues no uptime
  let n := n.graded
  let delta := pollDelta r.units n.creditedUnits
  let n := if 0 < delta then creditContribution cfg n delta now else n
  { n with creditedUnits := r.units }

/-- What an owner's nodes hold (`operatorRewards(db, owner).pending`). -/
def ownerPending (owner : Wallet) (nodes : Table NodeId NodeRow) : ℚ :=
  nodes.total fun _ n => if n.owner = owner then n.pendingRewards else 0

def NodeRow.claimed (owner : Wallet) (n : NodeRow) : NodeRow :=
  if n.owner = owner then
    { n with claimedTotal := n.claimedTotal + n.pendingRewards, pendingRewards := 0 }
  else n

def claimNodes (owner : Wallet) (nodes : Table NodeId NodeRow) : Table NodeId NodeRow :=
  nodes.mapRows fun _ n => n.claimed owner

/-- An owner may stake while one of its nodes reported within the last 300 s. -/
def ownerHasOnlineNode (nodes : Table NodeId NodeRow) (owner : Wallet) (now : ℕ) : Bool :=
  nodes.entries.any fun e =>
    e.2.owner == owner && e.2.lastReport.any fun last => decide (now - last < 300)

end KvasirNet.Gateway
