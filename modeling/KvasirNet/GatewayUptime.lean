import KvasirNet.GatewayBalances
import KvasirNet.GatewayMigration

/-! What a node is paid for its uptime by the requests that report on it: the gaps between the
reports that accrue, each at the rates of the roles stored while it ran. -/
namespace KvasirNet.Gateway

structure Roles where
  gateway : Bool
  bridge : Bool
  deriving DecidableEq, Repr

def NodeRow.roles (n : NodeRow) : Roles := ⟨n.hostsGateway, n.hostsBridge == some true⟩

def Roles.hourly (cfg : Config) (r : Roles) : ℚ :=
  (if r.bridge then cfg.bridgeUptimePerHour else 0) +
    (if r.gateway then cfg.gatewayUptimePerHour else 0)

/-- The pay for the time between two seconds; a row without a first one has no gap. -/
def gapPay (cfg : Config) (since now : ℕ) (roles : Roles) : ℚ :=
  if since = 0 then 0
  else (min (now - since) cfg.uptimeMaxGapSec : ℕ) * roles.hourly cfg / 3600

/-- The pay for the gaps between consecutive accruals, given with the roles stored from then on. -/
def paidGaps (cfg : Config) : List (ℕ × Roles) → ℚ
  | a :: b :: rest => gapPay cfg a.1 b.1 a.2 + paidGaps cfg (b :: rest)
  | _ => 0

def SyncRequest.isReport : SyncRequest → Bool
  | .register .. | .heartbeat .. | .contribution .. | .infraReport _ => true
  | _ => false

/-- An admitted report on the node from a trusted reporter; in-process reports need no token. -/
def SyncRequest.accrues (cfg : Config) (id : NodeId) : SyncRequest → Bool
  | .register r trusted balance =>
    trusted && r.nodeId == id && r.nodeId != "" && r.owner != "" &&
      !decide (0 < cfg.minOperatorKvr ∧ balance < cfg.minOperatorKvr)
  | .heartbeat nodeId _ _ trusted => trusted && nodeId == id && nodeId != ""
  | .contribution nodeId _ trusted => trusted && nodeId == id && nodeId != ""
  | .infraReport r => r.nodeId == id && r.owner != ""
  | _ => false

def SyncRequest.rolesAfter (old : Roles) : SyncRequest → Roles
  | .register r _ _ => ⟨r.hostsGateway.getD old.gateway, r.hostsBridge.getD old.bridge⟩
  | .heartbeat _ g b _ => ⟨g.getD old.gateway, b.getD old.bridge⟩
  | .infraReport r => ⟨r.hostsGateway, r.hostsBridge⟩
  | _ => old

/-- The accruals of a node in a sequence of requests, each with the milliseconds it comes at. -/
def accruals (cfg : Config) (id : NodeId) : Roles → List (SyncRequest × ℕ) → List (ℕ × Roles)
  | _, [] => []
  | roles, (q, ms) :: rest =>
    if q.accrues cfg id then
      (ms / 1000, q.rolesAfter roles) :: accruals cfg id (q.rolesAfter roles) rest
    else accruals cfg id roles rest

/-- The database with one row written, as `storeNode` saves it. -/
def DB.putNode (db : DB) (id : NodeId) (n : NodeRow) : DB := { db with nodes := db.nodes.insert id n }

/-- Serve one request: load, handle, and save unless it is refused. -/
def serve (cfg : Config) (disk : DB) (q : SyncRequest × ℕ) : DB :=
  match q.1.apply cfg q.2 (loadDB disk) with
  | .ok ⟨some db, _⟩ => db
  | _ => disk

/-! ### One row -/

/-- What an accrual at a second leaves of a row. -/
structure Accrued (cfg : Config) (n n' : NodeRow) (now : ℕ) (roles : Roles) : Prop where
  rewards : n'.uptimeRewards = n.uptimeRewards + gapPay cfg n.lastUptimeAt now n.roles
  clock : n'.lastUptimeAt = now
  roles : n'.roles = roles

structure Untouched (n n' : NodeRow) : Prop where
  rewards : n'.uptimeRewards = n.uptimeRewards
  clock : n'.lastUptimeAt = n.lastUptimeAt
  roles : n'.roles = n.roles

theorem Untouched.refl (n : NodeRow) : Untouched n n := ⟨rfl, rfl, rfl⟩

section
variable {cfg : Config} {n n' : NodeRow} {now : ℕ}

theorem uptimeCredit_eq : uptimeCredit cfg n now = gapPay cfg n.lastUptimeAt now n.roles := by
  have hbridge : ((n.hostsBridge == some true) = true) ↔ n.hostsBridge = some true := beq_iff_eq
  unfold uptimeCredit gapPay Roles.hourly NodeRow.roles
  by_cases hlast : n.lastUptimeAt = 0
  · simp only [hlast, if_true, Nat.sub_self, Nat.zero_min, Nat.cast_zero, zero_mul, ite_self, add_zero]
  · simp only [hlast, if_false, hbridge]
    split_ifs <;> ring

theorem accrueUptime_accrued : Accrued cfg n (accrueUptime cfg n now) now n.roles := by
  unfold accrueUptime
  by_cases hcredit : 0 < uptimeCredit cfg n now
  · rw [if_pos hcredit]
    refine ⟨?_, rfl, rfl⟩
    rw [← uptimeCredit_eq]
  · rw [if_neg hcredit]
    refine ⟨?_, rfl, rfl⟩
    have hzero : uptimeCredit cfg n now = 0 :=
      le_antisymm (not_lt.mp hcredit) (uptimeCredit_nonneg n now)
    rw [← uptimeCredit_eq, hzero, add_zero]

theorem accrueUptime_hostsBridge : (accrueUptime cfg n now).hostsBridge = n.hostsBridge := by
  unfold accrueUptime
  dsimp only
  split_ifs
  · rfl
  · rfl

theorem accrueUptime_hostsHub : (accrueUptime cfg n now).hostsHub = n.hostsHub := by
  unfold accrueUptime
  dsimp only
  split_ifs
  · rfl
  · rfl

theorem accrueUptime_hostsGateway : (accrueUptime cfg n now).hostsGateway = n.hostsGateway := by
  unfold accrueUptime
  dsimp only
  split_ifs
  · rfl
  · rfl

theorem roles_getD (g b : Option Bool) : (⟨g.getD n.hostsGateway, b.or n.hostsBridge == some true⟩ : Roles) =
    ⟨g.getD n.roles.gateway, b.getD n.roles.bridge⟩ := by
  cases b with
  | none => rfl
  | some b => cases b <;> rfl

/-- A change that the next load leaves alone: the retired role flag is as it was, and the new one
is not unset. -/
structure SettledRow (n n' : NodeRow) : Prop where
  hub : n'.hostsHub = n.hostsHub
  bridge : n'.hostsBridge = none → n.hostsBridge = none

theorem roles_migrate (hn : n.migrate = n) (h : SettledRow n n') : n'.migrate.roles = n'.roles := by
  have hkept : n'.migrate.hostsBridge = n'.hostsBridge := by
    show (if n'.hostsHub.isSome ∧ n'.hostsBridge.isNone then n'.hostsHub else n'.hostsBridge) = _
    by_cases hold : n'.hostsHub.isSome ∧ n'.hostsBridge.isNone
    · have hnone := h.bridge (Option.isNone_iff_eq_none.mp hold.2)
      have hbridge : n.migrate.hostsBridge = n.hostsHub := by
        refine if_pos ⟨?_, by rw [hnone]; rfl⟩
        rw [← h.hub]
        exact hold.1
      rw [hn, hnone] at hbridge
      rw [h.hub, ← hbridge] at hold
      exact absurd hold.1 Bool.false_ne_true
    · rw [if_neg hold]
  unfold NodeRow.roles
  rw [hkept]
  rfl

theorem registeredRow_trusted (r : RegisterRequest) :
    Accrued cfg n (registeredRow cfg r true now (some n)) now
        ⟨r.hostsGateway.getD n.roles.gateway, r.hostsBridge.getD n.roles.bridge⟩ ∧
      SettledRow n (registeredRow cfg r true now (some n)) := by
  let named : NodeRow := { n with
    owner := r.owner
    os := some (normOs (r.os.or n.os))
    deviceKind := orStr (orStr r.deviceKind n.deviceKind) (some "unknown")
    accelerator := some (normAccel (r.accelerator.or n.accelerator))
    label := orStr (orStr r.label n.label) (some r.nodeId)
    perfScore := r.perfScore.or n.perfScore
    backend := r.backend.or n.backend
    mode := r.mode.or n.mode }
  have haccrued : Accrued cfg named (accrueUptime cfg named now) now named.roles := accrueUptime_accrued
  have hgateway : (accrueUptime cfg named now).hostsGateway = n.hostsGateway :=
    accrueUptime_hostsGateway
  have hbridge : (accrueUptime cfg named now).hostsBridge = n.hostsBridge := accrueUptime_hostsBridge
  have hhub : (accrueUptime cfg named now).hostsHub = n.hostsHub := accrueUptime_hostsHub
  refine ⟨⟨haccrued.rewards, haccrued.clock, ?_⟩, hhub, ?_⟩
  · rw [← roles_getD, ← hgateway, ← hbridge]
    rfl
  · intro hnone
    have hor : r.hostsBridge.or (accrueUptime cfg named now).hostsBridge = none := hnone
    rw [hbridge] at hor
    exact (Option.or_eq_none_iff.mp hor).2

theorem registeredRow_untrusted (r : RegisterRequest) :
    Untouched n (registeredRow cfg r false now (some n)) ∧
      SettledRow n (registeredRow cfg r false now (some n)) :=
  ⟨⟨rfl, rfl, rfl⟩, rfl, fun h => h⟩

theorem heartbeatRow_trusted (g b : Option Bool) :
    Accrued cfg n (heartbeatRow cfg g b true now n) now
        ⟨g.getD n.roles.gateway, b.getD n.roles.bridge⟩ ∧
      SettledRow n (heartbeatRow cfg g b true now n) := by
  have haccrued : Accrued cfg n (accrueUptime cfg n now) now n.roles := accrueUptime_accrued
  have hgateway : (accrueUptime cfg n now).hostsGateway = n.hostsGateway := accrueUptime_hostsGateway
  have hbridge : (accrueUptime cfg n now).hostsBridge = n.hostsBridge := accrueUptime_hostsBridge
  refine ⟨⟨haccrued.rewards, haccrued.clock, ?_⟩, accrueUptime_hostsHub, ?_⟩
  · rw [← roles_getD, ← hgateway, ← hbridge]
    rfl
  · intro hnone
    have hor : b.or (accrueUptime cfg n now).hostsBridge = none := hnone
    rw [hbridge] at hor
    exact (Option.or_eq_none_iff.mp hor).2

theorem heartbeatRow_untrusted (g b : Option Bool) :
    Untouched n (heartbeatRow cfg g b false now n) ∧ SettledRow n (heartbeatRow cfg g b false now n) :=
  ⟨⟨rfl, rfl, rfl⟩, rfl, fun h => h⟩

theorem creditContribution_untouched (raw : ℚ) :
    Untouched n (creditContribution cfg n raw now) ∧
      SettledRow n (creditContribution cfg n raw now) := by
  unfold creditContribution
  by_cases hraw : raw ≤ 0
  · rw [if_pos hraw]
    exact ⟨Untouched.refl n, rfl, fun h => h⟩
  · rw [if_neg hraw]
    exact ⟨⟨rfl, rfl, rfl⟩, rfl, fun h => h⟩

theorem contributionRow_accrued (units : ℚ) :
    Accrued cfg n (contributionRow cfg units now n) now n.roles ∧
      SettledRow n (contributionRow cfg units now n) := by
  have haccrued : Accrued cfg n (accrueUptime cfg n now) now n.roles := accrueUptime_accrued
  have hcredit : Untouched (accrueUptime cfg n now) (contributionRow cfg units now n) ∧
      SettledRow (accrueUptime cfg n now) (contributionRow cfg units now n) :=
    creditContribution_untouched units
  obtain ⟨hsame, hsettled⟩ := hcredit
  refine ⟨⟨hsame.rewards.trans haccrued.rewards, hsame.clock.trans haccrued.clock,
    hsame.roles.trans haccrued.roles⟩, hsettled.hub.trans accrueUptime_hostsHub, ?_⟩
  intro hnone
  rw [← accrueUptime_hostsBridge]
  exact hsettled.bridge hnone

theorem infraRow_accrued (r : InfraReport) :
    Accrued cfg n (infraRow cfg r now (some n)) now ⟨r.hostsGateway, r.hostsBridge⟩ ∧
      SettledRow n (infraRow cfg r now (some n)) := by
  let named : NodeRow := { n with
    owner := r.owner
    deviceKind := some r.deviceKind
    label := some r.label
    os := orStr n.os (some cfg.hostOs)
    accelerator := orStr n.accelerator (some "cpu") }
  have haccrued : Accrued cfg named (accrueUptime cfg named now) now named.roles := accrueUptime_accrued
  have hhub : (accrueUptime cfg named now).hostsHub = n.hostsHub := accrueUptime_hostsHub
  refine ⟨⟨haccrued.rewards, haccrued.clock, ?_⟩, hhub, ?_⟩
  · cases hb : r.hostsBridge with
    | true => simp [NodeRow.roles, infraRow, NodeRow.graded, hb]
    | false => simp [NodeRow.roles, infraRow, NodeRow.graded, hb]
  · intro hnone
    cases hnone

theorem created_rows (r : RegisterRequest) (trusted : Bool) (i : InfraReport) :
    ((registeredRow cfg r trusted now none).uptimeRewards = 0 ∧
        (registeredRow cfg r trusted now none).lastUptimeAt = now) ∧
      (infraRow cfg i now none).uptimeRewards = 0 ∧ (infraRow cfg i now none).lastUptimeAt = now := by
  have hgap : ∀ roles, gapPay cfg now now roles = 0 := by
    intro roles
    unfold gapPay
    simp only [Nat.sub_self, Nat.zero_min, Nat.cast_zero, zero_mul, zero_div, ite_self]
  have hstart : ∀ {n' : NodeRow} {owner roles}, Accrued cfg (newNode owner now) n' now roles →
      n'.uptimeRewards = 0 ∧ n'.lastUptimeAt = now := by
    intro n' owner roles h
    refine ⟨?_, h.clock⟩
    rw [h.rewards, show (newNode owner now).lastUptimeAt = now from rfl, hgap, add_zero]
    rfl
  refine ⟨?_, hstart (infraRow_accrued i).1⟩
  cases trusted with
  | true => exact hstart (registeredRow_trusted r).1
  | false => exact ⟨rfl, rfl⟩

/-! ### One request -/

variable {disk : DB} {id : NodeId} {q : SyncRequest} {ms : ℕ}

theorem loaded_row (hrow : (loadDB disk).nodes.lookup id = some n) (id' : NodeId) :
    (loadDB ((loadDB disk).putNode id' n')).nodes.lookup id =
      some (if id' = id then n'.migrate else n) := by
  obtain ⟨hrows, hpair⟩ := loadDB_upgraded disk
  have hstay : ∀ b, renamedHub id = some b →
      (((loadDB disk).nodes.insert id' n').lookup b).isSome = true := by
    intro b hb
    by_cases hbid : b = id'
    · subst hbid
      rw [AList.lookup_insert]
      rfl
    · rw [AList.lookup_insert_ne hbid]
      cases hfree : (loadDB disk).nodes.lookup b with
      | none =>
        have hnone := hpair id b hb hfree
        rw [hrow] at hnone
        cases hnone
      | some m => rfl
  by_cases hid : id' = id
  · subst hid
    have hnew : ((loadDB disk).nodes.insert id' n').lookup id' = some n' := AList.lookup_insert _
    rw [lookup_loadDB_stay hnew hstay, if_pos rfl]
  · have hold : ((loadDB disk).nodes.insert id' n').lookup id = some n := by
      rw [AList.lookup_insert_ne (Ne.symm hid), hrow]
    rw [lookup_loadDB_stay hold hstay, if_neg hid, hrows id n hrow]

/-- What the request makes of the uptime account of a stored node. -/
def Accounts (cfg : Config) (id : NodeId) (q : SyncRequest) (now : ℕ) (n n' : NodeRow) : Prop :=
  if q.accrues cfg id then Accrued cfg n n' now (q.rolesAfter n.roles) else Untouched n n'

theorem accounts_self (h : q.accrues cfg id = false) : Accounts cfg id q now n n := by
  unfold Accounts
  rw [if_neg (Bool.eq_false_iff.mp h)]
  exact Untouched.refl n

theorem accounts_accrued (h : q.accrues cfg id = true)
    (haccrued : Accrued cfg n n' now (q.rolesAfter n.roles)) : Accounts cfg id q now n n' := by
  unfold Accounts
  rw [if_pos h]
  exact haccrued

theorem accounts_migrate (hn : n.migrate = n) (hsettled : SettledRow n n')
    (h : Accounts cfg id q now n n') : Accounts cfg id q now n n'.migrate := by
  have hroles := roles_migrate hn hsettled
  unfold Accounts at h ⊢
  split_ifs at h ⊢
  · exact ⟨h.rewards, h.clock, hroles.trans h.roles⟩
  · exact ⟨h.rewards, h.clock, hroles.trans h.roles⟩

theorem stored_accounts (hrow : (loadDB disk).nodes.lookup id = some n) {id' : NodeId} {m : NodeRow}
    (hother : id' ≠ id → q.accrues cfg id = false)
    (hsame : id' = id → SettledRow n m ∧ Accounts cfg id q now n m) :
    ∃ n', (loadDB ((loadDB disk).putNode id' m)).nodes.lookup id =
      some n' ∧ Accounts cfg id q now n n' := by
  refine ⟨_, loaded_row hrow id', ?_⟩
  by_cases hid : id' = id
  · rw [if_pos hid]
    obtain ⟨hsettled, haccounts⟩ := hsame hid
    exact accounts_migrate ((loadDB_upgraded disk).1 id n hrow) hsettled haccounts
  · rw [if_neg hid]
    exact accounts_self (hother hid)

theorem refused_accounts (hrow : (loadDB disk).nodes.lookup id = some n)
    (hserve : serve cfg disk (q, ms) = disk) (h : q.accrues cfg id = false) :
    ∃ n', (loadDB (serve cfg disk (q, ms))).nodes.lookup id = some n' ∧
      Accounts cfg id q now n n' := by
  rw [hserve]
  exact ⟨n, hrow, accounts_self h⟩

theorem registerRow_ok {r : RegisterRequest} {trusted : Bool} {balance : ℚ}
    {existing : Option NodeRow} (h : registerRow cfg r trusted balance now existing = .ok n') :
    (r.nodeId ≠ "" ∧ r.owner ≠ "" ∧ ¬ (0 < cfg.minOperatorKvr ∧ balance < cfg.minOperatorKvr)) ∧
      n' = registeredRow cfg r trusted now existing := by
  unfold registerRow at h
  split_ifs at h with hempty hbalance hheld
  rw [not_or] at hempty
  exact ⟨⟨hempty.1, hempty.2, hbalance⟩, (Except.ok.inj h).symm⟩

theorem registerRow_trusted {r : RegisterRequest} {balance : ℚ} {existing : Option NodeRow}
    (hid : r.nodeId ≠ "") (howner : r.owner ≠ "")
    (hbalance : ¬ (0 < cfg.minOperatorKvr ∧ balance < cfg.minOperatorKvr)) :
    registerRow cfg r true balance now existing = .ok (registeredRow cfg r true now existing) := by
  have hheld : (existing.any fun e => e.owner != "" && e.owner != r.owner && !true && e.holdsValue) =
      false := by
    cases existing with
    | none => rfl
    | some e => simp
  unfold registerRow
  rw [if_neg (not_or.mpr ⟨hid, howner⟩), if_neg hbalance, hheld]
  rfl

theorem accrues_register (r : RegisterRequest) (trusted : Bool) (balance : ℚ) :
    (SyncRequest.register r trusted balance).accrues cfg id = true ↔
      trusted = true ∧ r.nodeId = id ∧ r.nodeId ≠ "" ∧ r.owner ≠ "" ∧
        ¬ (0 < cfg.minOperatorKvr ∧ balance < cfg.minOperatorKvr) := by
  simp only [SyncRequest.accrues, Bool.and_eq_true, beq_iff_eq, bne_iff_ne, Bool.not_eq_true',
    decide_eq_false_iff_not, and_assoc]

theorem accrues_named (nodeId : NodeId) (trusted : Bool) :
    (trusted && nodeId == id && nodeId != "") = true ↔ trusted = true ∧ nodeId = id ∧ nodeId ≠ "" := by
  simp only [Bool.and_eq_true, beq_iff_eq, bne_iff_ne, and_assoc]

theorem accrues_infra (r : InfraReport) :
    (SyncRequest.infraReport r).accrues cfg id = true ↔ r.nodeId = id ∧ r.owner ≠ "" := by
  simp only [SyncRequest.accrues, Bool.and_eq_true, beq_iff_eq, bne_iff_ne]

theorem serve_register {r : RegisterRequest} {trusted : Bool} {balance : ℚ}
    (hrow : (loadDB disk).nodes.lookup id = some n) :
    ∃ n', (loadDB (serve cfg disk (.register r trusted balance, ms))).nodes.lookup id = some n' ∧
      Accounts cfg id (.register r trusted balance) (ms / 1000) n n' := by
  cases hpassed : registerRow cfg r trusted balance (ms / 1000) ((loadDB disk).nodes.lookup r.nodeId) with
  | error e =>
    have hserve : serve cfg disk (.register r trusted balance, ms) = disk := by
      unfold serve SyncRequest.apply
      simp only [hpassed]
    apply refused_accounts hrow hserve
    rw [Bool.eq_false_iff]
    intro h
    obtain ⟨rfl, -, hid, howner, hbalance⟩ := (accrues_register r trusted balance).mp h
    rw [registerRow_trusted hid howner hbalance] at hpassed
    cases hpassed
  | ok m =>
    have hserve : serve cfg disk (.register r trusted balance, ms) =
        (loadDB disk).putNode r.nodeId m := by
      unfold serve SyncRequest.apply
      simp only [hpassed]
      rfl
    obtain ⟨hadmitted, rfl⟩ := registerRow_ok hpassed
    rw [hserve]
    apply stored_accounts hrow
    · intro hid
      rw [Bool.eq_false_iff]
      exact fun h => hid ((accrues_register r trusted balance).mp h).2.1
    · intro hid
      rw [hid, hrow]
      cases trusted with
      | true =>
        obtain ⟨haccrued, hsettled⟩ := @registeredRow_trusted cfg n (ms / 1000) r
        have haccrues : (SyncRequest.register r true balance).accrues cfg id = true :=
          (accrues_register r true balance).mpr ⟨rfl, hid, hadmitted⟩
        exact ⟨hsettled, accounts_accrued haccrues haccrued⟩
      | false =>
        obtain ⟨hsame, hsettled⟩ := @registeredRow_untrusted cfg n (ms / 1000) r
        exact ⟨hsettled, hsame⟩

theorem serve_heartbeat {nodeId : NodeId} {g b : Option Bool} {trusted : Bool}
    (hrow : (loadDB disk).nodes.lookup id = some n) :
    ∃ n', (loadDB (serve cfg disk (.heartbeat nodeId g b trusted, ms))).nodes.lookup id = some n' ∧
      Accounts cfg id (.heartbeat nodeId g b trusted) (ms / 1000) n n' := by
  have hrefused : (nodeId = "" ∨ nodeId ≠ id) →
      (SyncRequest.heartbeat nodeId g b trusted).accrues cfg id = false := by
    intro hcase
    rw [Bool.eq_false_iff]
    intro h
    obtain ⟨-, hid, hempty⟩ := (accrues_named nodeId trusted).mp h
    rcases hcase with he | hne
    · exact hempty he
    · exact hne hid
  by_cases hempty : nodeId = ""
  · have hserve : serve cfg disk (.heartbeat nodeId g b trusted, ms) = disk := by
      unfold serve SyncRequest.apply
      simp only [if_pos hempty]
    exact refused_accounts hrow hserve (hrefused (Or.inl hempty))
  · cases hnode : (loadDB disk).nodes.lookup nodeId with
    | none =>
      have hserve : serve cfg disk (.heartbeat nodeId g b trusted, ms) = disk := by
        unfold serve SyncRequest.apply
        simp only [if_neg hempty, hnode]
      apply refused_accounts hrow hserve
      apply hrefused
      right
      rintro rfl
      rw [hrow] at hnode
      cases hnode
    | some m =>
      have hserve : serve cfg disk (.heartbeat nodeId g b trusted, ms) =
          (loadDB disk).putNode nodeId (heartbeatRow cfg g b trusted (ms / 1000) m) := by
        unfold serve SyncRequest.apply
        simp only [if_neg hempty, hnode]
        rfl
      rw [hserve]
      apply stored_accounts hrow
      · exact fun hid => hrefused (Or.inr hid)
      · intro hid
        have hm : m = n := by
          rw [hid, hrow] at hnode
          exact (Option.some.inj hnode).symm
        subst hm
        cases trusted with
        | true =>
          obtain ⟨haccrued, hsettled⟩ := @heartbeatRow_trusted cfg m (ms / 1000) g b
          exact ⟨hsettled, accounts_accrued ((accrues_named nodeId true).mpr ⟨rfl, hid, hempty⟩) haccrued⟩
        | false =>
          obtain ⟨hsame, hsettled⟩ := @heartbeatRow_untrusted cfg m (ms / 1000) g b
          exact ⟨hsettled, hsame⟩

theorem serve_contribution {nodeId : NodeId} {units : ℚ} {trusted : Bool}
    (hrow : (loadDB disk).nodes.lookup id = some n) :
    ∃ n', (loadDB (serve cfg disk (.contribution nodeId units trusted, ms))).nodes.lookup id = some n' ∧
      Accounts cfg id (.contribution nodeId units trusted) (ms / 1000) n n' := by
  have hrefused : (trusted = false ∨ nodeId = "" ∨ nodeId ≠ id) →
      (SyncRequest.contribution nodeId units trusted).accrues cfg id = false := by
    intro hcase
    rw [Bool.eq_false_iff]
    intro h
    obtain ⟨htrusted, hid, hempty⟩ := (accrues_named nodeId trusted).mp h
    rcases hcase with hf | he | hne
    · rw [hf] at htrusted
      cases htrusted
    · exact hempty he
    · exact hne hid
  cases trusted with
  | false => exact refused_accounts hrow rfl (hrefused (Or.inl rfl))
  | true =>
    by_cases hempty : nodeId = ""
    · have hserve : serve cfg disk (.contribution nodeId units true, ms) = disk := by
        unfold serve SyncRequest.apply
        simp only [if_pos hempty]
        rfl
      exact refused_accounts hrow hserve (hrefused (Or.inr (Or.inl hempty)))
    · cases hnode : (loadDB disk).nodes.lookup nodeId with
      | none =>
        have hserve : serve cfg disk (.contribution nodeId units true, ms) = disk := by
          unfold serve SyncRequest.apply
          simp only [if_neg hempty, hnode]
          rfl
        apply refused_accounts hrow hserve
        apply hrefused
        right
        right
        rintro rfl
        rw [hrow] at hnode
        cases hnode
      | some m =>
        have hserve : serve cfg disk (.contribution nodeId units true, ms) =
            (loadDB disk).putNode nodeId (contributionRow cfg units (ms / 1000) m) := by
          unfold serve SyncRequest.apply
          simp only [if_neg hempty, hnode]
          rfl
        rw [hserve]
        apply stored_accounts hrow
        · exact fun hid => hrefused (Or.inr (Or.inr hid))
        · intro hid
          have hm : m = n := by
            rw [hid, hrow] at hnode
            exact (Option.some.inj hnode).symm
          subst hm
          obtain ⟨haccrued, hsettled⟩ := @contributionRow_accrued cfg m (ms / 1000) units
          exact ⟨hsettled, accounts_accrued ((accrues_named nodeId true).mpr ⟨rfl, hid, hempty⟩) haccrued⟩

theorem serve_infraReport {r : InfraReport} (hrow : (loadDB disk).nodes.lookup id = some n) :
    ∃ n', (loadDB (serve cfg disk (.infraReport r, ms))).nodes.lookup id = some n' ∧
      Accounts cfg id (.infraReport r) (ms / 1000) n n' := by
  by_cases howner : r.owner = ""
  · have hserve : serve cfg disk (.infraReport r, ms) = disk := by
      unfold serve SyncRequest.apply
      simp only [if_pos howner]
      rfl
    apply refused_accounts hrow hserve
    rw [Bool.eq_false_iff]
    exact fun h => ((accrues_infra r).mp h).2 howner
  · have hserve : serve cfg disk (.infraReport r, ms) =
        (loadDB disk).putNode r.nodeId
          (infraRow cfg r (ms / 1000) ((loadDB disk).nodes.lookup r.nodeId)) := by
      unfold serve SyncRequest.apply
      simp only [if_neg howner]
      rfl
    rw [hserve]
    apply stored_accounts hrow
    · intro hid
      rw [Bool.eq_false_iff]
      exact fun h => hid ((accrues_infra r).mp h).1
    · intro hid
      rw [hid, hrow]
      obtain ⟨haccrued, hsettled⟩ := @infraRow_accrued cfg n (ms / 1000) r
      exact ⟨hsettled, accounts_accrued ((accrues_infra r).mpr ⟨hid, howner⟩) haccrued⟩

theorem serve_accounts (hq : q.isReport = true) (hrow : (loadDB disk).nodes.lookup id = some n) :
    ∃ n', (loadDB (serve cfg disk (q, ms))).nodes.lookup id = some n' ∧
      Accounts cfg id q (ms / 1000) n n' := by
  cases q with
  | register r trusted balance => exact serve_register hrow
  | heartbeat nodeId g b trusted => exact serve_heartbeat hrow
  | contribution nodeId units trusted => exact serve_contribution hrow
  | infraReport r => exact serve_infraReport hrow
  | viewPosition | removeNode | inferenceReport | pricingSync | pricingPush | sweep | quote
  | twoFactorLogin | twoFactorEnroll | twoFactorConfirm | twoFactorDisable | adminPricing | relayPut
  | relayRemove | creditRegister | apiKeyMint | apiKeyRevoke | creditGrant | whitelistAdd
  | whitelistRemove | adminRemoveNode => cases hq

theorem serve_all {requests : List (SyncRequest × ℕ)} (hreports : ∀ q ∈ requests, q.1.isReport = true)
    (hrow : (loadDB disk).nodes.lookup id = some n) :
    ∃ n', (loadDB (requests.foldl (serve cfg) disk)).nodes.lookup id = some n' ∧
      n'.uptimeRewards = n.uptimeRewards +
        paidGaps cfg ((n.lastUptimeAt, n.roles) :: accruals cfg id n.roles requests) := by
  induction requests generalizing disk n with
  | nil => exact ⟨n, hrow, (add_zero _).symm⟩
  | cons q requests ih =>
    obtain ⟨q, ms⟩ := q
    obtain ⟨m, hm, haccounts⟩ := serve_accounts (hreports (q, ms) List.mem_cons_self) hrow
    obtain ⟨n', hn', hsum⟩ := ih (fun r hr => hreports r (List.mem_cons_of_mem _ hr)) hm
    refine ⟨n', hn', ?_⟩
    unfold Accounts at haccounts
    rw [hsum, accruals]
    split_ifs at haccounts ⊢ with haccrues
    · rw [haccounts.rewards, haccounts.clock, haccounts.roles, paidGaps, add_assoc]
    · rw [haccounts.rewards, haccounts.clock, haccounts.roles]

end

/-- The reporter of a request is trusted; the gateway's own reports are. -/
def SyncRequest.trusted : SyncRequest → Bool
  | .register _ trusted _ | .heartbeat _ _ _ trusted | .contribution _ _ trusted => trusted
  | _ => true

theorem not_accrues_of_untrusted {cfg : Config} {id : NodeId} {q : SyncRequest}
    (h : q.trusted = false) : q.accrues cfg id = false := by
  cases q with
  | register r trusted balance =>
    obtain rfl : trusted = false := h
    rfl
  | heartbeat nodeId g b trusted =>
    obtain rfl : trusted = false := h
    rfl
  | contribution nodeId units trusted =>
    obtain rfl : trusted = false := h
    rfl
  | infraReport r => cases h
  | viewPosition | removeNode | inferenceReport | pricingSync | pricingPush | sweep | quote
  | twoFactorLogin | twoFactorEnroll | twoFactorConfirm | twoFactorDisable | adminPricing | relayPut
  | relayRemove | creditRegister | apiKeyMint | apiKeyRevoke | creditGrant | whitelistAdd
  | whitelistRemove | adminRemoveNode => rfl

/-- Whatever reports come, a stored node is paid for the gaps between those that accrue, at the rates
of the roles stored in each; a report of a reporter that is not trusted changes nothing of this,
and the report that creates a row pays nothing. -/
theorem uptime_paid (cfg : Config) (id : NodeId) (disk : DB) (n : NodeRow)
    (hrow : (loadDB disk).nodes.lookup id = some n) :
    (∀ requests : List (SyncRequest × ℕ), (∀ q ∈ requests, q.1.isReport = true) →
      ∃ n', (loadDB (requests.foldl (serve cfg) disk)).nodes.lookup id = some n' ∧
        n'.uptimeRewards = n.uptimeRewards +
          paidGaps cfg ((n.lastUptimeAt, n.roles) :: accruals cfg id n.roles requests)) ∧
    (∀ q ms, q.isReport = true → q.trusted = false →
      ∃ n', (loadDB (serve cfg disk (q, ms))).nodes.lookup id = some n' ∧ Untouched n n') ∧
    ∀ r trusted i now, ((registeredRow cfg r trusted now none).uptimeRewards = 0 ∧
        (registeredRow cfg r trusted now none).lastUptimeAt = now) ∧
      (infraRow cfg i now none).uptimeRewards = 0 ∧ (infraRow cfg i now none).lastUptimeAt = now := by
  refine ⟨?_, ?_, ?_⟩
  · intro requests hreports
    exact serve_all hreports hrow
  · intro q ms hq huntrusted
    obtain ⟨n', hn', haccounts⟩ := @serve_accounts cfg n disk id q ms hq hrow
    unfold Accounts at haccounts
    rw [if_neg (Bool.eq_false_iff.mp (not_accrues_of_untrusted huntrusted))] at haccounts
    exact ⟨n', hn', haccounts⟩
  · intro r trusted i now
    exact created_rows r trusted i

/-- A stored bridge that accrued at second 1000. -/
def bridgeRow : NodeRow := { newNode "A" 1000 with hostsBridge := some true }

/-- A trusted heartbeat after 90 seconds, an untrusted one, and a trusted one after 600 more that
takes the role away: 90 seconds and the longest gap of 120 are paid. -/
theorem uptime_paid_gaps : ∃ n', (loadDB ([(.heartbeat "b" none none true, 1090000),
      (.heartbeat "b" none none false, 1400000),
      (.heartbeat "b" none (some false) true, 1690000)].foldl (serve defaultConfig)
        { DB.empty with nodes := AList.insert "b" bridgeRow ∅ })).nodes.lookup "b" = some n' ∧
      n'.uptimeRewards = (90 + 120) * 2 / 3600 := by
  have hload : (loadDB { DB.empty with nodes := AList.insert "b" bridgeRow ∅ }).nodes.lookup "b" =
      some bridgeRow := by
    decide +kernel
  obtain ⟨hall, -, -⟩ := uptime_paid defaultConfig "b" _ _ hload
  obtain ⟨n', hn', hsum⟩ := hall [(.heartbeat "b" none none true, 1090000),
    (.heartbeat "b" none none false, 1400000), (.heartbeat "b" none (some false) true, 1690000)]
    (by decide)
  refine ⟨n', hn', ?_⟩
  rw [hsum]
  decide +kernel

end KvasirNet.Gateway
