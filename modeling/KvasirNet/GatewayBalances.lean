import Mathlib.Algebra.Notation.Lemmas
import KvasirNet.GatewayMoves
import KvasirNet.GatewayMigration

/-! Balances of the ledger and sums over the money trail. No handler makes a
stake or a reward balance negative, in any interleaving. -/
namespace KvasirNet.Gateway

variable {cfg : Config} {chain : Chain}

/-- What an owner's position is worth: principal and accrued rewards. -/
def stakeWorth (db : DB) (o : Wallet) : ℚ :=
  (db.positions.lookup o).elim 0 fun p => p.principal + p.accruedRewards

def rewardsHeld (db : DB) (o : Wallet) : ℚ := ownerPending o db.nodes

/-- No position and no node row holds a negative amount. -/
structure DB.NonNeg (db : DB) : Prop where
  positions : ∀ o p, db.positions.lookup o = some p → 0 ≤ p.principal ∧ 0 ≤ p.accruedRewards
  nodes : ∀ id n, db.nodes.lookup id = some n → 0 ≤ n.pendingRewards

def tally {ε : Type*} (f : ε → ℚ) (log : List ε) : ℚ := (log.map f).sum

section Tally
variable {ε : Type*} (f : ε → ℚ)

@[simp]
theorem tally_nil : tally f [] = 0 := rfl

@[simp]
theorem tally_cons (e : ε) (log : List ε) : tally f (e :: log) = f e + tally f log := by
  simp [tally]

@[simp]
theorem tally_append (l log : List ε) : tally f (l ++ log) = tally f l + tally f log := by
  simp [tally]

end Tally

@[simp]
theorem accrue_principal (pos : Position) (nowMs : ℕ) :
    (accrue cfg pos nowMs).principal = pos.principal := rfl

theorem accrue_rewards_le (pos : Position) (nowMs : ℕ) (hp : 0 ≤ pos.principal) :
    pos.accruedRewards ≤ (accrue cfg pos nowMs).accruedRewards := by
  have hapr := cfg.apr_nonneg
  have hyear : (0 : ℚ) < secondsPerYear := by norm_num [secondsPerYear]
  simp only [accrue]
  exact le_add_of_nonneg_right (by positivity)

theorem uptimeCredit_nonneg (n : NodeRow) (now : ℕ) : 0 ≤ uptimeCredit cfg n now := by
  have hb := cfg.bridgeUptime_nonneg
  have hg := cfg.gatewayUptime_nonneg
  unfold uptimeCredit
  dsimp only
  exact add_nonneg (ite_nonneg (by positivity) le_rfl) (ite_nonneg (by positivity) le_rfl)

@[simp]
theorem accrueUptime_owner (n : NodeRow) (now : ℕ) : (accrueUptime cfg n now).owner = n.owner := by
  unfold accrueUptime
  dsimp only
  split_ifs <;> rfl

theorem accrueUptime_pending (n : NodeRow) (now : ℕ) :
    (accrueUptime cfg n now).pendingRewards = n.pendingRewards + uptimeCredit cfg n now := by
  unfold accrueUptime
  dsimp only
  split_ifs with hc
  · rfl
  · have h0 : uptimeCredit cfg n now = 0 :=
      le_antisymm (not_lt.mp hc) (uptimeCredit_nonneg n now)
    simp [h0]

theorem round6_nonneg {x : ℚ} (hx : 0 ≤ x) : 0 ≤ round6 x := by
  have hr : 0 ≤ round (x * (1000000 : ℕ)) := by
    rw [round_eq]
    exact Int.floor_nonneg.mpr (by positivity)
  unfold round6 roundTo
  positivity

@[simp]
theorem creditContribution_owner (n : NodeRow) (raw : ℚ) (now : ℕ) :
    (creditContribution cfg n raw now).owner = n.owner := by
  unfold creditContribution
  split_ifs <;> rfl

theorem creditContribution_pending_nonneg (n : NodeRow) (raw : ℚ) (now : ℕ)
    (hn : 0 ≤ n.pendingRewards) : 0 ≤ (creditContribution cfg n raw now).pendingRewards := by
  unfold creditContribution
  by_cases hraw : raw ≤ 0
  · rwa [if_pos hraw]
  · rw [if_neg hraw]
    have hm := tierFor_mult_nonneg n
    have hb : 0 ≤ if n.hostsGateway then cfg.gatewayBonus else 1 :=
      ite_nonneg cfg.gatewayBonus_nonneg zero_le_one
    have hr := cfg.rewardPerUnit_nonneg
    have hpos : 0 ≤ raw := (not_le.mp hraw).le
    exact round6_nonneg (by positivity)

theorem registerRow_pending_nonneg {r : RegisterRequest} {trusted : Bool} {balance : ℚ} {now : ℕ}
    {existing : Option NodeRow} {n : NodeRow} (hex : ∀ e, existing = some e → 0 ≤ e.pendingRewards)
    (h : registerRow cfg r trusted balance now existing = .ok n) : 0 ≤ n.pendingRewards := by
  have hbase : 0 ≤ (existing.getD (newNode r.owner now)).pendingRewards := by
    cases existing with
    | none => exact le_rfl
    | some e => exact hex e rfl
  unfold registerRow at h
  split_ifs at h
  cases h
  cases trusted with
  | false => exact hbase
  | true =>
    simp only [registeredRow, NodeRow.graded, ↓reduceIte, accrueUptime_pending]
    exact add_nonneg hbase (uptimeCredit_nonneg _ _)

theorem heartbeatRow_pending_nonneg (g b : Option Bool) (trusted : Bool) (now : ℕ) (n : NodeRow)
    (hn : 0 ≤ n.pendingRewards) : 0 ≤ (heartbeatRow cfg g b trusted now n).pendingRewards := by
  cases trusted with
  | false => exact hn
  | true =>
    simp only [heartbeatRow, ↓reduceIte, accrueUptime_pending]
    exact add_nonneg hn (uptimeCredit_nonneg _ _)

theorem contributionRow_pending_nonneg (units : ℚ) (now : ℕ) (n : NodeRow)
    (hn : 0 ≤ n.pendingRewards) : 0 ≤ (contributionRow cfg units now n).pendingRewards := by
  apply creditContribution_pending_nonneg
  rw [accrueUptime_pending]
  exact add_nonneg hn (uptimeCredit_nonneg _ _)

theorem infraRow_pending_nonneg (r : InfraReport) (now : ℕ) (existing : Option NodeRow)
    (hex : ∀ e, existing = some e → 0 ≤ e.pendingRewards) :
    0 ≤ (infraRow cfg r now existing).pendingRewards := by
  have hbase : 0 ≤ (existing.getD (newNode r.owner now)).pendingRewards := by
    cases existing with
    | none => exact le_rfl
    | some e => exact hex e rfl
  simp only [infraRow, NodeRow.graded, accrueUptime_pending]
  exact add_nonneg hbase (uptimeCredit_nonneg _ _)

theorem inferenceRow_pending_nonneg (r : InferenceReport) (now : ℕ) (existing : Option NodeRow)
    (hex : ∀ e, existing = some e → 0 ≤ e.pendingRewards) :
    0 ≤ (inferenceRow cfg r now existing).pendingRewards := by
  have hbase : 0 ≤ (existing.getD (newNode r.owner now)).pendingRewards := by
    cases existing with
    | none => exact le_rfl
    | some e => exact hex e rfl
  simp only [inferenceRow]
  split_ifs
  · exact creditContribution_pending_nonneg _ _ _ hbase
  · exact hbase

variable {db : DB}

theorem apply_nonNeg {r : SyncRequest} {now : ℕ} {d : DB} {out : Saved} (hd : d.NonNeg)
    (h : r.apply cfg now d = .ok out) (hdb : out.db = some db) : db.NonNeg := by
  have hinsert (id : NodeId) (n : NodeRow) (hn : 0 ≤ n.pendingRewards) :
      { d with nodes := d.nodes.insert id n }.NonNeg :=
    ⟨hd.positions, fun id' n' hn' => by
      by_cases hid : id' = id
      · subst hid
        rw [AList.lookup_insert] at hn'
        exact Option.some.inj hn' ▸ hn
      · rw [AList.lookup_insert_ne hid] at hn'
        exact hd.nodes id' n' hn'⟩
  have herase (id : NodeId) : { d with nodes := d.nodes.erase id }.NonNeg :=
    ⟨hd.positions, fun id' n' hn' => by
      by_cases hid : id' = id
      · subst hid
        rw [AList.lookup_erase] at hn'
        cases hn'
      · rw [AList.lookup_erase_ne hid] at hn'
        exact hd.nodes id' n' hn'⟩
  have hw := apply_writes h hdb
  generalize out.events = evs at hw
  cases hw with
  | viewPosition o pos row =>
    refine ⟨fun o' p hp => ?_, hd.nodes⟩
    by_cases ho : o' = o
    · subst ho
      rw [AList.lookup_insert] at hp
      obtain rfl := Option.some.inj hp
      have hpos := hd.positions o' pos row
      exact ⟨hpos.1, hpos.2.trans (accrue_rewards_le pos now hpos.1)⟩
    · rw [AList.lookup_insert_ne ho] at hp
      exact hd.positions o' p hp
  | register r trusted balance n row =>
    exact hinsert _ _ (registerRow_pending_nonneg (hd.nodes _) row)
  | heartbeat id g b trusted n row =>
    exact hinsert _ _ (heartbeatRow_pending_nonneg g b trusted _ n (hd.nodes id n row))
  | contribution id units n row =>
    exact hinsert _ _ (contributionRow_pending_nonneg units _ n (hd.nodes id n row))
  | infraReport r => exact hinsert _ _ (infraRow_pending_nonneg r _ _ (hd.nodes _))
  | inferenceReport r => exact hinsert _ _ (inferenceRow_pending_nonneg r _ _ (hd.nodes _))
  | removeNode id | adminRemoveNode id => exact herase id
  | pricingSync | pricingPush | sweep | quote | twoFactorLogin | twoFactorEnroll | twoFactorConfirm
  | twoFactorDisable | adminPricing | relayPut | relayRemove | creditRegister | apiKeyMint
  | apiKeyRevokeAll | apiKeyRevoke | creditGrant | whitelistAdd | whitelistRemove =>
    exact ⟨hd.positions, hd.nodes⟩

theorem Request.lockKey_of_staker {r : Request} {o : Wallet} (h : r.staker = some o) :
    r.lockKey = some o := by
  cases r <;> simp_all [Request.staker, Request.lockKey]

def unstakePaid (o : Wallet) : Event → ℚ
  | .unstaked o' p r _ => if o' = o then p + r else 0
  | _ => 0

def principalPut (o : Wallet) : Event → ℚ
  | .staked o' q _ _ => if o' = o then q else 0
  | _ => 0

def rewardsAccrued (o : Wallet) : Event → ℚ
  | .accrued o' x => if o' = o then x else 0
  | _ => 0

def claimPaid (o : Wallet) : Event → ℚ
  | .claimed o' x => if o' = o then x else 0
  | _ => 0

/-- What a report added to the pending rewards of the owner's nodes. -/
def rewardsCredited (o : Wallet) : Event → ℚ
  | .rewarded _ o' x => if o' = o then max 0 x else 0
  | _ => 0

/-- What is left of the owner's stake in a suspended task: its snapshot, less a
payout that has landed. -/
def Phase.stakeLeft (o : Wallet) : Phase → ℚ
  | .paying _ (.unstake _ pos (some (p, r))) true => pos.principal + pos.accruedRewards - (p + r)
  | ph => ph.snapshot.elim 0 fun db => stakeWorth db o

/-- What is left of the owner's rewards in a suspended task. -/
def Phase.rewardsLeft (o : Wallet) : Phase → ℚ
  | .paying _ (.claim _ _) true => 0
  | ph => ph.snapshot.elim 0 fun db => rewardsHeld db o

theorem stakeWorth_nonneg (h : db.NonNeg) (o : Wallet) : 0 ≤ stakeWorth db o := by
  unfold stakeWorth
  cases hp : db.positions.lookup o with
  | none => exact le_rfl
  | some p => exact add_nonneg (h.positions o p hp).1 (h.positions o p hp).2

theorem rewardsHeld_nonneg (h : db.NonNeg) (o : Wallet) : 0 ≤ rewardsHeld db o := by
  unfold rewardsHeld ownerPending
  apply Table.total_nonneg
  rintro ⟨id, n⟩ hn
  exact ite_nonneg (h.nodes id n ((Table.mem_entries_iff _ _ _).mp hn)) le_rfl

variable {pos : Position}

theorem unstakeQuote_some {amt : Amount} {p r : ℚ} (hp : 0 < pos.principal)
    (h : unstakeQuote pos amt = some (p, r)) :
    p ≤ pos.principal ∧ r = pos.accruedRewards * (p / pos.principal) := by
  unfold unstakeQuote at h
  split at h
  · rename_i q hq
    simp only [hp, ↓reduceIte, Option.some.injEq, Prod.mk.injEq] at h
    obtain ⟨rfl, rfl⟩ := h
    refine ⟨?_, rfl⟩
    cases amt with
    | falsy => exact (JsNumber.fin.inj hq).ge
    | truthy n =>
      cases n with
      | nan | negInf => cases hq
      | posInf => exact (JsNumber.fin.inj hq).ge
      | fin a => exact (JsNumber.fin.inj hq) ▸ min_le_right a pos.principal
  · cases h

theorem unstakeQuote_left {amt : Amount} {p r : ℚ} (hp : 0 < pos.principal)
    (ha : 0 ≤ pos.accruedRewards) (h : unstakeQuote pos amt = some (p, r)) :
    0 ≤ pos.principal - p ∧ 0 ≤ pos.accruedRewards - r := by
  obtain ⟨hle, rfl⟩ := unstakeQuote_some hp h
  have hfrac : p / pos.principal ≤ 1 := (div_le_one hp).mpr hle
  refine ⟨sub_nonneg.mpr hle, sub_nonneg.mpr ?_⟩
  exact mul_le_of_le_one_right ha hfrac

theorem stakeWorth_stakeDb (now : ℕ) (db : DB) (o : Wallet) (q : ℚ) (sig : Signature) :
    stakeWorth (stakeDb cfg now db o q sig) o =
      stakeWorth db o + q + accruedOver db o (stakeBase cfg now db o) := by
  simp only [stakeWorth, stakeDb, AList.lookup_insert, Option.elim_some, accruedOver, stakeBase]
  cases db.positions.lookup o with
  | none =>
    simp only [Option.getD_none, Option.elim_none, accrue_principal, emptyPosition]
    ring
  | some pos =>
    simp only [Option.getD_some, Option.elim_some, accrue_principal]
    ring

theorem stakeWorth_unstakeDb_le (db : DB) (o : Wallet) (pos : Position) (p r : ℚ)
    (hp : 0 ≤ pos.principal - p) (hr : 0 ≤ pos.accruedRewards - r) :
    stakeWorth (unstakeDb db o pos p r) o ≤ pos.principal + pos.accruedRewards - (p + r) := by
  simp only [stakeWorth, unstakeDb, unstakedPositions]
  split_ifs
  · simp only [AList.lookup_erase, Option.elim_none]
    linarith
  · simp only [AList.lookup_insert, Option.elim_some]
    linarith

theorem stakeWorth_unstakeDb_ne (db : DB) (o o' : Wallet) (ho : o' ≠ o) (pos : Position) (p r : ℚ) :
    stakeWorth (unstakeDb db o pos p r) o' = stakeWorth db o' := by
  simp only [stakeWorth, unstakeDb, unstakedPositions]
  split_ifs
  · rw [AList.lookup_erase_ne ho]
  · rw [AList.lookup_insert_ne ho]

theorem rewardsHeld_claimDb (db : DB) (o o' : Wallet) :
    rewardsHeld (claimDb db o) o' = if o' = o then 0 else rewardsHeld db o' := by
  simp only [rewardsHeld, ownerPending, claimDb, claimNodes, Table.total_mapRows]
  split_ifs with ho
  · subst ho
    rw [Table.total_congr _ (fun _ _ => 0)]
    · simp [Table.total]
    · intro _ n
      by_cases hn : n.owner = o' <;> simp [NodeRow.claimed, hn]
  · apply Table.total_congr
    intro _ n
    by_cases hn : n.owner = o
    · have hne : ¬ o = o' := fun h => ho h.symm
      simp [NodeRow.claimed, hn, hne]
    · simp [NodeRow.claimed, hn]

theorem stakeDb_nonNeg (h : db.NonNeg) (now : ℕ) (o : Wallet) {q : ℚ} (hq : 0 < q)
    (sig : Signature) : (stakeDb cfg now db o q sig).NonNeg := by
  have hbase : 0 ≤ ((db.positions.lookup o).getD (emptyPosition now)).principal ∧
      0 ≤ ((db.positions.lookup o).getD (emptyPosition now)).accruedRewards := by
    cases hp : db.positions.lookup o with
    | none => exact ⟨le_rfl, le_rfl⟩
    | some p => exact h.positions o p hp
  refine ⟨fun o' p hp => ?_, h.nodes⟩
  simp only [stakeDb] at hp
  by_cases ho : o' = o
  · subst ho
    rw [AList.lookup_insert] at hp
    obtain rfl := Option.some.inj hp
    exact ⟨add_nonneg hbase.1 hq.le, hbase.2.trans (accrue_rewards_le _ _ hbase.1)⟩
  · rw [AList.lookup_insert_ne ho] at hp
    exact h.positions o' p hp

theorem unstakeDb_nonNeg (h : db.NonNeg) (o : Wallet) {p r : ℚ}
    (hp : 0 ≤ pos.principal - p) (hr : 0 ≤ pos.accruedRewards - r) :
    (unstakeDb db o pos p r).NonNeg := by
  refine ⟨fun o' x hx => ?_, h.nodes⟩
  simp only [unstakeDb, unstakedPositions] at hx
  by_cases ho : o' = o
  · subst ho
    split_ifs at hx
    · -- dust was deleted with its position
      rw [AList.lookup_erase] at hx
      cases hx
    · rw [AList.lookup_insert] at hx
      obtain rfl := Option.some.inj hx
      exact ⟨hp, hr⟩
  · refine h.positions o' x ?_
    split_ifs at hx
    · rwa [AList.lookup_erase_ne ho] at hx
    · rwa [AList.lookup_insert_ne ho] at hx

theorem claimDb_nonNeg (h : db.NonNeg) (o : Wallet) : (claimDb db o).NonNeg := by
  refine ⟨h.positions, fun id n hn => ?_⟩
  simp only [claimDb, claimNodes, Table.lookup_mapRows, Option.map_eq_some_iff] at hn
  obtain ⟨n, hrow, rfl⟩ := hn
  unfold NodeRow.claimed
  split_ifs
  · exact le_rfl
  · exact h.nodes id n hrow

theorem commits_nonNeg {r : Request} {ph : Phase} {base : DB} {evs : List Event}
    (h : base.NonNeg) (hs : ph.snapshot = some base) (hc : Commits cfg chain r ph db evs) :
    db.NonNeg := by
  cases hc with
  | stake o q sig db now pos unused moved =>
    cases hs
    exact stakeDb_nonNeg h now o pos sig
  | unstake o amt db pos now p r row active out =>
    cases hs
    have hrow := h.positions o pos row
    have hacc : 0 ≤ (accrue cfg pos now).accruedRewards :=
      hrow.2.trans (accrue_rewards_le pos now hrow.1)
    have hact : 0 < (accrue cfg pos now).principal := active
    obtain ⟨hp, hr⟩ := unstakeQuote_left hact hacc out
    exact unstakeDb_nonNeg h o hp hr
  | claim o db =>
    cases hs
    exact claimDb_nonNeg h o
  | deposit | answered | faucet | refund =>
    cases hs
    exact ⟨h.positions, h.nodes⟩
  | failed rid sig ph db r usedAt error row unused phase =>
    rcases phase with rfl | rfl
    all_goals
      cases hs
      exact ⟨h.positions, h.nodes⟩

theorem loadDB_nonNeg (h : db.NonNeg) : (loadDB db).NonNeg :=
  ⟨h.positions, loadDB_rows (Q := fun n => 0 ≤ n.pendingRewards) (fun _ hn => hn) h.nodes⟩

theorem step_nonNeg {s s' : State} {a : Action}
    (hc : ∀ t ∈ s.tasks, Coherent cfg t.request t.phase) (hs : s.Every DB.NonNeg)
    (h : step cfg chain s a = some s') : s'.Every DB.NonNeg :=
  step_every (fun _ => loadDB_nonNeg) (fun _ _ _ _ _ hd hout hdb => apply_nonNeg hd hout hdb)
    (fun _ _ _ _ _ hd => ⟨hd.positions, hd.nodes⟩) (fun _ _ _ _ _ hb hsnap => commits_nonNeg hb hsnap)
    hc hs h

theorem registerRow_owner {r : RegisterRequest} {trusted : Bool} {balance : ℚ} {now : ℕ}
    {existing : Option NodeRow} {n : NodeRow}
    (h : registerRow cfg r trusted balance now existing = .ok n) : n.owner = r.owner := by
  unfold registerRow at h
  split_ifs at h
  cases h
  cases trusted <;> simp [registeredRow, NodeRow.graded]

@[simp]
theorem heartbeatRow_owner (g b : Option Bool) (trusted : Bool) (now : ℕ) (n : NodeRow) :
    (heartbeatRow cfg g b trusted now n).owner = n.owner := by
  cases trusted <;> simp [heartbeatRow]

@[simp]
theorem contributionRow_owner (units : ℚ) (now : ℕ) (n : NodeRow) :
    (contributionRow cfg units now n).owner = n.owner := by
  simp [contributionRow]

@[simp]
theorem infraRow_owner (r : InfraReport) (now : ℕ) (existing : Option NodeRow) :
    (infraRow cfg r now existing).owner = r.owner := by
  simp [infraRow, NodeRow.graded]

@[simp]
theorem inferenceRow_owner (r : InferenceReport) (now : ℕ) (existing : Option NodeRow) :
    (inferenceRow cfg r now existing).owner = r.owner := by
  simp only [inferenceRow]
  split_ifs
  · exact creditContribution_owner _ _ _
  · rfl

/-- Pending rewards of the row under an id, none when there is no row. -/
def pendingAt (d : DB) (id : NodeId) : ℚ := (d.nodes.lookup id).elim 0 (·.pendingRewards)

/-- A stored row moves its owner's rewards by what it holds more than the row
it replaces, when that row had the same owner. -/
theorem rewardsHeld_insert (d : DB) (id : NodeId) (n : NodeRow)
    (hown : ∀ m, d.nodes.lookup id = some m → m.owner = n.owner) (o : Wallet) :
    rewardsHeld { d with nodes := d.nodes.insert id n } o =
      rewardsHeld d o + if n.owner = o then n.pendingRewards - pendingAt d id else 0 := by
  have h := Table.total_insert_add (fun (_ : NodeId) (m : NodeRow) => if m.owner = o then m.pendingRewards else 0)
    d.nodes id n
  simp only [rewardsHeld, ownerPending, pendingAt]
  cases hrow : d.nodes.lookup id with
  | none =>
    simp only [Table.rowAt, hrow, Option.elim_none, add_zero] at h
    simp [h]
  | some m =>
    simp only [Table.rowAt, hrow, Option.elim_some, hown m hrow] at h
    rw [Option.elim_some]
    split_ifs at h ⊢
    · linarith
    · linarith

theorem rewardsHeld_erase (d : DB) (id : NodeId) (o : Wallet) :
    rewardsHeld { d with nodes := d.nodes.erase id } o +
      (d.nodes.lookup id).elim 0 (fun m => if m.owner = o then m.pendingRewards else 0) =
        rewardsHeld d o :=
  Table.total_erase_add (fun (_ : NodeId) (m : NodeRow) => if m.owner = o then m.pendingRewards else 0) d.nodes id

end KvasirNet.Gateway
