import Mathlib.Algebra.BigOperators.Ring.Finset
import Mathlib.Algebra.Order.BigOperators.Group.Finset
import KvasirNet.GatewaySerial
import KvasirNet.GatewayPayouts
import KvasirNet.GatewaySignatures

/-! The vault in base units. With no interest, unstakes pay no more base units
than the stakes moved into the vault, as long as `toBase` rounds no accepted
stake down and no unstake up. -/
namespace KvasirNet.Gateway

variable {cfg : Config} {chain : Chain} {o : Wallet} {s s' : State} {a : Action}

/-- Base units an accepted stake moved into the vault. -/
def stakedBase : Event → ℚ
  | .staked _ _ _ moved => moved
  | _ => 0

def unstakedBase : Event → ℚ
  | .unstaked _ _ _ base => base
  | _ => 0

def stakedSignatures (log : List Event) : List Signature :=
  log.filterMap fun
    | .staked _ _ sig _ => some sig
    | _ => none

/-- The amount of a stake, not rounded, is at most what its transaction moved. -/
def Request.backed (cfg : Config) (chain : Chain) : Request → Bool
  | .stake _ (.truthy (.fin q)) sig => decide (q * 10 ^ cfg.decimals ≤ vaultDelta cfg (chain sig))
  | _ => true

/-- The transfer of an unstake is not rounded up. -/
def Phase.roundedDown (cfg : Config) : Phase → Bool
  | .paying _ (.unstake _ _ (some (p, r))) _ =>
    decide ((toBase cfg (p + r) : ℚ) ≤ (p + r) * 10 ^ cfg.decimals)
  | _ => true

/-- Every stake that is accepted is backed, and every unstake that lands is
rounded down. -/
def roundsSafe (cfg : Config) (chain : Chain) (s : State) (a : Action) : Bool :=
  ((commit cfg chain s a).all fun c => c.1.backed cfg chain) &&
    match a with
    | .lands i => s.tasks[i]?.all fun t => t.phase.roundedDown cfg
    | _ => true

/-- What one event of the trail moves is what the ledger books, or the vault
gains by the difference. -/
def Event.Backed (cfg : Config) : Event → Prop
  | .staked _ q _ moved => q * 10 ^ cfg.decimals ≤ moved
  | .unstaked _ p r base => (base : ℚ) ≤ (p + r) * 10 ^ cfg.decimals
  | .accrued _ x => x = 0
  | _ => True

theorem accrue_idle (hapr : cfg.apr = 0) (pos : Position) (now : ℕ) :
    (accrue cfg pos now).accruedRewards = pos.accruedRewards := by
  simp [accrue, hapr]

theorem accruedOver_idle (hapr : cfg.apr = 0) {db : DB} {pos : Position} (now : ℕ)
    (row : db.positions.lookup o = some pos) : accruedOver db o (accrue cfg pos now) = 0 := by
  simp [accruedOver, row, accrue_idle hapr]

theorem stakeBase_idle (hapr : cfg.apr = 0) (db : DB) (now : ℕ) :
    accruedOver db o (stakeBase cfg now db o) = 0 := by
  cases row : db.positions.lookup o with
  | none => simp [accruedOver, stakeBase, row, accrue_idle hapr, emptyPosition]
  | some pos => simp [accruedOver, stakeBase, row, accrue_idle hapr]

theorem moves_backed (hapr : cfg.apr = 0) (hc' : ∀ t ∈ s'.tasks, Coherent cfg t.request t.phase)
    (hsafe : roundsSafe cfg chain s a = true) (hlog : ∀ e ∈ s.log, e.Backed cfg)
    (h : Moves cfg chain s a s') : ∀ e ∈ s'.log, e.Backed cfg := by
  simp only [roundsSafe, Bool.and_eq_true] at hsafe
  obtain ⟨hstake, hland⟩ := hsafe
  have hadd (evs : List Event) (hev : ∀ e ∈ evs, e.Backed cfg) :
      ∀ e ∈ evs ++ s.log, e.Backed cfg := by
    intro e he
    rcases List.mem_append.mp he with he | he
    · exact hev e he
    · exact hlog e he
  cases h with
  | refused | submit | enter | await | stop | completed => exact hlog
  | lands i r db p task can =>
    apply hadd
    have hcoh : Coherent cfg r (.paying db p true) :=
      hc' _ (List.mem_of_getElem? ((getElem?_setTask task _ i).trans (if_pos rfl)))
    cases hcoh with
    | unstake o' amt db pos now landed row active finite =>
      obtain ⟨⟨p, q⟩, hq⟩ := Option.isSome_iff_exists.mp (finite rfl)
      have hdown : (toBase cfg (p + q) : ℚ) ≤ (p + q) * 10 ^ cfg.decimals := by
        simpa [task, hq, Phase.roundedDown] using hland
      simp only [hq, Payout.landing, List.forall_mem_cons]
      exact ⟨hdown, accruedOver_idle hapr now row, by simp⟩
    | claim | faucet | refund => simp [Payout.landing, Event.Backed]
  | commit _ i r ph base db evs ans task held save made =>
    apply hadd
    cases save with
    | stake o' q sig db now pos unused moved =>
      have hback : q * 10 ^ cfg.decimals ≤ vaultDelta cfg (chain sig) := by
        simpa [made, Request.backed] using hstake
      simp only [List.forall_mem_cons]
      exact ⟨hback, stakeBase_idle hapr _ now, by simp⟩
    | refund rid sig db r payer usedAt error landed ok row unused returned =>
      cases ok <;> simp [Event.Backed]
    | _ => simp [Event.Backed]
  | sync r now db evs write saved =>
    apply hadd
    cases write with
    | viewPosition o' pos row => simp [Event.Backed, accrue_idle hapr]
    | _ => simp [Event.Backed, rewardEvent]

theorem commits_used {sig : Signature} {r : Request} {ph : Phase} {base db : DB} {evs : List Event}
    (hc : Commits cfg chain r ph db evs) (hs : ph.snapshot = some base)
    (hu : base.used sig = true) : db.used sig = true := by
  by_cases hr : r.signature = some sig
  · exact (commits_grants hc hr).1
  · exact (commits_other_signature hc hs hr).1.trans hu

/-- Each transaction is credited once, and the file knows it. -/
structure StakesRecorded (s : State) : Prop where
  nodup : (stakedSignatures s.log).Nodup
  used : ∀ sig ∈ stakedSignatures s.log, s.disk.used sig = true

theorem moves_stakesRecorded (hs : s.Serial) (hS : StakesRecorded s) (h : Moves cfg chain s a s') :
    StakesRecorded s' := by
  cases h with
  | refused | submit | enter | await | stop => exact ⟨hS.nodup, hS.used⟩
  | lands i r db p task can =>
    have hnone : stakedSignatures (p.landing cfg db) = [] := by
      cases p with
      | unstake o pos out => cases out <;> rfl
      | _ => rfl
    have hlog : stakedSignatures (p.landing cfg db ++ s.log) = stakedSignatures s.log := by
      rw [stakedSignatures, List.filterMap_append]
      exact congrArg (· ++ stakedSignatures s.log) hnone
    exact ⟨hlog ▸ hS.nodup, fun sig hsig => hS.used sig (hlog ▸ hsig)⟩
  | commit _ i r ph base db evs ans task held save made =>
    obtain rfl := hs.current i r ph base task held
    have hkeep (sig : Signature) (hsig : sig ∈ stakedSignatures s.log) : db.used sig = true :=
      commits_used save held (hS.used sig hsig)
    cases save with
    | stake o q sig db now pos unused moved =>
      cases held
      -- the signature is new to the file, so no accepted stake carried it
      have hnew : sig ∉ stakedSignatures s.log := by
        intro hmem
        have hused : ((loadDB s.disk).usedSignatures.lookup sig).isSome = true := hS.used sig hmem
        rw [unused] at hused
        cases hused
      refine ⟨List.nodup_cons.mpr ⟨hnew, hS.nodup⟩, fun sig' hsig' => ?_⟩
      rcases List.mem_cons.mp hsig' with rfl | hsig'
      · simp [DB.used, stakeDb]
      · exact hkeep sig' hsig'
    | refund rid sig db r payer usedAt error landed ok row unused returned =>
      cases ok <;> exact ⟨hS.nodup, hkeep⟩
    | _ => exact ⟨hS.nodup, hkeep⟩
  | completed i w ip m u now task =>
    refine ⟨hS.nodup, fun sig hsig => ?_⟩
    cases u with
    | none => exact hS.used sig hsig
    | some u => exact hS.used sig hsig
  | sync r now db evs write saved =>
    have hused (sig : Signature) : db.used sig = s.disk.used sig := (writes_used write).1
    have hlog : stakedSignatures (evs ++ s.log) = stakedSignatures s.log := by
      cases write <;> rfl
    exact ⟨hlog ▸ hS.nodup, fun sig hsig => (hused sig).trans (hS.used sig (hlog ▸ hsig))⟩

def Event.staker : Event → Wallet
  | .staked o _ _ _ | .unstaked o _ _ _ => o
  | _ => ""

def principalIn : Event → ℚ
  | .staked _ q _ _ => q
  | _ => 0

def stakeOut : Event → ℚ
  | .unstaked _ p r _ => p + r
  | _ => 0

theorem sum_tally {ε : Type*} (f : Wallet → ε → ℚ) (g : ε → ℚ) (own : ε → Wallet)
    (hf : ∀ o e, f o e = if own e = o then g e else 0) (S : Finset Wallet) (log : List ε)
    (hS : ∀ e ∈ log, own e ∈ S) : ∑ o ∈ S, tally (f o) log = tally g log := by
  induction log with
  | nil => simp
  | cons e log ih =>
    have he : ∑ o ∈ S, f o e = g e := by
      simp only [hf]
      rw [Finset.sum_ite_eq, if_pos (hS e List.mem_cons_self)]
    simp only [tally_cons, Finset.sum_add_distrib]
    rw [he, ih fun e' he' => hS e' (List.mem_cons_of_mem e he')]

theorem tally_le_tally {ε : Type*} {f g : ε → ℚ} {log : List ε} (h : ∀ e ∈ log, f e ≤ g e) :
    tally f log ≤ tally g log :=
  List.sum_le_sum h

theorem tally_mul {ε : Type*} (f : ε → ℚ) (c : ℚ) (log : List ε) :
    tally (fun e => f e * c) log = tally f log * c :=
  List.sum_map_mul_right log f c

theorem stakeOut_le_principalIn {log : List Event}
    (h : ∀ o, tally (unstakePaid o) log ≤ tally (principalPut o) log) :
    tally stakeOut log ≤ tally principalIn log := by
  have hmem (e : Event) (he : e ∈ log) : e.staker ∈ (log.map Event.staker).toFinset :=
    List.mem_toFinset.mpr (List.mem_map_of_mem he)
  calc tally stakeOut log
      = ∑ o ∈ (log.map Event.staker).toFinset, tally (unstakePaid o) log := by
        refine (sum_tally unstakePaid stakeOut Event.staker (fun o e => ?_) _ log hmem).symm
        cases e <;> first | rfl | exact (ite_self _).symm
    _ ≤ ∑ o ∈ (log.map Event.staker).toFinset, tally (principalPut o) log :=
        Finset.sum_le_sum fun o _ => h o
    _ = tally principalIn log := by
        refine sum_tally principalPut principalIn Event.staker (fun o e => ?_) _ log hmem
        cases e <;> first | rfl | exact (ite_self _).symm

theorem tally_accrued_of_backed {log : List Event} (h : ∀ e ∈ log, e.Backed cfg) :
    tally (rewardsAccrued o) log = 0 := by
  apply List.sum_eq_zero
  intro x hx
  obtain ⟨e, he, rfl⟩ := List.mem_map.mp hx
  cases e with
  | accrued o' y =>
    obtain rfl : y = 0 := h _ he
    simp [rewardsAccrued]
  | _ => rfl

theorem base_le_of_backed {log : List Event} (h : ∀ e ∈ log, e.Backed cfg)
    (hle : tally stakeOut log ≤ tally principalIn log) :
    tally unstakedBase log ≤ tally stakedBase log := by
  have hpow : (0 : ℚ) ≤ 10 ^ cfg.decimals := by positivity
  calc tally unstakedBase log
      ≤ tally (fun e => stakeOut e * 10 ^ cfg.decimals) log := by
        apply tally_le_tally
        intro e he
        cases e with
        | unstaked o p r base => exact h _ he
        | _ => simp [unstakedBase, stakeOut]
    _ = tally stakeOut log * 10 ^ cfg.decimals := tally_mul stakeOut _ log
    _ ≤ tally principalIn log * 10 ^ cfg.decimals := mul_le_mul_of_nonneg_right hle hpow
    _ = tally (fun e => principalIn e * 10 ^ cfg.decimals) log := (tally_mul principalIn _ log).symm
    _ ≤ tally stakedBase log := by
        apply tally_le_tally
        intro e he
        cases e with
        | staked o q sig moved => exact h _ he
        | _ => simp [stakedBase, principalIn]

/-- Unstakes paid no more base units than the transactions of the accepted
stakes, each counted once, moved into the vault. -/
structure Solvent (log : List Event) : Prop where
  distinct : (stakedSignatures log).Nodup
  covered : tally unstakedBase log ≤ tally stakedBase log

theorem vault_solvent (cfg : Config) (chain : Chain) (s₀ s : State) (as : List Action)
    (hapr : cfg.apr = 0) (h₀ : s₀.Initial) (hn : s₀.disk.NonNeg) (hempty : s₀.disk.positions = ∅)
    (hsafe : Along (step cfg chain) (fun s a => serial s a = true ∧ payoutClear s a = true ∧
      roundsSafe cfg chain s a = true) s₀ as)
    (hrun : runs (step cfg chain) s₀ as = some s) : Solvent s.log := by
  have hstart : (s₀.WellFormed cfg ∧ s₀.Serial) ∧ StakesRecorded s₀ ∧
      ∀ e ∈ s₀.log, e.Backed cfg := by
    refine ⟨⟨h₀.wellFormed, h₀.serial⟩, ⟨?_, ?_⟩, ?_⟩ <;> simp [h₀.log_nil, stakedSignatures]
  obtain ⟨-, hS, hback⟩ := runs_invariant
    (I := fun s => (s.WellFormed cfg ∧ s.Serial) ∧ StakesRecorded s ∧ ∀ e ∈ s.log, e.Backed cfg)
    (fun s a s' hp hi h => by
      obtain ⟨hok, hS, hlog⟩ := hi
      have hnext := step_serial hp.1 hok h
      have hmove := step_moves hok.1.coherent h
      exact ⟨hnext, moves_stakesRecorded hok.2 hS hmove,
        moves_backed hapr hnext.1.coherent hp.2.2 hlog hmove⟩)
    hsafe hrun hstart
  refine ⟨hS.nodup, base_le_of_backed hback (stakeOut_le_principalIn fun o => ?_)⟩
  -- owner by owner, what is paid was put in: no stake was there and nothing accrued
  have hpaid := (stakePurse cfg chain o).run_serial_paid_le h₀ hn
    (hsafe.mono fun s a h => by
      refine ⟨h.1, ?_⟩
      simp only [Purse.admits, h.2.1, Bool.true_and]
      cases a <;> rfl) hrun
  have hzero : stakeWorth s₀.disk o = 0 := by simp [stakeWorth, hempty]
  simp only [stakePurse, tally_stakePut, tally_accrued_of_backed hback, hzero, zero_add,
    add_zero] at hpaid
  exact hpaid

/-- A chain on which every signature moved one base unit from `A` into the vault. -/
def oneBaseFromA : Chain := fun _ => vaultTransfer defaultConfig "A" 1

/-- Two stakes of one base unit and an unstake of half of them. -/
def wholeUnitsRun : List Action :=
  [.submit (.stake "A" (.truthy (.fin (1 / 1000000))) "sig"), .start 0 1700000000000,
    .verified 0 true 1700000000000 true,
    .submit (.stake "A" (.truthy (.fin (1 / 1000000))) "sig2"), .start 1 1700000000000,
    .verified 1 true 1700000000000 true,
    .submit (.unstake "A" (.truthy (.fin (1 / 1000000)))), .start 2 1700000000000, .lands 2,
    .settled 2 true true]

theorem vault_solvent_wholeUnits :
    ∃ s, runs (step defaultConfig oneBaseFromA) ⟨oneNodeFile "A", [], []⟩ wholeUnitsRun = some s ∧
      tally stakedBase s.log = 2 ∧ tally unstakedBase s.log = 1 ∧ Solvent s.log := by
  obtain ⟨s, hs, hsum⟩ := runs_exists (step defaultConfig oneBaseFromA) ⟨oneNodeFile "A", [], []⟩
    wholeUnitsRun (fun s => decide (tally stakedBase s.log = 2 ∧ tally unstakedBase s.log = 1))
    (by decide +kernel)
  obtain ⟨hin, hout⟩ := of_decide_eq_true hsum
  have hsolvent := vault_solvent defaultConfig oneBaseFromA ⟨oneNodeFile "A", [], []⟩ s wholeUnitsRun
    rfl ⟨rfl, rfl⟩ (oneNodeFile_nonNeg "A") rfl (by decide +kernel) hs
  exact ⟨s, hs, hin, hout, hsolvent⟩

/-- Two stakes of 1.4 base units, each verified against one base unit, and an
unstake of the 2.8 base units the position then holds. -/
def roundedRun : List Action :=
  [.submit (.stake "A" (.truthy (.fin (14 / 10000000))) "sig"), .start 0 1700000000000,
    .verified 0 true 1700000000000 true,
    .submit (.stake "A" (.truthy (.fin (14 / 10000000))) "sig2"), .start 1 1700000000000,
    .verified 1 true 1700000000000 true,
    .submit (.unstake "A" .falsy), .start 2 1700000000000, .lands 2, .settled 2 true true]

theorem rounding_drains_vault :
    ∃ s, runs (step defaultConfig oneBaseFromA) ⟨oneNodeFile "A", [], []⟩ roundedRun = some s ∧
      Along (step defaultConfig oneBaseFromA)
        (fun s a => serial s a = true ∧ payoutClear s a = true) ⟨oneNodeFile "A", [], []⟩ roundedRun ∧
      (stakedSignatures s.log).Nodup ∧ tally stakedBase s.log = 2 ∧ tally unstakedBase s.log = 3 ∧
      ¬ tally unstakedBase s.log ≤ tally stakedBase s.log := by
  obtain ⟨s, hs, hsum⟩ := runs_exists (step defaultConfig oneBaseFromA) ⟨oneNodeFile "A", [], []⟩
    roundedRun (fun s => decide ((stakedSignatures s.log).Nodup ∧ tally stakedBase s.log = 2 ∧
      tally unstakedBase s.log = 3)) (by decide +kernel)
  obtain ⟨hnodup, hin, hout⟩ := of_decide_eq_true hsum
  refine ⟨s, hs, by decide +kernel, hnodup, hin, hout, ?_⟩
  rw [hin, hout]
  norm_num

end KvasirNet.Gateway
