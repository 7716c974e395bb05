import KvasirNet.GatewaySerial
import KvasirNet.GatewayPayouts
import KvasirNet.GatewaySignatures

/-! Payouts with an unclear end. Requests are served one at a time, a transfer
may land and still be reported as failed, and a save may throw after it. What
lands for an owner stays within what the ledger owed it and credited to it, as
long as a transfer that landed is recorded. -/
namespace KvasirNet.Gateway

variable {cfg : Config} {chain : Chain} {o : Wallet} {sig : Signature} {s s' : State} {a : Action}

/-- What lands for `o`: unstakes, claims and refunds. -/
def landedFor (o : Wallet) : Event → ℚ
  | .unstaked o' p r _ => if o' = o then p + r else 0
  | .claimed o' x => if o' = o then x else 0
  | .refunded _ _ payer x => if payer = o then x else 0
  | _ => 0

def refundedTo (o : Wallet) : Event → ℚ
  | .refunded _ _ payer x => if payer = o then x else 0
  | _ => 0

/-- The event records a payment with `sig` that was accepted and not served. -/
def Event.leavesUnserved (sig : Signature) : Event → Bool
  | .unserved s _ _ => s == sig
  | _ => false

/-- What the ledger owes `o` for payments it accepted and did not serve, one
payment a signature. The newest event stands first. -/
def unservedFrom (o : Wallet) : List Event → ℚ
  | [] => 0
  | .unserved sig payer price :: log =>
    (if payer = some o ∧ log.any (Event.leavesUnserved sig) = false then max 0 price else 0) +
      unservedFrom o log
  | _ :: log => unservedFrom o log

/-- What the ledger owes `o`: its stake and the rewards of its nodes. -/
def owedTo (db : DB) (o : Wallet) : ℚ := stakeWorth db o + rewardsHeld db o

/-- What the ledger credited to `o` since the trail began. -/
def creditedSince (o : Wallet) (log : List Event) : ℚ :=
  tally (principalPut o) log + tally (rewardsAccrued o) log + tally (rewardsCredited o) log +
    unservedFrom o log

theorem tally_landedFor (o : Wallet) (log : List Event) :
    tally (landedFor o) log =
      tally (unstakePaid o) log + tally (claimPaid o) log + tally (refundedTo o) log := by
  induction log with
  | nil => simp
  | cons e log ih =>
    have he : landedFor o e = unstakePaid o e + claimPaid o e + refundedTo o e := by
      cases e <;> simp [landedFor, unstakePaid, claimPaid, refundedTo]
    simp only [tally_cons, ih, he]
    ring

theorem unservedFrom_cons_le (o : Wallet) (e : Event) (log : List Event) :
    unservedFrom o log ≤ unservedFrom o (e :: log) := by
  cases e with
  | unserved sig payer price =>
    simp only [unservedFrom]
    exact le_add_of_nonneg_left (ite_nonneg (le_max_left _ _) le_rfl)
  | _ => exact le_rfl

theorem unservedFrom_append_le (o : Wallet) (evs log : List Event) :
    unservedFrom o log ≤ unservedFrom o (evs ++ log) := by
  induction evs with
  | nil => exact le_rfl
  | cons e evs ih => exact ih.trans (unservedFrom_cons_le o e (evs ++ log))

theorem leavesUnserved_of_unspent {log : List Event} (h : spendCount sig log = 0) :
    log.any (Event.leavesUnserved sig) = false := by
  rw [List.any_eq_false]
  intro e he hleft
  have hspends := List.countP_eq_zero.mp h e he
  cases e with
  | unserved s payer price => exact hspends hleft
  | _ => cases hleft

theorem State.Serial.soleUse (hs : s.Serial) (h : step cfg chain s a = some s') :
    soleUse sig s a = true := by
  cases a with
  | start i now =>
    simp only [step, Option.map_eq_some_iff] at h
    obtain ⟨ρ, hρ, -⟩ := h
    simp only [resumption] at hρ
    split at hρ
    · rename_i r task
      simp only [Gateway.soleUse, Bool.or_eq_true, List.all_eq_true]
      right
      intro t ht
      obtain ⟨j, hj⟩ := List.mem_iff_getElem?.mp ht
      right
      -- a running task would be a second one that is not done
      by_contra hrun
      have hrunning : t.phase.isRunning = true := by simpa using hrun
      obtain ⟨hactive, hwait⟩ := Phase.active_of_running hrunning
      obtain rfl := hs.one j i t _ hj task hactive rfl
      cases task.symm.trans hj
      exact hwait rfl
    · cases hρ
  | _ => rfl

theorem State.Serial.keepsUse (hs : s.Serial)
    (hc : ∀ t ∈ s.tasks, Coherent cfg t.request t.phase) : keepsUse cfg chain sig s a = true := by
  cases hm : commit cfg chain s a with
  | none => simp [Gateway.keepsUse, hm]
  | some c =>
    obtain ⟨r, base, db⟩ := c
    obtain rfl := hs.commit_current hc hm
    have hload : (loadDB s.disk).used sig = s.disk.used sig := rfl
    cases hu : s.disk.used sig <;> simp [Gateway.keepsUse, hm, hload, hu]

theorem moves_refunds (hc' : ∀ t ∈ s'.tasks, Coherent cfg t.request t.phase)
    (hS : ∀ sig, SpentOnce sig s) (hle : tally (refundedTo o) s.log ≤ unservedFrom o s.log)
    (h : Moves cfg chain s a s') : tally (refundedTo o) s'.log ≤ unservedFrom o s'.log := by
  -- events that refund nothing leave the bound alone
  have hquiet (evs : List Event) (hev : tally (refundedTo o) evs = 0) :
      tally (refundedTo o) (evs ++ s.log) ≤ unservedFrom o (evs ++ s.log) := by
    rw [tally_append, hev, zero_add]
    exact hle.trans (unservedFrom_append_le o evs s.log)
  cases h with
  | refused | submit | enter | await | stop | completed => exact hle
  | lands i r db p task can =>
    have hcoh : Coherent cfg r (.paying db p true) :=
      hc' _ (List.mem_of_getElem? ((getElem?_setTask task _ i).trans (if_pos rfl)))
    cases hcoh with
    | unstake o' amt db pos now landed row active finite =>
      obtain ⟨⟨p, q⟩, hq⟩ := Option.isSome_iff_exists.mp (finite rfl)
      apply hquiet
      simp [hq, Payout.landing, refundedTo]
    | claim | faucet =>
      apply hquiet
      simp [Payout.landing, refundedTo]
    | refund rid sig db r payer usedAt error landed row unpaid unused =>
      -- the refund and the debt it answers enter the trail together
      have hzero : spendCount sig s.log = 0 := (hS sig).unspent task rfl rfl rfl
      have hfirst : s.log.any (Event.leavesUnserved sig) = false := leavesUnserved_of_unspent hzero
      simp only [Payout.landing, List.cons_append, List.nil_append, tally_cons, refundedTo,
        unservedFrom, hfirst, and_true, Option.some.injEq, zero_add]
      apply add_le_add _ hle
      split_ifs
      · exact le_max_right _ _
      · exact le_rfl
  | commit _ i r ph base db evs ans task held save made =>
    apply hquiet
    cases save with
    | refund rid sig db r payer usedAt error landed ok row unused returned =>
      cases ok <;> simp [refundedTo]
    | _ => simp [refundedTo]
  | sync r now db evs write saved =>
    apply hquiet
    cases write <;> simp [refundedTo, rewardEvent]

/-- Requests one at a time, and a transfer that landed is recorded: an unstake
or a claim is told that it landed and saves, a refund saves. -/
def recorded (s : State) (a : Action) : Bool := serial s a && regular s a && refundSaved s a

theorem run_refunds_le {s₀ : State} {as : List Action} (h₀ : s₀.Initial)
    (hrec : Along (step cfg chain) (fun s a => recorded s a = true) s₀ as)
    (hrun : runs (step cfg chain) s₀ as = some s) :
    tally (refundedTo o) s.log ≤ unservedFrom o s.log := by
  have hstart : (s₀.WellFormed cfg ∧ s₀.Serial) ∧ (∀ sig, SpentOnce sig s₀) ∧
      tally (refundedTo o) s₀.log ≤ unservedFrom o s₀.log := by
    refine ⟨⟨h₀.wellFormed, h₀.serial⟩, fun sig => h₀.spentOnce, ?_⟩
    simp [h₀.log_nil, unservedFrom]
  obtain ⟨-, -, hle⟩ := runs_invariant
    (I := fun s => (s.WellFormed cfg ∧ s.Serial) ∧ (∀ sig, SpentOnce sig s) ∧
      tally (refundedTo o) s.log ≤ unservedFrom o s.log)
    (fun s a s' hr hi h => by
      obtain ⟨⟨hwf, hser⟩, hS, hle⟩ := hi
      simp only [recorded, Bool.and_eq_true] at hr
      obtain ⟨⟨hone, -⟩, hsaved⟩ := hr
      have hnext := step_serial hone ⟨hwf, hser⟩ h
      have hmove := step_moves hwf.coherent h
      refine ⟨hnext, fun sig => ?_, moves_refunds hnext.1.coherent hS hle hmove⟩
      exact moves_spentOnce hnext.1.coherent hsaved (hser.soleUse h) (hser.keepsUse hwf.coherent)
        (hS sig) hmove)
    hrec hrun hstart
  exact hle

/-- An unstake whose transfer did not land is retried, and a failed inference is
refunded although the transfer's confirmation times out. -/
def retryRun : List Action :=
  stakeTen ++
    [.submit (.unstake "A" .falsy), .start 1 1700000000000, .settled 1 false true,
      .submit (.unstake "A" .falsy), .start 2 1700000000000, .lands 2, .settled 2 true true,
      .sync (.quote "r" (some flatModel) "hi") 1700000000000,
      .submit (.inference "r" "pay"), .start 3 1700000000000, .verified 3 true 1700000000000 true,
      .inferred 3 (.error "bridge timeout") true, .lands 3, .settled 3 false true]

/-- The transfer of an unstake lands, its confirmation times out, and the owner
retries after the error. -/
def timeoutRun : List Action :=
  stakeTen ++
    [.submit (.unstake "A" .falsy), .start 1 1700000000000, .lands 1, .settled 1 false true,
      .submit (.unstake "A" .falsy), .start 2 1700000000000, .lands 2]

end KvasirNet.Gateway
