import KvasirNet.GatewayPurses

/-! No stake and no reward is paid out twice, as long as no save puts back a
balance that another request has already spent. -/
namespace KvasirNet.Gateway

variable {cfg : Config} {chain : Chain}

theorem stakeLeft_unpaid (o : Wallet) (ph : Phase) (db : DB) (hs : ph.snapshot = some db)
    (hl : ph.landed = false) : ph.stakeLeft o = stakeWorth db o := by
  unfold Phase.stakeLeft
  split
  · cases hl
  · rw [hs]
    rfl

theorem rewardsLeft_unpaid (o : Wallet) (ph : Phase) (db : DB) (hs : ph.snapshot = some db)
    (hl : ph.landed = false) : ph.rewardsLeft o = rewardsHeld db o := by
  unfold Phase.rewardsLeft
  split
  · cases hl
  · rw [hs]
    rfl

theorem stakeWorth_accrued {db : DB} {o : Wallet} {pos : Position} (now : ℕ)
    (row : db.positions.lookup o = some pos) :
    stakeWorth db o + accruedOver db o (accrue cfg pos now) =
      (accrue cfg pos now).principal + (accrue cfg pos now).accruedRewards := by
  simp only [stakeWorth, accruedOver, row, Option.elim_some, accrue_principal]
  ring

theorem accruedOver_nonneg {db : DB} (h : db.NonNeg) {o : Wallet} {pos : Position} (now : ℕ)
    (row : db.positions.lookup o = some pos) : 0 ≤ accruedOver db o (accrue cfg pos now) := by
  have hacc : pos.accruedRewards ≤ (accrue cfg pos now).accruedRewards :=
    accrue_rewards_le pos now (h.positions o pos row).1
  simp only [accruedOver, row, Option.elim_some]
  linarith

theorem stakeBase_accrued_nonneg {db : DB} (h : db.NonNeg) (now : ℕ) (o : Wallet) :
    0 ≤ accruedOver db o (stakeBase cfg now db o) := by
  cases hp : db.positions.lookup o with
  | none => simp [accruedOver, stakeBase, hp, accrue, emptyPosition]
  | some pos =>
    have hacc : 0 ≤ accruedOver db o (accrue cfg pos now) := accruedOver_nonneg h now hp
    simpa [stakeBase, hp] using hacc

/-- Principal an accepted stake puts in and rewards that accrue on it. -/
def stakePut (o : Wallet) (e : Event) : ℚ := principalPut o e + rewardsAccrued o e

/-- The stake of `o`. -/
def stakePurse (cfg : Config) (chain : Chain) (o : Wallet) : Purse cfg chain o where
  held db := stakeWorth db o
  left := Phase.stakeLeft o
  paid := unstakePaid o
  put := stakePut o
  keeps _ _ := true
  held_nonneg _ h := stakeWorth_nonneg h o
  held_loadDB _ := rfl
  held_debit _ _ _ _ _ := rfl
  left_unpaid := stakeLeft_unpaid o
  left_nonneg r ph db hc hs h := by
    cases hc with
    | unstake o' amt db' pos now landed row active finite =>
      cases hs
      cases landed with
      | false =>
        rw [stakeLeft_unpaid o _ db rfl rfl]
        exact stakeWorth_nonneg h o
      | true =>
        obtain ⟨⟨p, q⟩, hq⟩ := Option.isSome_iff_exists.mp (finite rfl)
        have hrow := h.positions o' pos row
        have hacc : 0 ≤ (accrue cfg pos now).accruedRewards :=
          hrow.2.trans (accrue_rewards_le pos now hrow.1)
        have hact : 0 < (accrue cfg pos now).principal := active
        simp only [hq, Phase.stakeLeft]
        linarith [unstakeQuote_left hact hacc hq]
    | _ => cases hs <;> exact stakeWorth_nonneg h o
  landing_own r db p hc hr := by
    cases hc with
    | unstake o' amt db pos now landed row active finite =>
      obtain rfl := Option.some.inj hr
      obtain ⟨⟨p, q⟩, hq⟩ := Option.isSome_iff_exists.mp (finite rfl)
      simp only [hq, Payout.landing, tally_cons, tally_nil, unstakePaid, stakePut, principalPut,
        rewardsAccrued, Phase.stakeLeft, ↓reduceIte, ← stakeWorth_accrued now row]
      linarith
    -- a claim pays from the nodes and leaves the stake as it is
    | claim o' db landed =>
      simp [Payout.landing, unstakePaid, stakePut, principalPut, rewardsAccrued, Phase.stakeLeft,
        Phase.snapshot]
    | faucet | refund => cases hr
  landing_other r db p hc hr := by
    cases hc with
    | unstake o' amt db pos now landed row active finite =>
      obtain ⟨⟨p, q⟩, hq⟩ := Option.isSome_iff_exists.mp (finite rfl)
      have ho : ¬ o' = o := fun h => hr (congrArg some h)
      simp [hq, Payout.landing, unstakePaid, ho]
    | claim | faucet | refund => simp [Payout.landing, unstakePaid]
  landing_put r db p hc h := by
    cases hc with
    | unstake o' amt db pos now landed row active finite =>
      obtain ⟨⟨p, q⟩, hq⟩ := Option.isSome_iff_exists.mp (finite rfl)
      have hacc : 0 ≤ accruedOver db o' (accrue cfg pos now) := accruedOver_nonneg h now row
      simp only [hq, Payout.landing, tally_cons, tally_nil, stakePut, principalPut, rewardsAccrued,
        zero_add, add_zero]
      exact ite_nonneg hacc le_rfl
    | claim | faucet | refund =>
      simp [Payout.landing, stakePut, principalPut, rewardsAccrued]
  commit_own r ph base db evs hc hs h hr := by
    cases hc with
    | stake o' q sig db now pos unused moved =>
      cases hs
      obtain rfl := Option.some.inj hr
      rw [stakeWorth_stakeDb, stakeLeft_unpaid _ _ base rfl rfl]
      simp only [tally_cons, tally_nil, stakePut, principalPut, rewardsAccrued, ↓reduceIte]
      linarith
    | unstake o' amt db pos now p q row active out =>
      cases hs
      obtain rfl := Option.some.inj hr
      have hrow := h.positions o' pos row
      have hacc : 0 ≤ (accrue cfg pos now).accruedRewards :=
        hrow.2.trans (accrue_rewards_le pos now hrow.1)
      have hact : 0 < (accrue cfg pos now).principal := active
      obtain ⟨hp, hq⟩ := unstakeQuote_left hact hacc out
      simp only [out, Phase.stakeLeft, tally_nil, add_zero]
      exact stakeWorth_unstakeDb_le base o' _ p q hp hq
    | claim o' db =>
      cases hs
      simp [Phase.stakeLeft, Phase.snapshot, claimDb, stakeWorth]
    | deposit | answered | failed | faucet | refund => cases hr
  commit_other r ph base db evs hc hs hr := by
    cases hc with
    | stake o' q sig db now pos unused moved =>
      cases hs
      have ho : o ≠ o' := fun h => hr (congrArg some h.symm)
      simp only [stakeWorth, stakeDb, AList.lookup_insert_ne ho]
    | unstake o' amt db pos now p q row active out =>
      cases hs
      have ho : o ≠ o' := fun h => hr (congrArg some h.symm)
      exact stakeWorth_unstakeDb_ne base o' o ho _ p q
    | claim | deposit | answered | faucet | refund =>
      cases hs
      rfl
    | failed rid sig ph db r usedAt error row unused phase =>
      rcases phase with rfl | rfl <;> (cases hs; rfl)
  commit_paid r ph db evs hc := by
    cases hc with
    | refund rid sig db r payer usedAt error landed ok row unused returned =>
      cases ok <;> simp [unstakePaid]
    | _ => simp [unstakePaid]
  commit_put r ph base db evs hc hs h := by
    cases hc with
    | stake o' q sig db now pos unused moved =>
      cases hs
      have hacc : 0 ≤ accruedOver base o' (stakeBase cfg now base o') :=
        stakeBase_accrued_nonneg h now o'
      simp only [tally_cons, tally_nil, stakePut, principalPut, rewardsAccrued, add_zero, zero_add]
      exact add_nonneg (ite_nonneg pos.le le_rfl) (ite_nonneg hacc le_rfl)
    | refund rid sig db r payer usedAt error landed ok row unused returned =>
      cases ok <;> simp [stakePut, principalPut, rewardsAccrued]
    | _ => simp [stakePut, principalPut, rewardsAccrued]
  sync_held now d r db evs hw h _ := by
    cases hw with
    | viewPosition o' pos row =>
      simp only [stakeWorth, tally_cons, tally_nil, stakePut, principalPut, rewardsAccrued]
      by_cases ho : o = o'
      · subst ho
        simp only [AList.lookup_insert, row, Option.elim_some, accrue_principal, ↓reduceIte]
        linarith
      · have ho' : ¬ o' = o := fun h => ho h.symm
        simp [AList.lookup_insert_ne ho, ho']
    -- no other synchronous handler touches a position
    | _ =>
      simp only [tally_cons, tally_nil, rewardEvent, stakePut, principalPut, rewardsAccrued, add_zero]
      exact le_rfl
  sync_paid now d r db evs hw := by
    cases hw <;> simp [unstakePaid, rewardEvent]
  sync_put now d r db evs hw h := by
    cases hw with
    | viewPosition o' pos row =>
      have hacc : pos.accruedRewards ≤ (accrue cfg pos now).accruedRewards :=
        accrue_rewards_le pos now (h.positions o' pos row).1
      simp only [tally_cons, tally_nil, stakePut, principalPut, rewardsAccrued, zero_add, add_zero]
      exact ite_nonneg (sub_nonneg.mpr hacc) le_rfl
    | _ => simp [rewardEvent, stakePut, principalPut, rewardsAccrued]

theorem claimPaid_landing {r : Request} {db : DB} {p : Payout} (o : Wallet)
    (hc : Coherent cfg r (.paying db p true)) :
    tally (claimPaid o) (p.landing cfg db) = if r = .claim o then rewardsHeld db o else 0 := by
  cases hc with
  | unstake o' amt db pos now landed row active finite =>
    obtain ⟨⟨p, q⟩, hq⟩ := Option.isSome_iff_exists.mp (finite rfl)
    simp [hq, Payout.landing, claimPaid]
  | claim o' db landed =>
    by_cases ho : o' = o
    · subst ho
      simp [Payout.landing, claimPaid, rewardsHeld]
    · simp [Payout.landing, claimPaid, ho]
  | faucet | refund => simp [Payout.landing, claimPaid]

/-- The rewards of the nodes of `o`. -/
def rewardsPurse (cfg : Config) (chain : Chain) (o : Wallet) : Purse cfg chain o where
  held db := rewardsHeld db o
  left := Phase.rewardsLeft o
  paid := claimPaid o
  put := rewardsCredited o
  keeps := SyncRequest.keepsOwner
  held_nonneg _ h := rewardsHeld_nonneg h o
  held_loadDB db := ownerPending_loadDB o db
  held_debit _ _ _ _ _ := rfl
  left_unpaid := rewardsLeft_unpaid o
  left_nonneg r ph db hc hs h := by
    unfold Phase.rewardsLeft
    split
    · exact le_rfl
    · rw [hs]
      exact rewardsHeld_nonneg h o
  landing_own r db p hc hr := by
    have hput : tally (rewardsCredited o) (p.landing cfg db) = 0 := by
      cases p with
      | unstake o' pos out =>
        cases out <;> simp [Payout.landing, rewardsCredited]
      | _ => simp [Payout.landing, rewardsCredited]
    rw [claimPaid_landing o hc, hput]
    cases hc with
    | unstake o' amt db pos now landed row active finite =>
      simp [Phase.rewardsLeft, Phase.snapshot]
    | claim o' db landed =>
      obtain rfl := Option.some.inj hr
      simp [Phase.rewardsLeft]
    | faucet | refund => cases hr
  landing_other r db p hc hr := by
    rw [claimPaid_landing o hc, if_neg]
    rintro rfl
    exact hr rfl
  landing_put r db p hc h := by
    cases p with
    | unstake o' pos out =>
      cases out <;> simp [Payout.landing, rewardsCredited]
    | _ => simp [Payout.landing, rewardsCredited]
  commit_own r ph base db evs hc hs h hr := by
    cases hc with
    | stake o' q sig db now pos unused moved =>
      cases hs
      rw [rewardsLeft_unpaid _ _ base rfl rfl]
      simp only [tally_cons, tally_nil, rewardsCredited, add_zero]
      exact le_rfl
    | unstake o' amt db pos now p q row active out =>
      cases hs
      simp only [tally_nil, add_zero]
      exact le_rfl
    | claim o' db =>
      obtain rfl := Option.some.inj hr
      simp [rewardsHeld_claimDb, Phase.rewardsLeft]
    | deposit | answered | failed | faucet | refund => cases hr
  commit_other r ph base db evs hc hs hr := by
    cases hc with
    | claim o' db =>
      cases hs
      have ho : ¬ o = o' := fun h => hr (congrArg some h.symm)
      rw [rewardsHeld_claimDb, if_neg ho]
    | stake | unstake | deposit | answered | faucet | refund =>
      cases hs
      rfl
    | failed rid sig ph db r usedAt error row unused phase =>
      rcases phase with rfl | rfl <;> (cases hs; rfl)
  commit_paid r ph db evs hc := by
    cases hc with
    | refund rid sig db r payer usedAt error landed ok row unused returned =>
      cases ok <;> simp [claimPaid]
    | _ => simp [claimPaid]
  commit_put r ph base db evs hc hs h := by
    cases hc with
    | refund rid sig db r payer usedAt error landed ok row unused returned =>
      cases ok <;> simp [rewardsCredited]
    | _ => simp [rewardsCredited]
  sync_held now d r db evs hw h hown := by
    -- a stored row keeps its owner, who is credited what the row gained
    have hstore (id : NodeId) (n : NodeRow)
        (hkeep : ∀ m, d.nodes.lookup id = some m → m.owner = n.owner) :
        rewardsHeld { d with nodes := d.nodes.insert id n } o ≤
          rewardsHeld d o + tally (rewardsCredited o) [rewardEvent d id n] := by
      rw [rewardsHeld_insert d id n hkeep]
      simp only [tally_cons, tally_nil, rewardEvent, rewardsCredited, add_zero, pendingAt]
      split_ifs
      · exact add_le_add_right (le_max_right _ _) _
      · exact le_rfl
    have herase (id : NodeId) :
        rewardsHeld { d with nodes := d.nodes.erase id } o ≤ rewardsHeld d o := by
      have hrow : 0 ≤ (d.nodes.lookup id).elim 0
          (fun m => if m.owner = o then m.pendingRewards else 0) := by
        cases hl : d.nodes.lookup id with
        | none => exact le_rfl
        | some m => exact ite_nonneg (h.nodes id m hl) le_rfl
      linarith [rewardsHeld_erase d id o]
    cases hw with
    | register r trusted balance n row =>
      refine hstore _ _ fun m hm => ?_
      simpa [SyncRequest.keepsOwner, hm, registerRow_owner row] using hown
    | heartbeat id g b trusted n row =>
      refine hstore _ _ fun m hm => ?_
      cases row.symm.trans hm
      simp
    | contribution id units n row =>
      refine hstore _ _ fun m hm => ?_
      cases row.symm.trans hm
      simp
    | infraReport r =>
      refine hstore _ _ fun m hm => ?_
      simpa [SyncRequest.keepsOwner, hm] using hown
    | inferenceReport r =>
      refine hstore _ _ fun m hm => ?_
      simpa [SyncRequest.keepsOwner, hm] using hown
    | removeNode id | adminRemoveNode id =>
      simp only [tally_nil, add_zero]
      exact herase id
    | _ =>
      simp only [tally_cons, tally_nil, rewardsCredited, add_zero]
      exact le_rfl
  sync_paid now d r db evs hw := by
    cases hw <;> simp [claimPaid, rewardEvent]
  sync_put now d r db evs hw h := by
    cases hw with
    | _ =>
      simp only [tally_cons, tally_nil, rewardEvent, rewardsCredited, add_zero]
      first | exact le_rfl | exact ite_nonneg (le_max_left _ _) le_rfl

/-- A payout that landed is told so and saved, and no report takes a node from
its owner. -/
def regular (s : State) (a : Action) : Bool :=
  payoutClear s a &&
    match a with
    | .sync r _ => r.keepsOwner (loadDB s.disk)
    | _ => true

theorem regular_admits {o : Wallet} {s : State} {a : Action} (h : regular s a = true) :
    (stakePurse cfg chain o).admits s a = true ∧ (rewardsPurse cfg chain o).admits s a = true := by
  refine ⟨?_, h⟩
  simp only [regular, Bool.and_eq_true] at h
  simp only [Purse.admits, h.1, Bool.true_and]
  cases a <;> rfl

/-- The unstakes of `o` paid no more than its stakes put in and accrued, and its
claims no more than was credited to its nodes. -/
structure PaidWithin (o : Wallet) (s₀ s : State) : Prop where
  stake : tally (unstakePaid o) s.log ≤
    stakeWorth s₀.disk o + tally (principalPut o) s.log + tally (rewardsAccrued o) s.log
  rewards : tally (claimPaid o) s.log ≤ rewardsHeld s₀.disk o + tally (rewardsCredited o) s.log

/-- A save by a request of another lock does not put back a balance of `o` that
the file no longer holds. -/
def keepsBalances (cfg : Config) (chain : Chain) (o : Wallet) (s : State) (a : Action) : Bool :=
  (commit cfg chain s a).all fun c =>
    c.1.staker == some o ||
      (decide (stakeWorth c.2.1 o ≤ stakeWorth s.disk o) &&
        decide (rewardsHeld c.2.1 o ≤ rewardsHeld s.disk o))

theorem keepsBalances_kept {o : Wallet} {s : State} {a : Action}
    (h : keepsBalances cfg chain o s a = true) :
    (stakePurse cfg chain o).Kept s a ∧ (rewardsPurse cfg chain o).Kept s a := by
  have hboth (r : Request) (base db : DB) (hm : commit cfg chain s a = some (r, base, db))
      (hr : r.staker ≠ some o) :
      stakeWorth base o ≤ stakeWorth s.disk o ∧ rewardsHeld base o ≤ rewardsHeld s.disk o := by
    simpa [keepsBalances, hm, hr] using h
  exact ⟨fun r base db hm hr => (hboth r base db hm hr).1,
    fun r base db hm hr => (hboth r base db hm hr).2⟩

theorem tally_stakePut (o : Wallet) (log : List Event) :
    tally (stakePut o) log = tally (principalPut o) log + tally (rewardsAccrued o) log := by
  induction log with
  | nil => simp
  | cons e log ih =>
    simp only [tally_cons, ih, stakePut]
    ring

/-- A file in which `o` runs one node, last heard of when the sample runs begin. -/
def oneNodeFile (o : Wallet) : DB :=
  { DB.empty with
    nodes := (∅ : Table NodeId NodeRow).insert "node" { newNode o 1700000000 with lastReport := some 1700000000 } }

theorem oneNodeFile_nonNeg (o : Wallet) : (oneNodeFile o).NonNeg := by
  refine ⟨fun w p h => (by cases h), fun id n h => ?_⟩
  by_cases hid : id = "node"
  · subst hid
    rw [oneNodeFile, AList.lookup_insert] at h
    cases h
    exact le_rfl
  · rw [oneNodeFile, AList.lookup_insert_ne hid] at h
    cases h

/-- A chain on which every signature moved ten tokens from `A` into the vault. -/
def tenFromA : Chain := fun _ => vaultTransfer defaultConfig "A" 10000000

/-- A stake of ten by `A`, verified and credited. -/
def stakeTen : List Action :=
  [.submit (.stake "A" (.truthy (.fin 10)) "sig"), .start 0 1700000000000, .verified 0 true 1700000000000 true]

def unstakeAfterStake : List Action :=
  stakeTen ++ [.submit (.unstake "A" .falsy), .start 1 1700000000000, .lands 1, .settled 1 true true]

/-- A faucet request loads the file, `A` unstakes in full, the faucet saves the
file it loaded, and `A` unstakes in full again. -/
def staleFaucetRun : List Action :=
  stakeTen ++
    [.submit (.faucet "B"), .start 1 1700000000000, .probed 1 true,
      .submit (.unstake "A" .falsy), .start 2 1700000000000, .lands 2, .settled 2 true true,
      .lands 1, .settled 1 true true,
      .submit (.unstake "A" .falsy), .start 3 1700000000000, .lands 3]

end KvasirNet.Gateway
