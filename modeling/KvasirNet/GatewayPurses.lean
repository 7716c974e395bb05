import KvasirNet.GatewayBalances

/-! Balances that only their owner's requests spend. The stake of an owner and
the rewards of its nodes follow the same rules, so what is paid out of them is
bounded once, for any such balance. -/
namespace KvasirNet.Gateway

variable {cfg : Config} {chain : Chain} {o : Wallet} {s s' : State} {a : Action}

/-- The request leaves every stored node with the owner it has. -/
def SyncRequest.keepsOwner (d : DB) : SyncRequest → Bool
  | .register r _ _ => (d.nodes.lookup r.nodeId).all fun n => n.owner == r.owner
  | .infraReport r => (d.nodes.lookup r.nodeId).all fun n => n.owner == r.owner
  | .inferenceReport r => (d.nodes.lookup r.nodeId).all fun n => n.owner == r.owner
  | _ => true

/-- A balance of `o`: what a database holds of it, what a suspended task of `o`
would leave of it, the events that pay out of it and into it, and the
synchronous requests that move none of it between owners. -/
structure Purse (cfg : Config) (chain : Chain) (o : Wallet) where
  held : DB → ℚ
  left : Phase → ℚ
  paid : Event → ℚ
  put : Event → ℚ
  keeps : DB → SyncRequest → Bool
  held_nonneg : ∀ db, db.NonNeg → 0 ≤ held db
  held_loadDB : ∀ db, held (loadDB db) = held db
  held_debit : ∀ db w m u now, held (debitCredits db w m u now) = held db
  left_unpaid : ∀ ph db, ph.snapshot = some db → ph.landed = false → left ph = held db
  left_nonneg : ∀ r ph db, Coherent cfg r ph → ph.snapshot = some db → db.NonNeg → 0 ≤ left ph
  landing_own : ∀ r db p, Coherent cfg r (.paying db p true) → r.staker = some o →
    tally paid (p.landing cfg db) + left (.paying db p true) ≤
      held db + tally put (p.landing cfg db)
  landing_other : ∀ r db p, Coherent cfg r (.paying db p true) → r.staker ≠ some o →
    tally paid (p.landing cfg db) = 0
  landing_put : ∀ r db p, Coherent cfg r (.paying db p true) → db.NonNeg →
    0 ≤ tally put (p.landing cfg db)
  commit_own : ∀ r ph base db evs, Commits cfg chain r ph db evs → ph.snapshot = some base →
    base.NonNeg → r.staker = some o → held db ≤ left ph + tally put evs
  commit_other : ∀ r ph base db evs, Commits cfg chain r ph db evs → ph.snapshot = some base →
    r.staker ≠ some o → held db = held base
  commit_paid : ∀ r ph db evs, Commits cfg chain r ph db evs → tally paid evs = 0
  commit_put : ∀ r ph base db evs, Commits cfg chain r ph db evs → ph.snapshot = some base →
    base.NonNeg → 0 ≤ tally put evs
  sync_held : ∀ now d r db evs, Writes cfg now d r db evs → d.NonNeg → keeps d r = true →
    held db ≤ held d + tally put evs
  sync_paid : ∀ now d r db evs, Writes cfg now d r db evs → tally paid evs = 0
  sync_put : ∀ now d r db evs, Writes cfg now d r db evs → d.NonNeg → 0 ≤ tally put evs

/-- No transfer of `o` is waiting to be recorded. -/
def Settled (o : Wallet) (tasks : List Task) : Prop :=
  ∀ (i : ℕ) r ph, tasks[i]? = some ⟨r, ph⟩ → r.staker = some o → ph.landed = false

/-- What has been paid is covered: by what a running task of the owner leaves,
and by the file while no transfer of the owner is waiting to be recorded. -/
structure Purse.Covered (P : Purse cfg chain o) (b : ℚ) (s : State) : Prop where
  running : ∀ (i : ℕ) r ph, s.tasks[i]? = some ⟨r, ph⟩ → r.staker = some o → ph.isRunning = true →
    tally P.paid s.log + P.left ph ≤ b + tally P.put s.log
  idle : Settled o s.tasks →
    tally P.paid s.log + P.held s.disk ≤ b + tally P.put s.log

/-- A payout that landed is told so and saved, and no report moves a part of the
purse to or from another owner. -/
def Purse.admits (P : Purse cfg chain o) (s : State) (a : Action) : Bool :=
  payoutClear s a &&
    match a with
    | .sync r _ => P.keeps (loadDB s.disk) r
    | _ => true

/-- A save by another request does not put back more of the purse than the file holds. -/
def Purse.Kept (P : Purse cfg chain o) (s : State) (a : Action) : Prop :=
  ∀ r base db, commit cfg chain s a = some (r, base, db) → r.staker ≠ some o →
    P.held base ≤ P.held s.disk

theorem Settled.of_set {tasks : List Task} {i : ℕ} {r : Request} {ph ph' : Phase}
    (h : Settled o (tasks.set i ⟨r, ph'⟩)) (task : tasks[i]? = some ⟨r, ph⟩)
    (hi : r.staker = some o → ph.landed = false) : Settled o tasks := by
  intro j r' ph₁ hj hr'
  by_cases hji : j = i
  · subst hji
    cases task.symm.trans hj
    exact hi hr'
  · refine h j r' ph₁ ?_ hr'
    rw [getElem?_setTask task, if_neg hji, hj]

theorem Purse.Covered.set {P : Purse cfg chain o} {b : ℚ} (hP : P.Covered b s) {i : ℕ} {r : Request}
    {ph ph' : Phase} (task : s.tasks[i]? = some ⟨r, ph⟩)
    (unpaid : r.staker = some o → ph.landed = false) {d : DB}
    (hd : P.held d = P.held s.disk)
    (hrun : r.staker = some o → ph'.isRunning = true →
      tally P.paid s.log + P.left ph' ≤ b + tally P.put s.log) :
    P.Covered b { s with disk := d, tasks := s.tasks.set i ⟨r, ph'⟩ } := by
  refine ⟨fun j r₁ ph₁ hj hr₁ hrun₁ => ?_, fun hidle => ?_⟩
  · dsimp only at hj ⊢
    rw [getElem?_setTask task] at hj
    split_ifs at hj with hji
    · cases hj
      exact hrun hr₁ hrun₁
    · exact hP.running j r₁ ph₁ hj hr₁ hrun₁
  · have hold := hP.idle (Settled.of_set hidle task unpaid)
    dsimp only
    rwa [hd]

theorem settled_of_lockFree {tasks : List Task} {i : ℕ} {r : Request} (hl : LockOrdered tasks)
    (task : tasks[i]? = some ⟨r, .waiting⟩) (free : lockFree tasks i r.lockKey = true)
    (hr : r.staker = some o) : Settled o tasks := by
  have hkey := Request.lockKey_of_staker hr
  intro j r' ph hj hr'
  have hkey' := Request.lockKey_of_staker hr'
  have hland (hdone : ph.isDone = true) : ph.landed = false := by
    cases ph <;> first | rfl | cases hdone
  -- an earlier task is done because the lock is free, a later one still waits
  by_cases hw : ph = .waiting
  · subst hw
    rfl
  · rcases lt_trichotomy j i with hji | rfl | hij
    · exact hland (lockFree_done (hkey ▸ free) hji hj hkey')
    · cases task.symm.trans hj
      exact absurd rfl hw
    · have hdone := hl i j _ _ o hij task hj hkey hkey' hw
      cases hdone

theorem moves_covered (P : Purse cfg chain o) {b : ℚ}
    (hn : s.Every DB.NonNeg) (hl : LockOrdered s.tasks) (hreg : P.admits s a = true)
    (hk : P.Kept s a) (hP : P.Covered b s)
    (hc' : ∀ t ∈ s'.tasks, Coherent cfg t.request t.phase) (h : Moves cfg chain s a s') :
    P.Covered b s' := by
  simp only [Purse.admits, Bool.and_eq_true] at hreg
  obtain ⟨hclear, hown⟩ := hreg
  cases h with
  | refused => exact hP
  | submit r pre =>
    refine ⟨fun j r₁ ph₁ hj hr₁ hrun => ?_, fun hidle => hP.idle fun j r₁ ph₁ hj hr₁ => ?_⟩
    · rcases getElem?_append_task hj with hj | ⟨-, he⟩
      · exact hP.running j r₁ ph₁ hj hr₁ hrun
      · cases he
        cases hrun
    · refine hidle j r₁ ph₁ ?_ hr₁
      exact (List.getElem?_append_left (List.getElem?_eq_some_iff.mp hj).1).trans hj
  | enter i now r ph task free entered next unpaid =>
    -- the owner's lock is free, so the snapshot just loaded is the idle balance
    refine hP.set task (fun _ => rfl) rfl fun hr _ => ?_
    have hsnap : ph.snapshot = some (loadDB s.disk) := by
      rcases next.2 with hs | rfl
      · exact hs
      · have hchat := next.1
        cases hchat
        cases hr
    rw [P.left_unpaid ph _ hsnap unpaid, P.held_loadDB]
    exact hP.idle (settled_of_lockFree hl task free hr)
  | await _ i r ph ph' db task held next unpaid unpaid' =>
    refine hP.set task (fun _ => unpaid) rfl fun hr _ => ?_
    rw [P.left_unpaid ph' db next unpaid', ← P.left_unpaid ph db held unpaid]
    exact hP.running i r ph task hr (Phase.running_of_snapshot held)
  | lands i r db p task can =>
    have hcoh : Coherent cfg r (.paying db p true) :=
      hc' _ (List.mem_of_getElem? ((getElem?_setTask task _ i).trans (if_pos rfl)))
    have hput := P.landing_put r db p hcoh (hn.snapshots _ (List.mem_of_getElem? task) db rfl)
    refine ⟨fun j r₁ ph₁ hj hr₁ hrun => ?_, fun hidle => ?_⟩
    · dsimp only at hj ⊢
      rw [getElem?_setTask task] at hj
      rw [tally_append, tally_append]
      split_ifs at hj with hji
      · cases hj
        have hold := hP.running i r _ task hr₁ rfl
        rw [P.left_unpaid _ db rfl rfl] at hold
        linarith [P.landing_own r db p hcoh hr₁]
      · have hold := hP.running j r₁ ph₁ hj hr₁ hrun
        -- the owner's lock admits one running task, so this transfer is not the owner's
        have hother : r.staker ≠ some o := fun hr =>
          hji (hl.unique hj task (Request.lockKey_of_staker hr₁) (Request.lockKey_of_staker hr)
            hrun rfl)
        linarith [P.landing_other r db p hcoh hother]
    · dsimp only at hidle ⊢
      rw [tally_append, tally_append]
      have hother : r.staker ≠ some o := fun hr => by
        have hland := hidle i r _ ((getElem?_setTask task _ i).trans (if_pos rfl)) hr
        cases hland
      have hold := hP.idle (Settled.of_set hidle task fun _ => rfl)
      linarith [P.landing_other r db p hcoh hother]
  | commit _ i r ph base db evs ans task held save made =>
    have hbase : base.NonNeg := hn.snapshots _ (List.mem_of_getElem? task) base held
    have hput := P.commit_put r ph base db evs save held hbase
    have hpaid := P.commit_paid r ph db evs save
    refine ⟨fun j r₁ ph₁ hj hr₁ hrun => ?_, fun hidle => ?_⟩
    · dsimp only at hj ⊢
      rw [getElem?_setTask task] at hj
      rw [tally_append, tally_append]
      split_ifs at hj with hji
      · cases hj
        cases hrun
      · linarith [hP.running j r₁ ph₁ hj hr₁ hrun]
    · -- the owner's own save writes what its task had left; any other save puts
      -- back its snapshot, which holds no more than the file did
      dsimp only at hidle ⊢
      rw [tally_append, tally_append]
      by_cases hr : r.staker = some o
      · have hold := hP.running i r ph task hr (Phase.running_of_snapshot held)
        linarith [P.commit_own r ph base db evs save held hbase hr]
      · have hold := hP.idle (Settled.of_set hidle task fun h => absurd h hr)
        have hkeep := hk r base db made hr
        linarith [P.commit_other r ph base db evs save held hr]
  | stop _ i r ph ans task active free thrown =>
    -- an admitted step does not forget a transfer that landed
    refine hP.set task (fun hr => ?_) rfl fun _ hrun => by cases hrun
    by_contra hland
    rcases (thrown (by simpa using hland)).1 with h | h
    · cases h.symm.trans hr
    · simp [h] at hclear
  | completed i w ip m u now task =>
    refine hP.set task (fun _ => rfl) ?_ fun _ hrun => by cases hrun
    cases u with
    | none => rfl
    | some u => exact (P.held_debit _ _ _ _ _).trans (P.held_loadDB _)
  | sync r now db evs write saved =>
    have hload := loadDB_nonNeg hn.disk
    have hput := P.sync_put now _ r db evs write hload
    have hpaid := P.sync_paid now _ r db evs write
    refine ⟨fun j r₁ ph₁ hj hr₁ hrun => ?_, fun hidle => ?_⟩
    · rw [tally_append, tally_append]
      linarith [hP.running j r₁ ph₁ hj hr₁ hrun]
    · dsimp only
      rw [tally_append, tally_append]
      have hheld := P.sync_held now _ r db evs write hload hown
      rw [P.held_loadDB] at hheld
      linarith [hP.idle hidle]

theorem Purse.run_paid_le (P : Purse cfg chain o) {s₀ s : State} {as : List Action}
    (h₀ : s₀.Initial) (hn : s₀.disk.NonNeg)
    (hreg : Along (step cfg chain) (fun s a => P.admits s a = true ∧ P.Kept s a) s₀ as)
    (hrun : runs (step cfg chain) s₀ as = some s) :
    tally P.paid s.log ≤ P.held s₀.disk + tally P.put s.log := by
  have hstart : s₀.WellFormed cfg ∧ s₀.Every DB.NonNeg ∧ P.Covered (P.held s₀.disk) s₀ := by
    refine ⟨h₀.wellFormed, ⟨hn, fun t ht => ?_⟩, fun i r ph hi => ?_, fun _ => ?_⟩
    · simp [h₀.tasks_nil] at ht
    · simp [h₀.tasks_nil] at hi
    · simp [h₀.log_nil]
  obtain ⟨hwf, hnn, hP⟩ := runs_invariant
    (I := fun s => s.WellFormed cfg ∧ s.Every DB.NonNeg ∧ P.Covered (P.held s₀.disk) s)
    (fun s a s' hp hi h => by
      obtain ⟨hwf, hnn, hP⟩ := hi
      have hwf' := step_wellFormed hwf h
      exact ⟨hwf', step_nonNeg hwf.coherent hnn h,
        moves_covered P hnn hwf.ordered hp.1 hp.2 hP hwf'.coherent (step_moves hwf.coherent h)⟩)
    hreg hrun hstart
  by_cases hset : Settled o s.tasks
  · linarith [hP.idle hset, P.held_nonneg s.disk hnn.disk]
  · -- the task whose transfer is open leaves no less than nothing
    simp only [Settled, not_forall, Bool.not_eq_false] at hset
    obtain ⟨i, r, ph, hi, hr, hland⟩ := hset
    have hmem := List.mem_of_getElem? hi
    cases ph with
    | paying db p landed =>
      have hleft := P.left_nonneg r _ db (hwf.coherent _ hmem) rfl (hnn.snapshots _ hmem db rfl)
      linarith [hP.running i r _ hi hr rfl]
    | waiting | verifying | probing | inferring | completing | done => cases hland

end KvasirNet.Gateway
