import KvasirNet.GatewayCoherence
import KvasirNet.GatewayWrites

/-! The moves of the gateway, one case for each thing a step can do to the file,
the tasks and the money trail, and the mutual exclusion that `withLock` gives:
of the tasks with one key, at most one is past the head of its queue. -/
namespace KvasirNet.Gateway

variable {cfg : Config} {chain : Chain} {s s' : State} {a : Action}

/-- A payout of the task has landed and is not yet recorded. -/
def Phase.landed : Phase → Bool
  | .paying _ _ landed => landed
  | _ => false

def Phase.isRunning : Phase → Bool
  | .waiting | .done _ => false
  | _ => true

/-- The owner whose stake or rewards a request pays out, under the owner's lock. -/
def Request.staker : Request → Option Wallet
  | .stake o _ _ | .unstake o _ | .claim o => some o
  | _ => none

/-- An unstake or claim whose transfer landed is told so, and saves. -/
def payoutClear (s : State) : Action → Bool
  | .settled i ok saveOk =>
    s.tasks[i]?.all fun t => !t.phase.landed || t.request.staker.isNone || (ok && saveOk)
  | _ => true

/-- A refund that landed is saved, whatever the payer's transfer reported. -/
def refundSaved (s : State) : Action → Bool
  | .settled i _ saveOk =>
    s.tasks[i]?.all fun t => !t.phase.landed || t.request.signature.isNone || saveOk
  | _ => true

inductive Moves (cfg : Config) (chain : Chain) (s : State) : Action → State → Prop
  | refused (a : Action) : Moves cfg chain s a s
  | submit (r : Request) (pre : r.precheck cfg (loadDB s.disk) = .ok ()) :
      Moves cfg chain s (.submit r) { s with tasks := s.tasks ++ [⟨r, .waiting⟩] }
  | enter (i now : ℕ) (r : Request) (ph : Phase) (task : s.tasks[i]? = some ⟨r, .waiting⟩)
      (free : lockFree s.tasks i r.lockKey = true)
      (entered : r.begin cfg now (loadDB s.disk) = .wait ph)
      (next : Continues cfg r (loadDB s.disk) ph) (unpaid : ph.landed = false) :
      Moves cfg chain s (.start i now) (s.setTask i ⟨r, ph⟩)
  | await (a : Action) (i : ℕ) (r : Request) (ph ph' : Phase) (db : DB)
      (task : s.tasks[i]? = some ⟨r, ph⟩) (held : ph.snapshot = some db)
      (next : ph'.snapshot = some db) (unpaid : ph.landed = false) (unpaid' : ph'.landed = false) :
      Moves cfg chain s a (s.setTask i ⟨r, ph'⟩)
  | lands (i : ℕ) (r : Request) (db : DB) (p : Payout)
      (task : s.tasks[i]? = some ⟨r, .paying db p false⟩) (can : p.canLand cfg = true) :
      Moves cfg chain s (.lands i)
        { s with
          tasks := s.tasks.set i ⟨r, .paying db p true⟩
          log := p.landing cfg db ++ s.log }
  | commit (a : Action) (i : ℕ) (r : Request) (ph : Phase) (base db : DB) (evs : List Event)
      (ans : Response) (task : s.tasks[i]? = some ⟨r, ph⟩) (held : ph.snapshot = some base)
      (save : Commits cfg chain r ph db evs) (made : commit cfg chain s a = some (r, base, db)) :
      Moves cfg chain s a
        { disk := db
          tasks := s.tasks.set i ⟨r, .done ans⟩
          log := evs ++ s.log }
  | stop (a : Action) (i : ℕ) (r : Request) (ph : Phase) (ans : Response)
      (task : s.tasks[i]? = some ⟨r, ph⟩) (active : ph = .waiting ∨ ∃ db, ph.snapshot = some db)
      (free : ph = .waiting → lockFree s.tasks i r.lockKey = true)
      (thrown : ph.landed = true → (r.staker = none ∨ payoutClear s a = false) ∧
        (r.signature = none ∨ refundSaved s a = false)) :
      Moves cfg chain s a (s.setTask i ⟨r, .done ans⟩)
  | completed (i : ℕ) (w : Wallet) (ip : Bool) (m : ModelId) (u : Option TokenUsage) (now : ℕ)
      (task : s.tasks[i]? = some ⟨.chat w ip, .completing⟩) :
      Moves cfg chain s (.completed i m u now)
        { s with
          disk := u.elim s.disk fun u => debitCredits (loadDB s.disk) w m u (now / 1000)
          tasks := s.tasks.set i ⟨.chat w ip, .done .ok⟩ }
  | sync (r : SyncRequest) (now : ℕ) (db : DB) (evs : List Event)
      (write : Writes cfg now (loadDB s.disk) r db evs)
      (saved : ∃ out, r.apply cfg now (loadDB s.disk) = .ok out ∧ out.db = some db) :
      Moves cfg chain s (.sync r now) { s with disk := db, log := evs ++ s.log }

variable {ph : Phase}

theorem begin_unpaid {r : Request} {now : ℕ} {db : DB}
    (h : r.begin cfg now db = .wait ph) : ph.landed = false := by
  cases r <;> simp only [Request.begin, refuse] at h <;> (repeat' split at h) <;> cases h <;> rfl

theorem refundOrFail_unpaid {db : DB} {rid : RequestId} {sig : Signature} {r : PayRequest}
    {use : SignatureUse} {error : String}
    (h : refundOrFail db rid sig r use error = .wait ph) : ph.landed = false := by
  unfold refundOrFail at h
  split at h
  · cases h
    rfl
  · cases h

variable {ρ : Resumption}

theorem resumption_unpaid {ph₀ : Phase} (h : resumption cfg chain s a = some ρ)
    (ht : s.tasks[ρ.index]? = some ⟨ρ.request, ph₀⟩) (ho : ρ.outcome = .wait ph) :
    ph₀.landed = false ∧ ph.landed = false := by
  obtain ⟨ph₁, ht₁, hcase⟩ := resumption_cases h
  obtain rfl : ph₁ = ph₀ := by simpa using ht₁.symm.trans ht
  rcases hcase with ⟨rfl, -, -, now, hout⟩ | ⟨rfl, found, now, hout⟩ |
    ⟨addr, now, existed, -, rfl, hout⟩ | ⟨rid, sig, r, use, answer, -, rfl, hout⟩ |
    ⟨p, landed, ok, -, -, -, hout⟩
  · exact ⟨rfl, begin_unpaid (hout.symm.trans ho)⟩
  · refine ⟨rfl, ?_⟩
    rw [hout] at ho
    cases hr : ρ.request <;> simp only [hr, Request.verified, stakeVerified, depositVerified,
      paymentVerified, refuse] at ho <;> (repeat' split at ho) <;>
      first | exact refundOrFail_unpaid ho | (cases ho <;> rfl)
  · refine ⟨rfl, ?_⟩
    rw [hout, faucetProbed] at ho
    split_ifs at ho
    · cases ho
    · cases ho
      rfl
  · refine ⟨rfl, ?_⟩
    rw [hout] at ho
    cases answer with
    | error e => exact refundOrFail_unpaid ho
    | ok ans => cases ho
  · -- a settled payout stops or saves
    exfalso
    rw [hout] at ho
    cases p <;> simp only [Payout.settled, refuse] at ho <;> (repeat' split at ho) <;> cases ho

theorem resumption_held (h : resumption cfg chain s a = some ρ)
    (ht : s.tasks[ρ.index]? = some ⟨ρ.request, ph⟩) :
    (ph = .waiting ∧ lockFree s.tasks ρ.index ρ.request.lockKey = true ∧
      ∃ now, a = .start ρ.index now ∧ ρ.snapshot = loadDB s.disk ∧
        ρ.outcome = ρ.request.begin cfg now (loadDB s.disk)) ∨
    ph.snapshot = some ρ.snapshot := by
  cases a with
  | start i now =>
    simp only [resumption] at h
    split at h
    · rename_i r hi
      split_ifs at h with hl
      cases h
      obtain rfl : Phase.waiting = ph := by simpa using hi.symm.trans ht
      exact Or.inl ⟨rfl, hl, now, rfl, rfl, rfl⟩
    · cases h
  | settled i ok saveOk =>
    simp only [resumption] at h
    split at h
    · rename_i hi
      split_ifs at h
      cases h
      obtain rfl := (Task.mk.inj (Option.some.inj (hi.symm.trans ht))).2
      exact Or.inr rfl
    · cases h
  | verified | probed | inferred =>
    simp only [resumption] at h
    split at h
    · rename_i hi
      cases h
      obtain rfl := (Task.mk.inj (Option.some.inj (hi.symm.trans ht))).2
      exact Or.inr rfl
    · cases h
  | submit | lands | completed | sync => simp [resumption] at h

theorem resumption_landed (h : resumption cfg chain s a = some ρ)
    (ht : s.tasks[ρ.index]? = some ⟨ρ.request, ph⟩) (hl : ph.landed = true) :
    ∃ p ok, ph = .paying ρ.snapshot p true ∧ a = .settled ρ.index ok ρ.saveOk ∧
      ρ.outcome = p.settled ρ.snapshot ok := by
  obtain ⟨ph₀, ht₀, hcase⟩ := resumption_cases h
  obtain rfl : ph₀ = ph := by simpa using ht₀.symm.trans ht
  rcases hcase with ⟨rfl, -⟩ | ⟨rfl, -⟩ | ⟨_, _, _, -, rfl, -⟩ | ⟨_, _, _, _, _, -, rfl, -⟩ |
    ⟨p, landed, ok, rfl, -, ha, hout⟩
  · cases hl
  · cases hl
  · cases hl
  · cases hl
  · obtain rfl : landed = true := hl
    exact ⟨p, ok, rfl, ha, hout⟩

/-- A task that stops after its payout landed was told that it failed; a refund
never stops, it records the failure. -/
theorem resumption_thrown {ans : Response}
    (hc : ∀ t ∈ s.tasks, Coherent cfg t.request t.phase) (h : resumption cfg chain s a = some ρ)
    (ht : s.tasks[ρ.index]? = some ⟨ρ.request, ph⟩) (ho : ρ.outcome = .stop ans)
    (hl : ph.landed = true) :
    (ρ.request.staker = none ∨ payoutClear s a = false) ∧ ρ.request.signature = none := by
  have hcoh : Coherent cfg ρ.request ph := hc _ (List.mem_of_getElem? ht)
  obtain ⟨p, ok, rfl, ha, hout⟩ := resumption_landed h ht hl
  -- whoever is told that its landed payout failed breaks `payoutClear`
  have hthrew (hok : ok = false) : ρ.request.staker = none ∨ payoutClear s a = false := by
    subst hok
    rw [ha]
    cases hst : ρ.request.staker with
    | none => exact Or.inl rfl
    | some o => simp [payoutClear, ht, Phase.landed, hst]
  rw [hout] at ho
  generalize ρ.request = r at hcoh hthrew
  cases hcoh with
  | unstake o amt db pos now landed row active finite =>
    obtain ⟨out, hq⟩ := Option.isSome_iff_exists.mp (finite rfl)
    refine ⟨hthrew ?_, rfl⟩
    cases ok with
    | false => rfl
    | true => simp [Payout.settled, hq] at ho
  | claim o db landed | faucet addr db existed now landed =>
    refine ⟨hthrew ?_, rfl⟩
    cases ok with
    | false => rfl
    | true => cases ho
  -- a refund saves in either case
  | refund rid sig db r payer usedAt error landed row unpaid unused => cases ho

theorem commit_of_resumption {db : DB} {evs : List Event} {ans : Response}
    (h : resumption cfg chain s a = some ρ) (ho : ρ.outcome = .save db evs ans)
    (hok : ρ.saveOk = true) : commit cfg chain s a = some (ρ.request, ρ.snapshot, db) := by
  obtain ⟨i, r, base, out, saveOk⟩ := ρ
  obtain rfl : out = .save db evs ans := ho
  obtain rfl : saveOk = true := hok
  simp [commit, h]

theorem step_moves (hc : ∀ t ∈ s.tasks, Coherent cfg t.request t.phase)
    (h : step cfg chain s a = some s') : Moves cfg chain s a s' := by
  rcases step_cases h with ⟨r, rfl, rfl | ⟨hpre, rfl⟩⟩ | ⟨i, r, db, p, rfl, ht, hcan, rfl⟩ |
    ⟨i, w, ip, m, u, now, rfl, ht, rfl⟩ | ⟨r, now, rfl, rfl | ⟨out, hout, rfl⟩⟩ | ⟨ρ, hρ, rfl⟩
  · exact .refused _
  · exact .submit r hpre
  · exact .lands i r db p ht hcan
  · exact .completed i w ip m u now ht
  · exact .refused _
  · -- a handler that answered without saving changes nothing
    cases hdb : out.db with
    | none =>
      simp only [Option.getD_none, apply_unsaved hout hdb, List.nil_append]
      exact .refused _
    | some db => exact .sync r now db out.events (apply_writes hout hdb) ⟨out, hout, hdb⟩
  · obtain ⟨ph, ht, -⟩ := resumption_cases hρ
    have hactive : ph = .waiting ∨ ∃ db, ph.snapshot = some db :=
      (resumption_held hρ ht).imp And.left fun hsnap => ⟨_, hsnap⟩
    have hfree : ph = .waiting → lockFree s.tasks ρ.index ρ.request.lockKey = true := by
      rintro rfl
      rcases resumption_held hρ ht with ⟨-, hfree, -⟩ | hsnap
      · exact hfree
      · cases hsnap
    unfold State.resume
    split
    · rename_i ans ho
      refine .stop a _ _ ph ans ht hactive hfree fun hl => ?_
      obtain ⟨hclear, hsig⟩ := resumption_thrown hc hρ ht ho hl
      exact ⟨hclear, Or.inl hsig⟩
    · rename_i ph' ho
      have hnext := resumption_wait hc hρ ho
      obtain ⟨hun, hun'⟩ := resumption_unpaid hρ ht ho
      rcases resumption_held hρ ht with ⟨rfl, -, now, rfl, hsnap, hout⟩ | hsnap
      · rw [hsnap] at hnext
        exact .enter _ now _ ph' ht (hfree rfl) (hout.symm.trans ho) hnext hun'
      · rcases hnext.2 with hkeep | rfl
        · exact .await a _ _ ph ph' _ ht hsnap hkeep hun hun'
        · -- only a chat completion waits without a snapshot, and it never held one
          have hcoh : Coherent cfg ρ.request ph := hc _ (List.mem_of_getElem? ht)
          have hchat := hnext.1
          generalize ρ.request = r at hcoh hchat
          cases hchat
          cases hcoh <;> cases hsnap
    · rename_i db evs ans ho
      obtain ⟨ph₁, ht₁, hsnap, hsave⟩ := resumption_save hc hρ ho
      split_ifs with hok
      · exact .commit a _ _ ph₁ _ db evs ans ht₁ hsnap hsave (commit_of_resumption hρ ho hok)
      · -- the save threw: what landed before it is forgotten
        refine .stop a _ _ ph _ ht hactive hfree fun hl => ?_
        obtain ⟨p, ok, rfl, ha, -⟩ := resumption_landed hρ ht hl
        rw [ha]
        constructor
        · cases hst : ρ.request.staker with
          | none => exact Or.inl rfl
          | some o => simp [payoutClear, ht, Phase.landed, hst, hok]
        · cases hsig : ρ.request.signature with
          | none => exact Or.inl rfl
          | some sig => simp [refundSaved, ht, Phase.landed, hsig, hok]

variable {tasks : List Task}

theorem getElem?_setTask {i : ℕ} {t : Task} (h : tasks[i]? = some t) (u : Task)
    (j : ℕ) : (tasks.set i u)[j]? = if j = i then some u else tasks[j]? := by
  have hi : i < tasks.length := (List.getElem?_eq_some_iff.mp h).1
  rw [List.getElem?_set]
  by_cases hj : i = j
  · subst hj
    simp [hi]
  · have hj' : ¬ j = i := fun h => hj h.symm
    simp [hj, hj']

theorem getElem?_append_task {u t : Task} {j : ℕ}
    (h : (tasks ++ [u])[j]? = some t) : tasks[j]? = some t ∨ j = tasks.length ∧ t = u := by
  rw [List.getElem?_append] at h
  split_ifs at h with hj
  · exact Or.inl h
  · have hj0 : j - tasks.length = 0 := by
      by_contra hne
      rw [List.getElem?_eq_none (by simpa using Nat.one_le_iff_ne_zero.mpr hne)] at h
      cases h
    rw [hj0] at h
    exact Or.inr ⟨by omega, by simpa using h.symm⟩

theorem Phase.running_of_snapshot {db : DB} (h : ph.snapshot = some db) :
    ph.isRunning = true := by
  cases ph <;> first | rfl | cases h

theorem Phase.active_of_running (h : ph.isRunning = true) :
    ph.isDone = false ∧ ph ≠ .waiting := by
  cases ph with
  | waiting | done => cases h
  | verifying | probing | inferring | paying | completing => simp [Phase.isDone]

theorem Phase.active_of_resumed (h : ph = .waiting ∨ ∃ db, ph.snapshot = some db) :
    ph.isDone = false := by
  rcases h with rfl | ⟨db, hsnap⟩
  · rfl
  · exact (Phase.active_of_running (Phase.running_of_snapshot hsnap)).1

/-- How a move changes the tasks: not at all, by a new one at the end, or by
moving one that is not done on from where it was. -/
theorem moves_tasks (h : Moves cfg chain s a s') :
    s'.tasks = s.tasks ∨ (∃ r, s'.tasks = s.tasks ++ [⟨r, .waiting⟩]) ∨
    ∃ i r ph ph', s.tasks[i]? = some ⟨r, ph⟩ ∧ ph.isDone = false ∧ ph' ≠ .waiting ∧
      (ph = .waiting → lockFree s.tasks i r.lockKey = true) ∧
      s'.tasks = s.tasks.set i ⟨r, ph'⟩ := by
  have hheld {ph : Phase} {db : DB} (hs : ph.snapshot = some db) :=
    Phase.active_of_running (Phase.running_of_snapshot hs)
  cases h with
  | refused => exact Or.inl rfl
  | submit r pre => exact Or.inr (Or.inl ⟨r, rfl⟩)
  | enter i now r ph task free entered next unpaid =>
    refine Or.inr (Or.inr ⟨i, r, _, ph, task, rfl, ?_, fun _ => free, rfl⟩)
    rcases next.2 with hs | rfl
    · exact (hheld hs).2
    · exact fun h => by cases h
  | await _ i r ph ph' db task held next unpaid unpaid' =>
    exact Or.inr (Or.inr ⟨i, r, ph, ph', task, (hheld held).1, (hheld next).2,
      fun h => absurd h (hheld held).2, rfl⟩)
  | lands i r db p task can =>
    exact Or.inr (Or.inr ⟨i, r, _, _, task, rfl, fun h => (by cases h), fun h => (by cases h), rfl⟩)
  | commit _ i r ph base db evs ans task held save made =>
    exact Or.inr (Or.inr ⟨i, r, ph, _, task, (hheld held).1, fun h => (by cases h),
      fun h => absurd h (hheld held).2, rfl⟩)
  | stop _ i r ph ans task active free thrown =>
    exact Or.inr (Or.inr ⟨i, r, ph, _, task, Phase.active_of_resumed active,
      fun h => (by cases h), free, rfl⟩)
  | completed i w ip m u now task =>
    exact Or.inr (Or.inr ⟨i, _, _, _, task, rfl, fun h => (by cases h), fun h => (by cases h), rfl⟩)
  | sync => exact Or.inl rfl

/-- A task that has left its queue is behind no unfinished task with its key. -/
def LockOrdered (tasks : List Task) : Prop :=
  ∀ (i j : ℕ) (t u : Task) (k : String), i < j → tasks[i]? = some t → tasks[j]? = some u → t.request.lockKey = some k →
    u.request.lockKey = some k → u.phase ≠ .waiting → t.phase.isDone = true

theorem lockFree_done {i j : ℕ} {k : String} {t : Task}
    (h : lockFree tasks j (some k) = true) (hij : i < j) (ht : tasks[i]? = some t)
    (hk : t.request.lockKey = some k) : t.phase.isDone = true := by
  simp only [lockFree, Option.all_some, List.all_eq_true] at h
  have hmem : t ∈ tasks.take j := by
    rw [List.mem_take_iff_getElem]
    obtain ⟨hi, rfl⟩ := List.getElem?_eq_some_iff.mp ht
    exact ⟨i, by omega, rfl⟩
  simpa [hk] using h t hmem

theorem moves_lockOrdered (ho : LockOrdered s.tasks) (h : Moves cfg chain s a s') :
    LockOrdered s'.tasks := by
  rcases moves_tasks h with he | ⟨r, he⟩ | ⟨n, r, ph, ph', task, active, -, free, he⟩
  · rwa [he]
  · rw [he]
    intro i j t u k hij ht hu hkt hku hw
    rcases getElem?_append_task hu with hu | ⟨-, rfl⟩
    · have hj : j < s.tasks.length := (List.getElem?_eq_some_iff.mp hu).1
      rcases getElem?_append_task ht with ht | ⟨hi, -⟩
      · exact ho i j t u k hij ht hu hkt hku hw
      · omega
    · exact absurd rfl hw
  · rw [he]
    intro i j t u k hij ht hu hkt hku hw
    rw [getElem?_setTask task] at ht hu
    split_ifs at ht hu with hin hjn hjn
    · omega
    · -- the task that moves is the earlier one, and it was not done
      subst hin
      cases ht
      have hdone := ho i j _ u k hij task hu hkt hku hw
      simp [active] at hdone
    · subst hjn
      cases hu
      by_cases hwait : ph = .waiting
      · exact lockFree_done (hku ▸ free hwait) hij ht hkt
      · exact ho i j t _ k hij ht task hkt hku hwait
    · exact ho i j t u k hij ht hu hkt hku hw

theorem LockOrdered.unique (ho : LockOrdered tasks) {i j : ℕ} {t u : Task}
    {k : String} (ht : tasks[i]? = some t) (hu : tasks[j]? = some u)
    (hkt : t.request.lockKey = some k) (hku : u.request.lockKey = some k)
    (hrt : t.phase.isRunning = true) (hru : u.phase.isRunning = true) : i = j := by
  rcases lt_trichotomy i j with hij | hij | hij
  · have hdone := ho i j t u k hij ht hu hkt hku (Phase.active_of_running hru).2
    simp [(Phase.active_of_running hrt).1] at hdone
  · exact hij
  · have hdone := ho j i u t k hij hu ht hku hkt (Phase.active_of_running hrt).2
    simp [(Phase.active_of_running hru).1] at hdone

/-- Every suspended task is where its request can be, and the locks are in order. -/
structure State.WellFormed (cfg : Config) (s : State) : Prop where
  coherent : ∀ t ∈ s.tasks, Coherent cfg t.request t.phase
  ordered : LockOrdered s.tasks

theorem State.Initial.wellFormed (h : s.Initial) : s.WellFormed cfg := by
  refine ⟨fun t ht => ?_, fun i j t u k hij ht => ?_⟩
  · simp [h.tasks_nil] at ht
  · simp [h.tasks_nil] at ht

theorem step_wellFormed (hs : s.WellFormed cfg) (h : step cfg chain s a = some s') :
    s'.WellFormed cfg :=
  ⟨step_coherent hs.coherent h, moves_lockOrdered hs.ordered (step_moves hs.coherent h)⟩

end KvasirNet.Gateway
