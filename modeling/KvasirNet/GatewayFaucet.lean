import KvasirNet.GatewayDurability

/-! The limits of the faucet: one payment to an address in a cooldown, and a
budget of token accounts opened at the treasury's cost. The cooldown rows and the
counter sit in one file that requests for different addresses load and save
without regard to each other. -/
namespace KvasirNet.Gateway

/-- A transfer of the faucet that landed, with the time the handler read and
whether it found a token account. -/
structure FaucetPayment where
  address : Wallet
  existed : Bool
  now : ℕ
  deriving DecidableEq, Repr

def dispensed (s : State) : Action → List FaucetPayment
  | .lands i =>
    match s.tasks[i]? with
    | some ⟨_, .paying _ (.faucet address existed now) false⟩ => [⟨address, existed, now⟩]
    | _ => []
  | _ => []

/-- The gateway together with every payment of its faucet, the last one first. -/
def faucetStep (cfg : Config) (chain : Chain) (x : State × List FaucetPayment) (a : Action) :
    Option (State × List FaucetPayment) :=
  (step cfg chain x.1 a).map fun s' => (s', dispensed x.1 a ++ x.2)

def DB.lastFunded (d : DB) (address : Wallet) : ℕ := (d.faucet.lookup address).getD 0

/-- The transfer has opened a token account and is not yet counted. -/
def Task.opening (t : Task) : Bool :=
  match t.phase with
  | .paying _ (.faucet _ false _) true => true
  | _ => false

/-- The accounts that were opened, counted by the file or not yet. -/
def State.accountsOpened (s : State) : ℕ :=
  s.disk.faucetAccountsOpened + s.tasks.countP Task.opening

def openings (paid : List FaucetPayment) : ℕ := paid.countP fun p => !p.existed

/-- The snapshot has the faucet's rows and counter as the file has them, the row
of its own address apart. -/
def faucetAgrees (r : Request) (base disk : DB) : Bool :=
  ((base.faucet.entries ++ disk.faucet.entries).all fun e =>
    decide (r = .faucet e.1) || base.faucet.lookup e.1 == disk.faucet.lookup e.1) &&
  base.faucetAccountsOpened == disk.faucetAccountsOpened

def faucetClear (cfg : Config) (chain : Chain) (s : State) (a : Action) : Bool :=
  -- no save after an await takes a row or the counter back
  (commit cfg chain s a).all (fun c => faucetAgrees c.1 c.2.1 s.disk) &&
    match a with
    -- the counter that was checked counts every account opened by now
    | .lands i => s.tasks[i]?.all fun t =>
      match t.phase with
      | .paying db (.faucet _ false _) _ => decide (s.accountsOpened ≤ db.faucetAccountsOpened)
      | _ => true
    -- a transfer that landed is reported as such, and its save goes through
    | .settled i ok saveOk => s.tasks[i]?.all fun t =>
      match t.phase with
      | .paying _ (.faucet _ _ _) true => ok && saveOk
      | _ => true
    | _ => true

/-! ## Moves -/

variable {cfg : Config} {chain : Chain} {s s' : State} {a : Action}

/-- Where a request of the faucet stands past its cooldown check: the address and
the time it read. -/
def Task.faucetAt (t : Task) : Option (Wallet × ℕ) :=
  match t.request, t.phase with
  | .faucet address, .probing _ now => some (address, now)
  | .faucet address, .paying _ (.faucet _ _ now) _ => some (address, now)
  | _, _ => none

inductive FaucetMove (cfg : Config) (s : State) : State → List FaucetPayment → Prop
  | other (s' : State) (rows : ∀ A, s'.disk.lastFunded A = s.disk.lastFunded A)
      (count : s'.disk.faucetAccountsOpened = s.disk.faucetAccountsOpened)
      (tasks : ∀ (i : ℕ) (t : Task), t.faucetAt.isSome = true → (s'.tasks[i]? = some t ↔ s.tasks[i]? = some t))
      (opening : s'.tasks.countP Task.opening = s.tasks.countP Task.opening) :
      FaucetMove cfg s s' []
  | enter (i now : ℕ) (address : Wallet)
      (task : s.tasks[i]? = some ⟨.faucet address, .waiting⟩)
      (cool : s.disk.lastFunded address + cfg.faucetCooldownMs ≤ now) :
      FaucetMove cfg s (s.setTask i ⟨.faucet address, .probing (loadDB s.disk) now⟩) []
  | probe (i now : ℕ) (address : Wallet) (db : DB) (existed : Bool)
      (task : s.tasks[i]? = some ⟨.faucet address, .probing db now⟩)
      (budget : existed = false → db.faucetAccountsOpened < cfg.faucetNewAccountBudget) :
      FaucetMove cfg s
        (s.setTask i ⟨.faucet address, .paying db (.faucet address existed now) false⟩) []
  | pay (i now : ℕ) (address : Wallet) (db : DB) (existed : Bool) (log : List Event)
      (task : s.tasks[i]? = some ⟨.faucet address, .paying db (.faucet address existed now) false⟩)
      (counted : existed = false → s.accountsOpened ≤ db.faucetAccountsOpened) :
      FaucetMove cfg s
        { s with
          tasks := s.tasks.set i ⟨.faucet address, .paying db (.faucet address existed now) true⟩
          log := log }
        [⟨address, existed, now⟩]
  | record (i now : ℕ) (address : Wallet) (db : DB) (existed : Bool) (ans : Response)
      (log : List Event)
      (task : s.tasks[i]? = some ⟨.faucet address, .paying db (.faucet address existed now) true⟩)
      (rows : ∀ A, A ≠ address → db.lastFunded A = s.disk.lastFunded A)
      (count : db.faucetAccountsOpened = s.disk.faucetAccountsOpened) :
      FaucetMove cfg s
        { disk := faucetDb db address existed now
          tasks := s.tasks.set i ⟨.faucet address, .done ans⟩
          log := log } []
  | leave (i : ℕ) (address : Wallet) (ph : Phase) (ans : Response)
      (task : s.tasks[i]? = some ⟨.faucet address, ph⟩) (unpaid : ph.landed = false) :
      FaucetMove cfg s (s.setTask i ⟨.faucet address, .done ans⟩) []

/-- The task is not one the faucet's limits look at. -/
def Task.Aside (t : Task) : Prop := t.faucetAt = none ∧ t.opening = false

theorem Coherent.aside {r : Request} {ph : Phase} (hc : Coherent cfg r ph)
    (hr : ∀ A, r ≠ .faucet A) : Task.Aside ⟨r, ph⟩ := by
  cases hc with
  | probing addr | faucet addr => exact absurd rfl (hr addr)
  | waiting r => cases r <;> exact ⟨rfl, rfl⟩
  | done r => cases r <;> exact ⟨rfl, rfl⟩
  | chat | stake | deposit | inference | inferring | unstake | claim | refund => exact ⟨rfl, rfl⟩

theorem aside_done (r : Request) (ans : Response) : Task.Aside ⟨r, .done ans⟩ := by
  cases r <;> exact ⟨rfl, rfl⟩

theorem countP_opening_set {i : ℕ} {t u : Task} (ht : s.tasks[i]? = some t) :
    (s.tasks.set i u).countP Task.opening + t.opening.toNat =
      s.tasks.countP Task.opening + u.opening.toNat := by
  obtain ⟨hi, rfl⟩ := List.getElem?_eq_some_iff.mp ht
  have hle := List.boole_getElem_le_countP (p := Task.opening) hi
  have hbool (b : Bool) : (if b then 1 else 0) = b.toNat := by cases b <;> rfl
  rw [List.countP_set hi, hbool, hbool]
  rw [hbool] at hle
  omega

theorem FaucetMove.other_set {i : ℕ} {t u : Task} {d : DB} {log : List Event}
    (ht : s.tasks[i]? = some t) (hold : t.Aside) (hnew : u.Aside)
    (rows : ∀ A, d.lastFunded A = s.disk.lastFunded A)
    (count : d.faucetAccountsOpened = s.disk.faucetAccountsOpened) :
    FaucetMove cfg s ⟨d, s.tasks.set i u, log⟩ [] := by
  refine .other _ rows count (fun j v hv => ?_) ?_
  · rw [getElem?_setTask ht]
    split_ifs with hj
    · -- neither task is at the faucet
      subst hj
      have hne (x : Task) (hx : x.Aside) : some x ≠ some v := by
        rintro h
        obtain rfl := Option.some.inj h
        simp [hx.1] at hv
      rw [ht]
      exact ⟨fun h => absurd h (hne u hnew), fun h => absurd h (hne t hold)⟩
    · exact Iff.rfl
  · have hcount := countP_opening_set (u := u) ht
    simpa [hold.2, hnew.2] using hcount

theorem faucetAgrees_rows {r : Request} {base disk : DB} (h : faucetAgrees r base disk = true) :
    (∀ A, r ≠ .faucet A → base.lastFunded A = disk.lastFunded A) ∧
      base.faucetAccountsOpened = disk.faucetAccountsOpened := by
  simp only [faucetAgrees, Bool.and_eq_true, List.all_eq_true, beq_iff_eq] at h
  refine ⟨fun A hr => congrArg (Option.getD · 0) ?_, h.2⟩
  have hrow (v : ℕ) (hv : (⟨A, v⟩ : Σ _ : Wallet, ℕ) ∈ base.faucet.entries ++ disk.faucet.entries) :
      base.faucet.lookup A = disk.faucet.lookup A := by
    have hall := h.1 ⟨A, v⟩ hv
    simpa [hr] using hall
  cases hb : base.faucet.lookup A with
  | some v =>
    have hv := (Table.mem_entries_iff base.faucet A v).mpr hb
    rw [← hb]
    exact hrow v (List.mem_append_left _ hv)
  | none =>
    cases hd : disk.faucet.lookup A with
    | none => rfl
    | some v =>
      have hv := (Table.mem_entries_iff disk.faucet A v).mpr hd
      rw [← hb, ← hd]
      exact hrow v (List.mem_append_right _ hv)

theorem Commits.faucet_kept {r : Request} {ph : Phase} {base db : DB} {evs : List Event}
    (hc : Commits cfg chain r ph db evs) (hs : ph.snapshot = some base)
    (hr : ∀ A, r ≠ .faucet A) :
    db.faucet = base.faucet ∧ db.faucetAccountsOpened = base.faucetAccountsOpened := by
  cases hc with
  | faucet addr => exact absurd rfl (hr addr)
  | failed rid sig ph base r usedAt error row unused phase =>
    rcases phase with rfl | rfl <;> (cases hs; exact ⟨rfl, rfl⟩)
  | stake | deposit | answered | unstake | claim | refund =>
    cases hs
    exact ⟨rfl, rfl⟩

theorem dispensed_of_resumption {ρ : Resumption} (h : resumption cfg chain s a = some ρ) :
    dispensed s a = [] := by
  cases a with
  | lands => simp [resumption] at h
  | submit | start | verified | probed | inferred | settled | completed | sync => rfl

theorem faucetClear_save {ρ : Resumption} {db : DB} {evs : List Event} {ans : Response}
    (hclear : faucetClear cfg chain s a = true) (hρ : resumption cfg chain s a = some ρ)
    (ho : ρ.outcome = .save db evs ans) (hok : ρ.saveOk = true) :
    (∀ A, ρ.request ≠ .faucet A → ρ.snapshot.lastFunded A = s.disk.lastFunded A) ∧
      ρ.snapshot.faucetAccountsOpened = s.disk.faucetAccountsOpened := by
  simp only [faucetClear, Bool.and_eq_true, commit_of_resumption hρ ho hok, Option.all_some] at hclear
  exact faucetAgrees_rows hclear.1

theorem resume_other {ρ : Resumption} (hc : ∀ t ∈ s.tasks, Coherent cfg t.request t.phase)
    (hclear : faucetClear cfg chain s a = true) (hρ : resumption cfg chain s a = some ρ)
    (hr : ∀ A, ρ.request ≠ .faucet A) : FaucetMove cfg s (s.resume ρ) [] := by
  obtain ⟨ph, ht, -⟩ := resumption_cases hρ
  have hold : Task.Aside ⟨ρ.request, ph⟩ := (hc _ (List.mem_of_getElem? ht)).aside hr
  unfold State.resume
  split
  · exact .other_set ht hold (aside_done _ _) (fun _ => rfl) rfl
  · rename_i ph' ho
    exact .other_set ht hold ((resumption_wait hc hρ ho).1.aside hr) (fun _ => rfl) rfl
  · rename_i db evs ans ho
    split_ifs with hok
    · obtain ⟨ph₁, ht₁, hsnap, hsave⟩ := resumption_save hc hρ ho
      obtain ⟨hrows, hcount⟩ := faucetClear_save hclear hρ ho hok
      obtain ⟨hfaucet, hopened⟩ := hsave.faucet_kept hsnap hr
      refine .other_set ht hold (aside_done _ _) (fun A => ?_) (hopened.trans hcount)
      calc db.lastFunded A = ρ.snapshot.lastFunded A := by simp only [DB.lastFunded, hfaucet]
        _ = s.disk.lastFunded A := hrows A (hr A)
    · exact .other_set ht hold (aside_done _ _) (fun _ => rfl) rfl

theorem resume_faucet {ρ : Resumption} {A : Wallet}
    (hc : ∀ t ∈ s.tasks, Coherent cfg t.request t.phase)
    (hclear : faucetClear cfg chain s a = true) (hρ : resumption cfg chain s a = some ρ)
    (hr : ρ.request = .faucet A) : FaucetMove cfg s (s.resume ρ) [] := by
  obtain ⟨ph, ht, hcase⟩ := resumption_cases hρ
  have hcoh : Coherent cfg ρ.request ph := hc _ (List.mem_of_getElem? ht)
  rw [hr] at ht hcoh
  rcases hcase with ⟨rfl, -, hsnap, now, hout⟩ | ⟨rfl, -⟩ | ⟨addr, now, existed, hreq, rfl, hout⟩ |
    ⟨rid, sig, r, use, ans, hreq, -⟩ | ⟨p, landed, ok, rfl, hlanded, ha, hout⟩
  · -- the cooldown is checked
    rw [hr, hsnap] at hout
    simp only [Request.begin] at hout
    split_ifs at hout with hcool
    · simp only [State.resume, hout, refuse, hr]
      exact .leave ρ.index A _ _ ht rfl
    · simp only [State.resume, hout, hr]
      exact .enter ρ.index now A ht (not_lt.mp hcool)
  · cases hcoh
  · -- the budget is checked
    obtain rfl : A = addr := Request.faucet.inj (hr.symm.trans hreq)
    simp only [faucetProbed] at hout
    split_ifs at hout with hbudget
    · simp only [State.resume, hout, refuse, hr]
      exact .leave ρ.index A _ _ ht rfl
    · simp only [State.resume, hout, hr]
      refine .probe ρ.index now A _ existed ht fun hnew => ?_
      simpa [hnew] using hbudget
  · cases hr.symm.trans hreq
  · cases hcoh with
    | faucet addr db existed now landed =>
      cases landed with
      | false =>
        obtain rfl : ok = false := by
          cases ok with
          | false => rfl
          | true => exact absurd (hlanded rfl) Bool.false_ne_true
        simp only [State.resume, hout, Payout.settled, refuse, hr]
        exact .leave ρ.index A _ _ ht rfl
      | true =>
        have hboth : ok = true ∧ ρ.saveOk = true := by
          rw [ha] at hclear
          simp only [faucetClear, ht, Bool.and_eq_true, Option.all_some] at hclear
          exact hclear.2
        obtain ⟨rfl, hok⟩ := hboth
        obtain ⟨hrows, hcount⟩ := faucetClear_save hclear hρ hout hok
        simp only [State.resume, hout, Payout.settled, if_true, hok, hr]
        refine .record ρ.index now A _ existed _ _ ht (fun B hB => hrows B ?_) hcount
        rw [hr]
        exact fun h => hB (Request.faucet.inj h).symm

theorem step_sync_rows {r : SyncRequest} {now : ℕ} {out : Saved}
    (hout : r.apply cfg now (loadDB s.disk) = .ok out) :
    (∀ A, (out.db.getD s.disk).lastFunded A = s.disk.lastFunded A) ∧
      (out.db.getD s.disk).faucetAccountsOpened = s.disk.faucetAccountsOpened := by
  cases hdb : out.db with
  | none => exact ⟨fun _ => rfl, rfl⟩
  | some db =>
    have hwrite := apply_writes hout hdb
    refine ⟨fun A => congrArg (Option.getD · 0) ?_, ?_⟩
    · have hn : r.names (loadDB s.disk) (.faucet A) = false := rfl
      exact hwrite.kept hn
    · have hn : r.names (loadDB s.disk) .faucetAccounts = false := rfl
      exact hwrite.kept hn

theorem step_faucetMove (hc : ∀ t ∈ s.tasks, Coherent cfg t.request t.phase)
    (hclear : faucetClear cfg chain s a = true) (h : step cfg chain s a = some s') :
    FaucetMove cfg s s' (dispensed s a) := by
  have hsame : FaucetMove cfg s s [] := .other s (fun _ => rfl) rfl (fun _ _ _ => Iff.rfl) rfl
  rcases step_cases h with ⟨r, rfl, rfl | ⟨hpre, rfl⟩⟩ | ⟨i, r, db, p, rfl, ht, hcan, rfl⟩ |
    ⟨i, w, ip, m, u, now, rfl, ht, rfl⟩ | ⟨r, now, rfl, rfl | ⟨out, hout, rfl⟩⟩ | ⟨ρ, hρ, rfl⟩
  · exact hsame
  · -- a request that waits for its lock
    refine .other _ (fun _ => rfl) rfl (fun j t hj => ⟨fun hj' => ?_, fun hj' => ?_⟩) ?_
    · rcases getElem?_append_task hj' with hold | ⟨-, rfl⟩
      · exact hold
      · cases r <;> cases hj
    · exact List.getElem?_append_left (List.getElem?_eq_some_iff.mp hj').1 ▸ hj'
    · rw [List.countP_append]
      rfl
  · have hcoh : Coherent cfg r (.paying db p false) := hc _ (List.mem_of_getElem? ht)
    cases hcoh with
    | faucet addr db existed now landed =>
      simp only [dispensed, ht]
      refine .pay i now addr db existed _ ht fun hnew => ?_
      subst hnew
      simp only [faucetClear, ht, Bool.and_eq_true, Option.all_some] at hclear
      exact of_decide_eq_true hclear.2
    | unstake | claim | refund =>
      simp only [dispensed, ht]
      exact .other_set ht ⟨rfl, rfl⟩ ⟨rfl, rfl⟩ (fun _ => rfl) rfl
  · refine .other_set ht ⟨rfl, rfl⟩ ⟨rfl, rfl⟩ (fun A => ?_) ?_
    · cases u <;> rfl
    · cases u <;> rfl
  · exact hsame
  · obtain ⟨hrows, hcount⟩ := step_sync_rows hout
    exact .other _ hrows hcount (fun _ _ _ => Iff.rfl) rfl
  · rw [dispensed_of_resumption hρ]
    by_cases hr : ∃ A, ρ.request = .faucet A
    · obtain ⟨A, hr⟩ := hr
      exact resume_faucet hc hclear hρ hr
    · exact resume_other hc hclear hρ fun A hA => hr ⟨A, hA⟩

/-! ## The limits -/

section Limits
variable {d₀ : DB} {paid new : List FaucetPayment}

theorem faucetAt_running {t : Task} {A : Wallet} {now : ℕ} (h : t.faucetAt = some (A, now)) :
    t.request = .faucet A ∧ t.phase.isRunning = true := by
  obtain ⟨r, ph⟩ := t
  unfold Task.faucetAt at h
  split at h
  · rename_i hr hph
    obtain ⟨rfl, -⟩ := Prod.mk.inj (Option.some.inj h)
    exact ⟨hr, by rw [hph]; rfl⟩
  · rename_i hr hph
    obtain ⟨rfl, -⟩ := Prod.mk.inj (Option.some.inj h)
    exact ⟨hr, by rw [hph]; rfl⟩
  · cases h

theorem faucetAt_unique (ho : LockOrdered s.tasks) {i j : ℕ} {t u : Task} {A : Wallet} {m n : ℕ}
    (hi : s.tasks[i]? = some t) (hj : s.tasks[j]? = some u) (ht : t.faucetAt = some (A, m))
    (hu : u.faucetAt = some (A, n)) : i = j := by
  obtain ⟨hrt, hpt⟩ := faucetAt_running ht
  obtain ⟨hru, hpu⟩ := faucetAt_running hu
  exact ho.unique (k := "faucet:" ++ A) hi hj (by rw [hrt]; rfl) (by rw [hru]; rfl) hpt hpu

theorem opening_of_unlanded {t : Task} (h : t.phase.landed = false) : t.opening = false := by
  unfold Task.opening
  split
  · rename_i hph
    rw [hph] at h
    cases h
  · rfl

/-- What the file and the tasks know of the payments made since the file was `d₀`. -/
structure FaucetBooks (cfg : Config) (d₀ : DB) (s : State) (paid : List FaucetPayment) : Prop where
  recorded : ∀ p ∈ paid, p.now ≤ s.disk.lastFunded p.address ∨ ∃ (i : ℕ) (db : DB),
    s.tasks[i]? = some ⟨.faucet p.address, .paying db (.faucet p.address p.existed p.now) true⟩
  waited : ∀ (i : ℕ) (t : Task) (A : Wallet) (now : ℕ), s.tasks[i]? = some t →
    t.faucetAt = some (A, now) → s.disk.lastFunded A + cfg.faucetCooldownMs ≤ now
  grown : ∀ A, d₀.lastFunded A ≤ s.disk.lastFunded A
  counted : d₀.faucetAccountsOpened + openings paid = s.accountsOpened
  checked : ∀ (i : ℕ) (A : Wallet) (db : DB) (now : ℕ) (landed : Bool),
    s.tasks[i]? = some ⟨.faucet A, .paying db (.faucet A false now) landed⟩ →
    db.faucetAccountsOpened < cfg.faucetNewAccountBudget

theorem FaucetBooks.start (hs : s.Initial) : FaucetBooks cfg s.disk s [] where
  recorded p hp := absurd hp List.not_mem_nil
  waited i t A now ht := by simp [hs.tasks_nil] at ht
  grown A := le_rfl
  counted := by simp [State.accountsOpened, openings, hs.tasks_nil]
  checked i A db now landed ht := by simp [hs.tasks_nil] at ht

theorem FaucetBooks.set {i : ℕ} {t u : Task} {log : List Event} (hb : FaucetBooks cfg d₀ s paid)
    (ht : s.tasks[i]? = some t) (hun : t.phase.landed = false)
    (hwait : ∀ A now, u.faucetAt = some (A, now) →
      s.disk.lastFunded A + cfg.faucetCooldownMs ≤ now)
    (hcheck : ∀ A db now landed, u = ⟨.faucet A, .paying db (.faucet A false now) landed⟩ →
      db.faucetAccountsOpened < cfg.faucetNewAccountBudget)
    (hnew : ∀ p ∈ new, ∃ db,
      u = ⟨.faucet p.address, .paying db (.faucet p.address p.existed p.now) true⟩)
    (hcount : openings new = u.opening.toNat) :
    FaucetBooks cfg d₀ ⟨s.disk, s.tasks.set i u, log⟩ (new ++ paid) where
  recorded p hp := by
    rcases List.mem_append.mp hp with hp | hp
    · obtain ⟨db, hu⟩ := hnew p hp
      exact Or.inr ⟨i, db, by simp [getElem?_setTask ht, hu]⟩
    · refine (hb.recorded p hp).imp_right ?_
      rintro ⟨j, db, hj⟩
      have hne : j ≠ i := by
        rintro rfl
        rw [Option.some.inj (ht.symm.trans hj)] at hun
        cases hun
      exact ⟨j, db, by simp [getElem?_setTask ht, hne, hj]⟩
  waited j v A now hj hv := by
    rw [getElem?_setTask ht] at hj
    split_ifs at hj with hji
    · obtain rfl := Option.some.inj hj
      exact hwait A now hv
    · exact hb.waited j v A now hj hv
  grown := hb.grown
  counted := by
    have hset := countP_opening_set (u := u) ht
    have hcounted := hb.counted
    have happend : openings (new ++ paid) = openings new + openings paid := List.countP_append
    simp only [State.accountsOpened, opening_of_unlanded hun, Bool.toNat_false] at hset hcounted ⊢
    omega
  checked j A db now landed hj := by
    rw [getElem?_setTask ht] at hj
    split_ifs at hj with hji
    · exact hcheck A db now landed (Option.some.inj hj)
    · exact hb.checked j A db now landed hj

@[simp]
theorem lastFunded_faucetDb (db : DB) (address : Wallet) (existed : Bool) (now : ℕ) (A : Wallet) :
    (faucetDb db address existed now).lastFunded A = if A = address then now else db.lastFunded A := by
  split_ifs with hA
  · subst hA
    simp [faucetDb, DB.lastFunded]
  · simp [faucetDb, DB.lastFunded, AList.lookup_insert_ne hA]

theorem FaucetBooks.save {i now : ℕ} {address : Wallet} {db : DB} {existed : Bool} {ans : Response}
    {log : List Event} (ho : LockOrdered s.tasks) (hb : FaucetBooks cfg d₀ s paid)
    (ht : s.tasks[i]? = some ⟨.faucet address, .paying db (.faucet address existed now) true⟩)
    (hrows : ∀ A, A ≠ address → db.lastFunded A = s.disk.lastFunded A)
    (hcount : db.faucetAccountsOpened = s.disk.faucetAccountsOpened) :
    FaucetBooks cfg d₀
      ⟨faucetDb db address existed now, s.tasks.set i ⟨.faucet address, .done ans⟩, log⟩ paid := by
  have hwaited : s.disk.lastFunded address + cfg.faucetCooldownMs ≤ now :=
    hb.waited i _ address now ht rfl
  -- the row of the address goes up, the others stay
  have hup (A : Wallet) : s.disk.lastFunded A ≤ (faucetDb db address existed now).lastFunded A := by
    rw [lastFunded_faucetDb]
    split_ifs with hA
    · subst hA
      omega
    · exact (hrows A hA).ge
  constructor
  · intro p hp
    rcases hb.recorded p hp with hrow | ⟨j, db', hj⟩
    · exact Or.inl (hrow.trans (hup p.address))
    · by_cases hji : j = i
      · subst hji
        left
        have hsame := Option.some.inj (hj.symm.trans ht)
        simp only [Task.mk.injEq, Request.faucet.injEq, Phase.paying.injEq,
          Payout.faucet.injEq] at hsame
        obtain ⟨haddr, -, ⟨-, -, hnow⟩, -⟩ := hsame
        simp [haddr, hnow]
      · exact Or.inr ⟨j, db', by simp [getElem?_setTask ht, hji, hj]⟩
  · intro j v A n hj hv
    rw [getElem?_setTask ht] at hj
    split_ifs at hj with hji
    · obtain rfl := Option.some.inj hj
      cases hv
    · have hA : A ≠ address := by
        rintro rfl
        exact hji (faucetAt_unique ho hj ht hv rfl)
      rw [lastFunded_faucetDb, if_neg hA, hrows A hA]
      exact hb.waited j v A n hj hv
  · exact fun A => (hb.grown A).trans (hup A)
  · have hset := countP_opening_set (u := ⟨.faucet address, .done ans⟩) ht
    have hcounted := hb.counted
    cases existed <;>
      simp [State.accountsOpened, Task.opening, faucetDb, hcount] at hset hcounted ⊢ <;> omega
  · intro j A db' n landed hj
    rw [getElem?_setTask ht] at hj
    split_ifs at hj with hji
    · cases hj
    · exact hb.checked j A db' n landed hj

theorem FaucetBooks.move (ho : LockOrdered s.tasks) (hb : FaucetBooks cfg d₀ s paid)
    (hm : FaucetMove cfg s s' new) : FaucetBooks cfg d₀ s' (new ++ paid) := by
  cases hm with
  | other _ rows count tasks opening =>
    constructor
    · intro p hp
      rcases hb.recorded p hp with hrow | ⟨j, db, hj⟩
      · exact Or.inl (rows p.address ▸ hrow)
      · exact Or.inr ⟨j, db, (tasks j _ rfl).mpr hj⟩
    · intro j t A now hj hat
      have hj' := (tasks j t (by simp [hat])).mp hj
      exact rows A ▸ hb.waited j t A now hj' hat
    · intro A
      exact rows A ▸ hb.grown A
    · have hsame : s'.accountsOpened = s.accountsOpened := by
        simp only [State.accountsOpened, count, opening]
      exact hb.counted.trans hsame.symm
    · intro j A db now landed hj
      exact hb.checked j A db now landed ((tasks j _ rfl).mp hj)
  | enter i now address task cool =>
    refine hb.set task rfl ?_ ?_ (by simp) rfl
    · rintro A n ⟨⟩
      exact cool
    · rintro A db n landed ⟨⟩
  | probe i now address db existed task budget =>
    refine hb.set task rfl ?_ ?_ (by simp) ?_
    · rintro A n ⟨⟩
      exact hb.waited i _ address now task rfl
    · rintro A db n landed ⟨⟩
      exact budget rfl
    · cases existed <;> rfl
  | pay i now address db existed log task counted =>
    refine hb.set task rfl ?_ ?_ ?_ ?_
    · rintro A n ⟨⟩
      exact hb.waited i _ address now task rfl
    · rintro A db n landed ⟨⟩
      exact hb.checked i address db now false task
    · intro p hp
      obtain rfl := List.mem_singleton.mp hp
      exact ⟨db, rfl⟩
    · cases existed <;> rfl
  | record i now address db existed ans log task rows count => exact hb.save ho task rows count
  | leave i address ph ans task unpaid =>
    refine hb.set task unpaid ?_ ?_ (by simp) rfl
    · rintro A n ⟨⟩
    · rintro A db n landed ⟨⟩

/-- Two payments to one address are a cooldown apart, and so is the first from
the one the file starts with; the accounts opened stay within the budget. -/
structure FaucetLimited (cfg : Config) (d₀ : DB) (paid : List FaucetPayment) : Prop where
  spaced : paid.Pairwise fun later earlier => later.address = earlier.address →
    earlier.now + cfg.faucetCooldownMs ≤ later.now
  first : ∀ p ∈ paid, d₀.lastFunded p.address + cfg.faucetCooldownMs ≤ p.now
  opened : d₀.faucetAccountsOpened + openings paid ≤
    max d₀.faucetAccountsOpened cfg.faucetNewAccountBudget

theorem FaucetLimited.move (ho : LockOrdered s.tasks) (hb : FaucetBooks cfg d₀ s paid)
    (hl : FaucetLimited cfg d₀ paid) (hm : FaucetMove cfg s s' new) :
    FaucetLimited cfg d₀ (new ++ paid) := by
  cases hm with
  | other | enter | probe | record | leave => exact hl
  | pay i now address db existed log task counted =>
    have hwaited : s.disk.lastFunded address + cfg.faucetCooldownMs ≤ now :=
      hb.waited i _ address now task rfl
    refine ⟨List.pairwise_cons.mpr ⟨fun p hp haddr => ?_, hl.spaced⟩, fun p hp => ?_, ?_⟩
    · -- no other request is at the address, so the earlier payment is in the file
      rcases hb.recorded p hp with hrow | ⟨j, db', hj⟩
      · rw [← haddr] at hrow
        exact (Nat.add_le_add_right hrow _).trans hwaited
      · exfalso
        have hat : Task.faucetAt ⟨.faucet p.address,
            .paying db' (.faucet p.address p.existed p.now) true⟩ = some (address, p.now) := by
          rw [← haddr]
          rfl
        obtain rfl := faucetAt_unique ho task hj rfl hat
        cases task.symm.trans hj
    · rcases List.mem_cons.mp hp with rfl | hp
      · have hgrown := hb.grown address
        show d₀.lastFunded address + cfg.faucetCooldownMs ≤ now
        omega
      · exact hl.first p hp
    · cases existed with
      | true => exact hl.opened
      | false =>
        have hcounted := hb.counted
        have hroom := hb.checked i address db now false task
        have hseen := counted rfl
        have hone : openings ([⟨address, false, now⟩] ++ paid) = openings paid + 1 := by
          simp [openings]
        rw [hone]
        omega

end Limits

theorem faucet_limits (cfg : Config) (chain : Chain) (s₀ s : State) (as : List Action)
    (paid : List FaucetPayment) (h₀ : s₀.Initial)
    (hrun : runs (faucetStep cfg chain) (s₀, []) as = some (s, paid))
    (hclear : Along (faucetStep cfg chain) (fun x a => faucetClear cfg chain x.1 a = true)
      (s₀, []) as) :
    FaucetLimited cfg s₀.disk paid := by
  have hinv := runs_invariant
    (I := fun x => x.1.WellFormed cfg ∧ FaucetBooks cfg s₀.disk x.1 x.2 ∧
      FaucetLimited cfg s₀.disk x.2)
    (fun x a x' hc hi h => by
      obtain ⟨hwf, hbooks, hlimited⟩ := hi
      obtain ⟨s', hs', rfl⟩ := Option.map_eq_some_iff.mp h
      have hm := step_faucetMove hwf.coherent hc hs'
      exact ⟨step_wellFormed hwf hs', hbooks.move hwf.ordered hm,
        hlimited.move hwf.ordered hbooks hm⟩)
    hclear hrun
    ⟨h₀.wellFormed, .start h₀, .nil, fun p hp => absurd hp List.not_mem_nil, le_max_left _ _⟩
  exact hinv.2.2

/-- A request for the faucet from its arrival to its save. -/
def faucetServes (i : ℕ) (address : Wallet) (existed : Bool) (now : ℕ) : List Action :=
  [.submit (.faucet address), .start i now, .probed i existed, .lands i, .settled i true true]

def lastAccount : Config := { defaultConfig with faucetNewAccountBudget := 1 }

def faucetInTurn : List Action :=
  faucetServes 0 defaultConfig.genesisWallet false 1700000000000 ++
    faucetServes 1 defaultConfig.treasuryOwner true 1700000000001 ++
    faucetServes 2 defaultConfig.genesisWallet true 1700086400000

theorem faucet_limits_in_turn :
    ∃ s paid, runs (faucetStep lastAccount idleChain) (emptyStart, []) faucetInTurn =
        some (s, paid) ∧
      paid = [⟨defaultConfig.genesisWallet, true, 1700086400000⟩,
        ⟨defaultConfig.treasuryOwner, true, 1700000000001⟩,
        ⟨defaultConfig.genesisWallet, false, 1700000000000⟩] ∧
      FaucetLimited lastAccount emptyStart.disk paid := by
  obtain ⟨⟨s, paid⟩, hrun, hpaid⟩ := runs_exists (faucetStep lastAccount idleChain) (emptyStart, [])
    faucetInTurn
    (fun x => decide (x.2 = [⟨defaultConfig.genesisWallet, true, 1700086400000⟩,
      ⟨defaultConfig.treasuryOwner, true, 1700000000001⟩,
      ⟨defaultConfig.genesisWallet, false, 1700000000000⟩]))
    (by decide +kernel)
  exact ⟨s, paid, hrun, of_decide_eq_true hpaid, faucet_limits lastAccount idleChain emptyStart s
    faucetInTurn paid ⟨rfl, rfl⟩ hrun (by decide +kernel)⟩

/-- Two addresses without a token account ask at the same time, and the first of
them asks again a millisecond later. -/
def faucetOverlaps : List Action :=
  [.submit (.faucet defaultConfig.genesisWallet), .submit (.faucet defaultConfig.treasuryOwner),
    .start 0 1700000000000, .start 1 1700000000000, .probed 0 false, .probed 1 false,
    .lands 0, .lands 1, .settled 0 true true, .settled 1 true true] ++
    faucetServes 2 defaultConfig.genesisWallet true 1700000000001

theorem faucet_overlap_overpays :
    ∃ s paid, runs (faucetStep lastAccount idleChain) (emptyStart, []) faucetOverlaps =
        some (s, paid) ∧
      (⟨defaultConfig.genesisWallet, true, 1700000000001⟩ : FaucetPayment) ∈ paid ∧
      (⟨defaultConfig.genesisWallet, false, 1700000000000⟩ : FaucetPayment) ∈ paid ∧
      1700000000001 < 1700000000000 + lastAccount.faucetCooldownMs ∧
      lastAccount.faucetNewAccountBudget < openings paid ∧
      ¬ FaucetLimited lastAccount emptyStart.disk paid := by
  obtain ⟨⟨s, paid⟩, hrun, hpaid⟩ := runs_exists (faucetStep lastAccount idleChain) (emptyStart, [])
    faucetOverlaps
    (fun x => decide ((⟨defaultConfig.genesisWallet, true, 1700000000001⟩ : FaucetPayment) ∈ x.2 ∧
      (⟨defaultConfig.genesisWallet, false, 1700000000000⟩ : FaucetPayment) ∈ x.2 ∧
      lastAccount.faucetNewAccountBudget < openings x.2))
    (by decide +kernel)
  obtain ⟨hagain, hfirst, hover⟩ := of_decide_eq_true hpaid
  refine ⟨s, paid, hrun, hagain, hfirst, by decide, hover, fun hl => ?_⟩
  have hopened : 0 + openings paid ≤ max 0 1 := hl.opened
  have hbudget : 1 < openings paid := hover
  omega

end KvasirNet.Gateway
