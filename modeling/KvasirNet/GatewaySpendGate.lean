import KvasirNet.GatewayBalances
import KvasirNet.GatewayCreditIdentity

/-! Prepaid credit as a spend gate. The balance is tested before the upstream
call and debited after it, so a wallet can fall below the gate by what the
completions in flight cost. -/
namespace KvasirNet.Gateway

variable {cfg : Config} {chain : Chain} {w : Wallet} {s s' : State} {a : Action}

/-- The stored balance of a wallet, nothing when it has no account. -/
def balanceOf (db : DB) (w : Wallet) : ℚ := (db.credits.lookup w).elim 0 (·.balance)

def Request.isChat : Request → Bool
  | .chat _ _ => true
  | _ => false

def Request.isChatOf (w : Wallet) : Request → Bool
  | .chat w' _ => w' == w
  | _ => false

/-- The task is a completion of `w` between its balance test and its debit. -/
def Task.inFlight (w : Wallet) (t : Task) : Bool :=
  t.request.isChatOf w && decide (t.phase = .completing)

def inFlight (w : Wallet) (tasks : List Task) : ℕ := tasks.countP (Task.inFlight w)

/-- Of the requests that await, only chat completions arrive. -/
def chatTraffic : Action → Bool
  | .submit r => r.isChat
  | _ => true

/-- A completion of `w` costs at most `C`; one that reports no usage is free. -/
def costsAtMost (w : Wallet) (C : ℚ) (s : State) : Action → Bool
  | .completed i m u _ =>
    s.tasks[i]?.all fun t => !t.request.isChatOf w ||
      decide (u.elim 0 (completionCost (pricingFor (loadDB s.disk) m)) ≤ C)
  | _ => true

/-- A completion of `w` passes the balance test only while fewer than `k` are in flight. -/
def gateLimit (cfg : Config) (w : Wallet) (k : ℕ) (s : State) : Action → Bool
  | .start i _ =>
    s.tasks[i]?.all fun t => !t.request.isChatOf w ||
      decide (balanceOf s.disk w ≤ cfg.creditMinBalance) || decide (inFlight w s.tasks < k)
  | _ => true

theorem creditAcct_balance (db : DB) (w : Wallet) (now : ℕ) :
    (creditAcct db w now).balance = balanceOf db w := by
  unfold creditAcct balanceOf
  cases db.credits.lookup w <;> rfl

theorem balanceOf_insert (db : DB) (w' : Wallet) (acct : CreditAcct) (w : Wallet) :
    (((db.credits.insert w' acct).lookup w).elim 0 fun b => b.balance) =
      if w = w' then acct.balance else balanceOf db w := by
  by_cases hw : w = w'
  · subst hw
    simp [AList.lookup_insert]
  · rw [AList.lookup_insert_ne hw, if_neg hw]
    rfl

theorem balanceOf_onGrid {db : DB} (h : db.CreditsBalanced) (w : Wallet) :
    OnGrid 1000000 (balanceOf db w) := by
  rw [← creditAcct_balance db w 0]
  exact (creditAcct_balanced h w 0).balance_grid

theorem balanceOf_debitCredits {db : DB} (h : db.CreditsBalanced) (w' : Wallet) (m : ModelId)
    (u : TokenUsage) (now : ℕ) :
    balanceOf (debitCredits db w' m u now) w =
      balanceOf db w - if w = w' then completionCost (pricingFor db m) u else 0 := by
  have hexact : round6 (balanceOf db w' - completionCost (pricingFor db m) u) =
      balanceOf db w' - completionCost (pricingFor db m) u :=
    roundTo_of_onGrid 1000000 (by norm_num) _ ((balanceOf_onGrid h w').sub (onGrid_round6 _))
  calc balanceOf (debitCredits db w' m u now) w
      = if w = w' then ((creditAcct db w' now).debit (completionCost (pricingFor db m) u) now).balance
        else balanceOf db w := balanceOf_insert db w' _ w
    _ = balanceOf db w - if w = w' then completionCost (pricingFor db m) u else 0 := by
        simp only [CreditAcct.debit, creditAcct_balance, hexact]
        split_ifs with hw
        · rw [hw]
        · rw [sub_zero]

theorem writes_balance_le {now : ℕ} {d db : DB} {r : SyncRequest} {evs : List Event}
    (h : d.CreditsBalanced) (hw : Writes cfg now d r db evs) : balanceOf d w ≤ balanceOf db w := by
  have hopen (w' : Wallet) (t : ℕ) :
      balanceOf d w ≤ ((d.credits.insert w' (creditAcct d w' t)).lookup w).elim 0 fun b => b.balance := by
    rw [balanceOf_insert, creditAcct_balance]
    split_ifs with hw'
    · rw [hw']
    · exact le_rfl
  cases hw with
  | creditGrant w' amt pos =>
    have hgrant : balanceOf (grantCredits d w' amt (now / 1000)) w =
        if w = w' then ((creditAcct d w' (now / 1000)).grant amt (now / 1000)).balance
        else balanceOf d w := balanceOf_insert d w' _ w
    rw [hgrant]
    split_ifs with hw'
    · subst hw'
      simp only [CreditAcct.grant, creditAcct_balance, round6_grid_add _ _ (balanceOf_onGrid h w)]
      exact le_add_of_nonneg_right (round6_nonneg pos.le)
    · exact le_rfl
  | creditRegister w' => exact hopen w' _
  | whitelistAdd w' => exact hopen w' _
  | apiKeyMint w' => exact hopen w' _
  | viewPosition | register | heartbeat | removeNode | contribution | infraReport | inferenceReport
  | pricingSync | pricingPush | sweep | quote | twoFactorLogin | twoFactorEnroll | twoFactorConfirm
  | twoFactorDisable | adminPricing | relayPut | relayRemove | apiKeyRevokeAll | apiKeyRevoke
  | whitelistRemove | adminRemoveNode => exact le_rfl

theorem chat_begin {ip : Bool} {now : ℕ} {db : DB} {ph : Phase}
    (hmeter : cfg.creditUnmetered.contains w = false)
    (h : (Request.chat w ip).begin cfg now db = .wait ph) :
    ph = .completing ∧ cfg.creditMinBalance < balanceOf db w := by
  simp only [Request.begin, creditGate, hmeter, refuse, creditAcct_balance, Bool.false_and,
    Bool.false_eq_true, ↓reduceIte] at h
  split at h
  · cases h
  · rename_i hgate
    split_ifs at hgate with hlist hbal
    cases h
    exact ⟨rfl, not_le.mp hbal⟩

theorem inFlight_set {tasks : List Task} {i : ℕ} {t u : Task} (h : tasks[i]? = some t) :
    inFlight w (tasks.set i u) + (if t.inFlight w then 1 else 0) =
      inFlight w tasks + if u.inFlight w then 1 else 0 := by
  obtain ⟨hi, rfl⟩ := List.getElem?_eq_some_iff.mp h
  have hpos (hfly : tasks[i].inFlight w = true) : 0 < tasks.countP (Task.inFlight w) :=
    List.countP_pos_iff.mpr ⟨tasks[i], List.getElem_mem hi, hfly⟩
  rw [inFlight, inFlight, List.countP_set hi]
  cases hfly : tasks[i].inFlight w with
  | false => simp
  | true =>
    have h0 := hpos hfly
    simp only [↓reduceIte]
    omega

/-- What a step does to the balance of a metered wallet and to its completions
in flight: nothing but credit more, let one more past the gate, or debit one. -/
theorem moves_balance {C : ℚ} (hmeter : cfg.creditUnmetered.contains w = false)
    (hbal : (loadDB s.disk).CreditsBalanced) (hchat : ∀ t ∈ s.tasks, t.request.isChat = true)
    (hc : ∀ t ∈ s.tasks, Coherent cfg t.request t.phase) (hcost : costsAtMost w C s a = true)
    (h : Moves cfg chain s a s') :
    (balanceOf s.disk w ≤ balanceOf s'.disk w ∧ inFlight w s'.tasks = inFlight w s.tasks) ∨
    (balanceOf s'.disk w = balanceOf s.disk w ∧ inFlight w s'.tasks = inFlight w s.tasks + 1 ∧
      cfg.creditMinBalance < balanceOf s.disk w ∧
      ∃ i now t, a = .start i now ∧ s.tasks[i]? = some t ∧ t.request.isChatOf w = true) ∨
    (balanceOf s.disk w - C ≤ balanceOf s'.disk w ∧
      inFlight w s.tasks = inFlight w s'.tasks + 1) := by
  have hload : balanceOf (loadDB s.disk) w = balanceOf s.disk w := rfl
  -- a chat completion holds no snapshot
  have hsnap {i : ℕ} {r : Request} {ph : Phase} {db : DB} (task : s.tasks[i]? = some ⟨r, ph⟩)
      (held : ph.snapshot = some db) : False := by
    have hr : r.isChat = true := hchat _ (List.mem_of_getElem? task)
    have hcoh : Coherent cfg r ph := hc _ (List.mem_of_getElem? task)
    cases hcoh with
    | waiting | done | chat => cases held
    | _ => cases hr
  cases h with
  | refused => exact Or.inl ⟨le_rfl, rfl⟩
  | submit r pre =>
    refine Or.inl ⟨le_rfl, ?_⟩
    simp [inFlight, List.countP_append, Task.inFlight]
  | enter i now r ph task free entered next unpaid =>
    have hset := inFlight_set (w := w) (u := ⟨r, ph⟩) task
    have hwait : (⟨r, .waiting⟩ : Task).inFlight w = false := by simp [Task.inFlight]
    simp only [hwait, Bool.false_eq_true, ↓reduceIte, add_zero] at hset
    cases hr : r.isChatOf w with
    | false =>
      have hfly : (⟨r, ph⟩ : Task).inFlight w = false := by simp [Task.inFlight, hr]
      refine Or.inl ⟨le_rfl, ?_⟩
      simpa [hfly, State.setTask] using hset
    | true =>
      cases r with
      | chat w' ip =>
        obtain rfl : w' = w := by simpa [Request.isChatOf] using hr
        obtain ⟨rfl, hlt⟩ := chat_begin hmeter entered
        have hfly : (⟨.chat w' ip, .completing⟩ : Task).inFlight w' = true := by
          simp [Task.inFlight, Request.isChatOf]
        refine Or.inr (Or.inl ⟨rfl, ?_, hlt, i, now, _, rfl, task, hr⟩)
        simpa [hfly, State.setTask] using hset
      | stake | unstake | claim | faucet | deposit | inference => cases hr
  | await _ i r ph ph' db task held next unpaid unpaid' => exact (hsnap task held).elim
  | lands i r db p task can => exact (hsnap task rfl).elim
  | commit _ i r ph base db evs ans task held save made => exact (hsnap task held).elim
  | stop _ i r ph ans task active free thrown =>
    rcases active with rfl | ⟨db, held⟩
    · have hset := inFlight_set (w := w) (u := ⟨r, .done ans⟩) task
      refine Or.inl ⟨le_rfl, ?_⟩
      simpa [Task.inFlight, State.setTask] using hset
    · exact (hsnap task held).elim
  | completed i w' ip m u now task =>
    -- the debit loads the file again, so no other completion's debit is lost
    have hset := inFlight_set (w := w) (u := ⟨.chat w' ip, .done .ok⟩) task
    have hdone : (⟨.chat w' ip, .done .ok⟩ : Task).inFlight w = false := by simp [Task.inFlight]
    simp only [hdone, Bool.false_eq_true, ↓reduceIte, add_zero] at hset
    by_cases hw : w' = w
    · subst hw
      have hfly : (⟨.chat w' ip, .completing⟩ : Task).inFlight w' = true := by
        simp [Task.inFlight, Request.isChatOf]
      simp only [hfly, ↓reduceIte] at hset
      refine Or.inr (Or.inr ⟨?_, hset.symm⟩)
      have hle : u.elim 0 (completionCost (pricingFor (loadDB s.disk) m)) ≤ C := by
        simpa [costsAtMost, task, Request.isChatOf] using hcost
      cases u with
      | none =>
        simp only [Option.elim_none] at hle ⊢
        linarith
      | some u =>
        simp only [Option.elim_some] at hle ⊢
        rw [balanceOf_debitCredits hbal, if_pos rfl, hload]
        linarith
    · have hfly : (⟨.chat w' ip, .completing⟩ : Task).inFlight w = false := by
        simp [Task.inFlight, Request.isChatOf, hw]
      simp only [hfly, Bool.false_eq_true, ↓reduceIte, add_zero] at hset
      refine Or.inl ⟨?_, hset⟩
      have hw' : ¬ w = w' := fun h => hw h.symm
      cases u with
      | none => exact le_rfl
      | some u =>
        simp only [Option.elim_some]
        rw [balanceOf_debitCredits hbal, if_neg hw', sub_zero, hload]
  | sync r now db evs write saved =>
    have hle : balanceOf (loadDB s.disk) w ≤ balanceOf db w := writes_balance_le hbal write
    exact Or.inl ⟨hle, rfl⟩

/-- Traffic of chat completions, each at most `C`, of which at most `k` of `w`
are in flight at once. -/
def limitedChats (cfg : Config) (w : Wallet) (C : ℚ) (k : ℕ) (s : State) (a : Action) : Bool :=
  chatTraffic a && costsAtMost w C s a && gateLimit cfg w k s a

theorem step_isChat (ht : chatTraffic a = true) (hchat : ∀ t ∈ s.tasks, t.request.isChat = true)
    (h : Moves cfg chain s a s') : ∀ t ∈ s'.tasks, t.request.isChat = true := by
  have hset {i : ℕ} {r : Request} {ph : Phase} (task : s.tasks[i]? = some ⟨r, ph⟩) (ph' : Phase) :
      ∀ t ∈ s.tasks.set i ⟨r, ph'⟩, t.request.isChat = true := by
    have hr : r.isChat = true := hchat _ (List.mem_of_getElem? task)
    intro t ht
    rcases List.mem_or_eq_of_mem_set ht with ht | rfl
    · exact hchat t ht
    · exact hr
  cases h with
  | refused | sync => exact hchat
  | submit r pre =>
    intro t hmem
    rcases List.mem_append.mp hmem with hmem | hmem
    · exact hchat t hmem
    · obtain rfl := List.mem_singleton.mp hmem
      exact ht
  | enter i now r ph task => exact hset task _
  | await _ i r ph ph' db task => exact hset task _
  | lands i r db p task => exact hset task _
  | commit _ i r ph base db evs ans task => exact hset task _
  | stop _ i r ph ans task => exact hset task _
  | completed i w ip m u now task => exact hset task _

structure ChatRun (cfg : Config) (s : State) : Prop where
  coherent : ∀ t ∈ s.tasks, Coherent cfg t.request t.phase
  chats : ∀ t ∈ s.tasks, t.request.isChat = true
  balanced : s.Every DB.CreditsBalanced

theorem State.Initial.chatRun (h : s.Initial) (hb : s.disk.CreditsBalanced) : ChatRun cfg s := by
  refine ⟨fun t ht => ?_, fun t ht => ?_, hb, fun t ht => ?_⟩ <;> simp [h.tasks_nil] at ht

theorem step_chatRun (ht : chatTraffic a = true) (hr : ChatRun cfg s)
    (h : step cfg chain s a = some s') : ChatRun cfg s' :=
  ⟨step_coherent hr.coherent h, step_isChat ht hr.chats (step_moves hr.coherent h),
    step_creditsBalanced hr.coherent hr.balanced h⟩

/-- With at most `k` completions in flight, a wallet falls below the gate by at
most `k` times the dearest of them. -/
theorem balance_floor {C : ℚ} {k : ℕ} (hC : 0 ≤ C) {s₀ : State} {as : List Action} (h₀ : s₀.Initial)
    (hb : s₀.disk.CreditsBalanced) (hmeter : cfg.creditUnmetered.contains w = false)
    (hstart : cfg.creditMinBalance - k * C ≤ balanceOf s₀.disk w)
    (hlim : Along (step cfg chain) (fun s a => limitedChats cfg w C k s a = true) s₀ as)
    (hrun : runs (step cfg chain) s₀ as = some s) :
    cfg.creditMinBalance - k * C ≤ balanceOf s.disk w := by
  -- the completions in flight may still take `C` each off the balance
  obtain ⟨-, -, hfloor⟩ := runs_invariant
    (I := fun s => ChatRun cfg s ∧ inFlight w s.tasks ≤ k ∧
      cfg.creditMinBalance - k * C ≤ balanceOf s.disk w - inFlight w s.tasks * C)
    (fun s a s' hp hi h => by
      obtain ⟨hr, hk, hfloor⟩ := hi
      simp only [limitedChats, Bool.and_eq_true] at hp
      obtain ⟨⟨ht, hcost⟩, hgate⟩ := hp
      refine ⟨step_chatRun ht hr h, ?_⟩
      rcases moves_balance hmeter (creditsBalanced_of_eq hr.balanced.disk rfl) hr.chats hr.coherent
        hcost (step_moves hr.coherent h) with ⟨hle, hn⟩ | ⟨heq, hn, hlt, i, now, t, rfl, hi, ht⟩ |
          ⟨hle, hn⟩
      · rw [hn]
        exact ⟨hk, by linarith⟩
      · -- a completion passed the gate, above the minimum and below the limit
        have hroom : inFlight w s.tasks < k := by
          simpa [gateLimit, hi, ht, not_le.mpr hlt] using hgate
        have hcap : ((inFlight w s.tasks + 1 : ℕ) : ℚ) * C ≤ k * C :=
          mul_le_mul_of_nonneg_right (by exact_mod_cast hroom) hC
        rw [hn, heq]
        exact ⟨hroom, by linarith⟩
      · have hsplit : ((inFlight w s.tasks : ℕ) : ℚ) * C = inFlight w s'.tasks * C + C := by
          rw [hn]
          push_cast
          ring
        exact ⟨by omega, by linarith⟩)
    hlim hrun ⟨h₀.chatRun hb, by simp [h₀.tasks_nil, inFlight], by
      simpa [h₀.tasks_nil, inFlight] using hstart⟩
  have hfly : 0 ≤ (inFlight w s.tasks : ℚ) * C := by positivity
  linarith

theorem balance_rises {C : ℚ} {k : ℕ} (hC : C < 0) {s₀ : State} {as : List Action}
    (h₀ : s₀.Initial) (hb : s₀.disk.CreditsBalanced)
    (hmeter : cfg.creditUnmetered.contains w = false)
    (hlim : Along (step cfg chain) (fun s a => limitedChats cfg w C k s a = true) s₀ as)
    (hrun : runs (step cfg chain) s₀ as = some s) : balanceOf s₀.disk w ≤ balanceOf s.disk w := by
  obtain ⟨-, hle⟩ := runs_invariant
    (I := fun s => ChatRun cfg s ∧ balanceOf s₀.disk w ≤ balanceOf s.disk w)
    (fun s a s' hp hi h => by
      obtain ⟨hr, hle⟩ := hi
      simp only [limitedChats, Bool.and_eq_true] at hp
      refine ⟨step_chatRun hp.1.1 hr h, ?_⟩
      rcases moves_balance hmeter (creditsBalanced_of_eq hr.balanced.disk rfl) hr.chats hr.coherent
        hp.1.2 (step_moves hr.coherent h) with ⟨hstep, -⟩ | ⟨heq, -⟩ | ⟨hstep, -⟩ <;> linarith)
    hlim hrun ⟨h₀.chatRun hb, le_rfl⟩
  exact hle

theorem balance_above_gate (cfg : Config) (chain : Chain) (w : Wallet) (C : ℚ) (s₀ s : State)
    (as : List Action) (h₀ : s₀.Initial) (hb : s₀.disk.CreditsBalanced)
    (hmeter : cfg.creditUnmetered.contains w = false)
    (hstart : cfg.creditMinBalance - C ≤ balanceOf s₀.disk w)
    (hlim : Along (step cfg chain) (fun s a => limitedChats cfg w C 1 s a = true) s₀ as)
    (hrun : runs (step cfg chain) s₀ as = some s) :
    cfg.creditMinBalance - C ≤ balanceOf s.disk w := by
  rcases le_or_gt 0 C with hC | hC
  · have hfloor := balance_floor (k := 1) hC h₀ hb hmeter (by simpa using hstart) hlim hrun
    simpa using hfloor
  · exact hstart.trans (balance_rises hC h₀ hb hmeter hlim hrun)

/-- A completion of one token, at the default price. -/
def oneTokenUsage : TokenUsage := ⟨50, 0⟩

/-- `W` has half a token, spends one on a completion and is refused the next. -/
def gatedRun : List Action :=
  [.sync (.creditGrant none "W" (.fin (1 / 2))) 1700000000000,
    .submit (.chat "W" true), .start 0 1700000000000,
    .completed 0 "m" (some oneTokenUsage) 1700000000000,
    .submit (.chat "W" true), .start 1 1700000000000]

theorem balance_above_gate_refused :
    ∃ s, runs (step defaultConfig idleChain) ⟨DB.empty, [], []⟩ gatedRun = some s ∧
      balanceOf s.disk "W" = -1 / 2 ∧ defaultConfig.creditMinBalance - 1 ≤ balanceOf s.disk "W" := by
  obtain ⟨s, hs, hbal⟩ := runs_exists (step defaultConfig idleChain) ⟨DB.empty, [], []⟩ gatedRun
    (fun s => decide (balanceOf s.disk "W" = -1 / 2)) (by decide +kernel)
  have hfloor := balance_above_gate defaultConfig idleChain "W" 1 ⟨DB.empty, [], []⟩ s gatedRun
    ⟨rfl, rfl⟩ empty_creditsBalanced (by decide +kernel) (by decide +kernel) (by decide +kernel) hs
  exact ⟨s, hs, of_decide_eq_true hbal, hfloor⟩

/-- Two completions of `W` pass the gate at the same balance of half a token,
and each then costs one. -/
def overlappingRun : List Action :=
  [.sync (.creditGrant none "W" (.fin (1 / 2))) 1700000000000,
    .submit (.chat "W" true), .submit (.chat "W" true),
    .start 0 1700000000000, .start 1 1700000000000,
    .completed 0 "m" (some oneTokenUsage) 1700000000000,
    .completed 1 "m" (some oneTokenUsage) 1700000000000]

theorem overlapping_chats_overspend :
    ∃ s, runs (step defaultConfig idleChain) ⟨DB.empty, [], []⟩ overlappingRun = some s ∧
      Along (step defaultConfig idleChain)
        (fun s a => chatTraffic a = true ∧ costsAtMost "W" 1 s a = true)
        ⟨DB.empty, [], []⟩ overlappingRun ∧
      balanceOf s.disk "W" = -3 / 2 ∧
      ¬ defaultConfig.creditMinBalance - 1 ≤ balanceOf s.disk "W" := by
  obtain ⟨s, hs, hbal⟩ := runs_exists (step defaultConfig idleChain) ⟨DB.empty, [], []⟩
    overlappingRun (fun s => decide (balanceOf s.disk "W" = -3 / 2)) (by decide +kernel)
  have hthree : balanceOf s.disk "W" = -3 / 2 := of_decide_eq_true hbal
  refine ⟨s, hs, by decide +kernel, hthree, ?_⟩
  rw [hthree]
  norm_num [defaultConfig]

end KvasirNet.Gateway
