import KvasirNet.GatewaySystem

/-! What a step of the gateway can do, and how the local variables of a
suspended task relate to its request and its snapshot. Both hold along every
run, whatever the interleaving. -/
namespace KvasirNet.Gateway

variable {cfg : Config} {chain : Chain} {s s' : State} {a : Action}

/-- The row of a request whose payment was accepted. -/
def PayRequest.accept (r : PayRequest) (sig : Signature) (payer : Option Wallet) : PayRequest :=
  { r with paid := true, signature := some sig, payer := payer }

/-- A stake for a finite amount is for a positive one. -/
def Request.Positive : Request → Prop
  | .stake _ (.truthy (.fin q)) _ => 0 < q
  | _ => True

variable {r : Request} {db : DB}

theorem precheck_positive (h : r.precheck cfg db = .ok ()) : r.Positive := by
  cases r with
  | stake o amt sig =>
    cases amt with
    | falsy => trivial
    | truthy n =>
      cases n with
      | fin q =>
        simp only [Request.precheck] at h
        split_ifs at h with hn hq
        exact not_le.mp hq
      | nan | negInf | posInf => trivial
  | unstake | claim | faucet | deposit | inference | chat => trivial

/-- The phases a request can be suspended in, with what its locals hold. -/
inductive Coherent (cfg : Config) : Request → Phase → Prop
  | waiting (r : Request) (pos : r.Positive) : Coherent cfg r .waiting
  | done (r : Request) (ans : Response) : Coherent cfg r (.done ans)
  | chat (w : Wallet) (ip : Bool) : Coherent cfg (.chat w ip) .completing
  | stake (o : Wallet) (amt : Amount) (sig : Signature) (db : DB)
      (pos : (Request.stake o amt sig).Positive) (unused : db.usedSignatures.lookup sig = none) :
      Coherent cfg (.stake o amt sig) (.verifying db)
  | deposit (w : Wallet) (amt : JsNumber) (sig : Signature) (db : DB)
      (unused : db.usedSignatures.lookup sig = none) : Coherent cfg (.deposit w amt sig) (.verifying db)
  | inference (rid : RequestId) (sig : Signature) (db : DB) (r : PayRequest)
      (row : db.requests.lookup rid = some r) (unpaid : r.paid = false)
      (unused : db.usedSignatures.lookup sig = none) : Coherent cfg (.inference rid sig) (.verifying db)
  | probing (addr : Wallet) (db : DB) (now : ℕ) : Coherent cfg (.faucet addr) (.probing db now)
  | inferring (rid : RequestId) (sig : Signature) (db : DB) (r : PayRequest) (payer : Option Wallet)
      (usedAt : ℕ) (row : db.requests.lookup rid = some r) (unpaid : r.paid = false)
      (unused : db.usedSignatures.lookup sig = none) :
      Coherent cfg (.inference rid sig)
        (.inferring db (r.accept sig payer) (.payment rid r.priceToken usedAt none))
  | unstake (o : Wallet) (amt : Amount) (db : DB) (pos : Position) (nowMs : ℕ) (landed : Bool)
      (row : db.positions.lookup o = some pos) (active : 0 < pos.principal)
      (finite : landed = true → (unstakeQuote (accrue cfg pos nowMs) amt).isSome = true) :
      Coherent cfg (.unstake o amt)
        (.paying db (.unstake o (accrue cfg pos nowMs) (unstakeQuote (accrue cfg pos nowMs) amt)) landed)
  | claim (o : Wallet) (db : DB) (landed : Bool) :
      Coherent cfg (.claim o) (.paying db (.claim o (ownerPending o db.nodes)) landed)
  | faucet (addr : Wallet) (db : DB) (existed : Bool) (now : ℕ) (landed : Bool) :
      Coherent cfg (.faucet addr) (.paying db (.faucet addr existed now) landed)
  | refund (rid : RequestId) (sig : Signature) (db : DB) (r : PayRequest) (payer : Wallet)
      (usedAt : ℕ) (error : String) (landed : Bool) (row : db.requests.lookup rid = some r)
      (unpaid : r.paid = false) (unused : db.usedSignatures.lookup sig = none) :
      Coherent cfg (.inference rid sig)
        (.paying db (.refund rid sig (r.accept sig (some payer)) payer
          (.payment rid r.priceToken usedAt none) error) landed)

theorem Coherent.positive (h : Coherent cfg r .waiting) : r.Positive := by
  cases h with
  | waiting r pos => exact pos

/-- A step is a submission, a landing transfer, a finished completion, a
synchronous handler or a resumed task. -/
theorem step_cases (h : step cfg chain s a = some s') :
    (∃ r, a = .submit r ∧ (s' = s ∨ r.precheck cfg (loadDB s.disk) = .ok () ∧
      s' = { s with tasks := s.tasks ++ [⟨r, .waiting⟩] })) ∨
    (∃ i r db p, a = .lands i ∧ s.tasks[i]? = some ⟨r, .paying db p false⟩ ∧ p.canLand cfg = true ∧
      s' = { s with
        tasks := s.tasks.set i ⟨r, .paying db p true⟩
        log := p.landing cfg db ++ s.log }) ∨
    (∃ i w ip m u now, a = .completed i m u now ∧ s.tasks[i]? = some ⟨.chat w ip, .completing⟩ ∧
      s' = { s with
        disk := u.elim s.disk fun u => debitCredits (loadDB s.disk) w m u (now / 1000)
        tasks := s.tasks.set i ⟨.chat w ip, .done .ok⟩ }) ∨
    (∃ r now, a = .sync r now ∧
      (s' = s ∨ ∃ out, r.apply cfg now (loadDB s.disk) = .ok out ∧
        s' = { s with disk := out.db.getD s.disk, log := out.events ++ s.log })) ∨
    (∃ ρ, resumption cfg chain s a = some ρ ∧ s' = s.resume ρ) := by
  cases a with
  | submit r =>
    refine Or.inl ⟨r, rfl, ?_⟩
    simp only [step] at h
    split at h
    · rename_i hpre
      exact Or.inr ⟨hpre, (Option.some.inj h).symm⟩
    · exact Or.inl (Option.some.inj h).symm
  | lands i =>
    refine Or.inr (Or.inl ?_)
    simp only [step] at h
    split at h
    · rename_i r db p ht
      split_ifs at h with hc
      exact ⟨i, r, db, p, rfl, ht, hc, (Option.some.inj h).symm⟩
    · cases h
  | completed i m u now =>
    refine Or.inr (Or.inr (Or.inl ?_))
    simp only [step] at h
    split at h
    · rename_i w ip ht
      exact ⟨i, w, ip, m, u, now, rfl, ht, (Option.some.inj h).symm⟩
    · cases h
  | sync r now =>
    refine Or.inr (Or.inr (Or.inr (Or.inl ⟨r, now, rfl, ?_⟩)))
    simp only [step] at h
    split at h
    · rename_i out hout
      exact Or.inr ⟨out, hout, (Option.some.inj h).symm⟩
    · exact Or.inl (Option.some.inj h).symm
  | start i nowMs | verified i found nowMs saveOk | probed i existed | inferred i answer saveOk
  | settled i ok saveOk =>
    -- the five actions that wake a task differ only in the resumption they find
    refine Or.inr (Or.inr (Or.inr (Or.inr ?_)))
    simp only [step, Option.map_eq_some_iff] at h
    obtain ⟨ρ, hρ, rfl⟩ := h
    exact ⟨ρ, hρ, rfl⟩

variable {ρ : Resumption}

theorem resumption_cases (h : resumption cfg chain s a = some ρ) :
    ∃ ph, s.tasks[ρ.index]? = some ⟨ρ.request, ph⟩ ∧
      ((ph = .waiting ∧ lockFree s.tasks ρ.index ρ.request.lockKey = true ∧
          ρ.snapshot = loadDB s.disk ∧ ∃ now, ρ.outcome = ρ.request.begin cfg now ρ.snapshot) ∨
        (ph = .verifying ρ.snapshot ∧
          ∃ found now, ρ.outcome = ρ.request.verified cfg chain found now ρ.snapshot) ∨
        (∃ addr now existed, ρ.request = .faucet addr ∧ ph = .probing ρ.snapshot now ∧
          ρ.outcome = faucetProbed cfg ρ.snapshot addr now existed) ∨
        (∃ rid sig r use answer, ρ.request = .inference rid sig ∧ ph = .inferring ρ.snapshot r use ∧
          ρ.outcome = Gateway.inferred ρ.snapshot rid sig r use answer) ∨
        (∃ p landed ok, ph = .paying ρ.snapshot p landed ∧ (ok = true → landed = true) ∧
          a = .settled ρ.index ok ρ.saveOk ∧ ρ.outcome = p.settled ρ.snapshot ok)) := by
  cases a with
  | start i nowMs =>
    simp only [resumption] at h
    split at h
    · rename_i r ht
      split_ifs at h with hl
      cases h
      exact ⟨_, ht, Or.inl ⟨rfl, hl, rfl, nowMs, rfl⟩⟩
    · cases h
  | verified i found nowMs saveOk =>
    simp only [resumption] at h
    split at h
    · rename_i r db ht
      cases h
      exact ⟨_, ht, Or.inr (Or.inl ⟨rfl, found, nowMs, rfl⟩)⟩
    · cases h
  | probed i existed =>
    simp only [resumption] at h
    split at h
    · rename_i addr db now ht
      cases h
      exact ⟨_, ht, Or.inr (Or.inr (Or.inl ⟨addr, now, existed, rfl, rfl, rfl⟩))⟩
    · cases h
  | inferred i answer saveOk =>
    simp only [resumption] at h
    split at h
    · rename_i rid sig db r use ht
      cases h
      exact ⟨_, ht, Or.inr (Or.inr (Or.inr (Or.inl ⟨rid, sig, r, use, answer, rfl, rfl, rfl⟩)))⟩
    · cases h
  | settled i ok saveOk =>
    simp only [resumption] at h
    split at h
    · rename_i r db p landed ht
      split_ifs at h with hl
      cases h
      refine ⟨_, ht, Or.inr (Or.inr (Or.inr (Or.inr ⟨p, landed, ok, rfl, ?_, rfl, rfl⟩)))⟩
      cases ok <;> cases landed <;> simp_all
    · cases h
  | submit r | lands i | completed i m u now | sync r now => simp [resumption] at h

/-- A new phase of `r` that holds the snapshot `db`. -/
def Continues (cfg : Config) (r : Request) (db : DB) (ph : Phase) : Prop :=
  Coherent cfg r ph ∧ (ph.snapshot = some db ∨ ph = .completing)

variable {ph : Phase}

theorem begin_wait {now : ℕ} (hpos : r.Positive)
    (h : r.begin cfg now db = .wait ph) : Continues cfg r db ph := by
  cases r with
  | stake o amt sig =>
    simp only [Request.begin, refuse] at h
    split_ifs at h with hu
    cases h
    exact ⟨.stake o amt sig db hpos (by simpa using hu), Or.inl rfl⟩
  | deposit w amt sig =>
    simp only [Request.begin, refuse] at h
    split_ifs at h with hu
    cases h
    exact ⟨.deposit w amt sig db (by simpa using hu), Or.inl rfl⟩
  | unstake o amt =>
    simp only [Request.begin, refuse] at h
    split at h
    · cases h
    · rename_i pos hpos
      split_ifs at h with hp
      cases h
      exact ⟨.unstake o amt db pos now false hpos (not_le.mp hp) (fun h => by cases h), Or.inl rfl⟩
  | claim o =>
    simp only [Request.begin, refuse] at h
    split_ifs at h
    cases h
    exact ⟨.claim o db false, Or.inl rfl⟩
  | faucet addr =>
    simp only [Request.begin, refuse] at h
    split_ifs at h
    cases h
    exact ⟨.probing addr db now, Or.inl rfl⟩
  | inference rid sig =>
    simp only [Request.begin, refuse] at h
    split at h
    · cases h
    · rename_i r hr
      split_ifs at h with hp hf hu
      cases h
      exact ⟨.inference rid sig db r hr (by simpa using hp) (by simpa using hu), Or.inl rfl⟩
  | chat w ip =>
    -- a completion drops its snapshot: the debit loads the file again
    simp only [Request.begin, refuse] at h
    split at h
    · cases h
    · split_ifs at h
      cases h
      exact ⟨.chat w ip, Or.inr rfl⟩

theorem refundOrFail_wait {rid : RequestId} {sig : Signature} {r : PayRequest}
    {payer : Option Wallet} {usedAt : ℕ} {error : String}
    (row : db.requests.lookup rid = some r) (unpaid : r.paid = false)
    (unused : db.usedSignatures.lookup sig = none)
    (h : refundOrFail db rid sig (r.accept sig payer) (.payment rid r.priceToken usedAt none) error =
      .wait ph) : Continues cfg (.inference rid sig) db ph := by
  cases payer with
  | none => simp [refundOrFail, PayRequest.accept] at h
  | some payer =>
    simp only [refundOrFail, PayRequest.accept] at h
    cases h
    exact ⟨.refund rid sig db r payer usedAt error false row unpaid unused, Or.inl rfl⟩

theorem verified_wait {found : Bool} {now : ℕ}
    (hc : Coherent cfg r (.verifying db)) (h : r.verified cfg chain found now db = .wait ph) :
    Continues cfg r db ph := by
  cases hc with
  -- a verified stake or deposit never waits again; only a payment does
  | stake o amt sig db pos unused =>
    cases amt with
    | falsy => simp [Request.verified, refuse] at h
    | truthy amount =>
      simp only [Request.verified, stakeVerified, refuse] at h
      repeat' split at h
      all_goals cases h
  | deposit w amt sig db unused =>
    simp only [Request.verified, depositVerified, refuse] at h
    repeat' split at h
    all_goals cases h
  | inference rid sig db r row unpaid unused =>
    simp only [Request.verified, row, refuse] at h
    split at h
    · cases h
    · rename_i payer hv
      simp only [paymentVerified] at h
      split_ifs at h
      · cases h
        exact ⟨.inferring rid sig db r payer (now / 1000) row unpaid unused, Or.inl rfl⟩
      · exact refundOrFail_wait row unpaid unused h

theorem resumption_wait
    (hc : ∀ t ∈ s.tasks, Coherent cfg t.request t.phase)
    (h : resumption cfg chain s a = some ρ) (ho : ρ.outcome = .wait ph) :
    Continues cfg ρ.request ρ.snapshot ph := by
  obtain ⟨ph₀, ht, hcase⟩ := resumption_cases h
  have hcoh : Coherent cfg ρ.request ph₀ := hc _ (List.mem_of_getElem? ht)
  rcases hcase with ⟨rfl, -, -, now, hout⟩ | ⟨rfl, found, now, hout⟩ |
    ⟨addr, now, existed, hr, rfl, hout⟩ | ⟨rid, sig, r, use, answer, hr, rfl, hout⟩ |
    ⟨p, landed, ok, rfl, -, -, hout⟩
  · exact begin_wait hcoh.positive (hout.symm.trans ho)
  · exact verified_wait hcoh (hout.symm.trans ho)
  · rw [hout, faucetProbed] at ho
    split_ifs at ho
    · cases ho
    · cases ho
      rw [hr]
      exact ⟨.faucet addr _ existed now false, Or.inl rfl⟩
  · rw [hr] at hcoh ⊢
    cases hcoh with
    | inferring rid sig db r payer usedAt row unpaid unused =>
      rw [hout] at ho
      cases answer with
      | error e => exact refundOrFail_wait row unpaid unused ho
      | ok ans => cases ho
  · -- a settled payout stops or saves
    exfalso
    rw [hout] at ho
    cases p <;> simp only [Payout.settled, refuse] at ho
    · split at ho <;> cases ho
    · split at ho <;> cases ho
    · split at ho <;> cases ho
    · cases ho

theorem step_coherent (hc : ∀ t ∈ s.tasks, Coherent cfg t.request t.phase)
    (h : step cfg chain s a = some s') : ∀ t ∈ s'.tasks, Coherent cfg t.request t.phase := by
  have hset (i : ℕ) (t' : Task) (ht' : Coherent cfg t'.request t'.phase) :
      ∀ t ∈ s.tasks.set i t', Coherent cfg t.request t.phase := by
    intro t ht
    rcases List.mem_or_eq_of_mem_set ht with ht | rfl
    · exact hc t ht
    · exact ht'
  rcases step_cases h with ⟨r, -, rfl | ⟨hpre, rfl⟩⟩ | ⟨i, r, db, p, -, ht, hland, rfl⟩ |
    ⟨i, w, ip, m, u, now, -, ht, rfl⟩ | ⟨r, now, -, rfl | ⟨out, -, rfl⟩⟩ | ⟨ρ, hρ, rfl⟩
  · exact hc
  · intro t ht
    rcases List.mem_append.mp ht with ht | ht
    · exact hc t ht
    · obtain rfl := List.mem_singleton.mp ht
      exact .waiting r (precheck_positive hpre)
  · -- a transfer lands: only the flag of the payout changes
    refine hset i _ ?_
    have hcoh : Coherent cfg r (.paying db p false) := hc _ (List.mem_of_getElem? ht)
    cases hcoh with
    | unstake o amt db pos nowMs landed row active =>
      refine .unstake o amt db pos nowMs true row active fun _ => ?_
      cases hq : unstakeQuote (accrue cfg pos nowMs) amt with
      | none => simp [Payout.canLand, Payout.amount, hq] at hland
      | some out => rfl
    | claim o db landed => exact .claim o db true
    | faucet addr db existed now landed => exact .faucet addr db existed now true
    | refund rid sig db r payer usedAt error landed row unpaid unused =>
      exact .refund rid sig db r payer usedAt error true row unpaid unused
  · exact hset i _ (.done _ _)
  · exact hc
  · exact hc
  · unfold State.resume
    split
    · exact hset _ _ (.done _ _)
    · rename_i ph ho
      exact hset _ _ (resumption_wait hc hρ ho).1
    · split_ifs
      · exact hset _ _ (.done _ _)
      · exact hset _ _ (.done _ _)

/-- The saves a suspended task can make: the request, the phase it resumes from,
the database it writes and what the money trail gains. -/
inductive Commits (cfg : Config) (chain : Chain) : Request → Phase → DB → List Event → Prop
  | stake (o : Wallet) (q : ℚ) (sig : Signature) (db : DB) (now : ℕ) (pos : 0 < q)
      (unused : db.usedSignatures.lookup sig = none)
      (moved : toBase cfg q ≤ vaultDelta cfg (chain sig)) :
      Commits cfg chain (.stake o (.truthy (.fin q)) sig) (.verifying db)
        (stakeDb cfg now db o q sig)
        [.staked o q sig (vaultDelta cfg (chain sig)),
          .accrued o (accruedOver db o (stakeBase cfg now db o))]
  | deposit (w : Wallet) (q : ℚ) (sig : Signature) (db : DB) (now : ℕ)
      (unused : db.usedSignatures.lookup sig = none) :
      Commits cfg chain (.deposit w (.fin q) sig) (.verifying db) (depositDb now db w q sig)
        [.deposited w q sig]
  | answered (rid : RequestId) (sig : Signature) (db : DB) (r : PayRequest) (payer : Option Wallet)
      (usedAt : ℕ) (ans : BridgeAnswer) (row : db.requests.lookup rid = some r)
      (unused : db.usedSignatures.lookup sig = none) :
      Commits cfg chain (.inference rid sig)
        (.inferring db (r.accept sig payer) (.payment rid r.priceToken usedAt none))
        (answeredDb db rid sig (r.accept sig payer) (.payment rid r.priceToken usedAt none) ans)
        [.answered rid sig]
  | failed (rid : RequestId) (sig : Signature) (ph : Phase) (db : DB) (r : PayRequest) (usedAt : ℕ)
      (error : String) (row : db.requests.lookup rid = some r)
      (unused : db.usedSignatures.lookup sig = none)
      (phase : ph = .verifying db ∨
        ph = .inferring db (r.accept sig none) (.payment rid r.priceToken usedAt none)) :
      Commits cfg chain (.inference rid sig) ph
        (inferenceFailedDb db rid sig (r.accept sig none) (.payment rid r.priceToken usedAt none)
          false error)
        [.unserved sig none r.priceToken]
  | unstake (o : Wallet) (amt : Amount) (db : DB) (pos : Position) (now : ℕ) (p r : ℚ)
      (row : db.positions.lookup o = some pos) (active : 0 < pos.principal)
      (out : unstakeQuote (accrue cfg pos now) amt = some (p, r)) :
      Commits cfg chain (.unstake o amt)
        (.paying db (.unstake o (accrue cfg pos now) (unstakeQuote (accrue cfg pos now) amt)) true)
        (unstakeDb db o (accrue cfg pos now) p r) []
  | claim (o : Wallet) (db : DB) :
      Commits cfg chain (.claim o) (.paying db (.claim o (ownerPending o db.nodes)) true)
        (claimDb db o) []
  | faucet (addr : Wallet) (db : DB) (existed : Bool) (now : ℕ) :
      Commits cfg chain (.faucet addr) (.paying db (.faucet addr existed now) true)
        (faucetDb db addr existed now) []
  | refund (rid : RequestId) (sig : Signature) (db : DB) (r : PayRequest) (payer : Wallet)
      (usedAt : ℕ) (error : String) (landed ok : Bool) (row : db.requests.lookup rid = some r)
      (unused : db.usedSignatures.lookup sig = none) (returned : ok = true → landed = true) :
      Commits cfg chain (.inference rid sig)
        (.paying db (.refund rid sig (r.accept sig (some payer)) payer
          (.payment rid r.priceToken usedAt none) error) landed)
        (inferenceFailedDb db rid sig (r.accept sig (some payer))
          (.payment rid r.priceToken usedAt none) ok error)
        (if ok then [] else [.unserved sig (some payer) r.priceToken])

variable {evs : List Event} {ans : Response}

theorem refundOrFail_save {rid : RequestId} {sig : Signature} {db' : DB} {r : PayRequest}
    {payer : Option Wallet} {usedAt : ℕ} {error : String}
    (h : refundOrFail db rid sig (r.accept sig payer) (.payment rid r.priceToken usedAt none) error =
      .save db' evs ans) :
    payer = none ∧ evs = [.unserved sig none r.priceToken] ∧
      db' = inferenceFailedDb db rid sig (r.accept sig none) (.payment rid r.priceToken usedAt none)
        false error := by
  cases payer with
  | some payer => simp [refundOrFail, PayRequest.accept] at h
  | none =>
    simp only [refundOrFail, PayRequest.accept] at h
    cases h
    exact ⟨rfl, rfl, rfl⟩

theorem verified_save {found : Bool} {now : ℕ} {db' : DB}
    (hc : Coherent cfg r (.verifying db))
    (h : r.verified cfg chain found now db = .save db' evs ans) :
    Commits cfg chain r (.verifying db) db' evs := by
  cases hc with
  | stake o amt sig db pos unused =>
    cases amt with
    | falsy => simp [Request.verified, refuse] at h
    | truthy amount =>
      simp only [Request.verified, refuse] at h
      split at h
      · rename_i q payer hv
        simp only [stakeVerified, refuse] at h
        split_ifs at h with honline
        cases h
        -- the amount that was verified is the amount that is credited
        obtain ⟨q', hq, hmoved⟩ := verifyStakeTransfer_ok hv
        cases hq
        exact .stake o q sig db now pos unused hmoved
      · cases h
      · cases h
  | deposit w amt sig db unused =>
    simp only [Request.verified, refuse] at h
    split at h
    · cases h
      exact .deposit w _ sig db now unused
    · cases h
    · cases h
  | inference rid sig db r row unpaid unused =>
    simp only [Request.verified, row, refuse] at h
    split at h
    · cases h
    · simp only [paymentVerified] at h
      split_ifs at h
      obtain ⟨rfl, rfl, rfl⟩ := refundOrFail_save h
      exact .failed rid sig _ db r _ _ row unused (Or.inl rfl)

theorem settled_save {p : Payout} {landed ok : Bool} {db' : DB}
    (hc : Coherent cfg r (.paying db p landed)) (hok : ok = true → landed = true)
    (h : p.settled db ok = .save db' evs ans) : Commits cfg chain r (.paying db p landed) db' evs := by
  cases hc with
  | unstake o amt db pos now landed row active =>
    simp only [Payout.settled, refuse] at h
    split at h
    · rename_i principalOut rewardsOut hq
      cases h
      obtain rfl := hok rfl
      exact .unstake o amt db pos now principalOut rewardsOut row active hq
    · cases h
  | claim o db landed =>
    simp only [Payout.settled, refuse] at h
    split_ifs at h with ho
    cases h
    obtain rfl := hok ho
    exact .claim o db
  | faucet addr db existed now landed =>
    simp only [Payout.settled, refuse] at h
    split_ifs at h with ho
    cases h
    obtain rfl := hok ho
    exact .faucet addr db existed now
  | refund rid sig db r payer usedAt error landed row unpaid unused =>
    simp only [Payout.settled] at h
    cases h
    exact .refund rid sig db r payer usedAt error landed ok row unused hok

theorem resumption_save {db' : DB}
    (hc : ∀ t ∈ s.tasks, Coherent cfg t.request t.phase)
    (h : resumption cfg chain s a = some ρ) (ho : ρ.outcome = .save db' evs ans) :
    ∃ ph, s.tasks[ρ.index]? = some ⟨ρ.request, ph⟩ ∧ ph.snapshot = some ρ.snapshot ∧
      Commits cfg chain ρ.request ph db' evs := by
  obtain ⟨ph, ht, hcase⟩ := resumption_cases h
  have hcoh : Coherent cfg ρ.request ph := hc _ (List.mem_of_getElem? ht)
  refine ⟨ph, ht, ?_⟩
  rcases hcase with ⟨rfl, -, -, now, hout⟩ | ⟨rfl, found, now, hout⟩ |
    ⟨addr, now, existed, hr, rfl, hout⟩ | ⟨rid, sig, r, use, answer, hr, rfl, hout⟩ |
    ⟨p, landed, ok, rfl, hok, -, hout⟩
  · -- the first part of a critical section never saves
    exfalso
    rw [hout] at ho
    cases hreq : ρ.request <;> simp only [hreq, Request.begin, refuse] at ho <;>
      (repeat' split at ho) <;> cases ho
  · exact ⟨rfl, verified_save hcoh (hout.symm.trans ho)⟩
  · -- neither does a probe of the token account
    exfalso
    rw [hout, faucetProbed] at ho
    split_ifs at ho
    all_goals cases ho
  · refine ⟨rfl, ?_⟩
    rw [hr] at hcoh ⊢
    cases hcoh with
    | inferring rid sig db r payer usedAt row unpaid unused =>
      rw [hout] at ho
      cases answer with
      | error e =>
        obtain ⟨rfl, rfl, rfl⟩ := refundOrFail_save ho
        exact .failed rid sig _ _ r usedAt e row unused (Or.inr rfl)
      | ok ans =>
        cases ho
        exact .answered rid sig _ r payer usedAt ans row unused
  · exact ⟨rfl, settled_save hcoh hok (hout.symm.trans ho)⟩

/-- `Q` holds of the file and of every snapshot in flight. -/
structure State.Every (Q : DB → Prop) (s : State) : Prop where
  disk : Q s.disk
  snapshots : ∀ t ∈ s.tasks, ∀ db, t.phase.snapshot = some db → Q db

/-- A property of databases that loading, every synchronous handler, a debit
and every save of an awaiting task preserve holds of all databases of a run,
however stale the snapshots are. -/
theorem step_every {Q : DB → Prop} (hload : ∀ d, Q d → Q (loadDB d))
    (hsync : ∀ (r : SyncRequest) now d out db, Q d → r.apply cfg now d = .ok out →
      out.db = some db → Q db)
    (hdebit : ∀ d w m u now, Q d → Q (debitCredits d w m u now))
    (hcommit : ∀ r ph base db evs, Q base → ph.snapshot = some base →
      Commits cfg chain r ph db evs → Q db)
    (hc : ∀ t ∈ s.tasks, Coherent cfg t.request t.phase) (hs : s.Every Q)
    (h : step cfg chain s a = some s') : s'.Every Q := by
  have hset (i : ℕ) (t' : Task) (ht' : ∀ db, t'.phase.snapshot = some db → Q db) :
      ∀ t ∈ s.tasks.set i t', ∀ db, t.phase.snapshot = some db → Q db := by
    intro t ht
    rcases List.mem_or_eq_of_mem_set ht with ht | rfl
    · exact hs.snapshots t ht
    · exact ht'
  have hdone (r : Request) (ans : Response) (db : DB)
      (hsnap : (⟨r, .done ans⟩ : Task).phase.snapshot = some db) : Q db := by cases hsnap
  rcases step_cases h with ⟨r, -, rfl | ⟨hpre, rfl⟩⟩ | ⟨i, r, db, p, -, ht, -, rfl⟩ |
    ⟨i, w, ip, m, u, now, -, ht, rfl⟩ | ⟨r, now, -, rfl | ⟨out, hout, rfl⟩⟩ | ⟨ρ, hρ, rfl⟩
  · exact hs
  · refine ⟨hs.disk, fun t ht db hdb => ?_⟩
    rcases List.mem_append.mp ht with ht | ht
    · exact hs.snapshots t ht db hdb
    · obtain rfl := List.mem_singleton.mp ht
      cases hdb
  · exact ⟨hs.disk, hset i _ fun db hdb => hs.snapshots _ (List.mem_of_getElem? ht) db hdb⟩
  · refine ⟨?_, hset i _ (hdone _ _)⟩
    cases u with
    | none => exact hs.disk
    | some u => exact hdebit _ _ _ _ _ (hload _ hs.disk)
  · exact hs
  · refine ⟨?_, hs.snapshots⟩
    cases hdb : out.db with
    | none => simpa [hdb] using hs.disk
    | some db => simpa [hdb] using hsync r now _ out db (hload _ hs.disk) hout hdb
  · -- a resumed task keeps its snapshot while it waits and saves a successor of it
    unfold State.resume
    split
    · exact ⟨hs.disk, hset _ _ (hdone _ _)⟩
    · rename_i ph ho
      refine ⟨hs.disk, hset _ _ fun db hdb => ?_⟩
      obtain ⟨ph₀, ht, hcase⟩ := resumption_cases hρ
      have hbase : Q ρ.snapshot := by
        rcases hcase with ⟨-, -, hsnap, -⟩ | ⟨rfl, -⟩ | ⟨_, _, _, -, rfl, -⟩ |
          ⟨_, _, _, _, _, -, rfl, -⟩ | ⟨_, _, _, rfl, -⟩
        · exact hsnap ▸ hload _ hs.disk
        all_goals exact hs.snapshots _ (List.mem_of_getElem? ht) _ rfl
      rcases (resumption_wait hc hρ ho).2 with hsnap | rfl
      · exact Option.some.inj (hsnap.symm.trans hdb) ▸ hbase
      · cases hdb
    · rename_i db events ans ho
      split_ifs
      · obtain ⟨ph, ht, hsnap, hcm⟩ := resumption_save hc hρ ho
        exact ⟨hcommit _ _ _ _ _ (hs.snapshots _ (List.mem_of_getElem? ht) _ hsnap) hsnap hcm,
          hset _ _ (hdone _ _)⟩
      · exact ⟨hs.disk, hset _ _ (hdone _ _)⟩

end KvasirNet.Gateway
