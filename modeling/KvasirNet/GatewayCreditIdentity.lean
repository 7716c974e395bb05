import KvasirNet.GatewayCoherence
import KvasirNet.GatewayWrites

/-! The credit ledger identity. Every operation moves a balance and one of the
three totals by the same rounded amount, and a stale snapshot is a database
that satisfied the identity when it was read. -/
namespace KvasirNet.Gateway

/-- All four fields are multiples of `1e-6` and the balance is what came in
less what was spent. -/
structure CreditAcct.Balanced (a : CreditAcct) : Prop where
  balance_grid : OnGrid 1000000 a.balance
  granted_grid : OnGrid 1000000 a.granted
  deposited_grid : OnGrid 1000000 a.deposited
  spent_grid : OnGrid 1000000 a.spent
  identity : a.balance = a.granted + a.deposited - a.spent

def DB.CreditsBalanced (db : DB) : Prop := ∀ w a, db.credits.lookup w = some a → a.Balanced

theorem round6_grid_add (g x : ℚ) (hg : OnGrid 1000000 g) : round6 (g + x) = g + round6 x :=
  roundTo_grid_add 1000000 (by norm_num) g x hg

theorem onGrid_round6 (x : ℚ) : OnGrid 1000000 (round6 x) := onGrid_roundTo 1000000 x

theorem newAcct_balanced (now : ℕ) : (newAcct now).Balanced := by
  have h0 := onGrid_zero 1000000
  exact ⟨h0, h0, h0, h0, by norm_num [newAcct]⟩

theorem CreditAcct.Balanced.grant {a : CreditAcct} (ha : a.Balanced) (amt : ℚ) (now : ℕ) :
    (a.grant amt now).Balanced := by
  refine ⟨onGrid_round6 _, onGrid_round6 _, ha.deposited_grid, ha.spent_grid, ?_⟩
  simp only [CreditAcct.grant, round6_grid_add _ _ ha.balance_grid,
    round6_grid_add _ _ ha.granted_grid]
  linarith [ha.identity]

theorem CreditAcct.Balanced.deposit {a : CreditAcct} (ha : a.Balanced) (amt : ℚ) (now : ℕ) :
    (a.deposit amt now).Balanced := by
  refine ⟨onGrid_round6 _, ha.granted_grid, onGrid_round6 _, ha.spent_grid, ?_⟩
  simp only [CreditAcct.deposit, round6_grid_add _ _ ha.balance_grid,
    round6_grid_add _ _ ha.deposited_grid]
  linarith [ha.identity]

theorem CreditAcct.Balanced.debit {a : CreditAcct} (ha : a.Balanced) (cost : ℚ)
    (hc : OnGrid 1000000 cost) (now : ℕ) : (a.debit cost now).Balanced := by
  have hb : round6 (a.balance - cost) = a.balance - cost :=
    roundTo_of_onGrid 1000000 (by norm_num) _ (ha.balance_grid.sub hc)
  have hs : round6 (a.spent + cost) = a.spent + cost :=
    roundTo_of_onGrid 1000000 (by norm_num) _ (ha.spent_grid.add hc)
  refine ⟨onGrid_round6 _, ha.granted_grid, ha.deposited_grid, onGrid_round6 _, ?_⟩
  simp only [CreditAcct.debit, hb, hs]
  linarith [ha.identity]

theorem empty_creditsBalanced : DB.empty.CreditsBalanced := by
  intro w a h
  cases h

theorem creditAcct_balanced {db : DB} (h : db.CreditsBalanced) (w : Wallet) (now : ℕ) :
    (creditAcct db w now).Balanced := by
  unfold creditAcct
  cases hw : db.credits.lookup w with
  | none => exact newAcct_balanced now
  | some a => exact h w a hw

theorem creditsBalanced_of_insert {d db : DB} (h : d.CreditsBalanced) (w : Wallet) (a : CreditAcct)
    (ha : a.Balanced) (hdb : db.credits = d.credits.insert w a) : db.CreditsBalanced := by
  intro w' a' hw'
  rw [hdb] at hw'
  by_cases hww : w' = w
  · subst hww
    rw [AList.lookup_insert] at hw'
    exact Option.some.inj hw' ▸ ha
  · rw [AList.lookup_insert_ne hww] at hw'
    exact h w' a' hw'

theorem creditsBalanced_of_eq {d db : DB} (h : d.CreditsBalanced) (hdb : db.credits = d.credits) :
    db.CreditsBalanced := by
  intro w a hw
  exact h w a (hdb ▸ hw)

theorem apply_creditsBalanced {cfg : Config} {r : SyncRequest} {now : ℕ} {d db : DB} {out : Saved}
    (hd : d.CreditsBalanced) (h : r.apply cfg now d = .ok out) (hdb : out.db = some db) :
    db.CreditsBalanced := by
  have hw := apply_writes h hdb
  generalize out.events = evs at hw
  cases hw with
  | creditGrant w amt pos =>
    exact creditsBalanced_of_insert hd w _ ((creditAcct_balanced hd w _).grant amt _) rfl
  | creditRegister w | whitelistAdd w | apiKeyMint w =>
    exact creditsBalanced_of_insert hd w _ (creditAcct_balanced hd w _) rfl
  | viewPosition | register | heartbeat | removeNode | contribution | infraReport | inferenceReport
  | pricingSync | pricingPush | sweep | quote | twoFactorLogin | twoFactorEnroll | twoFactorConfirm
  | twoFactorDisable | adminPricing | relayPut | relayRemove | apiKeyRevokeAll | apiKeyRevoke
  | whitelistRemove | adminRemoveNode => exact creditsBalanced_of_eq hd rfl

theorem debitCredits_creditsBalanced {d : DB} (hd : d.CreditsBalanced) (w : Wallet) (m : ModelId)
    (u : TokenUsage) (now : ℕ) : (debitCredits d w m u now).CreditsBalanced :=
  creditsBalanced_of_insert hd w _
    ((creditAcct_balanced hd w now).debit _ (onGrid_round6 _) now) rfl

theorem commits_creditsBalanced {cfg : Config} {chain : Chain} {r : Request} {ph : Phase}
    {base db : DB} {evs : List Event} (hbase : base.CreditsBalanced)
    (hsnap : ph.snapshot = some base) (h : Commits cfg chain r ph db evs) : db.CreditsBalanced := by
  cases h with
  | deposit w q sig db' now unused =>
    cases hsnap
    exact creditsBalanced_of_insert hbase w _
      ((creditAcct_balanced hbase w _).deposit q (now / 1000)) rfl
  | failed rid sig ph db' r usedAt error row unused phase =>
    rcases phase with rfl | rfl <;> cases hsnap <;> exact creditsBalanced_of_eq hbase rfl
  | stake | answered | unstake | claim | faucet | refund =>
    cases hsnap
    exact creditsBalanced_of_eq hbase rfl

theorem step_creditsBalanced {cfg : Config} {chain : Chain} {s s' : State} {a : Action}
    (hc : ∀ t ∈ s.tasks, Coherent cfg t.request t.phase) (hs : s.Every DB.CreditsBalanced)
    (h : step cfg chain s a = some s') : s'.Every DB.CreditsBalanced :=
  step_every (fun _ hd => creditsBalanced_of_eq hd rfl)
    (fun _ _ _ _ _ => apply_creditsBalanced)
    (fun _ w m u now hd => debitCredits_creditsBalanced hd w m u now)
    (fun _ _ _ _ _ => commits_creditsBalanced) hc hs h

/-- In every database a run saves, every credit account satisfies
`balance = granted + deposited - spent`, for any interleaving of all handlers
and however stale the snapshots they write back. -/
theorem credit_ledger_identity (cfg : Config) (chain : Chain) (s₀ s : State) (acts : List Action)
    (h₀ : s₀.Initial) (hdisk : s₀.disk.CreditsBalanced)
    (hrun : runs (step cfg chain) s₀ acts = some s) (w : Wallet) (a : CreditAcct)
    (ha : s.disk.credits.lookup w = some a) :
    a.balance = a.granted + a.deposited - a.spent := by
  have hinv : (∀ t ∈ s.tasks, Coherent cfg t.request t.phase) ∧ s.Every DB.CreditsBalanced := by
    refine runs_invariant (P := fun _ _ => True)
      (I := fun s => (∀ t ∈ s.tasks, Coherent cfg t.request t.phase) ∧ s.Every DB.CreditsBalanced)
      ?_ (along_of_forall (fun _ _ => trivial) s₀ acts) hrun ?_
    · intro s a s' _ hi h
      exact ⟨step_coherent hi.1 h, step_creditsBalanced hi.1 hi.2 h⟩
    · constructor
      · simp [h₀.tasks_nil]
      · exact ⟨hdisk, by simp [h₀.tasks_nil]⟩
  exact (hinv.2.disk w a ha).identity

/-- A deposit that loads before a grant and saves after it. -/
def staleDepositRun : List Action :=
  [.submit (.deposit "W" (.fin (1 / 3)) "sig"), .start 0 1000,
    .sync (.creditGrant none "W" (.fin (2 / 7))) 2000, .verified 0 true 3000 true]

theorem credit_ledger_identity_stale_deposit :
    ∃ s a, runs (step defaultConfig fun _ => vaultTransfer defaultConfig "W" 1000000)
        ⟨DB.empty, [], []⟩ staleDepositRun = some s ∧
      s.disk.credits.lookup "W" = some a ∧ a.balance = a.granted + a.deposited - a.spent := by
  have hrun : ((runs (step defaultConfig fun _ => vaultTransfer defaultConfig "W" 1000000)
      ⟨DB.empty, [], []⟩ staleDepositRun).bind fun s => s.disk.credits.lookup "W").isSome = true := by
    decide +kernel
  obtain ⟨a, ha⟩ := Option.isSome_iff_exists.mp hrun
  obtain ⟨s, hs, hw⟩ := Option.bind_eq_some_iff.mp ha
  exact ⟨s, a, hs, hw,
    credit_ledger_identity _ _ _ s _ ⟨rfl, rfl⟩ empty_creditsBalanced hs "W" a hw⟩

end KvasirNet.Gateway
