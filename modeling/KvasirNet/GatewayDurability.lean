import KvasirNet.GatewayMoves
import KvasirNet.GatewayMigration

/-! Which rows a save may change. A handler names the rows it is about; every
other row of the file it loaded it writes back as it was. -/
namespace KvasirNet.Gateway

variable {cfg : Config} {chain : Chain} {s s' : State} {a : Action}

inductive Row
  | position (owner : Wallet)
  | signature (sig : Signature)
  | node (id : NodeId)
  | request (id : RequestId)
  | faucet (address : Wallet)
  | faucetAccounts
  | twoFactor (wallet : Wallet)
  | pricing
  | relay (url : String)
  | credit (wallet : Wallet)
  | apiKey (hash : String)
  | whitelist (wallet : Wallet)
  deriving DecidableEq

/-- The row of a request as it was, or without its content once the retention
period has passed. -/
def PayRequest.Retained (cfg : Config) (r r' : PayRequest) : Prop :=
  r' = r ∨ ∃ now, cfg.requestContentTtlSec ≠ 0 ∧ r.createdAt ≠ 0 ∧
    cfg.requestContentTtlSec ≤ now - r.createdAt ∧
    r' = { r with prompt := none, result := none, contentRedactedAt := some now }

/-- The row reads the same in both files. A node is read as `loadDB` reads it. -/
def Kept (cfg : Config) (d d' : DB) : Row → Prop
  | .position o => d'.positions.lookup o = d.positions.lookup o
  | .signature sig => d'.usedSignatures.lookup sig = d.usedSignatures.lookup sig
  | .node id => (loadDB d').nodes.lookup id = (loadDB d).nodes.lookup id
  | .request id => Option.Rel (PayRequest.Retained cfg) (d.requests.lookup id) (d'.requests.lookup id)
  | .faucet w => d'.faucet.lookup w = d.faucet.lookup w
  | .faucetAccounts => d'.faucetAccountsOpened = d.faucetAccountsOpened
  | .twoFactor w => d'.adminAuth.lookup w = d.adminAuth.lookup w
  | .pricing => d'.pricing = d.pricing
  | .relay url =>
    d'.pricingRelays.filter (fun r => r.url == url) = d.pricingRelays.filter fun r => r.url == url
  | .credit w => d'.credits.lookup w = d.credits.lookup w
  | .apiKey h => d'.apiKeys.lookup h = d.apiKeys.lookup h
  | .whitelist w => (w ∈ d'.creditWhitelist ↔ w ∈ d.creditWhitelist)

def sameNode (id k : NodeId) : Bool := canonicalId id == canonicalId k

/-- The key under this hash is one of the wallet's. -/
def DB.keyOf (d : DB) (w : Wallet) (hash : String) : Bool :=
  (d.apiKeys.lookup hash).any fun k => k.wallet == w

def SyncRequest.names (d : DB) (r : SyncRequest) : Row → Bool
  | .position o =>
    match r with
    | .viewPosition o' => o' == o
    | _ => false
  | .node k =>
    match r with
    | .register r _ _ => sameNode r.nodeId k
    | .heartbeat id _ _ _ | .removeNode id _ | .contribution id _ _ | .adminRemoveNode _ id =>
      sameNode id k
    | .infraReport r => sameNode r.nodeId k
    | .inferenceReport r => sameNode r.nodeId k
    | _ => false
  | .request id =>
    match r with
    | .quote id' _ _ => id' == id
    | _ => false
  | .twoFactor w =>
    match r with
    | .twoFactorLogin w' _ _ => w' == some w
    | .twoFactorEnroll w' _ _ | .twoFactorConfirm w' _ | .twoFactorDisable w' _ _ => w' == w
    | _ => false
  | .pricing =>
    match r with
    | .pricingSync _ | .pricingPush _ _ | .adminPricing _ _ => true
    | _ => false
  | .relay url =>
    match r with
    | .relayPut _ url' _ _ | .relayRemove _ url' => url' == url
    | _ => false
  | .credit w =>
    match r with
    | .creditRegister w' _ | .apiKeyMint w' _ _ _ _ | .creditGrant _ w' _ | .whitelistAdd _ w' => w' == w
    | _ => false
  | .apiKey h =>
    match r with
    | .apiKeyMint w _ hash _ replace => hash == h || (replace && d.keyOf w h)
    | .apiKeyRevoke w _ hash all => if all then d.keyOf w h else hash == some h
    | _ => false
  | .whitelist w =>
    match r with
    | .creditRegister w' _ | .whitelistAdd _ w' | .whitelistRemove _ w' => w' == w
    | _ => false
  | .signature _ | .faucet _ | .faucetAccounts => false

/-- The rows a request that awaits is about; a claim is about every node of its owner. -/
def Request.names (d : DB) (r : Request) : Row → Bool
  | .position o =>
    match r with
    | .stake o' _ _ | .unstake o' _ => o' == o
    | _ => false
  | .signature sig => r.signature == some sig
  | .node k =>
    match r with
    | .claim o => (d.nodes.lookup k).any fun n => n.owner == o
    | _ => false
  | .request id =>
    match r with
    | .inference id' _ => id' == id
    | _ => false
  | .faucet w =>
    match r with
    | .faucet w' => w' == w
    | _ => false
  | .faucetAccounts =>
    match r with
    | .faucet _ => true
    | _ => false
  | .credit w =>
    match r with
    | .deposit w' _ _ | .chat w' _ => w' == w
    | _ => false
  | .twoFactor _ | .pricing | .relay _ | .apiKey _ | .whitelist _ => false

theorem PayRequest.Retained.trans {r₁ r₂ r₃ : PayRequest} (h : r₁.Retained cfg r₂)
    (h' : r₂.Retained cfg r₃) : r₁.Retained cfg r₃ := by
  -- the sweep keeps the creation time, so a second one judges the same row
  rcases h with rfl | ⟨t, hon, hcreated, hage, rfl⟩
  · exact h'
  · rcases h' with rfl | ⟨t', -, -, hage', rfl⟩
    · exact Or.inr ⟨t, hon, hcreated, hage, rfl⟩
    · exact Or.inr ⟨t', hon, hcreated, hage', rfl⟩

theorem Kept.refl (d : DB) (row : Row) : Kept cfg d d row := by
  cases row with
  | request id =>
    simp only [Kept]
    cases d.requests.lookup id with
    | none => exact .none
    | some r => exact .some (Or.inl rfl)
  | whitelist w => exact Iff.rfl
  | _ => rfl

theorem Kept.trans {d₁ d₂ d₃ : DB} {row : Row} (h : Kept cfg d₁ d₂ row) (h' : Kept cfg d₂ d₃ row) :
    Kept cfg d₁ d₃ row := by
  cases row with
  | request id =>
    simp only [Kept] at h h' ⊢
    revert h h'
    cases d₁.requests.lookup id <;> cases d₂.requests.lookup id <;> cases d₃.requests.lookup id
    all_goals
      intro h h'
      cases h <;> cases h' <;> first | exact .none | skip
    rename_i h h'
    exact .some (h.trans h')
  | whitelist w => exact Iff.trans h' h
  | _ => exact Eq.trans h' h

theorem kept_loadDB (d : DB) (row : Row) : Kept cfg d (loadDB d) row := by
  cases row with
  | node id => exact lookup_loadDB_loadDB d id
  | request id => exact Kept.refl d (.request id)
  | whitelist w => exact Iff.rfl
  | _ => rfl

theorem PayRequest.redact_retained (now : ℕ) (r : PayRequest) : r.Retained cfg (r.redact cfg now) := by
  unfold PayRequest.redact
  split_ifs with he
  · simp only [PayRequest.expired, Bool.and_eq_true, bne_iff_ne, decide_eq_true_eq] at he
    exact Or.inr ⟨now, he.1.1.1, he.1.1.2, he.1.2, rfl⟩
  · exact Or.inl rfl

theorem sweep_retained (d : DB) (now : ℕ) (id : RequestId) :
    Option.Rel (PayRequest.Retained cfg) (d.requests.lookup id)
      ((sweepRequestContent cfg d now).requests.lookup id) := by
  simp only [sweepRequestContent, Table.lookup_mapRows]
  cases d.requests.lookup id with
  | none => exact .none
  | some r => exact .some (r.redact_retained now)

theorem putRelay_other {url url' : String} (hne : url' ≠ url) (relays : List Relay) (secret : String)
    (label : Option String) (now : ℕ) (genesis : Wallet) :
    (putRelay relays url' secret label now genesis).filter (fun r => r.url == url) =
      relays.filter fun r => r.url == url := by
  have hmap (g : Relay → Relay) (hurl : ∀ r, (g r).url = r.url) (hid : ∀ r, r.url = url → g r = r)
      (l : List Relay) :
      (l.map g).filter (fun r => r.url == url) = l.filter fun r => r.url == url := by
    induction l with
    | nil => rfl
    | cons r l ih =>
      rw [List.map_cons, List.filter_cons, List.filter_cons, hurl, ih]
      by_cases hr : r.url = url
      · simp [hr, hid r hr]
      · simp [hr]
  -- a known relay is rewritten in place, a new one is appended
  unfold putRelay
  by_cases hany : (relays.any fun r => r.url == url') = true
  · rw [if_pos hany]
    refine hmap _ (fun r => ?_) (fun r hr => ?_) relays
    · by_cases hr : r.url = url' <;> simp [hr]
    · have hne' : ¬ r.url = url' := fun h => hne (h.symm.trans hr)
      simp [hne']
  · rw [if_neg hany, List.filter_append]
    simp [hne]

theorem sameNode_false {id k : NodeId} (h : sameNode id k = false) :
    canonicalId k ≠ canonicalId id := by
  intro he
  simp [sameNode, he] at h

theorem ne_of_unnamed {x y : String} (h : (y == x) = false) : x ≠ y := by
  rintro rfl
  simp at h

section Writes
variable {nowMs : ℕ} {d db : DB} {r : SyncRequest} {evs : List Event}

theorem Writes.kept_position (hw : Writes cfg nowMs d r db evs) (o : Wallet)
    (hn : r.names d (.position o) = false) : Kept cfg d db (.position o) := by
  cases hw with
  | viewPosition o' pos row =>
    have ho : o ≠ o' := ne_of_unnamed hn
    exact AList.lookup_insert_ne ho
  | _ => rfl

theorem Writes.kept_node (hw : Writes cfg nowMs d r db evs) (k : NodeId)
    (hn : r.names d (.node k) = false) : Kept cfg d db (.node k) := by
  have hinsert (id : NodeId) (n : NodeRow) (h : sameNode id k = false) :
      Kept cfg d { d with nodes := d.nodes.insert id n } (.node k) :=
    lookup_loadDB_of_canonicalId (sameNode_false h) fun _ hj => AList.lookup_insert_ne hj
  have herase (id : NodeId) (h : sameNode id k = false) :
      Kept cfg d { d with nodes := d.nodes.erase id } (.node k) :=
    lookup_loadDB_of_canonicalId (sameNode_false h) fun _ hj => AList.lookup_erase_ne hj
  cases hw with
  | register | heartbeat | contribution | infraReport | inferenceReport => exact hinsert _ _ hn
  | removeNode | adminRemoveNode => exact herase _ hn
  | _ => rfl

theorem Writes.kept_request (hw : Writes cfg nowMs d r db evs) (id : RequestId)
    (hn : r.names d (.request id) = false) : Kept cfg d db (.request id) := by
  cases hw with
  | sweep => exact sweep_retained d _ id
  | quote id' m prompt =>
    have hid : id ≠ id' := ne_of_unnamed hn
    simp only [Kept, AList.lookup_insert_ne hid]
    exact sweep_retained d _ id
  | _ => exact Kept.refl d (.request id)

theorem Writes.kept_twoFactor (hw : Writes cfg nowMs d r db evs) (w : Wallet)
    (hn : r.names d (.twoFactor w) = false) : Kept cfg d db (.twoFactor w) := by
  cases hw with
  | twoFactorLogin w' hash ent rest row used =>
    have hw' : w ≠ w' := ne_of_unnamed hn
    exact AList.lookup_insert_ne hw'
  | twoFactorEnroll w' | twoFactorConfirm w' =>
    have hw' : w ≠ w' := ne_of_unnamed hn
    exact AList.lookup_insert_ne hw'
  | twoFactorDisable w' =>
    have hw' : w ≠ w' := ne_of_unnamed hn
    exact AList.lookup_erase_ne hw'
  | _ => rfl

theorem Writes.kept_relay (hw : Writes cfg nowMs d r db evs) (url : String)
    (hn : r.names d (.relay url) = false) : Kept cfg d db (.relay url) := by
  cases hw with
  | relayPut url' secret label =>
    have hu : url' ≠ url := (ne_of_unnamed hn).symm
    exact putRelay_other hu _ _ _ _ _
  | relayRemove url' =>
    have hu : url' ≠ url := (ne_of_unnamed hn).symm
    simp only [Kept, List.filter_filter]
    apply List.filter_congr
    intro r _
    by_cases hr : r.url = url
    · have hne : ¬ url = url' := fun h => hu h.symm
      simp [hr, hne]
    · simp [hr]
  | _ => rfl

theorem Writes.kept_credit (hw : Writes cfg nowMs d r db evs) (w : Wallet)
    (hn : r.names d (.credit w) = false) : Kept cfg d db (.credit w) := by
  cases hw with
  | creditRegister w' | apiKeyMint w' | creditGrant w' | whitelistAdd w' =>
    have hw' : w ≠ w' := ne_of_unnamed hn
    exact AList.lookup_insert_ne hw'
  | _ => rfl

theorem lookup_revoke {w : Wallet} {h : String} (hk : d.keyOf w h = false) (reason : String)
    (now : ℕ) :
    (d.apiKeys.mapRows fun _ k => k.revoke w reason now).lookup h = d.apiKeys.lookup h := by
  rw [Table.lookup_mapRows]
  cases hrow : d.apiKeys.lookup h with
  | none => rfl
  | some k =>
    have hne : ¬ k.wallet = w := by simpa [DB.keyOf, hrow] using hk
    simp [ApiKey.revoke, hne]

theorem Writes.kept_apiKey (hw : Writes cfg nowMs d r db evs) (h : String)
    (hn : r.names d (.apiKey h) = false) : Kept cfg d db (.apiKey h) := by
  cases hw with
  | apiKeyMint w hash label replace =>
    have hboth : (hash == h || (replace && d.keyOf w h)) = false := hn
    rw [Bool.or_eq_false_iff, Bool.and_eq_false_iff] at hboth
    have hne : h ≠ hash := ne_of_unnamed hboth.1
    refine (AList.lookup_insert_ne hne).trans ?_
    cases replace with
    | false => rfl
    | true => exact lookup_revoke (hboth.2.resolve_left (by simp)) _ _
  | apiKeyRevokeAll w hash => exact lookup_revoke hn _ _
  | apiKeyRevoke w hash k row owned =>
    have hne : h ≠ hash := ne_of_unnamed hn
    exact AList.lookup_insert_ne hne
  | _ => rfl

theorem Writes.kept_whitelist (hw : Writes cfg nowMs d r db evs) (w : Wallet)
    (hn : r.names d (.whitelist w) = false) : Kept cfg d db (.whitelist w) := by
  cases hw with
  | creditRegister w' | whitelistAdd w' =>
    have hne : ¬ w = w' := ne_of_unnamed hn
    simp [Kept, whitelistWallet, DB.openAcct, DB.setAcct, DB.creditAudited, hne]
  | whitelistRemove w' =>
    have hne : ¬ w = w' := ne_of_unnamed hn
    simp [Kept, unlistWallet, DB.creditAudited, hne]
  | _ => exact Iff.rfl

theorem Writes.kept (hw : Writes cfg nowMs d r db evs) {row : Row} (hn : r.names d row = false) :
    Kept cfg d db row := by
  cases row with
  | position o => exact hw.kept_position o hn
  | node k => exact hw.kept_node k hn
  | request id => exact hw.kept_request id hn
  | twoFactor w => exact hw.kept_twoFactor w hn
  | relay url => exact hw.kept_relay url hn
  | credit w => exact hw.kept_credit w hn
  | apiKey h => exact hw.kept_apiKey h hn
  | whitelist w => exact hw.kept_whitelist w hn
  | pricing => cases hw <;> first | rfl | cases hn
  | signature | faucet | faucetAccounts => cases hw <;> rfl

end Writes

theorem kept_node_claim {d : DB} {o : Wallet} {k : NodeId}
    (hn : (Request.claim o).names (loadDB d) (.node k) = false) :
    Kept cfg (loadDB d) (claimDb (loadDB d) o) (.node k) := by
  have hmap (j : NodeId) : (claimDb (loadDB d) o).nodes.lookup j =
      ((loadDB d).nodes.lookup j).map (NodeRow.claimed o) :=
    Table.lookup_mapRows _ _ j
  apply lookup_loadDB_congr
  · rw [hmap]
    cases hrow : (loadDB d).nodes.lookup k with
    | none => rfl
    | some n =>
      have hany : (((loadDB d).nodes.lookup k).any fun m => m.owner == o) = false := hn
      have hne : ¬ n.owner = o := by simpa [hrow] using hany
      simp [NodeRow.claimed, hne]
  · intro b _
    rw [hmap, Option.isSome_map]
  · -- a loaded file has no row that waits to be renamed
    intro hnone id hid
    rw [hmap, (loadDB_upgraded d).2 id k hid hnone, Option.map_none]

section Commits
variable {r : Request} {ph : Phase} {d db : DB} {evs : List Event}

theorem Commits.kept_position (hc : Commits cfg chain r ph db evs)
    (hs : ph.snapshot = some (loadDB d)) (o : Wallet)
    (hn : r.names (loadDB d) (.position o) = false) : Kept cfg (loadDB d) db (.position o) := by
  cases hc with
  | stake o' =>
    cases hs
    have ho : o ≠ o' := ne_of_unnamed hn
    exact AList.lookup_insert_ne ho
  | unstake o' =>
    cases hs
    have ho : o ≠ o' := ne_of_unnamed hn
    simp only [Kept, unstakeDb, unstakedPositions]
    split_ifs
    · exact AList.lookup_erase_ne ho
    · exact AList.lookup_insert_ne ho
  | failed rid sig ph base r usedAt error row unused phase =>
    rcases phase with rfl | rfl <;> (cases hs; rfl)
  | deposit | answered | claim | faucet | refund =>
    cases hs
    rfl

theorem Commits.kept_signature (hc : Commits cfg chain r ph db evs)
    (hs : ph.snapshot = some (loadDB d)) (sig : Signature)
    (hn : r.names (loadDB d) (.signature sig) = false) : Kept cfg (loadDB d) db (.signature sig) := by
  cases hc with
  | stake o q sig' =>
    cases hs
    have hx : sig ≠ sig' := ne_of_unnamed hn
    exact AList.lookup_insert_ne hx
  | deposit w q sig' =>
    cases hs
    have hx : sig ≠ sig' := ne_of_unnamed hn
    exact AList.lookup_insert_ne hx
  | answered rid sig' =>
    cases hs
    have hx : sig ≠ sig' := ne_of_unnamed hn
    exact AList.lookup_insert_ne hx
  | refund rid sig' =>
    cases hs
    have hx : sig ≠ sig' := ne_of_unnamed hn
    exact AList.lookup_insert_ne hx
  | failed rid sig' ph base r usedAt error row unused phase =>
    have hx : sig ≠ sig' := ne_of_unnamed hn
    rcases phase with rfl | rfl <;> (cases hs; exact AList.lookup_insert_ne hx)
  | unstake | claim | faucet =>
    cases hs
    rfl

theorem Commits.kept_request (hc : Commits cfg chain r ph db evs)
    (hs : ph.snapshot = some (loadDB d)) (id : RequestId)
    (hn : r.names (loadDB d) (.request id) = false) : Kept cfg (loadDB d) db (.request id) := by
  have hother (rid : RequestId) (r' : PayRequest) (sigs : Table Signature SignatureUse)
      (hx : id ≠ rid) :
      Kept cfg (loadDB d)
        { loadDB d with requests := (loadDB d).requests.insert rid r', usedSignatures := sigs }
        (.request id) := by
    simp only [Kept, AList.lookup_insert_ne hx]
    exact Kept.refl (loadDB d) (.request id)
  cases hc with
  | answered rid | refund rid =>
    cases hs
    exact hother rid _ _ (ne_of_unnamed hn)
  | failed rid sig ph base r usedAt error row unused phase =>
    have hx : id ≠ rid := ne_of_unnamed hn
    rcases phase with rfl | rfl <;> (cases hs; exact hother rid _ _ hx)
  | stake | deposit | unstake | claim | faucet =>
    cases hs
    exact Kept.refl (loadDB d) (.request id)

/-- A task that saves the file as it is now with its own change alters no row
but those its request names. -/
theorem Commits.kept (hc : Commits cfg chain r ph db evs) (hs : ph.snapshot = some (loadDB d))
    {row : Row} (hn : r.names (loadDB d) row = false) : Kept cfg (loadDB d) db row := by
  cases row with
  | position o => exact hc.kept_position hs o hn
  | signature sig => exact hc.kept_signature hs sig hn
  | request id => exact hc.kept_request hs id hn
  | node k =>
    cases hc with
    | claim o base =>
      cases hs
      exact kept_node_claim hn
    | failed rid sig ph base r usedAt error row unused phase =>
      rcases phase with rfl | rfl <;> (cases hs; rfl)
    | _ =>
      cases hs
      rfl
  | faucet w =>
    cases hc with
    | faucet addr base existed now =>
      cases hs
      have hw : w ≠ addr := ne_of_unnamed hn
      exact AList.lookup_insert_ne hw
    | failed rid sig ph base r usedAt error row unused phase =>
      rcases phase with rfl | rfl <;> (cases hs; rfl)
    | _ =>
      cases hs
      rfl
  | credit w =>
    cases hc with
    | deposit w' =>
      cases hs
      have hw : w ≠ w' := ne_of_unnamed hn
      exact AList.lookup_insert_ne hw
    | failed rid sig ph base r usedAt error row unused phase =>
      rcases phase with rfl | rfl <;> (cases hs; rfl)
    | _ =>
      cases hs
      rfl
  | faucetAccounts | twoFactor | pricing | relay | apiKey | whitelist =>
    cases hc with
    | failed rid sig ph base r usedAt error row unused phase =>
      rcases phase with rfl | rfl <;> (cases hs; rfl)
    | faucet addr base existed now =>
      cases hs
      first | rfl | cases hn
    | _ =>
      cases hs
      rfl

end Commits

/-- The step saves the file for a request that names the row. -/
def Action.saves (cfg : Config) (chain : Chain) (s : State) (row : Row) (a : Action) : Bool :=
  (commit cfg chain s a).any (fun c => c.1.names c.2.1 row) ||
    match a with
    | .sync r now =>
      match r.apply cfg now (loadDB s.disk) with
      | .ok out => out.db.isSome && r.names (loadDB s.disk) row
      | .error _ => false
    | .completed i _ u _ => u.isSome && s.tasks[i]?.any fun t => t.request.names s.disk row
    | _ => false

/-- A save by a task that awaited writes to the file that the task loaded: no
other save came in between. -/
def fresh (cfg : Config) (chain : Chain) (s : State) (a : Action) : Bool :=
  (commit cfg chain s a).all fun c => decide (c.2.1 = loadDB s.disk)

theorem moves_kept (hf : fresh cfg chain s a = true) {row : Row}
    (hn : a.saves cfg chain s row = false) (h : Moves cfg chain s a s') :
    Kept cfg s.disk s'.disk row := by
  simp only [Action.saves, Bool.or_eq_false_iff] at hn
  cases h with
  | refused | submit | enter | await | lands | stop => exact Kept.refl s.disk row
  | commit _ i r ph base db evs ans task held save made =>
    obtain rfl : base = loadDB s.disk := by simpa [fresh, made] using hf
    have hrow : r.names (loadDB s.disk) row = false := by simpa [made] using hn.1
    exact (kept_loadDB s.disk row).trans (save.kept held hrow)
  | completed i w ip m u now task =>
    cases u with
    | none => exact Kept.refl s.disk row
    -- a debit writes one account, on the file as it is now
    | some u =>
      refine (kept_loadDB s.disk row).trans ?_
      cases row with
      | credit w' =>
        have hw : w' ≠ w := fun h => by simp [task, Request.names, h] at hn
        exact AList.lookup_insert_ne hw
      | request id => exact Kept.refl (loadDB s.disk) (.request id)
      | whitelist w => exact Iff.rfl
      | _ => rfl
  | sync r now db evs write saved =>
    obtain ⟨out, hout, hdb⟩ := saved
    have hrow : r.names (loadDB s.disk) row = false := by simpa [hout, hdb] using hn.2
    exact (kept_loadDB s.disk row).trans (write.kept hrow)

theorem acknowledged_write_kept (cfg : Config) (chain : Chain) (s₀ s₁ s₂ : State)
    (as bs : List Action) (row : Row) (h₀ : s₀.Initial)
    (hpast : runs (step cfg chain) s₀ as = some s₁) (hlater : runs (step cfg chain) s₁ bs = some s₂)
    (hfresh : Along (step cfg chain) (fun s a => fresh cfg chain s a = true) s₁ bs)
    (hother : Along (step cfg chain) (fun s a => a.saves cfg chain s row = false) s₁ bs) :
    Kept cfg s₁.disk s₂.disk row := by
  have hwf : s₁.WellFormed cfg :=
    runs_invariant (P := fun _ _ => True) (I := fun s => s.WellFormed cfg)
      (fun s a s' _ hi h => step_wellFormed hi h) (along_of_forall (fun _ _ => trivial) s₀ as) hpast
      h₀.wellFormed
  -- from the acknowledged write on, step by step
  have hkept := runs_relation
    (R := fun s s' => s.WellFormed cfg → s'.WellFormed cfg ∧ Kept cfg s.disk s'.disk row)
    (fun s hs => ⟨hs, Kept.refl s.disk row⟩)
    (fun r s t h h' hr => by
      obtain ⟨hs, hrs⟩ := h hr
      obtain ⟨ht, hst⟩ := h' hs
      exact ⟨ht, hrs.trans hst⟩)
    (fun s a s' hp h hs => ⟨step_wellFormed hs h, moves_kept hp.1 hp.2 (step_moves hs.coherent h)⟩)
    (hfresh.and hother) hlater hwf
  exact hkept.2

def emptyStart : State := ⟨DB.empty, [], []⟩

def revokedKey : List Action :=
  [.sync (.apiKeyMint "W" true "hash" "ci" false) 1700000000000,
    .sync (.apiKeyRevoke "W" true (some "hash") false) 1700000000000]

/-- A faucet request from its arrival to its save. -/
def faucetServed : List Action :=
  [.submit (.faucet "B"), .start 0 1700000000000, .probed 0 true, .lands 0, .settled 0 true true]

theorem acknowledged_write_kept_revocation :
    ∃ s₁ s₂, runs (step defaultConfig idleChain) emptyStart revokedKey = some s₁ ∧
      runs (step defaultConfig idleChain) s₁ faucetServed = some s₂ ∧
      bearerWallet s₁.disk "hash" = none ∧ Kept defaultConfig s₁.disk s₂.disk (.apiKey "hash") := by
  obtain ⟨s₁, h₁, hp⟩ := runs_exists (step defaultConfig idleChain) emptyStart revokedKey
    (fun s => decide (bearerWallet s.disk "hash" = none ∧
      (runs (step defaultConfig idleChain) s faucetServed).isSome = true ∧
      Along (step defaultConfig idleChain) (fun s a => fresh defaultConfig idleChain s a = true)
        s faucetServed ∧
      Along (step defaultConfig idleChain)
        (fun s a => a.saves defaultConfig idleChain s (.apiKey "hash") = false) s faucetServed))
    (by decide +kernel)
  obtain ⟨hnone, hsome, hfresh, hother⟩ := of_decide_eq_true hp
  obtain ⟨s₂, h₂⟩ := Option.isSome_iff_exists.mp hsome
  exact ⟨s₁, s₂, h₁, h₂, hnone, acknowledged_write_kept _ _ emptyStart s₁ s₂ _ _ (.apiKey "hash")
    ⟨rfl, rfl⟩ h₁ h₂ hfresh hother⟩

/-- A faucet request loads the file before the wallet withdraws its key. -/
def revokedWhileFaucetWaits : List Action :=
  [.sync (.apiKeyMint "W" true "hash" "ci" false) 1700000000000,
    .submit (.faucet "B"), .start 0 1700000000000, .probed 0 true,
    .sync (.apiKeyRevoke "W" true (some "hash") false) 1700000000000]

theorem stale_save_revives_key :
    ∃ s₁ s₂, runs (step defaultConfig idleChain) emptyStart revokedWhileFaucetWaits = some s₁ ∧
      runs (step defaultConfig idleChain) s₁ [.lands 0, .settled 0 true true] = some s₂ ∧
      Along (step defaultConfig idleChain)
        (fun s a => a.saves defaultConfig idleChain s (.apiKey "hash") = false) s₁
        [.lands 0, .settled 0 true true] ∧
      bearerWallet s₁.disk "hash" = none ∧ bearerWallet s₂.disk "hash" = some "W" ∧
      ¬ Kept defaultConfig s₁.disk s₂.disk (.apiKey "hash") := by
  obtain ⟨s₁, h₁, hp⟩ := runs_exists (step defaultConfig idleChain) emptyStart
    revokedWhileFaucetWaits
    (fun s => decide (bearerWallet s.disk "hash" = none ∧
      Along (step defaultConfig idleChain)
        (fun s a => a.saves defaultConfig idleChain s (.apiKey "hash") = false) s
        [.lands 0, .settled 0 true true] ∧
      (runs (step defaultConfig idleChain) s [.lands 0, .settled 0 true true]).any
        (fun s' => bearerWallet s'.disk "hash" == some "W") = true))
    (by decide +kernel)
  obtain ⟨hnone, hother, hany⟩ := of_decide_eq_true hp
  obtain ⟨s₂, h₂, hsome⟩ := runs_exists _ _ _ _ hany
  have hlive : bearerWallet s₂.disk "hash" = some "W" := by simpa using hsome
  refine ⟨s₁, s₂, h₁, h₂, hother, hnone, hlive, fun hkept => ?_⟩
  have hsame : bearerWallet s₂.disk "hash" = bearerWallet s₁.disk "hash" := by
    simp only [bearerWallet]
    rw [show s₂.disk.apiKeys.lookup "hash" = s₁.disk.apiKeys.lookup "hash" from hkept]
  rw [hlive, hnone] at hsame
  cases hsame

end KvasirNet.Gateway
