import KvasirNet.GatewayRequests

/-! What each synchronous handler writes when it saves. Later proofs split on
these cases and never unfold a handler. -/
namespace KvasirNet.Gateway

/-- The database a synchronous request saves and what the money trail gains. -/
inductive Writes (cfg : Config) (nowMs : ℕ) (d : DB) : SyncRequest → DB → List Event → Prop
  | viewPosition (o : Wallet) (pos : Position) (row : d.positions.lookup o = some pos) :
      Writes cfg nowMs d (.viewPosition o)
        { d with positions := d.positions.insert o (accrue cfg pos nowMs) }
        [.accrued o ((accrue cfg pos nowMs).accruedRewards - pos.accruedRewards)]
  | register (r : RegisterRequest) (trusted : Bool) (balance : ℚ) (n : NodeRow)
      (row : registerRow cfg r trusted balance (nowMs / 1000) (d.nodes.lookup r.nodeId) = .ok n) :
      Writes cfg nowMs d (.register r trusted balance)
        { d with nodes := d.nodes.insert r.nodeId n } [rewardEvent d r.nodeId n]
  | heartbeat (id : NodeId) (g b : Option Bool) (trusted : Bool) (n : NodeRow)
      (row : d.nodes.lookup id = some n) :
      Writes cfg nowMs d (.heartbeat id g b trusted)
        { d with nodes := d.nodes.insert id (heartbeatRow cfg g b trusted (nowMs / 1000) n) }
        [rewardEvent d id (heartbeatRow cfg g b trusted (nowMs / 1000) n)]
  | removeNode (id : NodeId) (o : Wallet) (n : NodeRow) (row : d.nodes.lookup id = some n)
      (owned : n.owner = o) :
      Writes cfg nowMs d (.removeNode id o) { d with nodes := d.nodes.erase id } []
  | contribution (id : NodeId) (units : ℚ) (n : NodeRow) (row : d.nodes.lookup id = some n) :
      Writes cfg nowMs d (.contribution id units true)
        { d with nodes := d.nodes.insert id (contributionRow cfg units (nowMs / 1000) n) }
        [rewardEvent d id (contributionRow cfg units (nowMs / 1000) n)]
  | infraReport (r : InfraReport) :
      Writes cfg nowMs d (.infraReport r)
        { d with
          nodes := d.nodes.insert r.nodeId
            (infraRow cfg r (nowMs / 1000) (d.nodes.lookup r.nodeId)) }
        [rewardEvent d r.nodeId (infraRow cfg r (nowMs / 1000) (d.nodes.lookup r.nodeId))]
  | inferenceReport (r : InferenceReport) :
      Writes cfg nowMs d (.inferenceReport r)
        { d with
          nodes := d.nodes.insert r.nodeId
            (inferenceRow cfg r (nowMs / 1000) (d.nodes.lookup r.nodeId)) }
        [rewardEvent d r.nodeId (inferenceRow cfg r (nowMs / 1000) (d.nodes.lookup r.nodeId))]
  | pricingSync (b : PricePayload) (p : LoadedPricing)
      (adopt : adoptSync cfg.genesisGatewayUrl (loadPricing d.pricing) b (nowMs / 1000) = some p) :
      Writes cfg nowMs d (.pricingSync b) { d with pricing := some p.store } []
  | pricingPush (b : PricePayload) (p : LoadedPricing)
      (adopt : adoptPush cfg.genesisWallet (loadPricing d.pricing) b = .ok (some p)) :
      Writes cfg nowMs d (.pricingPush true b) { d with pricing := some p.store } []
  | sweep : Writes cfg nowMs d .sweep (sweepRequestContent cfg d (nowMs / 1000)) []
  | quote (id : RequestId) (m : ServedModel) (prompt : String) :
      Writes cfg nowMs d (.quote id (some m) prompt)
        { d with
          requests := (sweepRequestContent cfg d (nowMs / 1000)).requests.insert id
            (newRequest cfg m prompt (nowMs / 1000)) } []
  | twoFactorLogin (w : Wallet) (hash : String) (ent : TwoFactor) (rest : List String)
      (row : d.adminAuth.lookup w = some ent) (used : consumeBackup ent.backup hash = some rest) :
      Writes cfg nowMs d (.twoFactorLogin (some w) false hash)
        { d with adminAuth := d.adminAuth.insert w { ent with backup := rest } } []
  | twoFactorEnroll (w : Wallet) (secret : String) (backup : List String) :
      Writes cfg nowMs d (.twoFactorEnroll w secret backup)
        { d with adminAuth := d.adminAuth.insert w ⟨secret, backup, false⟩ } []
  | twoFactorConfirm (w : Wallet) (ent : TwoFactor) (row : d.adminAuth.lookup w = some ent) :
      Writes cfg nowMs d (.twoFactorConfirm w true)
        { d with adminAuth := d.adminAuth.insert w { ent with enabled := true } } []
  | twoFactorDisable (w : Wallet) (codeOk : Bool) (hash : String) :
      Writes cfg nowMs d (.twoFactorDisable w codeOk hash)
        { d with adminAuth := d.adminAuth.erase w } []
  | adminPricing (c : PriceChange) (next : Price) (price : c.price = some next) :
      Writes cfg nowMs d (.adminPricing none c)
        { d with
          pricing := some ((loadPricing d.pricing).change c.target next (nowMs / 1000)
            cfg.genesisWallet).store
          pricingAudit := pushCapped 500 d.pricingAudit
            ⟨nowMs / 1000, c.target, (loadPricing d.pricing).previous c.target, next⟩ } []
  | relayPut (url secret : String) (label : Option String) :
      Writes cfg nowMs d (.relayPut none url secret label)
        { d with
          pricingRelays := putRelay d.pricingRelays url secret label (nowMs / 1000)
            cfg.genesisWallet } []
  | relayRemove (url : String) :
      Writes cfg nowMs d (.relayRemove none url)
        { d with pricingRelays := d.pricingRelays.filter (·.url != url) } []
  | creditRegister (w : Wallet) :
      Writes cfg nowMs d (.creditRegister w true)
        (whitelistWallet d w .whitelistRegister (nowMs / 1000)) []
  | apiKeyMint (w : Wallet) (hash label : String) (replace : Bool) :
      Writes cfg nowMs d (.apiKeyMint w true hash label replace)
        (mintKey d w hash label replace (nowMs / 1000)) []
  | apiKeyRevokeAll (w : Wallet) (hash : Option String) :
      Writes cfg nowMs d (.apiKeyRevoke w true hash true)
        { d with apiKeys := d.apiKeys.mapRows fun _ k => k.revoke w "owner" (nowMs / 1000) } []
  | apiKeyRevoke (w : Wallet) (hash : String) (k : ApiKey) (row : d.apiKeys.lookup hash = some k)
      (owned : k.wallet = w) :
      Writes cfg nowMs d (.apiKeyRevoke w true (some hash) false)
        { d with apiKeys := d.apiKeys.insert hash (k.revoke w "owner" (nowMs / 1000)) } []
  | creditGrant (w : Wallet) (amt : ℚ) (pos : 0 < amt) :
      Writes cfg nowMs d (.creditGrant none w (.fin amt)) (grantCredits d w amt (nowMs / 1000)) []
  | whitelistAdd (w : Wallet) :
      Writes cfg nowMs d (.whitelistAdd none w) (whitelistWallet d w .whitelistAdd (nowMs / 1000)) []
  | whitelistRemove (w : Wallet) :
      Writes cfg nowMs d (.whitelistRemove none w) (unlistWallet d w (nowMs / 1000)) []
  | adminRemoveNode (id : NodeId) :
      Writes cfg nowMs d (.adminRemoveNode none id) { d with nodes := d.nodes.erase id } []

theorem gated_ok {gate : Option Refusal} {k : Except Refusal Saved} {out : Saved}
    (h : gated gate k = .ok out) : gate = none ∧ k = .ok out := by
  cases gate with
  | none => exact ⟨rfl, h⟩
  | some e => cases h

theorem saved_ok {db db' : DB} {out : Saved} (h : saved db = .ok out) (hdb : out.db = some db') :
    db' = db ∧ out.events = [] := by
  cases h
  exact ⟨(Option.some.inj hdb).symm, rfl⟩

theorem apply_writes {cfg : Config} {r : SyncRequest} {nowMs : ℕ} {d db : DB} {out : Saved}
    (h : r.apply cfg nowMs d = .ok out) (hdb : out.db = some db) :
    Writes cfg nowMs d r db out.events := by
  cases r with
  | viewPosition o =>
    simp only [SyncRequest.apply, unsaved] at h
    split at h
    · cases h
      cases hdb
    · rename_i pos hpos
      cases h
      cases hdb
      exact .viewPosition o pos hpos
  | register r trusted balance =>
    simp only [SyncRequest.apply] at h
    split at h
    · cases h
    · rename_i n hn
      cases h
      cases hdb
      exact .register r trusted balance n hn
  | heartbeat id g b trusted =>
    simp only [SyncRequest.apply] at h
    split_ifs at h
    split at h
    · cases h
    · rename_i n hn
      cases h
      cases hdb
      exact .heartbeat id g b trusted n hn
  | removeNode id o =>
    simp only [SyncRequest.apply] at h
    split_ifs at h
    split at h
    · cases h
    · rename_i n hn
      split_ifs at h with ho
      obtain ⟨rfl, he⟩ := saved_ok h hdb
      exact he ▸ .removeNode id o n hn (not_not.mp ho)
  | contribution id units trusted =>
    simp only [SyncRequest.apply] at h
    split_ifs at h with ht
    split at h
    · cases h
    · rename_i n hn
      cases h
      cases hdb
      obtain rfl : trusted = true := by simpa using ht
      exact .contribution id units n hn
  | infraReport r =>
    simp only [SyncRequest.apply, unsaved] at h
    split_ifs at h
    · cases h
      cases hdb
    · cases h
      cases hdb
      exact .infraReport r
  | inferenceReport r =>
    cases h
    cases hdb
    exact .inferenceReport r
  | pricingSync b =>
    simp only [SyncRequest.apply, unsaved] at h
    split_ifs at h
    · cases h
      cases hdb
    · split at h
      · cases h
        cases hdb
      · rename_i p hp
        obtain ⟨rfl, he⟩ := saved_ok h hdb
        exact he ▸ .pricingSync b p hp
  | pricingPush keyOk b =>
    simp only [SyncRequest.apply, unsaved] at h
    split_ifs at h with hr hk
    split at h
    · cases h
    · cases h
      cases hdb
    · rename_i p hp
      obtain ⟨rfl, he⟩ := saved_ok h hdb
      obtain rfl : keyOk = true := by simpa using hk
      exact he ▸ .pricingPush b p hp
  | sweep =>
    simp only [SyncRequest.apply, unsaved] at h
    split_ifs at h
    · obtain ⟨rfl, he⟩ := saved_ok h hdb
      exact he ▸ .sweep
    · cases h
      cases hdb
  | quote id model prompt =>
    cases model with
    | none => cases h
    | some m =>
      obtain ⟨rfl, he⟩ := saved_ok h hdb
      exact he ▸ .quote id m prompt
  | twoFactorLogin wallet codeOk hash =>
    cases wallet with
    | none => cases h
    | some w =>
      simp only [SyncRequest.apply, unsaved] at h
      split at h
      · cases h
        cases hdb
      · rename_i ent hent
        split_ifs at h with hc
        · cases h
          cases hdb
        · split at h
          · cases h
          · rename_i rest hrest
            obtain ⟨rfl, he⟩ := saved_ok h hdb
            -- a backup code is only spent when the time-based one failed
            obtain rfl : codeOk = false := by
              cases codeOk
              · rfl
              · simp at hc
            exact he ▸ .twoFactorLogin w hash ent rest hent hrest
  | twoFactorEnroll w secret backup =>
    obtain ⟨rfl, he⟩ := saved_ok h hdb
    exact he ▸ .twoFactorEnroll w secret backup
  | twoFactorConfirm w codeOk =>
    simp only [SyncRequest.apply] at h
    split at h
    · cases h
    · rename_i ent hent
      split_ifs at h with hs hc
      obtain ⟨rfl, he⟩ := saved_ok h hdb
      obtain rfl : codeOk = true := by simpa using hc
      exact he ▸ .twoFactorConfirm w ent hent
  | twoFactorDisable w codeOk hash =>
    simp only [SyncRequest.apply] at h
    split at h
    · cases h
    · split_ifs at h
      obtain ⟨rfl, he⟩ := saved_ok h hdb
      exact he ▸ .twoFactorDisable w codeOk hash
  | adminPricing gate c =>
    obtain ⟨rfl, hg⟩ := gated_ok h
    split_ifs at hg
    split at hg
    · cases hg
    · rename_i next hnext
      obtain ⟨rfl, he⟩ := saved_ok hg hdb
      exact he ▸ .adminPricing c next hnext
  | relayPut gate url secret label =>
    obtain ⟨rfl, hg⟩ := gated_ok h
    split_ifs at hg
    obtain ⟨rfl, he⟩ := saved_ok hg hdb
    exact he ▸ .relayPut url secret label
  | relayRemove gate url =>
    obtain ⟨rfl, hg⟩ := gated_ok h
    split_ifs at hg
    obtain ⟨rfl, he⟩ := saved_ok hg hdb
    exact he ▸ .relayRemove url
  | creditRegister w loginOk =>
    simp only [SyncRequest.apply, unsaved] at h
    split_ifs at h with ho hl hw
    · cases h
      cases hdb
    · obtain ⟨rfl, he⟩ := saved_ok h hdb
      obtain rfl : loginOk = true := by simpa using hl
      exact he ▸ .creditRegister w
  | apiKeyMint w loginOk hash label replace =>
    simp only [SyncRequest.apply] at h
    split_ifs at h with hl hw
    obtain ⟨rfl, he⟩ := saved_ok h hdb
    obtain rfl : loginOk = true := by simpa using hl
    exact he ▸ .apiKeyMint w hash label replace
  | apiKeyRevoke w loginOk hash all =>
    simp only [SyncRequest.apply] at h
    split_ifs at h with hl
    obtain rfl : loginOk = true := by simpa using hl
    split at h
    · cases h
    · rename_i db' hrev
      obtain ⟨rfl, he⟩ := saved_ok h hdb
      -- all keys of the wallet, or the one named key if the wallet owns it
      unfold revokeKeys at hrev
      split_ifs at hrev with hall
      · cases hrev
        obtain rfl : all = true := hall
        exact he ▸ .apiKeyRevokeAll w hash
      · split at hrev
        · cases hrev
        · rename_i hk
          split at hrev
          · cases hrev
          · rename_i k hrow
            split_ifs at hrev with how
            cases hrev
            obtain rfl : all = false := by simpa using hall
            exact he ▸ .apiKeyRevoke w hk k hrow (not_not.mp how)
  | creditGrant gate w amount =>
    obtain ⟨rfl, hg⟩ := gated_ok h
    split at hg
    · rename_i amt
      split_ifs at hg with hw
      obtain ⟨rfl, he⟩ := saved_ok hg hdb
      exact he ▸ .creditGrant w amt (by
        by_contra hpos
        exact hw (Or.inr (not_lt.mp hpos)))
    · cases hg
  | whitelistAdd gate w =>
    obtain ⟨rfl, hg⟩ := gated_ok h
    simp only [unsaved] at hg
    split_ifs at hg
    · cases hg
      cases hdb
    · obtain ⟨rfl, he⟩ := saved_ok hg hdb
      exact he ▸ .whitelistAdd w
  | whitelistRemove gate w =>
    obtain ⟨rfl, hg⟩ := gated_ok h
    obtain ⟨rfl, he⟩ := saved_ok hg hdb
    exact he ▸ .whitelistRemove w
  | adminRemoveNode gate id =>
    obtain ⟨rfl, hg⟩ := gated_ok h
    split at hg
    · cases hg
    · obtain ⟨rfl, he⟩ := saved_ok hg hdb
      exact he ▸ .adminRemoveNode id

theorem apply_unsaved {cfg : Config} {r : SyncRequest} {nowMs : ℕ} {d : DB} {out : Saved}
    (h : r.apply cfg nowMs d = .ok out) (hdb : out.db = none) : out.events = [] := by
  cases r <;> simp only [SyncRequest.apply, saved, unsaved, storeNode, gated] at h <;>
    (repeat' split at h) <;> cases h <;> first | rfl | cases hdb

end KvasirNet.Gateway
