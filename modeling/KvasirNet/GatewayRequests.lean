import KvasirNet.GatewayChain
import KvasirNet.GatewayCredits

/-! The handlers and timers that read and write the database without an await
in between. Each is one transition of the file. -/
namespace KvasirNet.Gateway

inductive Event
  | staked (owner : Wallet) (amount : ℚ) (signature : Signature) (moved : ℤ)
  | accrued (owner : Wallet) (amount : ℚ)
  | unstaked (owner : Wallet) (principal rewards : ℚ) (base : ℤ)
  | claimed (owner : Wallet) (amount : ℚ)
  | dispensed (address : Wallet) (amount : ℚ)
  | deposited (wallet : Wallet) (amount : ℚ) (signature : Signature)
  | unserved (signature : Signature) (payer : Option Wallet) (price : ℚ)
  | answered (requestId : RequestId) (signature : Signature)
  | refunded (requestId : RequestId) (signature : Signature) (payer : Wallet) (amount : ℚ)
  | rewarded (nodeId : NodeId) (owner : Wallet) (amount : ℚ)
  deriving DecidableEq

/-- `accrue(pos, nowMs)`. -/
def accrue (cfg : Config) (pos : Position) (nowMs : ℕ) : Position :=
  let now := nowMs / 1000
  let dt : ℕ := if pos.lastUpdate = 0 then 0 else now - pos.lastUpdate
  { pos with
    accruedRewards := pos.accruedRewards + pos.principal * cfg.apr * dt / secondsPerYear
    lastUpdate := now }

def emptyPosition (nowMs : ℕ) : Position := ⟨0, 0, nowMs / 1000, nowMs / 1000⟩

structure ServedModel where
  id : ModelId
  name : String
  bridgeUrl : Option String
  cid : Option String
  bridgeModel : Option String
  basePrice : ℚ
  perToken : ℚ
  estOut : ℚ
  deriving DecidableEq

/-- JavaScript's `length`: UTF-16 code units. -/
def utf16Length (s : String) : ℕ :=
  (s.toList.map fun c => if 0x10000 ≤ c.toNat then 2 else 1).sum

/-- `Math.max(1, Math.ceil(length / 4))`. -/
def estimateTokens (text : String) : ℕ := max 1 ((utf16Length text + 3) / 4)

def quotePrice (m : ServedModel) (prompt : String) : ℚ :=
  round6 (m.basePrice + (estimateTokens prompt + m.estOut) * m.perToken)

def newRequest (cfg : Config) (m : ServedModel) (prompt : String) (now : ℕ) : PayRequest where
  model := m.id
  name := m.name
  bridgeUrl := m.bridgeUrl
  cid := m.cid
  bridgeModel := m.bridgeModel
  basePrice := m.basePrice
  perToken := m.perToken
  estOut := m.estOut
  prompt := some prompt
  priceToken := quotePrice m prompt
  recipient := cfg.treasuryOwner
  paid := false
  createdAt := now
  signature := none
  payer := none
  failed := false
  refunded := false
  error := none
  result := none
  usage := none
  contentRedactedAt := none

def PayRequest.expired (cfg : Config) (now : ℕ) (r : PayRequest) : Bool :=
  cfg.requestContentTtlSec != 0 && r.createdAt != 0 &&
    decide (cfg.requestContentTtlSec ≤ now - r.createdAt) && (r.prompt.isSome || r.result.isSome)

def PayRequest.redact (cfg : Config) (now : ℕ) (r : PayRequest) : PayRequest :=
  if r.expired cfg now then
    { r with prompt := none, result := none, contentRedactedAt := some now }
  else r

def sweepRequestContent (cfg : Config) (db : DB) (now : ℕ) : DB :=
  { db with requests := db.requests.mapRows fun _ r => r.redact cfg now }

/-- `timingEqualHex` finds the hash: drop its first occurrence. -/
def consumeBackup (hashes : List String) (h : String) : Option (List String) :=
  if h ∈ hashes then some (hashes.erase h) else none

inductive SyncRequest
  | viewPosition (owner : Wallet)
  | register (r : RegisterRequest) (trusted : Bool) (balance : ℚ)
  | heartbeat (nodeId : NodeId) (hostsGateway hostsBridge : Option Bool) (trusted : Bool)
  | removeNode (nodeId : NodeId) (owner : Wallet)
  | contribution (nodeId : NodeId) (units : ℚ) (trusted : Bool)
  | infraReport (r : InfraReport)
  | inferenceReport (r : InferenceReport)
  | pricingSync (b : PricePayload)
  | pricingPush (keyOk : Bool) (b : PricePayload)
  | sweep
  | quote (requestId : RequestId) (model : Option ServedModel) (prompt : String)
  | twoFactorLogin (wallet : Option Wallet) (codeOk : Bool) (backupHash : String)
  | twoFactorEnroll (wallet : Wallet) (secret : String) (backup : List String)
  | twoFactorConfirm (wallet : Wallet) (codeOk : Bool)
  | twoFactorDisable (wallet : Wallet) (codeOk : Bool) (backupHash : String)
  | adminPricing (gate : Option Refusal) (c : PriceChange)
  | relayPut (gate : Option Refusal) (url secret : String) (label : Option String)
  | relayRemove (gate : Option Refusal) (url : String)
  | creditRegister (wallet : Wallet) (loginOk : Bool)
  | apiKeyMint (wallet : Wallet) (loginOk : Bool) (hash label : String) (replace : Bool)
  | apiKeyRevoke (wallet : Wallet) (loginOk : Bool) (hash : Option String) (all : Bool)
  | creditGrant (gate : Option Refusal) (wallet : Wallet) (amount : JsNumber)
  | whitelistAdd (gate : Option Refusal) (wallet : Wallet)
  | whitelistRemove (gate : Option Refusal) (wallet : Wallet)
  | adminRemoveNode (gate : Option Refusal) (nodeId : NodeId)
  deriving DecidableEq

/-- A handler's answer: the database it saved, if it saved one, and what the
money trail gains. -/
structure Saved where
  db : Option DB
  events : List Event

/-- The rewards a stored row holds more than the row it replaces; they belong
to its owner. -/
def rewardEvent (db : DB) (id : NodeId) (n : NodeRow) : Event :=
  .rewarded id n.owner (n.pendingRewards - (db.nodes.lookup id).elim 0 (·.pendingRewards))

def storeNode (db : DB) (id : NodeId) (n : NodeRow) : Saved :=
  ⟨some { db with nodes := db.nodes.insert id n }, [rewardEvent db id n]⟩

def saved (db : DB) : Except Refusal Saved := .ok ⟨some db, []⟩

def unsaved : Except Refusal Saved := .ok ⟨none, []⟩

/-- The outcome of the admin middlewares comes first. -/
def gated (gate : Option Refusal) (k : Except Refusal Saved) : Except Refusal Saved :=
  match gate with
  | some e => .error e
  | none => k

/-- Existing relays keep their secret unless a new one is sent. -/
def putRelay (relays : List Relay) (url secret : String) (label : Option String) (now : ℕ)
    (genesis : Wallet) : List Relay :=
  if relays.any fun r => r.url == url then
    relays.map fun r => if r.url = url then
      { r with
        secret := if secret = "" then r.secret else secret
        label := label.getD r.label }
      else r
  else relays ++ [⟨url, secret, label.getD "", now, genesis⟩]

/-- One synchronous handler on the database it loaded. -/
def SyncRequest.apply (cfg : Config) (nowMs : ℕ) (db : DB) : SyncRequest → Except Refusal Saved
  | .viewPosition owner =>
    match db.positions.lookup owner with
    | none => unsaved
    | some pos =>
      let pos' := accrue cfg pos nowMs
      .ok ⟨some { db with positions := db.positions.insert owner pos' },
        [.accrued owner (pos'.accruedRewards - pos.accruedRewards)]⟩
  | .register r trusted balance =>
    match registerRow cfg r trusted balance (nowMs / 1000) (db.nodes.lookup r.nodeId) with
    | .error e => .error e
    | .ok n => .ok (storeNode db r.nodeId n)
  | .heartbeat nodeId hostsGateway hostsBridge trusted =>
    if nodeId = "" then .error (.required ["nodeId"])
    else
      match db.nodes.lookup nodeId with
      | none => .error .nodeNotRegistered
      | some n =>
        .ok (storeNode db nodeId (heartbeatRow cfg hostsGateway hostsBridge trusted (nowMs / 1000) n))
  | .removeNode nodeId owner =>
    if nodeId = "" ∨ owner = "" then .error (.required ["nodeId", "owner"])
    else
      match db.nodes.lookup nodeId with
      | none => .error .nodeNotFound
      | some n =>
        if n.owner ≠ owner then .error .notNodeOwner
        else saved { db with nodes := db.nodes.erase nodeId }
  | .contribution nodeId units trusted =>
    if !trusted then .error .untrustedReporter
    else if nodeId = "" then .error (.required ["nodeId", "units"])
    else
      match db.nodes.lookup nodeId with
      | none => .error .nodeNotRegistered
      | some n => .ok (storeNode db nodeId (contributionRow cfg units (nowMs / 1000) n))
  | .infraReport r =>
    if r.owner = "" then unsaved
    else .ok (storeNode db r.nodeId (infraRow cfg r (nowMs / 1000) (db.nodes.lookup r.nodeId)))
  | .inferenceReport r =>
    .ok (storeNode db r.nodeId (inferenceRow cfg r (nowMs / 1000) (db.nodes.lookup r.nodeId)))
  | .pricingSync b =>
    if !cfg.isFollower then unsaved else
    match adoptSync cfg.genesisGatewayUrl (loadPricing db.pricing) b (nowMs / 1000) with
    | none => unsaved
    | some p => saved { db with pricing := some p.store }
  | .pricingPush keyOk b =>
    if !cfg.receivesPush then .error .noPushAccepted
    else if !keyOk then .error .badPushKey
    else
      match adoptPush cfg.genesisWallet (loadPricing db.pricing) b with
      | .error e => .error e
      | .ok none => unsaved
      | .ok (some p) => saved { db with pricing := some p.store }
  | .sweep =>
    -- the timer saves only when it redacted something
    if db.requests.entries.any fun e => e.2.expired cfg (nowMs / 1000) then
      saved (sweepRequestContent cfg db (nowMs / 1000))
    else unsaved
  | .quote requestId model prompt =>
    match model with
    | none => .error .unknownModel
    | some m =>
      -- a quote saves anyway, so it also sweeps
      let swept := sweepRequestContent cfg db (nowMs / 1000)
      saved { swept with
        requests := swept.requests.insert requestId (newRequest cfg m prompt (nowMs / 1000)) }
  | .twoFactorLogin wallet codeOk backupHash =>
    match wallet with
    | none => .error .badLogin
    | some w =>
      match db.adminAuth.lookup w with
      | none => unsaved
      | some ent =>
        -- a login with a good code, or without a second factor, writes nothing
        if !ent.enabled || codeOk then unsaved
        else
          match consumeBackup ent.backup backupHash with
          | none => .error .badLogin
          | some rest =>
            saved { db with adminAuth := db.adminAuth.insert w { ent with backup := rest } }
  | .twoFactorEnroll w secret backup =>
    saved { db with adminAuth := db.adminAuth.insert w ⟨secret, backup, false⟩ }
  | .twoFactorConfirm w codeOk =>
    match db.adminAuth.lookup w with
    | none => .error .noEnrollment
    | some ent =>
      if ent.secret = "" then .error .noEnrollment
      else if !codeOk then .error .badCode
      else saved { db with adminAuth := db.adminAuth.insert w { ent with enabled := true } }
  | .twoFactorDisable w codeOk backupHash =>
    match db.adminAuth.lookup w with
    | none => .error .twoFactorOff
    | some ent =>
      if !ent.enabled then .error .twoFactorOff
      else if codeOk || (consumeBackup ent.backup backupHash).isSome then
        saved { db with adminAuth := db.adminAuth.erase w }
      else .error .badCode
  | .adminPricing gate c => gated gate <|
    if cfg.isWriteLocked then .error .writeLocked
    else
      match c.price with
      | none => .error .badPrice
      | some next =>
        let p := loadPricing db.pricing
        saved { db with
          pricing := some (p.change c.target next (nowMs / 1000) cfg.genesisWallet).store
          pricingAudit := pushCapped 500 db.pricingAudit
            ⟨nowMs / 1000, c.target, p.previous c.target, next⟩ }
  | .relayPut gate url secret label => gated gate <|
    if cfg.isWriteLocked then .error .writeLocked
    else saved { db with
      pricingRelays := putRelay db.pricingRelays url secret label (nowMs / 1000) cfg.genesisWallet }
  | .relayRemove gate url => gated gate <|
    if cfg.isWriteLocked then .error .writeLocked
    else saved { db with pricingRelays := db.pricingRelays.filter (·.url != url) }
  | .creditRegister w loginOk =>
    if !cfg.creditOpenRegister then .error .registrationDisabled
    else if !loginOk then .error .badLogin
    else if db.creditWhitelist.contains w then unsaved
    else saved (whitelistWallet db w .whitelistRegister (nowMs / 1000))
  | .apiKeyMint w loginOk hash label replace =>
    if !loginOk then .error .badLogin
    else if !creditWhitelisted cfg db w then .error .notWhitelisted
    else saved (mintKey db w hash label replace (nowMs / 1000))
  | .apiKeyRevoke w loginOk hash all =>
    if !loginOk then .error .badLogin
    else
      match revokeKeys db w hash all (nowMs / 1000) with
      | .error e => .error e
      | .ok db' => saved db'
  | .creditGrant gate w amount => gated gate <|
    match amount with
    | .fin amt =>
      if w = "" ∨ amt ≤ 0 then .error (.required ["wallet", "amount"])
      else saved (grantCredits db w amt (nowMs / 1000))
    | _ => .error (.required ["wallet", "amount"])
  | .whitelistAdd gate w => gated gate <|
    if w = "" then .error (.required ["wallet"])
    else if db.creditWhitelist.contains w then unsaved
    else saved (whitelistWallet db w .whitelistAdd (nowMs / 1000))
  | .whitelistRemove gate w => gated gate <| saved (unlistWallet db w (nowMs / 1000))
  | .adminRemoveNode gate nodeId => gated gate <|
    match db.nodes.lookup nodeId with
    | none => .error .nodeNotFound
    | some _ => saved { db with nodes := db.nodes.erase nodeId }

end KvasirNet.Gateway
