import KvasirNet.TableSum
import KvasirNet.GatewayConfig

/-! The gateway's database (`positions.json`) and what `loadDB` returns from it.
`saveDB` replaces the whole file, so the file content is one value of `DB`. -/
namespace KvasirNet.Gateway

structure Position where
  principal : ℚ
  accruedRewards : ℚ
  stakedAt : ℕ
  lastUpdate : ℕ
  deriving DecidableEq

/-- A row of `db.usedSignatures`, one shape per handler that writes it. -/
inductive SignatureUse
  | stake (owner : Wallet) (amount : ℚ) (usedAt : ℕ)
  | payment (requestId : RequestId) (amount : ℚ) (usedAt : ℕ) (refunded : Option Bool)
  | creditDeposit (wallet : Wallet) (amount : ℚ) (usedAt : ℕ)
  deriving DecidableEq

/-- A node row. Fields the source leaves undefined on old rows are options;
absent numbers read as `0`, as `(n.x || 0)` does. -/
structure NodeRow where
  owner : Wallet
  contributedUnits : ℚ
  effectiveUnits : ℚ
  pendingRewards : ℚ
  claimedTotal : ℚ
  hostsGateway : Bool
  hostsBridge : Option Bool
  hostsHub : Option Bool
  uptimeRewards : ℚ
  creditedUnits : ℚ
  registeredAt : ℕ
  lastReport : Option ℕ
  lastUptimeAt : ℕ
  os : Option String
  deviceKind : Option String
  accelerator : Option String
  label : Option String
  perfScore : Option ℚ
  backend : Option String
  mode : Option String
  tier : Option Tier
  perfMultiplier : Option ℚ
  deriving DecidableEq

structure Usage where
  promptTokens : ℚ
  completionTokens : ℚ
  totalTokens : ℚ
  costToken : ℚ
  deriving DecidableEq

/-- A pay-per-call request: the billing record and, until the retention sweep
drops it, the prompt and the answer. -/
structure PayRequest where
  model : ModelId
  name : String
  bridgeUrl : Option String
  cid : Option String
  bridgeModel : Option String
  basePrice : ℚ
  perToken : ℚ
  estOut : ℚ
  prompt : Option String
  priceToken : ℚ
  recipient : Wallet
  paid : Bool
  createdAt : ℕ
  signature : Option Signature
  payer : Option Wallet
  failed : Bool
  refunded : Bool
  error : Option String
  result : Option String
  usage : Option Usage
  contentRedactedAt : Option ℕ
  deriving DecidableEq

structure CreditAcct where
  balance : ℚ
  granted : ℚ
  deposited : ℚ
  spent : ℚ
  createdAt : ℕ
  updatedAt : ℕ
  deriving DecidableEq

structure ApiKey where
  wallet : Wallet
  label : String
  createdAt : ℕ
  revokedAt : Option ℕ
  revokedBy : Option String
  deriving DecidableEq

structure TwoFactor where
  secret : String
  backup : List String
  enabled : Bool
  deriving DecidableEq

structure Price where
  basePrice : ℚ
  perToken : ℚ
  estOut : ℚ
  deriving DecidableEq

/-- A stored price object, whose fields may be missing. -/
structure PricePatch where
  basePrice : Option ℚ
  perToken : Option ℚ
  estOut : Option ℚ
  deriving DecidableEq

structure Pricing where
  defaults : PricePatch
  perModel : Table ModelId PricePatch
  updatedAt : ℕ
  updatedBy : Option String
  deriving DecidableEq

structure Relay where
  url : String
  secret : String
  label : String
  addedAt : ℕ
  addedBy : Wallet
  deriving DecidableEq

structure PricingAuditEntry where
  changedAt : ℕ
  target : String
  prev : PricePatch
  next : Price
  deriving DecidableEq

inductive CreditAuditKind
  | debit (model : ModelId) (cost promptTokens completionTokens balance : ℚ)
  | grant (amount balance : ℚ)
  | deposit (amount balance : ℚ) (signature : Signature)
  | whitelistRegister
  | whitelistAdd
  | whitelistRemove
  deriving DecidableEq

structure CreditAuditEntry where
  recordedAt : ℕ
  wallet : Wallet
  kind : CreditAuditKind
  deriving DecidableEq

structure DB where
  positions : Table Wallet Position
  usedSignatures : Table Signature SignatureUse
  nodes : Table NodeId NodeRow
  requests : Table RequestId PayRequest
  faucet : Table Wallet ℕ
  faucetAccountsOpened : ℕ
  adminAuth : Table Wallet TwoFactor
  pricing : Option Pricing
  pricingRelays : List Relay
  pricingAudit : List PricingAuditEntry
  credits : Table Wallet CreditAcct
  apiKeys : Table String ApiKey
  creditWhitelist : List Wallet
  creditAudit : List CreditAuditEntry
  deriving DecidableEq

/-- What `loadDB` answers when no file is readable. -/
def DB.empty : DB where
  positions := ∅
  usedSignatures := ∅
  nodes := ∅
  requests := ∅
  faucet := ∅
  faucetAccountsOpened := 0
  adminAuth := ∅
  pricing := none
  pricingRelays := []
  pricingAudit := []
  credits := ∅
  apiKeys := ∅
  creditWhitelist := []
  creditAudit := []

def hubPrefix : List Char := "infra-hub-".toList

def bridgePrefix : List Char := "infra-bridge-".toList

/-- The id a retired `infra-hub-` id is renamed to. -/
def renamedHub (id : NodeId) : Option NodeId :=
  if hubPrefix <+: id.toList then
    some (String.ofList (bridgePrefix ++ id.toList.drop hubPrefix.length))
  else none

/-- The field half of `migrateHubVocabulary` on one row. -/
def NodeRow.migrate (n : NodeRow) : NodeRow :=
  { n with
    hostsBridge := if n.hostsHub.isSome ∧ n.hostsBridge.isNone then n.hostsHub else n.hostsBridge
    deviceKind := if n.deviceKind = some "hub" then some "bridge" else n.deviceKind }

/-- One turn of the loop in `migrateHubVocabulary`: upgrade the row in place,
and move it when its id is a retired one and the new id is free. -/
def migrateEntry (nodes : Table NodeId NodeRow) (id : NodeId) : Table NodeId NodeRow :=
  match nodes.lookup id with
  | none => nodes
  | some n =>
    let upgraded := nodes.insert id n.migrate
    match renamedHub id with
    | none => upgraded
    | some renamed =>
      if (upgraded.lookup renamed).isSome then upgraded
      else (upgraded.insert renamed n.migrate).erase id

def migrateHubVocabulary (db : DB) : DB :=
  { db with nodes := db.nodes.keys.foldl migrateEntry db.nodes }

/-- `loadDB` on a readable file. -/
def loadDB (file : DB) : DB := migrateHubVocabulary file

end KvasirNet.Gateway
