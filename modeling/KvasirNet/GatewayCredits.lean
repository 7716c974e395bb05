import KvasirNet.GatewayPricing

/-! Prepaid credit accounts, API keys and the whitelist. -/
namespace KvasirNet.Gateway

def newAcct (now : ℕ) : CreditAcct := ⟨0, 0, 0, 0, now, now⟩

/-- `creditAcct(db, wallet)`: the account, opened when there is none. -/
def creditAcct (db : DB) (w : Wallet) (now : ℕ) : CreditAcct :=
  (db.credits.lookup w).getD (newAcct now)

def DB.setAcct (db : DB) (w : Wallet) (a : CreditAcct) : DB :=
  { db with credits := db.credits.insert w a }

/-- Calling `creditAcct` stores the account it opens. -/
def DB.openAcct (db : DB) (w : Wallet) (now : ℕ) : DB := db.setAcct w (creditAcct db w now)

def creditWhitelisted (cfg : Config) (db : DB) (w : Wallet) : Bool :=
  cfg.creditWhitelist.isEmpty || cfg.creditWhitelist.contains w || db.creditWhitelist.contains w

/-- `arr.push(x)`, then `slice(-cap)` once the list is longer than `cap`. -/
def pushCapped {α : Type*} (cap : ℕ) (l : List α) (x : α) : List α :=
  (l ++ [x]).drop ((l ++ [x]).length - cap)

def DB.creditAudited (db : DB) (w : Wallet) (kind : CreditAuditKind) (now : ℕ) : DB :=
  { db with creditAudit := pushCapped 1000 db.creditAudit ⟨now, w, kind⟩ }

def CreditAcct.grant (a : CreditAcct) (amt : ℚ) (now : ℕ) : CreditAcct :=
  { a with balance := round6 (a.balance + amt), granted := round6 (a.granted + amt), updatedAt := now }

def CreditAcct.deposit (a : CreditAcct) (amt : ℚ) (now : ℕ) : CreditAcct :=
  { a with balance := round6 (a.balance + amt), deposited := round6 (a.deposited + amt), updatedAt := now }

def CreditAcct.debit (a : CreditAcct) (cost : ℚ) (now : ℕ) : CreditAcct :=
  { a with balance := round6 (a.balance - cost), spent := round6 (a.spent + cost), updatedAt := now }

/-- Token counts an upstream completion reports. -/
structure TokenUsage where
  promptTokens : ℚ
  completionTokens : ℚ
  deriving DecidableEq

def completionCost (pr : Price) (u : TokenUsage) : ℚ :=
  round6 (pr.basePrice + (u.promptTokens + u.completionTokens) * pr.perToken)

/-- `debitCredits(wallet, modelId, usage)` on the database it loads. -/
def debitCredits (db : DB) (w : Wallet) (modelId : ModelId) (u : TokenUsage) (now : ℕ) : DB :=
  let cost := completionCost (pricingFor db modelId) u
  let a := (creditAcct db w now).debit cost now
  (db.setAcct w a).creditAudited w
    (.debit modelId cost u.promptTokens u.completionTokens a.balance) now

/-- `POST /api/admin/credits/grant`. -/
def grantCredits (db : DB) (w : Wallet) (amt : ℚ) (now : ℕ) : DB :=
  let a := (creditAcct db w now).grant amt now
  (db.setAcct w a).creditAudited w (.grant amt a.balance) now

/-- Whitelist a wallet that is not on the list yet, under the given audit kind. -/
def whitelistWallet (db : DB) (w : Wallet) (kind : CreditAuditKind) (now : ℕ) : DB :=
  (({ db with creditWhitelist := db.creditWhitelist ++ [w] }).openAcct w now).creditAudited w kind now

def unlistWallet (db : DB) (w : Wallet) (now : ℕ) : DB :=
  ({ db with creditWhitelist := db.creditWhitelist.filter (· != w) }).creditAudited w
    .whitelistRemove now

def ApiKey.revoke (k : ApiKey) (w : Wallet) (by_ : String) (now : ℕ) : ApiKey :=
  if k.wallet = w ∧ k.revokedAt = none then { k with revokedAt := some now, revokedBy := some by_ }
  else k

/-- `POST /api/credits/apikey`: `hash` is the hash of the new key. -/
def mintKey (db : DB) (w : Wallet) (hash : String) (label : String) (replace : Bool) (now : ℕ) : DB :=
  let keys := if replace then db.apiKeys.mapRows fun _ k => k.revoke w "replaced" now else db.apiKeys
  ({ db with apiKeys := keys.insert hash ⟨w, label, now, none, none⟩ }).openAcct w now

/-- `POST /api/credits/apikey/revoke`, for one key or for all of a wallet's keys. -/
def revokeKeys (db : DB) (w : Wallet) (hash : Option String) (all : Bool) (now : ℕ) :
    Except Refusal DB :=
  if all then .ok { db with apiKeys := db.apiKeys.mapRows fun _ k => k.revoke w "owner" now }
  else
    match hash with
    | none => .error .apiKeyOrAllRequired
    | some h =>
      match db.apiKeys.lookup h with
      | none => .error .noSuchKey
      | some k =>
        if k.wallet ≠ w then .error .noSuchKey
        else .ok { db with apiKeys := db.apiKeys.insert h (k.revoke w "owner" now) }

/-- `bearerWallet`: a revoked key is nobody's. -/
def bearerWallet (db : DB) (hash : String) : Option Wallet :=
  match db.apiKeys.lookup hash with
  | some k => if k.revokedAt = none then some k.wallet else none
  | none => none

/-- The balance test of `/v1/chat/completions`; unmetered wallets skip it. -/
def creditGate (cfg : Config) (db : DB) (w : Wallet) (now : ℕ) : Except Refusal Unit :=
  if !creditWhitelisted cfg db w then .error .notWhitelisted
  else if cfg.creditUnmetered.contains w then .ok ()
  else if (creditAcct db w now).balance ≤ cfg.creditMinBalance then .error .insufficientCredit
  else .ok ()

end KvasirNet.Gateway
