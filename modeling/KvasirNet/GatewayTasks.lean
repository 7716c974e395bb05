import KvasirNet.GatewayRequests
import KvasirNet.Runs

/-! The handlers that await between `loadDB` and `saveDB`, as tasks that keep
the snapshot they loaded, and the gateway as a system of such tasks over one
file. Every await is a point where any other task may take a step. -/
namespace KvasirNet.Gateway

inductive Request
  | stake (owner : Wallet) (amount : Amount) (signature : Signature)
  | unstake (owner : Wallet) (amount : Amount)
  | claim (owner : Wallet)
  | faucet (address : Wallet)
  | deposit (wallet : Wallet) (amount : JsNumber) (signature : Signature)
  | inference (requestId : RequestId) (signature : Signature)
  | chat (wallet : Wallet) (ipAllowed : Bool)
  deriving DecidableEq

/-- The key passed to `withLock`; chat completions take no lock. -/
def Request.lockKey : Request → Option String
  | .stake o _ _ | .unstake o _ | .claim o => some o
  | .faucet a => some ("faucet:" ++ a)
  | .deposit _ _ s => some ("credit-deposit:" ++ s)
  | .inference r _ => some ("req:" ++ r)
  | .chat _ _ => none

def Request.signature : Request → Option Signature
  | .stake _ _ s | .deposit _ _ s | .inference _ s => some s
  | _ => none

def Request.precheck (cfg : Config) (db : DB) : Request → Except Refusal Unit
  | .stake owner amount signature =>
    match amount with
    | .falsy => .error (.required ["owner", "amount", "signature"])
    | .truthy n =>
      if owner = "" ∨ signature = "" then .error (.required ["owner", "amount", "signature"])
      else
        match n with
        | .negInf => .error .amountNotPositive
        | .fin q => if q ≤ 0 then .error .amountNotPositive else .ok ()
        | _ => .ok ()
  | .unstake owner _ | .claim owner => if owner = "" then .error (.required ["owner"]) else .ok ()
  | .faucet address => if address = "" then .error (.required ["address"]) else .ok ()
  | .deposit wallet amount signature =>
    match amount with
    | .fin q =>
      if wallet = "" ∨ signature = "" ∨ q ≤ 0 then
        .error (.required ["wallet", "amount", "signature"])
      else if creditWhitelisted cfg db wallet then .ok () else .error .notWhitelisted
    | _ => .error (.required ["wallet", "amount", "signature"])
  | .inference requestId signature =>
    if requestId = "" ∨ signature = "" then .error (.required ["requestId", "signature"]) else .ok ()
  | .chat _ _ => .ok ()

/-- A transfer a handler waits for, with the local variables it resumes with. -/
inductive Payout
  | unstake (owner : Wallet) (pos : Position) (out : Option (ℚ × ℚ))
  | claim (owner : Wallet) (pending : ℚ)
  | faucet (address : Wallet) (existed : Bool) (now : ℕ)
  | refund (requestId : RequestId) (signature : Signature) (r : PayRequest) (payer : Wallet)
      (use : SignatureUse) (error : String)
  deriving DecidableEq

inductive Response
  | ok
  | refused (e : Refusal)
  deriving DecidableEq

inductive Phase
  | waiting
  | verifying (db : DB)
  | probing (db : DB) (now : ℕ)
  | inferring (db : DB) (r : PayRequest) (use : SignatureUse)
  | paying (db : DB) (p : Payout) (landed : Bool)
  | completing
  | done (answer : Response)
  deriving DecidableEq

structure Task where
  request : Request
  phase : Phase
  deriving DecidableEq

/-- What a handler does when it resumes: stop with an answer, save a database
and answer, or wait again. -/
inductive Outcome
  | stop (answer : Response)
  | save (db : DB) (events : List Event) (answer : Response)
  | wait (phase : Phase)

def refuse (e : Refusal) : Outcome := .stop (.refused e)

/-- `principalOut`: the requested amount cut to the principal, or all of it. -/
def unstakeAmount (amount : Amount) (principal : ℚ) : JsNumber :=
  match amount with
  | .falsy => .fin principal
  | .truthy n => jsMin n principal

/-- `/api/unstake` up to its payout: the accrued position and the two parts of
the payout, when they are finite. -/
def unstakeQuote (pos : Position) (amount : Amount) : Option (ℚ × ℚ) :=
  match unstakeAmount amount pos.principal with
  | .fin principalOut =>
    let frac := if 0 < pos.principal then principalOut / pos.principal else 1
    some (principalOut, pos.accruedRewards * frac)
  -- `NaN` or minus infinity: `toBase` throws before a transfer is sent
  | _ => none

/-- The critical section of a request from `loadDB` to its first await. -/
def Request.begin (cfg : Config) (nowMs : ℕ) (db : DB) : Request → Outcome
  | .stake _ _ signature | .deposit _ _ signature =>
    if (db.usedSignatures.lookup signature).isSome then refuse .signatureUsed
    else .wait (.verifying db)
  | .unstake owner amount =>
    match db.positions.lookup owner with
    | none => refuse .noActiveStake
    | some pos =>
      if pos.principal ≤ 0 then refuse .noActiveStake
      else
        let pos' := accrue cfg pos nowMs
        .wait (.paying db (.unstake owner pos' (unstakeQuote pos' amount)) false)
  | .claim owner =>
    -- anyone may ask; the amount and the payee are the owner's
    let pending := ownerPending owner db.nodes
    if pending ≤ 1 / 10 ^ 9 then refuse .noRewards
    else if pending < cfg.minClaim then refuse (.belowMinimumClaim pending)
    else .wait (.paying db (.claim owner pending) false)
  | .faucet address =>
    let last := (db.faucet.lookup address).getD 0
    if nowMs < last + cfg.faucetCooldownMs then
      refuse (.rateLimited (last + cfg.faucetCooldownMs - nowMs))
    else .wait (.probing db nowMs)
  | .inference requestId signature =>
    match db.requests.lookup requestId with
    | none => refuse .unknownRequest
    | some r =>
      -- an idempotent replay answers before the signature is looked at
      if r.paid then
        if r.failed then refuse (.inferenceFailed r.refunded) else .stop .ok
      else if (db.usedSignatures.lookup signature).isSome then refuse .signatureUsed
      else .wait (.verifying db)
  | .chat wallet ipAllowed =>
    match creditGate cfg db wallet (nowMs / 1000) with
    | .error e => refuse e
    | .ok () =>
      if cfg.creditUnmetered.contains wallet && !ipAllowed then refuse .notWhitelisted
      else .wait .completing

/-- The position a stake starts from, with its rewards accrued. -/
def stakeBase (cfg : Config) (nowMs : ℕ) (db : DB) (owner : Wallet) : Position :=
  accrue cfg ((db.positions.lookup owner).getD (emptyPosition nowMs)) nowMs

/-- Rewards an accrued position gained over the stored one. -/
def accruedOver (db : DB) (owner : Wallet) (pos : Position) : ℚ :=
  pos.accruedRewards - ((db.positions.lookup owner).elim 0 (·.accruedRewards))

def stakeDb (cfg : Config) (nowMs : ℕ) (db : DB) (owner : Wallet) (amount : ℚ)
    (signature : Signature) : DB :=
  let pos := stakeBase cfg nowMs db owner
  { db with
    positions := db.positions.insert owner { pos with principal := pos.principal + amount }
    usedSignatures := db.usedSignatures.insert signature (.stake owner amount (nowMs / 1000)) }

/-- `/api/stake` after its transfer was verified. -/
def stakeVerified (cfg : Config) (tx : ParsedTx) (nowMs : ℕ) (db : DB) (owner : Wallet)
    (amount : ℚ) (signature : Signature) : Outcome :=
  if !ownerHasOnlineNode db.nodes owner (nowMs / 1000) then refuse .noOnlineNode
  else
    .save (stakeDb cfg nowMs db owner amount signature)
      [.staked owner amount signature (vaultDelta cfg tx),
        .accrued owner (accruedOver db owner (stakeBase cfg nowMs db owner))] .ok

def depositDb (nowMs : ℕ) (db : DB) (w : Wallet) (amt : ℚ) (signature : Signature) : DB :=
  let a := (creditAcct db w (nowMs / 1000)).deposit amt (nowMs / 1000)
  let db' := (db.setAcct w a).creditAudited w (.deposit amt a.balance signature) (nowMs / 1000)
  { db' with
    usedSignatures := db.usedSignatures.insert signature (.creditDeposit w amt (nowMs / 1000)) }

/-- `/api/credits/deposit` after its transfer was verified. -/
def depositVerified (nowMs : ℕ) (db : DB) (w : Wallet) (amt : ℚ) (signature : Signature) : Outcome :=
  .save (depositDb nowMs db w amt signature) [.deposited w amt signature] .ok

/-- The failed-inference save: the request is marked, with or without a refund. -/
def inferenceFailedDb (db : DB) (requestId : RequestId) (signature : Signature) (r : PayRequest)
    (use : SignatureUse) (refunded : Bool) (error : String) : DB :=
  { db with
    requests := db.requests.insert requestId
      { r with failed := true, refunded := refunded, error := some error }
    usedSignatures := db.usedSignatures.insert signature
      (match use with
        | .payment i a t _ => .payment i a t (some refunded)
        | u => u) }

/-- Refund the payer when one is known, else record the failure at once. -/
def refundOrFail (db : DB) (requestId : RequestId) (signature : Signature) (r : PayRequest)
    (use : SignatureUse) (error : String) : Outcome :=
  match r.payer with
  | some payer => .wait (.paying db (.refund requestId signature r payer use error) false)
  | none =>
    .save (inferenceFailedDb db requestId signature r use false error)
      [.unserved signature none r.priceToken] (.refused (.inferenceFailed false))

/-- `/api/inference` after its payment was verified. -/
def paymentVerified (nowMs : ℕ) (db : DB) (requestId : RequestId) (signature : Signature)
    (r : PayRequest) (payer : Option Wallet) : Outcome :=
  let r' := { r with paid := true, signature := some signature, payer := payer }
  let use := SignatureUse.payment requestId r.priceToken (nowMs / 1000) none
  if (orStr r.bridgeUrl none).isSome && (orStr r.cid none).isSome then .wait (.inferring db r' use)
  else refundOrFail db requestId signature r' use "model is not served by any bridge"

def Request.verified (cfg : Config) (chain : Chain) (found : Bool) (nowMs : ℕ) (db : DB) :
    Request → Outcome
  | .stake owner (.truthy amount) signature =>
    match amount, verifyStakeTransfer cfg (chain signature) found owner amount with
    | .fin q, .ok _ => stakeVerified cfg (chain signature) nowMs db owner q signature
    | _, .error e => refuse e
    | _, .ok _ => refuse .notANumber
  | .deposit w amount signature =>
    match amount, verifyStakeTransfer cfg (chain signature) found w amount with
    | .fin q, .ok _ => depositVerified nowMs db w q signature
    | _, .error e => refuse e
    | _, .ok _ => refuse .notANumber
  | .inference requestId signature =>
    match db.requests.lookup requestId with
    | none => refuse .unknownRequest
    | some r =>
      -- no sender is named: whoever was debited most is the payer
      match verifyStakeTransfer cfg (chain signature) found "" (.fin r.priceToken) with
      | .error e => refuse e
      | .ok payer => paymentVerified nowMs db requestId signature r payer
  | _ => refuse .notANumber

/-- `/api/faucet` once it knows whether the token account exists. -/
def faucetProbed (cfg : Config) (db : DB) (address : Wallet) (now : ℕ) (existed : Bool) : Outcome :=
  if !existed && decide (cfg.faucetNewAccountBudget ≤ db.faucetAccountsOpened) then
    refuse .faucetBudgetSpent
  else .wait (.paying db (.faucet address existed now) false)

/-- What a bridge answered: the content and, when it sent them, token counts. -/
structure BridgeAnswer where
  content : String
  promptTokens : Option ℚ
  completionTokens : Option ℚ
  deriving DecidableEq

def answeredDb (db : DB) (requestId : RequestId) (signature : Signature) (r : PayRequest)
    (use : SignatureUse) (a : BridgeAnswer) : DB :=
  let pt : ℚ := a.promptTokens.getD (estimateTokens (r.prompt.getD ""))
  let ct : ℚ := a.completionTokens.getD (estimateTokens a.content)
  let usage : Usage := ⟨pt, ct, pt + ct, round6 (r.basePrice + (pt + ct) * r.perToken)⟩
  { db with
    requests := db.requests.insert requestId
      { r with result := some a.content, usage := some usage }
    usedSignatures := db.usedSignatures.insert signature use }

/-- `/api/inference` after `bridgeInfer` returned or threw. -/
def inferred (db : DB) (requestId : RequestId) (signature : Signature) (r : PayRequest)
    (use : SignatureUse) (answer : Except String BridgeAnswer) : Outcome :=
  match answer with
  | .error e => refundOrFail db requestId signature r use e
  | .ok a =>
    .save (answeredDb db requestId signature r use a)
      [.answered requestId signature] .ok

/-- The amount handed to `payout`; nothing when it is not a finite number. -/
def Payout.amount (cfg : Config) : Payout → Option ℚ
  | .unstake _ _ out => out.map fun o => o.1 + o.2
  | .claim _ pending => some pending
  | .faucet _ _ _ => some cfg.faucetAmount
  | .refund _ _ r _ _ _ => some r.priceToken

/-- A token transfer takes an unsigned amount, so a negative one never lands. -/
def Payout.canLand (cfg : Config) (p : Payout) : Bool :=
  (p.amount cfg).any fun a => decide (0 ≤ toBase cfg a)

def Payout.landing (cfg : Config) (db : DB) : Payout → List Event
  | .unstake owner pos (some (principal, rewards)) =>
    [.unstaked owner principal rewards (toBase cfg (principal + rewards)),
      .accrued owner (accruedOver db owner pos)]
  | .unstake _ _ none => []
  | .claim owner pending => [.claimed owner pending]
  | .faucet address _ _ => [.dispensed address cfg.faucetAmount]
  | .refund requestId signature r payer _ _ =>
    [.refunded requestId signature payer r.priceToken, .unserved signature (some payer) r.priceToken]

/-- The position an unstake leaves behind; dust is deleted. -/
def unstakedPositions (positions : Table Wallet Position) (owner : Wallet) (pos : Position)
    (principalOut rewardsOut : ℚ) : Table Wallet Position :=
  let pos' := { pos with
    principal := pos.principal - principalOut
    accruedRewards := pos.accruedRewards - rewardsOut }
  if pos'.principal ≤ 1 / 10 ^ 9 then positions.erase owner else positions.insert owner pos'

def unstakeDb (db : DB) (owner : Wallet) (pos : Position) (principalOut rewardsOut : ℚ) : DB :=
  { db with positions := unstakedPositions db.positions owner pos principalOut rewardsOut }

def claimDb (db : DB) (owner : Wallet) : DB := { db with nodes := claimNodes owner db.nodes }

def faucetDb (db : DB) (address : Wallet) (existed : Bool) (now : ℕ) : DB :=
  { db with
    faucetAccountsOpened := db.faucetAccountsOpened + (if existed then 0 else 1)
    faucet := db.faucet.insert address now }

/-- A task resumed by its payout, which returned (`ok`) or threw. -/
def Payout.settled (db : DB) (ok : Bool) : Payout → Outcome
  | .unstake owner pos out =>
    match ok, out with
    | true, some (principalOut, rewardsOut) =>
      .save (unstakeDb db owner pos principalOut rewardsOut) [] .ok
    | _, _ => refuse .payoutFailed
  | .claim owner _ => if ok then .save (claimDb db owner) [] .ok else refuse .payoutFailed
  | .faucet address existed now =>
    if ok then .save (faucetDb db address existed now) [] .ok else refuse .payoutFailed
  | .refund requestId signature r payer use error =>
    -- the refund is best effort: a throw is recorded, not propagated
    .save (inferenceFailedDb db requestId signature r use ok error)
      (if ok then [] else [.unserved signature (some payer) r.priceToken])
      (.refused (.inferenceFailed ok))

end KvasirNet.Gateway
