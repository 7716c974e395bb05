import KvasirNet.GatewayNodes

/-! The on-chain side: what `verifyStakeTransfer` reads from a parsed
transaction. The chain itself is a parameter; a signature names one fixed
transaction, which the RPC node may or may not know yet. -/
namespace KvasirNet.Gateway

structure TokenBalance where
  accountIndex : ℕ
  mint : String
  owner : Option Wallet
  amount : ℕ
  deriving DecidableEq

structure ParsedTx where
  err : Bool
  accountKeys : List String
  preTokenBalances : List TokenBalance
  postTokenBalances : List TokenBalance
  deriving DecidableEq

abbrev Chain := Signature → ParsedTx

/-- `balAt(list)`: the vault's balance in one of the two balance lists. -/
def vaultBalance (cfg : Config) (tx : ParsedTx) (list : List TokenBalance) : ℤ :=
  match list.find? fun x => x.mint == cfg.mint && tx.accountKeys[x.accountIndex]? == some cfg.vaultAta with
  | some b => b.amount
  | none => 0

/-- Base units the transaction moved into the vault. -/
def vaultDelta (cfg : Config) (tx : ParsedTx) : ℤ :=
  vaultBalance cfg tx tx.postTokenBalances - vaultBalance cfg tx tx.preTokenBalances

/-- `amtAt(list, idx)`. -/
def amountAt (cfg : Config) (list : List TokenBalance) (idx : ℕ) : ℤ :=
  match list.find? fun x => x.accountIndex == idx && x.mint == cfg.mint with
  | some b => b.amount
  | none => 0

/-- `amtAt(pre, idx) - amtAt(post, idx)`. -/
def debitAt (cfg : Config) (tx : ParsedTx) (idx : ℕ) : ℤ :=
  amountAt cfg tx.preTokenBalances idx - amountAt cfg tx.postTokenBalances idx

/-- The account indices `owner` holds this mint in, each once. -/
def ownedIndices (cfg : Config) (tx : ParsedTx) (owner : Wallet) : List ℕ :=
  ((tx.preTokenBalances ++ tx.postTokenBalances).filter fun b =>
    b.mint == cfg.mint && b.owner == some owner).map (·.accountIndex) |>.dedup

/-- Base units debited from the token accounts of `owner`. -/
def sentBy (cfg : Config) (tx : ParsedTx) (owner : Wallet) : ℤ :=
  ((ownedIndices cfg tx owner).map fun idx => max 0 (debitAt cfg tx idx)).sum

/-- `idxOwner`: the last owner recorded for each account index, in order of
first appearance. -/
def indexOwners (cfg : Config) (tx : ParsedTx) : List (ℕ × Wallet) :=
  (tx.preTokenBalances ++ tx.postTokenBalances).foldl
    -- `Map.set` on a known key replaces the value and keeps its place
    (fun acc b =>
      match b.owner with
      | some o =>
        if b.mint = cfg.mint ∧ o ≠ "" then
          if acc.any fun e => e.1 == b.accountIndex then
            acc.map fun e => if e.1 = b.accountIndex then (e.1, o) else e
          else acc ++ [(b.accountIndex, o)]
        else acc
      | none => acc) []

/-- The owner debited the most, if anyone was debited. -/
def payerOf (cfg : Config) (tx : ParsedTx) : Option Wallet :=
  ((indexOwners cfg tx).foldl
    (fun best e =>
      let d := debitAt cfg tx e.1
      if best.2 < d then (some e.2, d) else best) ((none : Option Wallet), (0 : ℤ))).1

/-- `verifyStakeTransfer(signature, ownerStr, amountWhole)`. `found` says whether
one of its polls returned the transaction; the empty owner skips the sender
check. The answer is the payer. -/
def verifyStakeTransfer (cfg : Config) (tx : ParsedTx) (found : Bool) (owner : Wallet)
    (amount : JsNumber) : Except Refusal (Option Wallet) :=
  if !found then .error .transactionNotFound
  else if tx.err then .error .transactionFailed
  else
    match toBaseNumber cfg amount with
    | none => .error .notANumber
    | some need =>
      if vaultDelta cfg tx < need then .error (.vaultReceived (vaultDelta cfg tx) need)
      else if owner ≠ "" ∧ sentBy cfg tx owner < need then
        .error (.notSentBy owner (sentBy cfg tx owner) need)
      else .ok (payerOf cfg tx)

/-- A plain transfer of `n` base units from `owner` into the vault. -/
def vaultTransfer (cfg : Config) (owner : Wallet) (n : ℕ) : ParsedTx where
  err := false
  accountKeys := [cfg.vaultAta, "ata-of-" ++ owner]
  preTokenBalances := [⟨0, cfg.mint, some cfg.treasuryOwner, 0⟩, ⟨1, cfg.mint, some owner, n⟩]
  postTokenBalances := [⟨0, cfg.mint, some cfg.treasuryOwner, n⟩, ⟨1, cfg.mint, some owner, 0⟩]

def idleChain : Chain := fun _ => vaultTransfer defaultConfig "A" 0

theorem verifyStakeTransfer_ok {cfg : Config} {tx : ParsedTx} {found : Bool} {owner : Wallet}
    {amount : JsNumber} {payer : Option Wallet}
    (h : verifyStakeTransfer cfg tx found owner amount = .ok payer) :
    ∃ q, amount = .fin q ∧ toBase cfg q ≤ vaultDelta cfg tx := by
  unfold verifyStakeTransfer at h
  cases amount with
  | fin q =>
    refine ⟨q, rfl, ?_⟩
    simp only [toBaseNumber] at h
    split_ifs at h with h1 h2 h3 h4
    exact not_lt.mp h3
  | nan | negInf | posInf =>
    simp only [toBaseNumber] at h
    split_ifs at h

end KvasirNet.Gateway
