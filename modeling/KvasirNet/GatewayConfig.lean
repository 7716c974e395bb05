import KvasirNet.GridRound

/-! Numbers and settings of the settlement gateway (`staking-service/server.js`).
JavaScript numbers are exact rationals here, with the non-finite values that
`Number(v)` can produce kept apart. -/
namespace KvasirNet.Gateway

abbrev Wallet := String
abbrev Signature := String
abbrev NodeId := String
abbrev RequestId := String
abbrev ModelId := String

inductive JsNumber
  | nan
  | negInf
  | posInf
  | fin (q : ℚ)
  deriving DecidableEq

/-- A request field read both as a truth value and as `Number(v)`. The falsy
values are absent, `null`, `false`, `0` and the empty string. -/
inductive Amount
  | falsy
  | truthy (n : JsNumber)
  deriving DecidableEq

/-- Settings read from the environment and the token spec. Rates, amounts and
prices are not negative. -/
structure Config where
  apr : ℚ
  rewardPerUnit : ℚ
  gatewayBonus : ℚ
  bridgeUptimePerHour : ℚ
  gatewayUptimePerHour : ℚ
  uptimeMaxGapSec : ℕ
  decimals : ℕ
  vaultAta : String
  mint : String
  treasuryOwner : Wallet
  genesisWallet : Wallet
  hostOs : String
  minOperatorKvr : ℚ
  minClaim : ℚ
  faucetAmount : ℚ
  faucetCooldownMs : ℕ
  faucetNewAccountBudget : ℕ
  requestContentTtlSec : ℕ
  receivesPush : Bool
  genesisGatewayUrl : String
  creditMinBalance : ℚ
  creditWhitelist : List Wallet
  creditUnmetered : List Wallet
  creditOpenRegister : Bool
  apr_nonneg : 0 ≤ apr
  rewardPerUnit_nonneg : 0 ≤ rewardPerUnit
  gatewayBonus_nonneg : 0 ≤ gatewayBonus
  bridgeUptime_nonneg : 0 ≤ bridgeUptimePerHour
  gatewayUptime_nonneg : 0 ≤ gatewayUptimePerHour

/-- The values the source falls back to when the environment sets nothing. -/
def defaultConfig : Config where
  apr := 0
  rewardPerUnit := 1 / 100
  gatewayBonus := 3 / 2
  bridgeUptimePerHour := 2
  gatewayUptimePerHour := 1
  uptimeMaxGapSec := 120
  decimals := 6
  vaultAta := "38kt9QVdwt8r6auHK57rF1zkHSLq1dPChhJX2FuoY4CF"
  mint := "6cuJAmqtMuGzJ7s7eWQSqfJvEFRUdTiYR3cuMmiNoCPQ"
  treasuryOwner := "8uu2gDKFVtNS79yqYyztJeerEKAh4cnZGdQytCjsYNfF"
  genesisWallet := "JcVYk4PpP5m2kDhGzJAmYAtD8GF7svNgNK1V1BzTrRG"
  hostOs := "linux"
  minOperatorKvr := 0
  minClaim := 1
  faucetAmount := 100
  faucetCooldownMs := 86400 * 1000
  faucetNewAccountBudget := 500
  requestContentTtlSec := 30 * 24 * 3600
  receivesPush := false
  genesisGatewayUrl := ""
  creditMinBalance := 0
  creditWhitelist := []
  creditUnmetered := []
  creditOpenRegister := false
  apr_nonneg := le_rfl
  rewardPerUnit_nonneg := by norm_num
  gatewayBonus_nonneg := by norm_num
  bridgeUptime_nonneg := by norm_num
  gatewayUptime_nonneg := by norm_num

def Config.isFollower (cfg : Config) : Bool := cfg.genesisGatewayUrl != ""

/-- Only the source, which neither polls nor receives pushes, takes admin writes. -/
def Config.isWriteLocked (cfg : Config) : Bool := cfg.isFollower || cfg.receivesPush

def secondsPerYear : ℚ := 365 * 24 * 60 * 60

/-- `Math.round(v * 1e6) / 1e6`. -/
def round6 (v : ℚ) : ℚ := roundTo 1000000 v

/-- `BigInt(Math.round(Number(whole) * 10 ** DECIMALS))` on a finite amount. -/
def toBase (cfg : Config) (whole : ℚ) : ℤ := round (whole * 10 ^ cfg.decimals)

/-- `toBase` on any number; `BigInt` throws on `NaN` and the infinities. -/
def toBaseNumber (cfg : Config) : JsNumber → Option ℤ
  | .fin q => some (toBase cfg q)
  | _ => none

/-- `Math.min(Number(amount), bound)` for a finite bound. -/
def jsMin : JsNumber → ℚ → JsNumber
  | .nan, _ => .nan
  | .negInf, _ => .negInf
  | .posInf, b => .fin b
  | .fin q, b => .fin (min q b)

inductive Tier
  | s
  | a
  | b
  | c
  | unrated
  deriving DecidableEq

structure TierRule where
  tier : Tier
  minTps : ℚ
  mult : ℚ
  deriving DecidableEq

def perfTiers : List TierRule :=
  [⟨.s, 90, 3 / 2⟩, ⟨.a, 60, 5 / 4⟩, ⟨.b, 30, 1⟩, ⟨.c, 0, 7 / 10⟩]

def perfTier (tps : ℚ) : TierRule :=
  (perfTiers.find? fun x => decide (x.minTps ≤ tps)).getD ⟨.c, 0, 7 / 10⟩

def unmeasured : TierRule := ⟨.unrated, 0, 1⟩

theorem perfTier_mult_pos (tps : ℚ) : 0 < (perfTier tps).mult := by
  unfold perfTier
  cases h : perfTiers.find? fun x => decide (x.minTps ≤ tps) with
  | none => norm_num
  | some x =>
    have hx := List.mem_of_find?_eq_some h
    simp only [perfTiers, List.mem_cons, List.not_mem_nil, or_false] at hx
    rcases hx with rfl | rfl | rfl | rfl <;> norm_num

end KvasirNet.Gateway
