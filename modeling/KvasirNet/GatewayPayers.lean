import KvasirNet.GatewayChain

/-! Who paid a verified transfer. The check adds up what the named owner's accounts lose and does
not look at those that gain. -/
namespace KvasirNet.Gateway

section
variable (cfg : Config) (tx : ParsedTx) (owner : Wallet)

/-- What leaves the owner's accounts, less what comes into them: before minus after. -/
def netOutflow : ℤ := ((ownedIndices cfg tx owner).map (debitAt cfg tx)).sum

def lost : ℤ :=
  (((ownedIndices cfg tx owner).filter fun idx => 0 < debitAt cfg tx idx).map (debitAt cfg tx)).sum

def gained : ℤ :=
  (((ownedIndices cfg tx owner).filter fun idx => debitAt cfg tx idx < 0).map
    fun idx => -debitAt cfg tx idx).sum

end

theorem sum_sides (f : ℕ → ℤ) (is : List ℕ) : (is.map f).sum =
    ((is.filter fun i => 0 < f i).map f).sum - ((is.filter fun i => f i < 0).map fun i => -f i).sum := by
  induction is with
  | nil => rfl
  | cons i is ih =>
    rw [List.map_cons, List.sum_cons, ih]
    rcases lt_trichotomy (f i) 0 with hneg | hzero | hpos
    · have hnot : ¬ 0 < f i := not_lt.mpr hneg.le
      rw [List.filter_cons_of_neg (by simpa using hnot), List.filter_cons_of_pos (by simpa using hneg),
        List.map_cons, List.sum_cons]
      omega
    · rw [List.filter_cons_of_neg (by simp [hzero]), List.filter_cons_of_neg (by simp [hzero])]
      omega
    · have hnot : ¬ f i < 0 := not_lt.mpr hpos.le
      rw [List.filter_cons_of_pos (by simpa using hpos), List.filter_cons_of_neg (by simpa using hnot),
        List.map_cons, List.sum_cons]
      omega

theorem sum_max_zero (f : ℕ → ℤ) (is : List ℕ) :
    (is.map fun i => max 0 (f i)).sum = ((is.filter fun i => 0 < f i).map f).sum := by
  induction is with
  | nil => rfl
  | cons i is ih =>
    rw [List.map_cons, List.sum_cons, ih]
    by_cases hpos : 0 < f i
    · rw [List.filter_cons_of_pos (by simpa using hpos), List.map_cons, List.sum_cons,
        max_eq_right hpos.le]
    · rw [List.filter_cons_of_neg (by simpa using hpos), max_eq_left (not_lt.mp hpos), zero_add]

section
variable {cfg : Config} {tx : ParsedTx} {found : Bool} {owner : Wallet} {q : ℚ}

theorem netOutflow_eq : netOutflow cfg tx owner = lost cfg tx owner - gained cfg tx owner :=
  sum_sides _ _

theorem sentBy_eq : sentBy cfg tx owner = lost cfg tx owner := sum_max_zero _ _

theorem verifyStakeTransfer_sent {payer : Option Wallet} (howner : owner ≠ "")
    (h : verifyStakeTransfer cfg tx found owner (.fin q) = .ok payer) :
    toBase cfg q ≤ vaultDelta cfg tx ∧ toBase cfg q ≤ lost cfg tx owner := by
  unfold verifyStakeTransfer at h
  simp only [toBaseNumber] at h
  split_ifs at h with hfound herr hvault hsent
  rw [not_and] at hsent
  rw [← sentBy_eq]
  exact ⟨not_lt.mp hvault, not_lt.mp (hsent howner)⟩

end

/-- B pays 100 base units into the vault; A, who signs too, moves 100 between two accounts. -/
def shuffledPayment : ParsedTx where
  err := false
  accountKeys := [defaultConfig.vaultAta, "A1", "A2", "B1"]
  preTokenBalances := [⟨0, defaultConfig.mint, some defaultConfig.treasuryOwner, 0⟩,
    ⟨1, defaultConfig.mint, some "A", 100⟩, ⟨2, defaultConfig.mint, some "A", 0⟩,
    ⟨3, defaultConfig.mint, some "B", 100⟩]
  postTokenBalances := [⟨0, defaultConfig.mint, some defaultConfig.treasuryOwner, 100⟩,
    ⟨1, defaultConfig.mint, some "A", 0⟩, ⟨2, defaultConfig.mint, some "A", 100⟩,
    ⟨3, defaultConfig.mint, some "B", 0⟩]

end KvasirNet.Gateway
