import KvasirNet.GatewayBalances

/-! `POST /api/unstake` as one request on the file: what it pays, what it leaves of the position,
and several of them at one instant against one for their sum. -/
namespace KvasirNet.Gateway

structure Unstaked where
  principalReturned : ℚ
  rewardsPaid : ℚ
  total : ℚ
  deriving DecidableEq

/-- The file after the request and its answer. `returns` says whether `payout` returns. -/
def unstake (cfg : Config) (nowMs : ℕ) (db : DB) (owner : Wallet) (amount : Amount)
    (returns : Bool) : DB × Except Refusal Unstaked :=
  if owner = "" then (db, .error (.required ["owner"]))
  else
    match db.positions.lookup owner with
    | none => (db, .error .noActiveStake)
    | some pos =>
      if pos.principal ≤ 0 then (db, .error .noActiveStake)
      else
        match unstakeQuote (accrue cfg pos nowMs) amount with
        -- `toBase` has no integer for the total, so `payout` throws
        | none => (db, .error .payoutFailed)
        | some (principalOut, rewardsOut) =>
          if returns then
            (unstakeDb db owner (accrue cfg pos nowMs) principalOut rewardsOut,
              .ok ⟨principalOut, rewardsOut, principalOut + rewardsOut⟩)
          else (db, .error .payoutFailed)

def paidBy : Except Refusal Unstaked → ℚ
  | .ok u => u.total
  | .error _ => 0

/-- One request after the other, the payouts all returning: what they paid together, and the file
after them. -/
def unstakeEach (cfg : Config) (nowMs : ℕ) (owner : Wallet) : DB → List ℚ → ℚ × DB
  | db, [] => (0, db)
  | db, a :: rest =>
    let first := unstake cfg nowMs db owner (.truthy (.fin a)) true
    let others := unstakeEach cfg nowMs owner first.1 rest
    (paidBy first.2 + others.1, others.2)

def Amount.NotNegative (amount : Amount) : Prop := ∀ q, amount = .truthy (.fin q) → 0 ≤ q

/-- A position with no more principal than this is deleted. -/
def dust : ℚ := 1 / 10 ^ 9

/-! ### As a task of the gateway -/

def Outcome.stored (db : DB) : Outcome → DB
  | .save db' _ _ => db'
  | _ => db

/-- A handler that waits for a payout, resumed by it. -/
def Outcome.resumed (returns : Bool) : Outcome → Outcome
  | .wait (.paying db p _) => p.settled db returns
  | o => o

section
variable {cfg : Config} {nowMs : ℕ} {db : DB} {owner : Wallet} {amount : Amount} {returns : Bool}

theorem begin_unstake : (Request.unstake owner amount).begin cfg nowMs db =
    match db.positions.lookup owner with
    | none => refuse .noActiveStake
    | some pos =>
      if pos.principal ≤ 0 then refuse .noActiveStake
      else .wait (.paying db (.unstake owner (accrue cfg pos nowMs)
        (unstakeQuote (accrue cfg pos nowMs) amount)) false) := rfl

theorem unstake_stored (howner : owner ≠ "") : (unstake cfg nowMs db owner amount returns).1 =
    (((Request.unstake owner amount).begin cfg nowMs db).resumed returns).stored db := by
  unfold unstake
  rw [begin_unstake, if_neg howner]
  cases hrow : db.positions.lookup owner with
  | none => rfl
  | some pos =>
    by_cases hp : pos.principal ≤ 0
    · simp only [if_pos hp]
      rfl
    · simp only [if_neg hp]
      cases hq : unstakeQuote (accrue cfg pos nowMs) amount with
      | none => cases returns <;> rfl
      | some out => cases returns <;> rfl

theorem unstake_error {e : Refusal} (h : (unstake cfg nowMs db owner amount returns).2 = .error e) :
    (unstake cfg nowMs db owner amount returns).1 = db := by
  unfold unstake at h ⊢
  by_cases howner : owner = ""
  · rw [if_pos howner]
  · rw [if_neg howner] at h ⊢
    cases hrow : db.positions.lookup owner with
    | none => rfl
    | some pos =>
      simp only [hrow] at h ⊢
      by_cases hp : pos.principal ≤ 0
      · rw [if_pos hp]
      · rw [if_neg hp] at h ⊢
        cases hq : unstakeQuote (accrue cfg pos nowMs) amount with
        | none => rfl
        | some out =>
          cases returns with
          | true =>
            simp only [hq, if_true] at h
            cases h
          | false => rfl

variable {pos : Position}

theorem unstake_active (howner : owner ≠ "") (hrow : db.positions.lookup owner = some pos)
    (hp : 0 < pos.principal) : unstake cfg nowMs db owner amount returns =
      match unstakeQuote (accrue cfg pos nowMs) amount with
      | none => (db, .error .payoutFailed)
      | some (principalOut, rewardsOut) =>
        if returns then
          (unstakeDb db owner (accrue cfg pos nowMs) principalOut rewardsOut,
            .ok ⟨principalOut, rewardsOut, principalOut + rewardsOut⟩)
        else (db, .error .payoutFailed) := by
  unfold unstake
  rw [if_neg howner, hrow]
  exact if_neg (not_le.mpr hp)

theorem unstake_none (hrow : db.positions.lookup owner = none) :
    paidBy (unstake cfg nowMs db owner amount returns).2 = 0 ∧
      (unstake cfg nowMs db owner amount returns).1 = db := by
  unfold unstake
  rw [hrow]
  by_cases howner : owner = ""
  · rw [if_pos howner]
    exact ⟨rfl, rfl⟩
  · rw [if_neg howner]
    exact ⟨rfl, rfl⟩

theorem unstake_ok {u : Unstaked} (hrow : db.positions.lookup owner = some pos)
    (hp : 0 < pos.principal) (h : (unstake cfg nowMs db owner amount returns).2 = .ok u) :
    unstakeQuote (accrue cfg pos nowMs) amount = some (u.principalReturned, u.rewardsPaid) ∧
      u.total = u.principalReturned + u.rewardsPaid ∧
      (unstake cfg nowMs db owner amount returns).1 =
        unstakeDb db owner (accrue cfg pos nowMs) u.principalReturned u.rewardsPaid := by
  have howner : owner ≠ "" := by
    intro he
    rw [unstake, if_pos he] at h
    cases h
  rw [unstake_active howner hrow hp] at h ⊢
  cases hq : unstakeQuote (accrue cfg pos nowMs) amount with
  | none =>
    rw [hq] at h
    cases h
  | some out =>
    rw [hq] at h
    cases returns with
    | false => cases h
    | true =>
      obtain rfl := Except.ok.inj h
      exact ⟨rfl, rfl, rfl⟩

/-! ### One request -/

/-- A position that lost some principal and some rewards. -/
def Position.minus (pos : Position) (principal rewards : ℚ) : Position :=
  { pos with
    principal := pos.principal - principal
    accruedRewards := pos.accruedRewards - rewards }

theorem unstakedPositions_eq (t : Table Wallet Position) (p r : ℚ) :
    unstakedPositions t owner pos p r =
      if (pos.minus p r).principal ≤ dust then t.erase owner else t.insert owner (pos.minus p r) := rfl

theorem lookup_unstakeDb (p r : ℚ) : (unstakeDb db owner pos p r).positions.lookup owner =
    if pos.principal - p ≤ dust then none else some (pos.minus p r) := by
  show (unstakedPositions db.positions owner pos p r).lookup owner = _
  rw [unstakedPositions_eq]
  show (if pos.principal - p ≤ dust then _ else _ : Table Wallet Position).lookup owner = _
  split_ifs
  · exact AList.lookup_erase _ _
  · exact AList.lookup_insert _

theorem unstakeQuote_nonneg {p r : ℚ} (hp : 0 < pos.principal) (hamount : amount.NotNegative)
    (h : unstakeQuote pos amount = some (p, r)) : 0 ≤ p := by
  unfold unstakeQuote at h
  cases amount with
  | falsy =>
    obtain ⟨rfl, -⟩ := Prod.mk.inj (Option.some.inj h)
    exact hp.le
  | truthy n =>
    cases n with
    | nan => cases h
    | negInf => cases h
    | posInf =>
      obtain ⟨rfl, -⟩ := Prod.mk.inj (Option.some.inj h)
      exact hp.le
    | fin q =>
      obtain ⟨rfl, -⟩ := Prod.mk.inj (Option.some.inj h)
      exact le_min (hamount q rfl) hp.le

theorem unstakeQuote_fin (hp : 0 < pos.principal) (a : ℚ) :
    unstakeQuote pos (.truthy (.fin a)) = some (min a pos.principal,
      pos.accruedRewards * (min a pos.principal / pos.principal)) := by
  show some (min a pos.principal, pos.accruedRewards *
    if 0 < pos.principal then min a pos.principal / pos.principal else 1) = _
  rw [if_pos hp]

theorem unstake_moves {u : Unstaked} (hrow : db.positions.lookup owner = some pos)
    (hp : 0 < pos.principal) (hamount : amount.NotNegative)
    (h : (unstake cfg nowMs db owner amount returns).2 = .ok u) :
    0 ≤ u.principalReturned ∧ u.principalReturned ≤ pos.principal ∧
      u.rewardsPaid = (accrue cfg pos nowMs).accruedRewards * u.principalReturned / pos.principal ∧
      u.total = u.principalReturned + u.rewardsPaid ∧
      (unstake cfg nowMs db owner amount returns).1.positions.lookup owner =
        if pos.principal - u.principalReturned ≤ dust then none
        else some ((accrue cfg pos nowMs).minus u.principalReturned u.rewardsPaid) := by
  obtain ⟨hquote, htotal, hfile⟩ := unstake_ok hrow hp h
  have hactive : 0 < (accrue cfg pos nowMs).principal := hp
  obtain ⟨hle, hrewards⟩ := unstakeQuote_some hactive hquote
  refine ⟨unstakeQuote_nonneg hactive hamount hquote, hle, ?_, htotal, ?_⟩
  · rw [hrewards, mul_div_assoc]
    rfl
  · rw [hfile]
    exact lookup_unstakeDb _ _

/-! ### Several requests at one instant -/

theorem accrue_minus (p r : ℚ) :
    accrue cfg ((accrue cfg pos nowMs).minus p r) nowMs = (accrue cfg pos nowMs).minus p r := by
  have hdt : (if nowMs / 1000 = 0 then 0 else nowMs / 1000 - nowMs / 1000 : ℕ) = 0 := by
    split_ifs <;> omega
  unfold accrue Position.minus
  simp only [hdt, Nat.cast_zero, mul_zero, zero_div, add_zero]

theorem unstake_fin (howner : owner ≠ "") (hrow : db.positions.lookup owner = some pos)
    (hp : 0 < pos.principal) (a : ℚ) : unstake cfg nowMs db owner (.truthy (.fin a)) true =
      (unstakeDb db owner (accrue cfg pos nowMs) (min a pos.principal)
          ((accrue cfg pos nowMs).accruedRewards * (min a pos.principal / pos.principal)),
        .ok ⟨min a pos.principal,
          (accrue cfg pos nowMs).accruedRewards * (min a pos.principal / pos.principal),
          min a pos.principal +
            (accrue cfg pos nowMs).accruedRewards * (min a pos.principal / pos.principal)⟩) := by
  have hquote := unstakeQuote_fin (show 0 < (accrue cfg pos nowMs).principal from hp) a
  rw [unstake_active howner hrow hp, hquote]
  rfl

theorem unstakeEach_none (hrow : db.positions.lookup owner = none) (amounts : List ℚ) :
    unstakeEach cfg nowMs owner db amounts = (0, db) := by
  induction amounts with
  | nil => rfl
  | cons a rest ih =>
    obtain ⟨hpaid, hfile⟩ := @unstake_none cfg nowMs db owner (.truthy (.fin a)) true hrow
    rw [unstakeEach, hpaid, hfile, ih, zero_add]

theorem unstakedPositions_insert {t : Table Wallet Position} {pos' : Position} {p p' r r' : ℚ}
    (h : pos'.minus p' r' = pos.minus p r) :
    unstakedPositions (t.insert owner pos') owner pos' p' r' = unstakedPositions t owner pos p r := by
  rw [unstakedPositions_eq, unstakedPositions_eq, h]
  split_ifs
  · apply AList.ext
    show List.kerase owner (t.insert owner pos').entries = List.kerase owner t.entries
    rw [AList.entries_insert]
    exact List.kerase_cons_eq rfl
  · exact AList.insert_insert _

/-- A proper part of the amounts leaves some of the principal, but only dust. -/
def LeavesDust (principal : ℚ) (amounts : List ℚ) : Prop :=
  ∃ part others, amounts = part ++ others ∧ part ≠ [] ∧ others ≠ [] ∧
    0 < principal - part.sum ∧ principal - part.sum ≤ dust

theorem LeavesDust.cons {principal a : ℚ} {rest : List ℚ} (h : LeavesDust (principal - a) rest) :
    LeavesDust principal (a :: rest) := by
  obtain ⟨part, others, rfl, -, hothers, hsome, hdust⟩ := h
  have hsum : principal - (a :: part).sum = principal - a - part.sum := by
    rw [List.sum_cons]
    ring
  refine ⟨a :: part, others, rfl, List.cons_ne_nil _ _, hothers, ?_, ?_⟩
  · rw [hsum]
    exact hsome
  · rw [hsum]
    exact hdust

theorem rewards_split {p r a b : ℚ} (hp : 0 < p) (ha : a < p) :
    r * (a / p) + (r - r * (a / p)) * (b / (p - a)) = r * ((a + b) / p) := by
  have hp' : p ≠ 0 := hp.ne'
  have hleft : p - a ≠ 0 := (sub_pos.mpr ha).ne'
  field_simp

theorem unstake_twice (howner : owner ≠ "") (hrow : db.positions.lookup owner = some pos)
    (hp : 0 < pos.principal) {a : ℚ} (ha : a < pos.principal) (hleft : dust < pos.principal - a) :
    ∃ db' pos', (unstake cfg nowMs db owner (.truthy (.fin a)) true).1 = db' ∧
      db'.positions.lookup owner = some pos' ∧ pos'.principal = pos.principal - a ∧
      ∀ b, (unstake cfg nowMs db' owner (.truthy (.fin b)) true).1 =
          (unstake cfg nowMs db owner (.truthy (.fin (a + b))) true).1 ∧
        paidBy (unstake cfg nowMs db owner (.truthy (.fin a)) true).2 +
            paidBy (unstake cfg nowMs db' owner (.truthy (.fin b)) true).2 =
          paidBy (unstake cfg nowMs db owner (.truthy (.fin (a + b))) true).2 := by
  have hmin : min a pos.principal = a := min_eq_left ha.le
  have hfirst := @unstake_fin cfg nowMs _ _ _ howner hrow hp a
  rw [hmin] at hfirst
  generalize hr : (accrue cfg pos nowMs).accruedRewards * (a / pos.principal) = r at hfirst
  have hinsert : unstakeDb db owner (accrue cfg pos nowMs) a r =
      { db with positions := db.positions.insert owner ((accrue cfg pos nowMs).minus a r) } := by
    have hkept : ¬ ((accrue cfg pos nowMs).minus a r).principal ≤ dust := not_le.mpr hleft
    unfold unstakeDb
    rw [unstakedPositions_eq, if_neg hkept]
  have hrow' : (unstakeDb db owner (accrue cfg pos nowMs) a r).positions.lookup owner =
      some ((accrue cfg pos nowMs).minus a r) := by
    rw [hinsert]
    exact AList.lookup_insert _
  have hp' : 0 < ((accrue cfg pos nowMs).minus a r).principal := sub_pos.mpr ha
  refine ⟨_, _, congrArg Prod.fst hfirst, hrow', rfl, ?_⟩
  intro b
  have hsecond := @unstake_fin cfg nowMs _ _ _ howner hrow' hp' b
  have honce := @unstake_fin cfg nowMs _ _ _ howner hrow hp (a + b)
  rw [accrue_minus] at hsecond
  -- what the second request takes of the principal
  generalize hout : min b ((accrue cfg pos nowMs).minus a r).principal = out at hsecond
  have hboth : min (a + b) pos.principal = a + out := by
    have hsplit : pos.principal = a + ((accrue cfg pos nowMs).minus a r).principal :=
      (add_sub_cancel a pos.principal).symm
    rw [← hout, ← min_add_add_left, ← hsplit]
  rw [hboth] at honce
  have hrewards : r + ((accrue cfg pos nowMs).minus a r).accruedRewards *
      (out / ((accrue cfg pos nowMs).minus a r).principal) =
      (accrue cfg pos nowMs).accruedRewards * ((a + out) / pos.principal) := by
    rw [← rewards_split hp ha, hr]
    rfl
  rw [hfirst, hsecond, honce, ← hrewards]
  constructor
  · have hminus : ∀ r', ((accrue cfg pos nowMs).minus a r).minus out r' =
        (accrue cfg pos nowMs).minus (a + out) (r + r') := by
      intro r'
      unfold Position.minus
      rw [sub_sub, sub_sub]
    rw [hinsert]
    exact congrArg (fun t => { db with positions := t }) (unstakedPositions_insert (hminus _))
  · show a + r + (out + _) = a + out + (r + _)
    exact add_add_add_comm _ _ _ _

theorem unstakeEach_sum (howner : owner ≠ "") (hrow : db.positions.lookup owner = some pos)
    (hp : 0 < pos.principal) {amounts : List ℚ} (hsome : amounts ≠ [])
    (hpos : ∀ a ∈ amounts, 0 < a) (hdust : ¬ LeavesDust pos.principal amounts) :
    unstakeEach cfg nowMs owner db amounts =
      (paidBy (unstake cfg nowMs db owner (.truthy (.fin amounts.sum)) true).2,
        (unstake cfg nowMs db owner (.truthy (.fin amounts.sum)) true).1) := by
  induction amounts generalizing db pos with
  | nil => exact absurd rfl hsome
  | cons a rest ih =>
    have ha : 0 < a := hpos a List.mem_cons_self
    have hrest : ∀ b ∈ rest, 0 < b := fun b hb => hpos b (List.mem_cons_of_mem a hb)
    have hsum : 0 ≤ rest.sum := List.sum_nonneg fun b hb => (hrest b hb).le
    rw [unstakeEach]
    rcases List.eq_nil_or_concat rest with hnil | hcons
    · subst hnil
      rw [List.sum_cons, List.sum_nil, add_zero, unstakeEach, add_zero]
    have hothers : rest ≠ [] := by
      obtain ⟨init, last, rfl⟩ := hcons
      rw [List.concat_eq_append]
      exact List.append_ne_nil_of_right_ne_nil _ (List.cons_ne_nil _ _)
    rw [List.sum_cons]
    by_cases hall : pos.principal ≤ a
    · -- the first request takes everything, as the sum does
      have hsame : unstake cfg nowMs db owner (.truthy (.fin (a + rest.sum))) true =
          unstake cfg nowMs db owner (.truthy (.fin a)) true := by
        have hmin : min (a + rest.sum) pos.principal = pos.principal := min_eq_right (by linarith)
        rw [unstake_fin howner hrow hp, unstake_fin howner hrow hp, hmin, min_eq_right hall]
      have hgone : (unstake cfg nowMs db owner (.truthy (.fin a)) true).1.positions.lookup owner =
          none := by
        rw [unstake_fin howner hrow hp, min_eq_right hall, lookup_unstakeDb, accrue_principal,
          sub_self, if_pos (by unfold dust; positivity)]
      rw [hsame, unstakeEach_none hgone, add_zero]
    · have hlt : a < pos.principal := not_le.mp hall
      have hleft : dust < pos.principal - a := by
        by_contra hfew
        refine hdust ⟨[a], rest, rfl, List.cons_ne_nil _ _, hothers, ?_, ?_⟩
        · rw [List.sum_singleton]
          exact sub_pos.mpr hlt
        · rw [List.sum_singleton]
          exact not_lt.mp hfew
      obtain ⟨db', pos', hfile, hrow', hprincipal, htwice⟩ :=
        @unstake_twice cfg nowMs _ _ _ howner hrow hp _ hlt hleft
      obtain ⟨hlast, hpaid⟩ := htwice rest.sum
      have hp' : 0 < pos'.principal := by
        rw [hprincipal]
        exact sub_pos.mpr hlt
      have hdust' : ¬ LeavesDust pos'.principal rest := by
        rw [hprincipal]
        exact fun h => hdust h.cons
      rw [hfile, ih hrow' hp' hothers hrest hdust', hlast, hpaid]

theorem unstakeEach_noOwner (amounts : List ℚ) : unstakeEach cfg nowMs "" db amounts = (0, db) := by
  induction amounts with
  | nil => rfl
  | cons a rest ih =>
    have hfirst : unstake cfg nowMs db "" (.truthy (.fin a)) true =
        (db, .error (.required ["owner"])) := if_pos rfl
    rw [unstakeEach, hfirst, ih]
    show ((0 : ℚ) + 0, db) = (0, db)
    rw [add_zero]

/-- An unstake of an amount that is not negative moves that much of the principal, all of it at
most, and the same share of the rewards, or nothing; several leave and pay what their sum does
unless they stop short by dust. -/
theorem unstake_well_defined (cfg : Config) (nowMs : ℕ) (db : DB) (owner : Wallet) (pos : Position)
    (hrow : db.positions.lookup owner = some pos) (hp : 0 < pos.principal) :
    (∀ amount returns u, amount.NotNegative →
      (unstake cfg nowMs db owner amount returns).2 = .ok u →
      0 ≤ u.principalReturned ∧ u.principalReturned ≤ pos.principal ∧
      u.rewardsPaid = (accrue cfg pos nowMs).accruedRewards * u.principalReturned / pos.principal ∧
      u.total = u.principalReturned + u.rewardsPaid ∧
      (unstake cfg nowMs db owner amount returns).1.positions.lookup owner =
        if pos.principal - u.principalReturned ≤ dust then none
        else some ((accrue cfg pos nowMs).minus u.principalReturned u.rewardsPaid)) ∧
    (∀ amount returns e, (unstake cfg nowMs db owner amount returns).2 = .error e →
      (unstake cfg nowMs db owner amount returns).1 = db) ∧
    ∀ amounts : List ℚ, amounts ≠ [] → (∀ a ∈ amounts, 0 < a) →
      ¬ LeavesDust pos.principal amounts →
      unstakeEach cfg nowMs owner db amounts =
        (paidBy (unstake cfg nowMs db owner (.truthy (.fin amounts.sum)) true).2,
          (unstake cfg nowMs db owner (.truthy (.fin amounts.sum)) true).1) := by
  refine ⟨?_, ?_, ?_⟩
  · intro amount returns u hamount h
    exact unstake_moves hrow hp hamount h
  · intro amount returns e h
    exact unstake_error h
  · intro amounts hsome hpos hdust
    by_cases howner : owner = ""
    · subst howner
      have honce : unstake cfg nowMs db "" (.truthy (.fin amounts.sum)) true =
          (db, .error (.required ["owner"])) := if_pos rfl
      rw [unstakeEach_noOwner, honce]
      rfl
    · exact unstakeEach_sum howner hrow hp hsome hpos hdust

def stakedDb (principal rewards : ℚ) : DB :=
  { DB.empty with positions := AList.insert "A" ⟨principal, rewards, 1, 5⟩ ∅ }

theorem unstake_two_parts :
    (unstakeEach defaultConfig 5000 "A" (stakedDb 10 2) [4, 3]).1 = 7 + 7 / 5 := by
  have hrow : (stakedDb 10 2).positions.lookup "A" = some ⟨10, 2, 1, 5⟩ := AList.lookup_insert _
  have hdust : ¬ LeavesDust 10 [4, 3] := by
    rintro ⟨part, others, hall, hpart, hothers, -, hfew⟩
    cases part with
    | nil => exact hpart rfl
    | cons a part =>
      have hhead : (4 : ℚ) = a := (List.cons.inj hall).1
      have hrest : [(3 : ℚ)] = part ++ others := (List.cons.inj hall).2
      subst hhead
      cases part with
      | nil =>
        rw [List.sum_singleton] at hfew
        exact absurd hfew (by unfold dust; norm_num)
      | cons b part =>
        have hnil : [] = part ++ others := (List.cons.inj hrest).2
        exact hothers (List.append_eq_nil_iff.mp hnil.symm).2
  obtain ⟨-, -, hparts⟩ := unstake_well_defined defaultConfig 5000 (stakedDb 10 2) "A" _ hrow
    (show (0 : ℚ) < 10 by norm_num)
  have hpos : ∀ a ∈ [(4 : ℚ), 3], 0 < a := by decide
  rw [hparts [4, 3] (List.cons_ne_nil _ _) hpos hdust]
  decide +kernel

/-- A negative amount is taken as it is, here with a transfer of no base unit; what is left under
the dust bound is deleted, so that two parts can pay less than their sum. -/
theorem unstake_not_exact :
    ((unstake defaultConfig 5000 (stakedDb 1 0) "A" (.truthy (.fin (-4 / 10 ^ 7))) true).2 =
        .ok ⟨-4 / 10 ^ 7, 0, -4 / 10 ^ 7⟩ ∧ toBase defaultConfig (-4 / 10 ^ 7) = 0) ∧
    ((unstake defaultConfig 5000 (stakedDb 1 0) "A" (.truthy (.fin (1 - 1 / 10 ^ 10))) true).2 =
        .ok ⟨1 - 1 / 10 ^ 10, 0, 1 - 1 / 10 ^ 10⟩ ∧
      ((unstake defaultConfig 5000 (stakedDb 1 0) "A"
        (.truthy (.fin (1 - 1 / 10 ^ 10))) true).1.positions.lookup "A") = none) ∧
    (unstakeEach defaultConfig 5000 "A" (stakedDb 1 0) [1 - 1 / 10 ^ 10, 1 / 10 ^ 10]).1 <
      paidBy (unstake defaultConfig 5000 (stakedDb 1 0) "A" (.truthy (.fin 1)) true).2 := by
  refine ⟨⟨?_, ?_⟩, ⟨?_, ?_⟩, ?_⟩
  · decide +kernel
  · decide +kernel
  · decide +kernel
  · decide +kernel
  · decide +kernel

end

end KvasirNet.Gateway
