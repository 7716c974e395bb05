import KvasirNet.MarketSystem
import Mathlib.Tactic.Linarith
import Mathlib.Tactic.Ring

/-! The contributions ledger that the gateway polls. Stage rows and relayed bytes
go to one table under bare names: a stage's node, or the id that a participant
chose for its worker. -/
namespace KvasirNet.Market

/-- A row of the ledger. What was never said is `none`, and no owner is the empty
string. -/
structure Entry where
  units : ℚ
  rows : ℕ
  requests : ℕ
  agent : Option String
  tps : Option ℚ
  owner : Wallet
  backend : Option String
  os : Option String
  accelerator : Option String
  deviceKind : Option String
  deriving DecidableEq

abbrev Ledger := Table String Entry

structure Stage where
  node : String
  agent : String
  deriving DecidableEq, Repr

structure StagedModel where
  first : Stage
  rest : List Stage
  deriving DecidableEq, Repr

def StagedModel.stages (m : StagedModel) : List Stage := m.first :: m.rest

/-- `a || b` where the left side may have been left out. -/
def saidOr (said : String) (known : Option String) : Option String :=
  if said = "" then known else some said

/-- Units that are not positive leave the ledger as it is. -/
def creditRelay (l : Ledger) (nodeId : String) (units : ℚ) (owner : Wallet) (p : Platform) :
    Ledger :=
  if 0 < units then
    let current := (l.lookup nodeId).getD
      { units := 0, rows := 0, requests := 0, agent := none, tps := none, owner := owner,
        backend := some "relay", os := some "mobile", accelerator := some "gpu",
        deviceKind := some "phone" }
    l.insert nodeId
      { current with
        units := current.units + units
        owner := orText owner current.owner
        os := saidOr p.os current.os
        deviceKind := saidOr p.deviceKind current.deviceKind
        accelerator := saidOr p.accelerator current.accelerator
        backend := saidOr p.backend current.backend }
  else l

/-- The request's decode rate, when it had one. -/
def decodeRate (completionTokens elapsedMs : ℕ) : Option ℚ :=
  if 0 < elapsedMs ∧ 0 < completionTokens then some (completionTokens / (elapsedMs / 1000)) else none

def rollTps (tps current : Option ℚ) : Option ℚ :=
  match tps, current with
  | none, _ => current
  | some t, none => some t
  | some t, some c => some (c * (7 / 10) + t * (3 / 10))

def recordRow (unitsPerRow : ℚ) (m : StagedModel) (tps : Option ℚ) (l : Ledger)
    (row : String × ℕ) : Ledger :=
  let stage := (m.stages.find? fun s => s.node == row.1).getD m.first
  let current := (l.lookup row.1).getD
    { units := 0, rows := 0, requests := 0, agent := some stage.agent, tps := none, owner := "",
      backend := none, os := none, accelerator := none, deviceKind := none }
  l.insert row.1
    { current with
      rows := current.rows + row.2
      units := current.units + row.2 * unitsPerRow
      requests := current.requests + 1
      tps := rollTps tps current.tps }

def recordContribution (unitsPerRow : ℚ) (m : StagedModel) (l : Ledger)
    (stageRows : List (String × ℕ)) (completionTokens elapsedMs : ℕ) : Ledger :=
  stageRows.foldl (recordRow unitsPerRow m (decodeRate completionTokens elapsedMs)) l

/-- `Number(x.toFixed(digits))` of a number that is not negative. -/
def toFixed (digits : ℕ) (x : ℚ) : ℚ := jsRound (x * 10 ^ digits) / 10 ^ digits

structure Contribution where
  nodeId : String
  owner : Wallet
  units : ℚ
  nodeName : String
  backend : String
  os : String
  accelerator : String
  deviceKind : String
  perfTps : Option ℚ
  rows : ℕ
  requests : ℕ
  agent : Option String
  deriving DecidableEq

def Entry.report (operatorWallet : Wallet) (node : String) (e : Entry) : Contribution where
  nodeId := node
  owner := orText e.owner operatorWallet
  units := toFixed 6 e.units
  nodeName := node
  backend := e.backend.getD "p4"
  os := e.os.getD "linux"
  accelerator := e.accelerator.getD "gpu"
  deviceKind := e.deviceKind.getD "server"
  perfTps := e.tps.map (toFixed 2)
  rows := e.rows
  requests := e.requests
  agent := e.agent

/-- `GET /api/contributions`. -/
def contributions (operatorWallet : Wallet) (l : Ledger) : List Contribution :=
  l.entries.map fun e => e.2.report operatorWallet e.1

/-! ## Calls -/

inductive Call
  | relay (nodeId : String) (units : ℚ) (owner : Wallet) (platform : Platform)
  | stages (m : StagedModel) (stageRows : List (String × ℕ)) (completionTokens elapsedMs : ℕ)
  deriving DecidableEq

def Call.apply (unitsPerRow : ℚ) (l : Ledger) : Call → Ledger
  | relay nodeId units owner p => creditRelay l nodeId units owner p
  | stages m stageRows tokens ms => recordContribution unitsPerRow m l stageRows tokens ms

def ledgerAfter (unitsPerRow : ℚ) (calls : List Call) : Ledger :=
  calls.foldl (Call.apply unitsPerRow) ∅

def Credit.call (cfg : Config) (c : Credit) : Call :=
  .relay c.nodeId (c.units cfg) c.owner c.platform

def Call.records (node : String) : Call → Bool
  | relay .. => false
  | stages _ stageRows _ _ => stageRows.any fun row => row.1 == node

def Call.relays (node : String) : Call → Bool
  | relay nodeId units _ _ => nodeId == node && decide (0 < units)
  | stages .. => false

/-! ## The rows -/

/-- The units a call adds to a row as relayed. -/
def Call.relayed (node : String) : Call → ℚ
  | relay nodeId units _ _ => if nodeId == node && decide (0 < units) then units else 0
  | stages .. => 0

/-- The row under a name holds its stage rows and what relays added, and no wallet
owns it before a relay is credited. -/
structure Accounts (l : Ledger) (unitsPerRow : ℚ) (node : String) (relayed : ℚ) (relay : Bool) :
    Prop where
  units : ∀ e, l.lookup node = some e → e.units = e.rows * unitsPerRow + relayed
  owner : ∀ e, l.lookup node = some e → relay = false → e.owner = ""
  absent : l.lookup node = none → relayed = 0

variable {unitsPerRow relayed : ℚ} {l : Ledger} {node : String} {relay : Bool}

theorem accounts_insert {e : Entry} (hunits : e.units = e.rows * unitsPerRow + relayed)
    (howner : relay = false → e.owner = "") :
    Accounts (l.insert node e) unitsPerRow node relayed relay := by
  refine ⟨fun e' he => ?_, fun e' he => ?_, fun hnone => ?_⟩
  · rw [AList.lookup_insert] at he
    obtain rfl := Option.some.inj he
    exact hunits
  · rw [AList.lookup_insert] at he
    obtain rfl := Option.some.inj he
    exact howner
  · rw [AList.lookup_insert] at hnone
    cases hnone

theorem Accounts.insert_ne {other : String} {e : Entry} (hx : node ≠ other)
    (h : Accounts l unitsPerRow node relayed relay) :
    Accounts (l.insert other e) unitsPerRow node relayed relay := by
  have hlookup : (l.insert other e).lookup node = l.lookup node := AList.lookup_insert_ne hx
  exact ⟨fun e he => h.units e (hlookup ▸ he), fun e he => h.owner e (hlookup ▸ he),
    fun hnone => h.absent (hlookup ▸ hnone)⟩

theorem Accounts.recordRow {m : StagedModel} {tps : Option ℚ} {row : String × ℕ}
    (h : Accounts l unitsPerRow node relayed relay) :
    Accounts (recordRow unitsPerRow m tps l row) unitsPerRow node relayed relay := by
  by_cases hx : node = row.1
  · subst hx
    apply accounts_insert
    · cases hrow : l.lookup row.1 with
      | none => simp [h.absent hrow]
      | some current =>
        simp only [Option.getD_some, h.units current hrow, Nat.cast_add]
        ring
    · intro hrelay
      cases hrow : l.lookup row.1 with
      | none => rfl
      | some current => exact h.owner current hrow hrelay
  · exact h.insert_ne hx

theorem Accounts.recordContribution {m : StagedModel} {stageRows : List (String × ℕ)}
    {tokens ms : ℕ} (h : Accounts l unitsPerRow node relayed relay) :
    Accounts (recordContribution unitsPerRow m l stageRows tokens ms) unitsPerRow node relayed relay := by
  unfold Market.recordContribution
  induction stageRows generalizing l with
  | nil => exact h
  | cons row rest ih => exact ih h.recordRow

theorem Accounts.creditRelay {nodeId : String} {units : ℚ} {owner : Wallet} {p : Platform}
    (h : Accounts l unitsPerRow node relayed relay) :
    Accounts (creditRelay l nodeId units owner p) unitsPerRow node
      (relayed + (Call.relay nodeId units owner p).relayed node)
      (relay || (Call.relay nodeId units owner p).relays node) := by
  unfold Market.creditRelay
  by_cases hpos : 0 < units
  · rw [if_pos hpos]
    by_cases hx : node = nodeId
    · subst hx
      simp only [Call.relayed, Call.relays, hpos, decide_true, Bool.and_true, beq_self_eq_true,
        if_true, Bool.or_true]
      apply accounts_insert
      · cases hrow : l.lookup node with
        | none => simp [h.absent hrow]
        | some current =>
          simp only [Option.getD_some, h.units current hrow]
          ring
      · intro hrelay
        cases hrelay
    · simp only [Call.relayed, Call.relays, beq_eq_false_iff_ne.mpr (Ne.symm hx), Bool.false_and,
        Bool.false_eq_true, if_false, add_zero, Bool.or_false]
      exact h.insert_ne hx
  · simpa only [if_neg hpos, Call.relayed, Call.relays, hpos, decide_false, Bool.and_false,
      Bool.false_eq_true, if_false, add_zero, Bool.or_false] using h

theorem Accounts.apply (h : Accounts l unitsPerRow node relayed relay) (c : Call) :
    Accounts (c.apply unitsPerRow l) unitsPerRow node (relayed + c.relayed node)
      (relay || c.relays node) := by
  cases c with
  | relay nodeId units owner p => exact h.creditRelay
  | stages m stageRows tokens ms =>
    simp only [Call.relayed, Call.relays, add_zero, Bool.or_false]
    exact h.recordContribution

theorem Accounts.foldl (h : Accounts l unitsPerRow node relayed relay) (calls : List Call) :
    Accounts (calls.foldl (Call.apply unitsPerRow) l) unitsPerRow node
      (relayed + (calls.map (Call.relayed node)).sum) (relay || calls.any (Call.relays node)) := by
  induction calls generalizing l relayed relay with
  | nil => simpa using h
  | cons c calls ih =>
    have htail := ih (h.apply c)
    rw [List.foldl_cons, List.map_cons, List.sum_cons, List.any_cons, ← add_assoc, ← Bool.or_assoc]
    exact htail

/-! ## Presence -/

theorem recordRow_isSome {m : StagedModel} {tps : Option ℚ} {row : String × ℕ} :
    ((recordRow unitsPerRow m tps l row).lookup node).isSome =
      (row.1 == node || (l.lookup node).isSome) := by
  unfold recordRow
  by_cases hx : node = row.1
  · subst hx
    rw [AList.lookup_insert, beq_self_eq_true, Bool.true_or]
    rfl
  · rw [AList.lookup_insert_ne hx, beq_eq_false_iff_ne.mpr (Ne.symm hx), Bool.false_or]

theorem recordContribution_isSome {m : StagedModel} {stageRows : List (String × ℕ)} {tokens ms : ℕ} :
    ((recordContribution unitsPerRow m l stageRows tokens ms).lookup node).isSome =
      (stageRows.any (fun row => row.1 == node) || (l.lookup node).isSome) := by
  unfold recordContribution
  induction stageRows generalizing l with
  | nil => rfl
  | cons row rest ih =>
    rw [List.foldl_cons, ih, recordRow_isSome, List.any_cons]
    cases row.1 == node <;> simp

theorem creditRelay_isSome {nodeId : String} {units : ℚ} {owner : Wallet} {p : Platform}
    (h : (l.lookup node).isSome = true) :
    ((creditRelay l nodeId units owner p).lookup node).isSome = true := by
  unfold creditRelay
  split_ifs
  · by_cases hx : node = nodeId
    · subst hx
      rw [AList.lookup_insert]
      rfl
    · rw [AList.lookup_insert_ne hx, h]
  · exact h

theorem isSome_of_records {calls : List Call} :
    ((l.lookup node).isSome || calls.any (Call.records node)) = true →
      ((calls.foldl (Call.apply unitsPerRow) l).lookup node).isSome = true := by
  induction calls generalizing l with
  | nil =>
    intro h
    simpa using h
  | cons c calls ih =>
    intro h
    rw [List.foldl_cons]
    apply ih
    rw [List.any_cons, ← Bool.or_assoc] at h
    rcases Bool.or_eq_true_iff.mp h with hfirst | hrest
    · rw [Bool.or_eq_true]
      refine Or.inl ?_
      cases c with
      | relay nodeId units owner p =>
        simp only [Call.records, Bool.or_false] at hfirst
        exact creditRelay_isSome hfirst
      | stages m stageRows tokens ms =>
        rw [Call.apply, recordContribution_isSome, Bool.or_comm]
        exact hfirst
    · rw [hrest, Bool.or_true]

theorem relayed_nonneg (node : String) (c : Call) :
    0 ≤ c.relayed node ∧ (c.relayed node = 0 ↔ c.relays node = false) := by
  cases c with
  | stages => simp [Call.relayed, Call.relays]
  | relay nodeId units owner p =>
    simp only [Call.relayed, Call.relays]
    split_ifs with h
    · have hpos : 0 < units := by simpa using (Bool.and_eq_true_iff.mp h).2
      exact ⟨hpos.le, ⟨fun hz => absurd hz hpos.ne', fun hf => by rw [hf] at h; cases h⟩⟩
    · exact ⟨le_rfl, ⟨fun _ => Bool.eq_false_of_not_eq_true h, fun _ => rfl⟩⟩

theorem relayed_eq_zero_iff (node : String) (calls : List Call) :
    (calls.map (Call.relayed node)).sum = 0 ↔ calls.any (Call.relays node) = false := by
  have hnonneg (calls : List Call) : 0 ≤ (calls.map (Call.relayed node)).sum := by
    apply List.sum_nonneg
    intro x hx
    obtain ⟨c, -, rfl⟩ := List.mem_map.mp hx
    exact (relayed_nonneg node c).1
  induction calls with
  | nil => simp
  | cons c calls ih =>
    obtain ⟨hc, hzero⟩ := relayed_nonneg node c
    rw [List.map_cons, List.sum_cons, List.any_cons, Bool.or_eq_false_iff]
    constructor
    · intro h
      have hrest := hnonneg calls
      exact ⟨hzero.mp (by linarith), ih.mp (by linarith)⟩
    · rintro ⟨h₁, h₂⟩
      rw [hzero.mpr h₁, ih.mpr h₂, add_zero]

/-! ## Reports -/

theorem toFixed_of_int {digits : ℕ} {x : ℚ} {n : ℤ} (h : x * 10 ^ digits = n) :
    toFixed digits x = x := by
  have hten : (10 : ℚ) ^ digits ≠ 0 := by positivity
  have hround : jsRound (x * 10 ^ digits) = n := by
    rw [h, jsRound, Int.floor_eq_iff]
    constructor <;> linarith
  rw [toFixed, hround, ← h, mul_div_cancel_right₀ x hten]

theorem stage_row_is_operators (operatorWallet : Wallet) (unitsPerRow : ℚ) (calls : List Call)
    (node : String) (hstage : calls.any (Call.records node) = true) :
    ∃ e, (ledgerAfter unitsPerRow calls).lookup node = some e ∧
      e.report operatorWallet node ∈ contributions operatorWallet (ledgerAfter unitsPerRow calls) ∧
      ((e.report operatorWallet node).owner = operatorWallet ∧ e.units = e.rows * unitsPerRow ↔
        calls.any (Call.relays node) = false) ∧
      (∀ n : ℤ, unitsPerRow * 10 ^ 6 = n → calls.any (Call.relays node) = false →
        (e.report operatorWallet node).units = (e.report operatorWallet node).rows * unitsPerRow) := by
  have hstart : Accounts ∅ unitsPerRow node 0 false := by
    constructor
    · intro e he
      cases he
    · intro e he
      cases he
    · intro
      rfl
  have hrow := hstart.foldl calls
  rw [zero_add, Bool.false_or] at hrow
  have hpresent : ((ledgerAfter unitsPerRow calls).lookup node).isSome = true := by
    apply isSome_of_records
    rw [hstage, Bool.or_true]
  obtain ⟨e, he⟩ := Option.isSome_iff_exists.mp hpresent
  have hunits := hrow.units e he
  have hown := hrow.owner e he
  have hexact : e.units = e.rows * unitsPerRow ↔ calls.any (Call.relays node) = false := by
    rw [← relayed_eq_zero_iff, hunits]
    constructor <;> intro h <;> linarith
  refine ⟨e, he, ?_, ?_, ?_⟩
  · exact List.mem_map.mpr ⟨⟨node, e⟩, (Table.mem_entries_iff _ node e).mpr he, rfl⟩
  · refine ⟨fun h => hexact.mp h.2, fun hnone => ⟨?_, hexact.mpr hnone⟩⟩
    simp only [Entry.report, hown hnone, orText, if_true]
  · intro n hn hnone
    have hint : e.units * 10 ^ 6 = ((e.rows * n : ℤ) : ℚ) := by
      push_cast
      rw [hexact.mpr hnone, mul_assoc, hn]
    calc (e.report operatorWallet node).units = e.units := toFixed_of_int hint
      _ = (e.report operatorWallet node).rows * unitsPerRow := hexact.mpr hnone

def sampleStages : StagedModel := ⟨⟨"n1", "agent-a"⟩, [⟨"n2", "agent-b"⟩]⟩

/-- A stage and a participant's worker under different names. -/
def apartNames : List Call :=
  [.stages sampleStages [("n1", 100), ("n2", 100)] 20 1000,
    Credit.call ⟨[], 2, 1⟩ ⟨"a", "w1", 5000000, "V", "m", Platform.unsaid⟩]

theorem stage_row_is_operators_apart :
    ∃ e, (ledgerAfter (1 / 1000) apartNames).lookup "n1" = some e ∧
      (e.report "OP" "n1").owner = "OP" ∧
      (e.report "OP" "n1").units = (e.report "OP" "n1").rows * (1 / 1000) := by
  obtain ⟨e, he, -, hiff, hunits⟩ :=
    stage_row_is_operators "OP" (1 / 1000) apartNames "n1" (by decide +kernel)
  have hnone : apartNames.any (Call.relays "n1") = false := by decide +kernel
  exact ⟨e, he, (hiff.mpr hnone).1, hunits 1000 (by norm_num) hnone⟩

/-- A participant names its worker after a stage. -/
def sharedName : List Call :=
  [.stages sampleStages [("n1", 100), ("n2", 100)] 20 1000,
    Credit.call ⟨[], 2, 1⟩ ⟨"a", "n1", 5000000, "V", "m", Platform.unsaid⟩]

theorem shared_name_takes_stage_row :
    ∃ e, (ledgerAfter (1 / 1000) sharedName).lookup "n1" = some e ∧
      sharedName.any (Call.records "n1") = true ∧ (e.report "OP" "n1").owner = "V" ∧
      (e.report "OP" "n1").units = 51 / 10 ∧ (e.report "OP" "n1").rows = 100 ∧
      ¬ ((e.report "OP" "n1").owner = "OP" ∧
        (e.report "OP" "n1").units = (e.report "OP" "n1").rows * (1 / 1000)) := by
  have hlookup : (ledgerAfter (1 / 1000) sharedName).lookup "n1" =
      some ⟨51 / 10, 100, 1, some "agent-a", some 20, "V", none, none, none, none⟩ := by
    decide +kernel
  exact ⟨_, hlookup, by decide +kernel, by decide +kernel, by decide +kernel, rfl,
    by decide +kernel⟩

end KvasirNet.Market
