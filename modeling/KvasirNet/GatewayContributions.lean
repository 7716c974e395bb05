import KvasirNet.GatewayBalances

/-! The contribution poll against a bridge counter. The bridge counts the units
of a node; the gateway keeps the count it has credited in the node's row and
credits the difference at every poll. -/
namespace KvasirNet.Gateway

variable {cfg : Config}

/-- The id under which the poller stores a bridge's node. -/
def inferNodeId (bridgeKey node : String) : NodeId := "infer-" ++ bridgeKey ++ "-" ++ node

/-- A claim served in one go: the database it saves and what it pays, or
nothing when it is refused. -/
def claimNow (cfg : Config) (nowMs : ℕ) (db : DB) (owner : Wallet) : Option (DB × ℚ) :=
  match (Request.claim owner).begin cfg nowMs db with
  | .wait (.paying db' p _) =>
    match p.settled db' true, p.amount cfg with
    | .save saved _ _, some paid => some (saved, paid)
    | _, _ => none
  | _ => none

theorem claimNow_some {nowMs : ℕ} {db db' : DB} {owner : Wallet} {paid : ℚ}
    (h : claimNow cfg nowMs db owner = some (db', paid)) :
    db' = claimDb db owner ∧ paid = rewardsHeld db owner := by
  unfold claimNow at h
  simp only [Request.begin, refuse] at h
  by_cases hnone : ownerPending owner db.nodes ≤ 1 / 10 ^ 9
  · rw [if_pos hnone] at h
    cases h
  · by_cases hmin : ownerPending owner db.nodes < cfg.minClaim
    · rw [if_neg hnone, if_pos hmin] at h
      cases h
    · rw [if_neg hnone, if_neg hmin] at h
      cases h
      exact ⟨rfl, rfl⟩

/-- Units already credited for a node: its row's baseline, none without a row. -/
def creditedAt (d : DB) (id : NodeId) : ℚ := (d.nodes.lookup id).elim 0 (·.creditedUnits)

/-- The raw units a poll hands to `creditContribution`. -/
def polledUnits (d : DB) (r : InferenceReport) : ℚ := pollDelta r.units (creditedAt d r.nodeId)

structure BridgeRun where
  disk : DB
  counter : ℚ
  worked : ℚ
  credited : ℚ

inductive BridgeAction
  | work (units : ℚ)
  | restart
  | poll (r : InferenceReport) (nowMs : ℕ)
  | claim (owner : Wallet) (nowMs : ℕ)
  | remove (owner : Wallet) (nowMs : ℕ)

/-- One event in the life of a bridge's node `id`. A poll reports the counter. -/
def bridgeStep (cfg : Config) (id : NodeId) (s : BridgeRun) : BridgeAction → Option BridgeRun
  | .work units =>
    if 0 ≤ units then some { s with counter := s.counter + units, worked := s.worked + units }
    else none
  | .restart => some { s with counter := 0 }
  | .poll r nowMs =>
    let report := { r with nodeId := id, units := s.counter }
    match (SyncRequest.inferenceReport report).apply cfg nowMs (loadDB s.disk) with
    | .ok out =>
      some { s with
        disk := out.db.getD s.disk
        credited := s.credited + polledUnits (loadDB s.disk) report }
    | .error _ => some s
  | .claim owner nowMs =>
    match claimNow cfg nowMs (loadDB s.disk) owner with
    | some (db, _) => some { s with disk := db }
    | none => some s
  | .remove owner nowMs =>
    match (SyncRequest.removeNode id owner).apply cfg nowMs (loadDB s.disk) with
    | .ok out => some { s with disk := out.db.getD s.disk }
    | .error _ => some s

/-- The node is removed only when the counter is below its baseline, or the
baseline is zero. -/
def removesUncredited (id : NodeId) (s : BridgeRun) : BridgeAction → Bool
  | .remove owner _ =>
    (s.disk.nodes.lookup id).all fun n =>
      n.owner != owner || decide (s.counter < n.creditedUnits) || decide (n.creditedUnits = 0)
  | _ => true

theorem take_inferNodeId (key node : String) :
    (inferNodeId key node).toList.take 6 = "infer-".toList := by
  rw [inferNodeId, String.append_assoc, String.append_assoc, String.toList_append,
    List.take_append_of_le_length (by decide)]
  decide

theorem renamedHub_inferNodeId (key node : String) : renamedHub (inferNodeId key node) = none := by
  unfold renamedHub
  rw [if_neg]
  intro hprefix
  have htake := congrArg (List.take 6) (List.prefix_iff_eq_take.mp hprefix)
  rw [List.take_take, show min 6 hubPrefix.length = 6 by decide, take_inferNodeId] at htake
  exact absurd htake (by decide)

theorem renamedHub_ne_inferNodeId (h : NodeId) (key node : String) :
    renamedHub h ≠ some (inferNodeId key node) := by
  intro hb
  unfold renamedHub at hb
  split_ifs at hb
  have htake := congrArg (fun id : NodeId => id.toList.take 6) (Option.some.inj hb)
  rw [take_inferNodeId, String.toList_ofList, List.take_append_of_le_length (by decide)] at htake
  exact absurd htake (by decide)

theorem lookup_loadDB_inferNode (d : DB) (key node : String) :
    (loadDB d).nodes.lookup (inferNodeId key node) =
      (d.nodes.lookup (inferNodeId key node)).map NodeRow.migrate := by
  cases hn : d.nodes.lookup (inferNodeId key node) with
  | none =>
    exact lookup_loadDB_free hn fun id hid => absurd hid (renamedHub_ne_inferNodeId id key node)
  | some n =>
    exact lookup_loadDB_stay hn fun b hb => by simp [renamedHub_inferNodeId] at hb

theorem creditedAt_loadDB (d : DB) (key node : String) :
    creditedAt (loadDB d) (inferNodeId key node) = creditedAt d (inferNodeId key node) := by
  simp only [creditedAt, lookup_loadDB_inferNode]
  cases d.nodes.lookup (inferNodeId key node) <;> rfl

theorem creditedAt_claimDb (d : DB) (owner : Wallet) (id : NodeId) :
    creditedAt (claimDb d owner) id = creditedAt d id := by
  simp only [creditedAt, claimDb, claimNodes, Table.lookup_mapRows]
  cases d.nodes.lookup id with
  | none => rfl
  | some n =>
    simp only [Option.map_some, Option.elim_some, NodeRow.claimed]
    split_ifs <;> rfl

theorem inferenceRow_creditedUnits (r : InferenceReport) (now : ℕ) (existing : Option NodeRow) :
    (inferenceRow cfg r now existing).creditedUnits = r.units := rfl

/-- What is credited plus what the next poll would credit is work that was done. -/
structure BridgeRun.Covered (id : NodeId) (s : BridgeRun) : Prop where
  counter_nonneg : 0 ≤ s.counter
  baseline_nonneg : 0 ≤ creditedAt s.disk id
  credited_le : s.credited + pollDelta s.counter (creditedAt s.disk id) ≤ s.worked

theorem pollDelta_of_lt {c b : ℚ} (hc : 0 ≤ c) (h : c < b) : pollDelta c b = c := by
  simp [pollDelta, h, hc]

theorem pollDelta_of_le {c b : ℚ} (h : b ≤ c) : pollDelta c b = c - b := by
  simp [pollDelta, not_lt.mpr h, h]

theorem pollDelta_add_le {c b x : ℚ} (hc : 0 ≤ c) (hx : 0 ≤ x) :
    pollDelta (c + x) b ≤ pollDelta c b + x := by
  rcases lt_or_ge c b with h | h
  · rw [pollDelta_of_lt hc h]
    rcases lt_or_ge (c + x) b with h' | h'
    · rw [pollDelta_of_lt (by linarith) h']
    · rw [pollDelta_of_le h']
      linarith
  · rw [pollDelta_of_le h, pollDelta_of_le (by linarith)]
    linarith

theorem pollDelta_of_removesUncredited {key node : String} {s : BridgeRun} {owner : Wallet}
    {nowMs : ℕ} {n : NodeRow} (hc : 0 ≤ s.counter)
    (hr : removesUncredited (inferNodeId key node) s (.remove owner nowMs) = true)
    (row : (loadDB s.disk).nodes.lookup (inferNodeId key node) = some n) (owned : n.owner = owner) :
    pollDelta s.counter (creditedAt s.disk (inferNodeId key node)) = s.counter := by
  rw [lookup_loadDB_inferNode, Option.map_eq_some_iff] at row
  obtain ⟨m, hm, rfl⟩ := row
  have hsafe : s.counter < m.creditedUnits ∨ m.creditedUnits = 0 := by
    have howner : m.owner = owner := owned
    simpa [removesUncredited, hm, howner] using hr
  simp only [creditedAt, hm, Option.elim_some]
  rcases hsafe with hlt | hzero
  · exact pollDelta_of_lt hc hlt
  · rw [hzero, pollDelta_of_le hc, sub_zero]

theorem bridgeStep_covered {key node : String} {s s' : BridgeRun} {a : BridgeAction}
    (hr : removesUncredited (inferNodeId key node) s a = true) (hs : s.Covered (inferNodeId key node))
    (h : bridgeStep cfg (inferNodeId key node) s a = some s') :
    s'.Covered (inferNodeId key node) := by
  obtain ⟨hc, hb, hle⟩ := hs
  cases a with
  | work units =>
    simp only [bridgeStep] at h
    split_ifs at h with hu
    cases h
    refine ⟨add_nonneg hc hu, hb, ?_⟩
    have hdelta : pollDelta (s.counter + units) (creditedAt s.disk (inferNodeId key node)) ≤
        pollDelta s.counter (creditedAt s.disk (inferNodeId key node)) + units :=
      pollDelta_add_le hc hu
    dsimp only
    linarith
  | restart =>
    cases h
    refine ⟨le_rfl, hb, ?_⟩
    -- a counter at zero has nothing left to credit
    have hzero : pollDelta 0 (creditedAt s.disk (inferNodeId key node)) = 0 := by
      rcases hb.lt_or_eq with hlt | heq
      · exact pollDelta_of_lt le_rfl hlt
      · rw [← heq]
        simp [pollDelta]
    have hnonneg : 0 ≤ pollDelta s.counter (creditedAt s.disk (inferNodeId key node)) :=
      le_max_left _ _
    dsimp only
    linarith
  | poll r nowMs =>
    cases h
    -- the poll credits the difference and moves the baseline up to the counter
    have hrow : creditedAt { loadDB s.disk with
        nodes := (loadDB s.disk).nodes.insert (inferNodeId key node) (inferenceRow cfg
          { r with nodeId := inferNodeId key node, units := s.counter } (nowMs / 1000)
          ((loadDB s.disk).nodes.lookup (inferNodeId key node))) } (inferNodeId key node) =
        s.counter := by
      simp [creditedAt, inferenceRow_creditedUnits]
    refine ⟨hc, hrow.symm ▸ hc, ?_⟩
    have hdone : pollDelta s.counter s.counter = 0 := by rw [pollDelta_of_le le_rfl, sub_self]
    simp only [storeNode, Option.getD_some, hrow, hdone, polledUnits, creditedAt_loadDB]
    linarith
  | claim owner nowMs =>
    simp only [bridgeStep] at h
    split at h
    · rename_i db paid hclaim
      cases h
      obtain ⟨rfl, -⟩ := claimNow_some hclaim
      have hsame : creditedAt (claimDb (loadDB s.disk) owner) (inferNodeId key node) =
          creditedAt s.disk (inferNodeId key node) := by
        rw [creditedAt_claimDb, creditedAt_loadDB]
      exact ⟨hc, hsame.symm ▸ hb, by simpa only [hsame] using hle⟩
    · cases h
      exact ⟨hc, hb, hle⟩
  | remove owner nowMs =>
    -- the baseline goes with the row, so the next poll counts from zero
    simp only [bridgeStep] at h
    split at h
    · rename_i out hout
      cases h
      cases hdb : out.db with
      | none => exact ⟨hc, hb, hle⟩
      | some db =>
        have hw := apply_writes hout hdb
        generalize out.events = evs at hw
        cases hw with
        | removeNode _ _ n row owned =>
          have hgone : creditedAt { loadDB s.disk with
              nodes := (loadDB s.disk).nodes.erase (inferNodeId key node) } (inferNodeId key node) =
              0 := by
            simp [creditedAt]
          refine ⟨hc, hgone.symm ▸ le_rfl, ?_⟩
          have hdelta := pollDelta_of_removesUncredited hc hr row owned
          simp only [Option.getD_some, hgone, pollDelta_of_le hc, sub_zero]
          linarith
    · cases h
      exact ⟨hc, hb, hle⟩

/-- The bridge has just started and has counted nothing; the file may know the
node from before. -/
structure BridgeRun.Initial (id : NodeId) (s : BridgeRun) : Prop where
  counter_zero : s.counter = 0
  worked_zero : s.worked = 0
  credited_zero : s.credited = 0
  baseline_nonneg : 0 ≤ creditedAt s.disk id

theorem bridge_work_credited_once (cfg : Config) (key node : String) (s₀ s : BridgeRun)
    (as : List BridgeAction) (h₀ : s₀.Initial (inferNodeId key node))
    (hsafe : Along (bridgeStep cfg (inferNodeId key node))
      (fun s a => removesUncredited (inferNodeId key node) s a = true) s₀ as)
    (hrun : runs (bridgeStep cfg (inferNodeId key node)) s₀ as = some s) : s.credited ≤ s.worked := by
  have hstart : s₀.Covered (inferNodeId key node) := by
    refine ⟨h₀.counter_zero.ge, h₀.baseline_nonneg, ?_⟩
    rw [h₀.counter_zero, h₀.worked_zero, h₀.credited_zero]
    rcases h₀.baseline_nonneg.lt_or_eq with hlt | heq
    · simp [pollDelta_of_lt le_rfl hlt]
    · simp [← heq, pollDelta]
  have hend := runs_invariant (I := fun s => s.Covered (inferNodeId key node))
    (fun s a s' hp hi h => bridgeStep_covered hp hi h) hsafe hrun hstart
  have hnonneg : 0 ≤ pollDelta s.counter (creditedAt s.disk (inferNodeId key node)) := le_max_left _ _
  linarith [hend.credited_le]

def sampleReport : InferenceReport := ⟨"", "A", none, 0, none, none, none, none, none⟩

def bridgeStart : BridgeRun := ⟨DB.empty, 0, 0, 0⟩

/-- Work, a poll, a restart of the bridge, more work, the removal of the node
and another poll. -/
def restartRun : List BridgeAction :=
  [.work 10, .poll sampleReport 1700000000000, .restart, .work 4, .remove "A" 1700000060000,
    .poll sampleReport 1700000060000]

theorem bridge_work_credited_once_restart :
    ∃ s, runs (bridgeStep defaultConfig (inferNodeId "b" "n")) bridgeStart restartRun = some s ∧
      s.credited = 14 ∧ s.worked = 14 ∧ s.credited ≤ s.worked := by
  obtain ⟨s, hs, hsum⟩ := runs_exists (bridgeStep defaultConfig (inferNodeId "b" "n")) bridgeStart
    restartRun (fun s => decide (s.credited = 14 ∧ s.worked = 14)) (by decide +kernel)
  obtain ⟨hcredited, hworked⟩ := of_decide_eq_true hsum
  exact ⟨s, hs, hcredited, hworked,
    bridge_work_credited_once _ "b" "n" bridgeStart s restartRun ⟨rfl, rfl, rfl, le_rfl⟩
      (by decide +kernel) hs⟩

/-- The owner removes the node after a poll; the next poll finds no baseline. -/
def removedRun : List BridgeAction :=
  [.work 10, .poll sampleReport 1700000000000, .remove "A" 1700000060000,
    .poll sampleReport 1700000060000]

theorem removed_node_credited_twice :
    ∃ s, runs (bridgeStep defaultConfig (inferNodeId "b" "n")) bridgeStart removedRun = some s ∧
      s.credited = 20 ∧ s.worked = 10 ∧ ¬ s.credited ≤ s.worked := by
  obtain ⟨s, hs, hsum⟩ := runs_exists (bridgeStep defaultConfig (inferNodeId "b" "n")) bridgeStart
    removedRun (fun s => decide (s.credited = 20 ∧ s.worked = 10)) (by decide +kernel)
  obtain ⟨hcredited, hworked⟩ := of_decide_eq_true hsum
  refine ⟨s, hs, hcredited, hworked, ?_⟩
  rw [hcredited, hworked]
  norm_num

end KvasirNet.Gateway
