import KvasirNet.GatewayContributions

/-! Where pending rewards go, request by request. A reward stays with the wallet
it was credited to until a claim pays it out, a trusted report hands the node
to another wallet, or the owner removes the node. -/
namespace KvasirNet.Gateway

variable {cfg : Config}

/-- The requests that write node rows: untrusted registrations and heartbeats,
removals by the owner, trusted contributions and reports, and claims. -/
inductive NodeAction
  | register (r : RegisterRequest) (balance : ℚ)
  | heartbeat (id : NodeId) (hostsGateway hostsBridge : Option Bool)
  | remove (id : NodeId) (owner : Wallet)
  | contribution (id : NodeId) (units : ℚ)
  | infraReport (r : InfraReport)
  | inferenceReport (r : InferenceReport)
  | claim (owner : Wallet)

/-- Who wrote a row: a trusted report, or a request that may name a wallet. -/
inductive Source
  | report
  | request (wallet : Option Wallet)
  deriving DecidableEq

inductive RewardEvent
  | credited (owner : Wallet) (amount : ℚ)
  | repointed (source : Source) (former owner : Wallet) (amount : ℚ)
  | removed (source : Source) (owner : Wallet) (amount : ℚ)
  | claimed (owner : Wallet) (amount : ℚ)
  deriving DecidableEq

structure RewardRun where
  disk : DB
  log : List RewardEvent

/-- What the change of one row does to rewards: the row's owner is credited the
difference, and a balance that was there goes to the new owner. -/
def rowEvents (source : Source) : Option NodeRow → Option NodeRow → List RewardEvent
  | none, none => []
  | none, some n => [.credited n.owner n.pendingRewards]
  | some m, some n =>
    .credited n.owner (n.pendingRewards - m.pendingRewards) ::
      if m.owner = n.owner then [] else [.repointed source m.owner n.owner m.pendingRewards]
  | some m, none => [.removed source m.owner m.pendingRewards]

/-- Serve a request that writes the row `id`. -/
def RewardRun.serve (cfg : Config) (s : RewardRun) (r : SyncRequest) (id : NodeId) (source : Source)
    (nowMs : ℕ) : RewardRun :=
  match r.apply cfg nowMs (loadDB s.disk) with
  | .ok ⟨some db, _⟩ =>
    ⟨db, rowEvents source ((loadDB s.disk).nodes.lookup id) (db.nodes.lookup id) ++ s.log⟩
  | _ => s

/-- One request, served in one go at the time it carries. -/
def rewardStep (cfg : Config) (s : RewardRun) : NodeAction × ℕ → Option RewardRun
  | (.register r balance, now) => some (s.serve cfg (.register r false balance) r.nodeId (.request (some r.owner)) now)
  | (.heartbeat id g b, now) => some (s.serve cfg (.heartbeat id g b false) id (.request none) now)
  | (.remove id owner, now) => some (s.serve cfg (.removeNode id owner) id (.request (some owner)) now)
  | (.contribution id units, now) => some (s.serve cfg (.contribution id units true) id .report now)
  | (.infraReport r, now) => some (s.serve cfg (.infraReport r) r.nodeId .report now)
  | (.inferenceReport r, now) => some (s.serve cfg (.inferenceReport r) r.nodeId .report now)
  | (.claim owner, now) =>
    match claimNow cfg now (loadDB s.disk) owner with
    | some (db, paid) => some ⟨db, .claimed owner paid :: s.log⟩
    | none => some s

def creditedTo (o : Wallet) : RewardEvent → ℚ
  | .credited o' x => if o' = o then x else 0
  | _ => 0

def repointedTo (o : Wallet) : RewardEvent → ℚ
  | .repointed _ _ o' x => if o' = o then x else 0
  | _ => 0

def repointedFrom (o : Wallet) : RewardEvent → ℚ
  | .repointed _ o' _ x => if o' = o then x else 0
  | _ => 0

def removedFrom (o : Wallet) : RewardEvent → ℚ
  | .removed _ o' x => if o' = o then x else 0
  | _ => 0

def claimedBy (o : Wallet) : RewardEvent → ℚ
  | .claimed o' x => if o' = o then x else 0
  | _ => 0

/-- The account of a wallet: what it holds and where the rest went, against what
it started with and received. -/
def Accounted (o : Wallet) (d₀ : DB) (s : RewardRun) : Prop :=
  rewardsHeld s.disk o + tally (claimedBy o) s.log + tally (repointedFrom o) s.log +
      tally (removedFrom o) s.log =
    rewardsHeld d₀ o + tally (creditedTo o) s.log + tally (repointedTo o) s.log

def rowShare (o : Wallet) (row : Option NodeRow) : ℚ :=
  row.elim 0 fun n => if n.owner = o then n.pendingRewards else 0

theorem rowEvents_accounted (o : Wallet) (source : Source) (before after : Option NodeRow) :
    rowShare o after + tally (claimedBy o) (rowEvents source before after) +
        tally (repointedFrom o) (rowEvents source before after) +
        tally (removedFrom o) (rowEvents source before after) =
      rowShare o before + tally (creditedTo o) (rowEvents source before after) +
        tally (repointedTo o) (rowEvents source before after) := by
  cases before with
  | none =>
    cases after with
    | none => simp [rowEvents, rowShare]
    | some n =>
      simp [rowEvents, rowShare, claimedBy, repointedFrom, removedFrom, creditedTo, repointedTo]
  | some m =>
    cases after with
    | none =>
      simp [rowEvents, rowShare, claimedBy, repointedFrom, removedFrom, creditedTo, repointedTo]
    | some n =>
      by_cases hmn : m.owner = n.owner
      · by_cases hn : n.owner = o <;>
          simp [rowEvents, rowShare, hmn, hn, claimedBy, repointedFrom, removedFrom, creditedTo,
            repointedTo]
      · by_cases hm : m.owner = o
        · have hn : ¬ n.owner = o := fun h => hmn (hm.trans h.symm)
          have hon : ¬ o = n.owner := fun h => hn h.symm
          simp [rowEvents, rowShare, hm, hn, hon, claimedBy, repointedFrom, removedFrom, creditedTo,
            repointedTo]
        · by_cases hn : n.owner = o <;>
            simp [rowEvents, rowShare, hmn, hm, hn, claimedBy, repointedFrom, removedFrom,
              creditedTo, repointedTo]

/-- Between the two databases only the row `id` matters to any wallet's rewards. -/
def ChangesRow (d db : DB) (id : NodeId) : Prop :=
  ∀ o, rewardsHeld db o + rowShare o (d.nodes.lookup id) =
    rewardsHeld d o + rowShare o (db.nodes.lookup id)

theorem changesRow_insert (d : DB) (id : NodeId) (n : NodeRow) :
    ChangesRow d { d with nodes := d.nodes.insert id n } id := by
  intro o
  have h := Table.total_insert_add
    (fun (_ : NodeId) (m : NodeRow) => if m.owner = o then m.pendingRewards else 0) d.nodes id n
  simp only [AList.lookup_insert]
  exact h

theorem changesRow_erase (d : DB) (id : NodeId) :
    ChangesRow d { d with nodes := d.nodes.erase id } id := by
  intro o
  have h := rewardsHeld_erase d id o
  simp only [AList.lookup_erase, rowShare, Option.elim_none, add_zero]
  exact h

/-- Rewards leave a wallet only by a trusted report that re-points the node, or
with a node that its owner asked to remove. -/
structure Guarded (log : List RewardEvent) : Prop where
  repointed : ∀ w former owner x, former ≠ "" →
    RewardEvent.repointed (.request w) former owner x ∈ log → x = 0
  removed : ∀ source owner x, RewardEvent.removed source owner x ∈ log →
    source = .request (some owner)

theorem Guarded.append {evs log : List RewardEvent} (h : Guarded evs) (h' : Guarded log) :
    Guarded (evs ++ log) := by
  refine ⟨fun w f o x hf hmem => ?_, fun source o x hmem => ?_⟩
  · rcases List.mem_append.mp hmem with hmem | hmem
    · exact h.repointed w f o x hf hmem
    · exact h'.repointed w f o x hf hmem
  · rcases List.mem_append.mp hmem with hmem | hmem
    · exact h.removed source o x hmem
    · exact h'.removed source o x hmem

/-- What a served request keeps: no negative balance, every wallet's account,
and the rules by which rewards leave a wallet. -/
structure RewardRun.Sound (d₀ : DB) (s : RewardRun) : Prop where
  nonNeg : s.disk.NonNeg
  accounted : ∀ o, Accounted o d₀ s
  guarded : Guarded s.log

theorem serve_sound {d₀ : DB} {s : RewardRun} {r : SyncRequest} {id : NodeId} {source : Source}
    {now : ℕ} (hs : s.Sound d₀)
    (hrow : ∀ db evs, Writes cfg now (loadDB s.disk) r db evs → ChangesRow (loadDB s.disk) db id)
    (hmove : ∀ db evs, Writes cfg now (loadDB s.disk) r db evs →
      Guarded (rowEvents source ((loadDB s.disk).nodes.lookup id) (db.nodes.lookup id))) :
    (s.serve cfg r id source now).Sound d₀ := by
  unfold RewardRun.serve
  split
  · rename_i db evs hout
    have hw : Writes cfg now (loadDB s.disk) r db evs := apply_writes hout rfl
    refine ⟨apply_nonNeg (loadDB_nonNeg hs.nonNeg) hout rfl, fun o => ?_,
      (hmove db evs hw).append hs.guarded⟩
    -- the upgrade on load moves nothing, the request moves one row
    have hheld : rewardsHeld (loadDB s.disk) o = rewardsHeld s.disk o := ownerPending_loadDB o s.disk
    have hold := hs.accounted o
    have hchange := hrow db evs hw o
    have hevents := rowEvents_accounted o source ((loadDB s.disk).nodes.lookup id)
      (db.nodes.lookup id)
    unfold Accounted at hold ⊢
    simp only [tally_append]
    linarith
  · exact hs

/-- The change of a row follows the rules when a report makes it, or when the row
stays and either keeps its owner or holds nothing, or when its owner removes it. -/
theorem guarded_rowEvents {source : Source} {before after : Option NodeRow}
    (hstay : ∀ m n, before = some m → after = some n →
      source = .report ∨ m.owner = n.owner ∨ m.owner = "" ∨ m.pendingRewards = 0)
    (hgone : ∀ m, before = some m → after = none → source = .request (some m.owner)) :
    Guarded (rowEvents source before after) := by
  cases before with
  | none => cases after <;> exact ⟨by simp [rowEvents], by simp [rowEvents]⟩
  | some m =>
    cases after with
    | none =>
      refine ⟨by simp [rowEvents], fun source' o x hmem => ?_⟩
      simp only [rowEvents, List.mem_singleton, RewardEvent.removed.injEq] at hmem
      obtain ⟨rfl, rfl, rfl⟩ := hmem
      exact hgone m rfl rfl
    | some n =>
      by_cases hmn : m.owner = n.owner
      · exact ⟨by simp [rowEvents, hmn], by simp [rowEvents, hmn]⟩
      · refine ⟨fun w f o x hf hmem => ?_, by simp [rowEvents, hmn]⟩
        simp only [rowEvents, hmn, ↓reduceIte, List.mem_cons, reduceCtorEq, false_or,
          RewardEvent.repointed.injEq, List.not_mem_nil, or_false] at hmem
        obtain ⟨hsource, rfl, rfl, rfl⟩ := hmem
        rcases hstay m n rfl rfl with h | h | h | h
        · cases hsource.trans h
        · exact absurd h hmn
        · exact absurd h hf
        · exact h

theorem registerRow_unmoved {r : RegisterRequest} {balance : ℚ} {now : ℕ} {m n : NodeRow}
    (hm : 0 ≤ m.pendingRewards) (h : registerRow cfg r false balance now (some m) = .ok n) :
    m.owner = n.owner ∨ m.owner = "" ∨ m.pendingRewards = 0 := by
  have howner := registerRow_owner h
  unfold registerRow at h
  split_ifs at h with _ _ hheld
  simp only [Option.any_some, Bool.not_false, Bool.and_true, Bool.and_eq_true, bne_iff_ne, ne_eq,
    NodeRow.holdsValue, Bool.or_eq_true, decide_eq_true_eq] at hheld
  by_cases hown : m.owner = r.owner
  · exact Or.inl (hown.trans howner.symm)
  · by_cases hempty : m.owner = ""
    · exact Or.inr (Or.inl hempty)
    · refine Or.inr (Or.inr (le_antisymm (not_lt.mp fun hpos => ?_) hm))
      exact hheld ⟨⟨hempty, hown⟩, Or.inl (Or.inl hpos)⟩

/-- A request that stores a row under `id` is sound when a report makes it, or when
the row that was there keeps its owner or holds nothing. -/
theorem serve_stored {d₀ : DB} {s : RewardRun} {r : SyncRequest} {id : NodeId} {source : Source}
    {now : ℕ} (hs : s.Sound d₀)
    (hstore : ∀ db evs, Writes cfg now (loadDB s.disk) r db evs →
      ∃ n, db = { loadDB s.disk with nodes := (loadDB s.disk).nodes.insert id n } ∧
        ∀ m, (loadDB s.disk).nodes.lookup id = some m →
          source = .report ∨ m.owner = n.owner ∨ m.owner = "" ∨ m.pendingRewards = 0) :
    (s.serve cfg r id source now).Sound d₀ := by
  refine serve_sound hs (fun db evs hw => ?_) fun db evs hw => ?_
  · obtain ⟨n, rfl, -⟩ := hstore db evs hw
    exact changesRow_insert _ _ _
  · obtain ⟨n, rfl, hstay⟩ := hstore db evs hw
    have hstored : ({ loadDB s.disk with nodes := (loadDB s.disk).nodes.insert id n } :
        DB).nodes.lookup id = some n := AList.lookup_insert _
    rw [hstored]
    refine guarded_rowEvents (fun m n' hm hn' => ?_) fun m _ hn' => by cases hn'
    cases hn'
    exact hstay m hm

theorem rewardStep_sound {d₀ : DB} {s s' : RewardRun} {a : NodeAction × ℕ} (hs : s.Sound d₀)
    (h : rewardStep cfg s a = some s') : s'.Sound d₀ := by
  obtain ⟨a, now⟩ := a
  have hload := loadDB_nonNeg hs.nonNeg
  cases a with
  | register r balance =>
    cases h
    refine serve_stored hs fun db evs hw => ?_
    cases hw with
    | register _ _ _ n row =>
      refine ⟨n, rfl, fun m hm => Or.inr ?_⟩
      rw [hm] at row
      exact registerRow_unmoved (hload.nodes _ m hm) row
  | heartbeat id g b =>
    cases h
    refine serve_stored hs fun db evs hw => ?_
    cases hw with
    | heartbeat _ _ _ _ n row =>
      refine ⟨_, rfl, fun m hm => Or.inr (Or.inl ?_)⟩
      cases row.symm.trans hm
      simp
  | remove id owner =>
    cases h
    refine serve_sound hs (fun db evs hw => ?_) fun db evs hw => ?_
    · cases hw with
      | removeNode _ _ n row owned => exact changesRow_erase _ _
    · cases hw with
      | removeNode _ _ n row owned =>
        have hgone : ({ loadDB s.disk with nodes := (loadDB s.disk).nodes.erase id } :
            DB).nodes.lookup id = none := AList.lookup_erase _ _
        rw [hgone, row]
        refine guarded_rowEvents (fun m n' _ hn' => by cases hn') fun m hm _ => ?_
        cases hm
        rw [owned]
  -- a trusted report may hand the row to any wallet
  | contribution id units =>
    cases h
    refine serve_stored hs fun db evs hw => ?_
    cases hw with
    | contribution _ _ n row => exact ⟨_, rfl, fun _ _ => Or.inl rfl⟩
  | infraReport r =>
    cases h
    refine serve_stored hs fun db evs hw => ?_
    cases hw with
    | infraReport _ => exact ⟨_, rfl, fun _ _ => Or.inl rfl⟩
  | inferenceReport r =>
    cases h
    refine serve_stored hs fun db evs hw => ?_
    cases hw with
    | inferenceReport _ => exact ⟨_, rfl, fun _ _ => Or.inl rfl⟩
  | claim owner =>
    simp only [rewardStep] at h
    split at h
    · rename_i db paid hclaim
      cases h
      obtain ⟨rfl, rfl⟩ := claimNow_some hclaim
      refine ⟨claimDb_nonNeg hload owner, fun o => ?_, ?_⟩
      · have hheld (w : Wallet) : rewardsHeld (loadDB s.disk) w = rewardsHeld s.disk w :=
          ownerPending_loadDB w s.disk
        have hold := hs.accounted o
        unfold Accounted at hold ⊢
        simp only [tally_cons, claimedBy, repointedFrom, removedFrom, creditedTo, repointedTo,
          rewardsHeld_claimDb, hheld]
        by_cases ho : o = owner
        · subst ho
          simp only [↓reduceIte]
          linarith
        · have ho' : ¬ owner = o := fun h => ho h.symm
          simp only [ho, ho', ↓reduceIte]
          linarith
      · have hclaimed : Guarded [RewardEvent.claimed owner (rewardsHeld (loadDB s.disk) owner)] :=
          ⟨by simp, by simp⟩
        exact hclaimed.append hs.guarded
    · cases h
      exact hs

/-- A node of the bridge `b` that has done so many units, reported for a wallet. -/
def unitsReport (owner : Wallet) (units : ℚ) : NodeAction :=
  .inferenceReport ⟨inferNodeId "b" "n", owner, none, units, none, none, none, none, none⟩

def rewardStart : RewardRun := ⟨DB.empty, []⟩

/-- The bridge's operator changes wallets, and the new wallet claims. -/
def operatorChange : List (NodeAction × ℕ) :=
  [(unitsReport "A" 100, 1700000000000), (unitsReport "B" 200, 1700000030000),
    (.claim "B", 1700000060000)]

/-- What was credited to a wallet's nodes is still there or was paid to it. -/
def StaysWithOwner (o : Wallet) (s : RewardRun) : Prop :=
  tally (creditedTo o) s.log ≤ rewardsHeld s.disk o + tally (claimedBy o) s.log

end KvasirNet.Gateway
