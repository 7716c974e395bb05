import Mathlib.Data.List.Count
import KvasirNet.GatewayBalances

/-! One on-chain signature buys one thing. A signature is in flight from the
moment a request finds it unused until that request saves, and it is spent once
a request that carries it is granted something. -/
namespace KvasirNet.Gateway

variable {cfg : Config} {chain : Chain} {sig : Signature} {s s' : State} {a : Action}

/-- The event gives something in return for `sig`: a position credit, a credit
deposit, an inference result or a refund. -/
def Event.grants (sig : Signature) : Event → Bool
  | .staked _ _ s _ | .deposited _ _ s | .answered _ s | .refunded _ s _ _ => s == sig
  | _ => false

/-- The event is about `sig`: it grants something for it, or leaves its payment unserved. -/
def Event.spends (sig : Signature) : Event → Bool
  | .unserved s _ _ => s == sig
  | e => e.grants sig

def grantCount (sig : Signature) (log : List Event) : ℕ := log.countP (Event.grants sig)

def spendCount (sig : Signature) (log : List Event) : ℕ := log.countP (Event.spends sig)

@[simp]
theorem grantCount_nil (sig : Signature) : grantCount sig [] = 0 := rfl

@[simp]
theorem grantCount_append (sig : Signature) (evs log : List Event) :
    grantCount sig (evs ++ log) = grantCount sig evs + grantCount sig log :=
  List.countP_append

@[simp]
theorem spendCount_append (sig : Signature) (evs log : List Event) :
    spendCount sig (evs ++ log) = spendCount sig evs + spendCount sig log :=
  List.countP_append

theorem grantCount_le_spendCount (sig : Signature) (log : List Event) :
    grantCount sig log ≤ spendCount sig log := by
  apply List.countP_mono_left
  intro e _ hg
  cases e <;> first | exact hg | cases hg

def DB.used (db : DB) (sig : Signature) : Bool := (db.usedSignatures.lookup sig).isSome

variable {r : Request} {ph : Phase} {db : DB}

theorem Coherent.unused (hc : Coherent cfg r ph)
    (hr : r.signature = some sig) (hs : ph.snapshot = some db) : db.used sig = false := by
  cases hc <;> cases hs <;> cases hr <;> simp [DB.used, *]

variable {evs : List Event}

/-- A save by a request that carries `sig` records it, and grants it at most
once; a refund was granted when it landed. -/
theorem commits_grants
    (hc : Commits cfg chain r ph db evs) (hr : r.signature = some sig) :
    db.used sig = true ∧ grantCount sig evs ≤ 1 ∧ (ph.landed = true → grantCount sig evs = 0) := by
  cases hc with
  | stake | deposit | answered =>
    cases hr
    refine ⟨?_, ?_, fun h => by cases h⟩
    · simp [DB.used, stakeDb, depositDb, answeredDb]
    · simp [grantCount, Event.grants]
  | failed =>
    cases hr
    refine ⟨?_, ?_, fun _ => ?_⟩ <;> simp [DB.used, inferenceFailedDb, grantCount, Event.grants]
  | refund rid sig' db r payer usedAt error landed ok row unused returned =>
    cases hr
    refine ⟨?_, ?_, fun _ => ?_⟩ <;>
      cases ok <;> simp [DB.used, inferenceFailedDb, grantCount, Event.grants]
  | unstake | claim | faucet => cases hr

theorem commits_other_signature {base : DB}
    (hc : Commits cfg chain r ph db evs) (hs : ph.snapshot = some base)
    (hr : r.signature ≠ some sig) : db.used sig = base.used sig ∧ spendCount sig evs = 0 := by
  have hne {x : Signature} (h : Request.signature r = some x) : ¬ x = sig := by
    rintro rfl
    exact hr h
  cases hc with
  | stake o q sig' db now pos unused moved =>
    cases hs
    have hx : ¬ sig' = sig := hne rfl
    have hx' : sig ≠ sig' := fun h => hx h.symm
    simp [DB.used, stakeDb, AList.lookup_insert_ne hx', spendCount,
      Event.spends, Event.grants, hx]
  | deposit w q sig' db now unused =>
    cases hs
    have hx : ¬ sig' = sig := hne rfl
    have hx' : sig ≠ sig' := fun h => hx h.symm
    simp [DB.used, depositDb, AList.lookup_insert_ne hx', spendCount,
      Event.spends, Event.grants, hx]
  | answered rid sig' db r payer usedAt ans row unused =>
    cases hs
    have hx : ¬ sig' = sig := hne rfl
    have hx' : sig ≠ sig' := fun h => hx h.symm
    simp [DB.used, answeredDb, AList.lookup_insert_ne hx', spendCount,
      Event.spends, Event.grants, hx]
  | failed rid sig' ph db r usedAt error row unused phase =>
    have hx : ¬ sig' = sig := hne rfl
    have hx' : sig ≠ sig' := fun h => hx h.symm
    obtain rfl : db = base := by rcases phase with rfl | rfl <;> exact Option.some.inj hs
    simp [DB.used, inferenceFailedDb, AList.lookup_insert_ne hx', spendCount, Event.spends, hx]
  | refund rid sig' db r payer usedAt error landed ok row unused returned =>
    cases hs
    have hx : ¬ sig' = sig := hne rfl
    have hx' : sig ≠ sig' := fun h => hx h.symm
    cases ok <;>
      simp [DB.used, inferenceFailedDb, AList.lookup_insert_ne hx', spendCount, Event.spends, hx]
  | unstake | claim | faucet =>
    cases hs
    exact ⟨rfl, rfl⟩

theorem landing_grants {p : Payout} (hc : Coherent cfg r (.paying db p true)) :
    grantCount sig (p.landing cfg db) = if r.signature = some sig then 1 else 0 := by
  cases hc with
  | unstake o amt db pos now landed row active finite =>
    obtain ⟨⟨p, q⟩, hq⟩ := Option.isSome_iff_exists.mp (finite rfl)
    simp [hq, Payout.landing, grantCount, Event.grants, Request.signature]
  | claim | faucet => simp [Payout.landing, grantCount, Event.grants, Request.signature]
  | refund rid sig' db r payer usedAt error landed row unpaid unused =>
    by_cases hx : sig' = sig <;>
      simp [Payout.landing, grantCount, Event.grants, Request.signature, hx]

theorem landing_other_signature {p : Payout}
    (hc : Coherent cfg r (.paying db p true)) (hr : r.signature ≠ some sig) :
    spendCount sig (p.landing cfg db) = 0 := by
  cases hc with
  | unstake o amt db pos now landed row active finite =>
    obtain ⟨⟨p, q⟩, hq⟩ := Option.isSome_iff_exists.mp (finite rfl)
    simp [hq, Payout.landing, spendCount, Event.spends, Event.grants]
  | claim | faucet => simp [Payout.landing, spendCount, Event.spends, Event.grants]
  | refund rid sig' db r payer usedAt error landed row unpaid unused =>
    have hx : ¬ sig' = sig := fun h => hr (congrArg some h)
    simp [Payout.landing, spendCount, Event.spends, Event.grants, hx]

theorem writes_used {now : ℕ} {d : DB} {r : SyncRequest}
    (hw : Writes cfg now d r db evs) : db.used sig = d.used sig ∧ spendCount sig evs = 0 := by
  cases hw <;> exact ⟨rfl, rfl⟩

/-- The life of a signature: while a request carries it past the check, that
request is alone and the file does not know the signature; nothing is granted
before a transfer lands or a save records it. -/
structure SpentOnce (sig : Signature) (s : State) : Prop where
  running_unused : ∀ (i : ℕ) r ph, s.tasks[i]? = some ⟨r, ph⟩ → r.signature = some sig →
    ph.isRunning = true → s.disk.used sig = false
  sole : ∀ (i j : ℕ) r r' ph ph', s.tasks[i]? = some ⟨r, ph⟩ → s.tasks[j]? = some ⟨r', ph'⟩ →
    r.signature = some sig → r'.signature = some sig → ph.isRunning = true → ph'.isRunning = true →
    i = j
  snapshots_unused : s.disk.used sig = false → ∀ (i : ℕ) r ph db, s.tasks[i]? = some ⟨r, ph⟩ →
    ph.snapshot = some db → db.used sig = false
  fresh : s.disk.used sig = false →
    (∀ (i : ℕ) r ph, s.tasks[i]? = some ⟨r, ph⟩ → r.signature = some sig → ph.landed = false) →
    spendCount sig s.log = 0
  once : grantCount sig s.log ≤ 1

theorem State.Initial.spentOnce (h : s.Initial) : SpentOnce sig s := by
  refine ⟨?_, ?_, ?_, ?_, ?_⟩
  · intro i r ph hi
    simp [h.tasks_nil] at hi
  · intro i j r r' ph ph' hi
    simp [h.tasks_nil] at hi
  · intro hun i r ph db hi
    simp [h.tasks_nil] at hi
  · intro hun hland
    rw [h.log_nil]
    rfl
  · simp [h.log_nil]

/-- A request passes the check of `sig` only while no other request that carries
`sig` is past it. -/
def soleUse (sig : Signature) (s : State) : Action → Bool
  | .start i _ =>
    s.tasks[i]?.all (fun t => t.request.signature != some sig) ||
      s.tasks.all fun t => t.request.signature != some sig || !t.phase.isRunning
  | _ => true

/-- A save does not forget that `sig` is used. -/
def keepsUse (cfg : Config) (chain : Chain) (sig : Signature) (s : State) (a : Action) : Bool :=
  (commit cfg chain s a).all fun c => !s.disk.used sig || c.2.1.used sig

theorem soleUse_start {i now : ℕ} (h : soleUse sig s (.start i now) = true)
    (task : s.tasks[i]? = some ⟨r, ph⟩) (hr : r.signature = some sig) {j : ℕ} {r' : Request}
    {ph' : Phase} (hj : s.tasks[j]? = some ⟨r', ph'⟩) (hr' : r'.signature = some sig) :
    ph'.isRunning = false := by
  simp only [soleUse, task, Option.all_some, hr, bne_self_eq_false, Bool.false_or,
    List.all_eq_true] at h
  simpa [hr'] using h _ (List.mem_of_getElem? hj)

theorem SpentOnce.set (h : SpentOnce sig s) {i : ℕ} {ph' : Phase} {d : DB}
    (task : s.tasks[i]? = some ⟨r, ph⟩) (hd : d.used sig = s.disk.used sig)
    (hunpaid : r.signature = some sig → ph.landed = false)
    (hsnap : s.disk.used sig = false → ∀ db, ph'.snapshot = some db → db.used sig = false)
    (hrun : r.signature = some sig → ph'.isRunning = true → s.disk.used sig = false ∧
      ∀ (j : ℕ) r₁ ph₁, s.tasks[j]? = some ⟨r₁, ph₁⟩ → r₁.signature = some sig →
        ph₁.isRunning = true → j = i) :
    SpentOnce sig { s with disk := d, tasks := s.tasks.set i ⟨r, ph'⟩ } := by
  refine ⟨?_, ?_, ?_, ?_, h.once⟩
  · intro j r₁ ph₁ hj hr₁ hrun₁
    rw [hd]
    rw [getElem?_setTask task] at hj
    split_ifs at hj with hji
    · cases hj
      exact (hrun hr₁ hrun₁).1
    · exact h.running_unused j r₁ ph₁ hj hr₁ hrun₁
  · intro j k r₁ r₂ ph₁ ph₂ hj hk hr₁ hr₂ hrun₁ hrun₂
    rw [getElem?_setTask task] at hj hk
    split_ifs at hj hk with hji hki hki
    · exact hji.trans hki.symm
    · cases hj
      exact hji.trans ((hrun hr₁ hrun₁).2 k r₂ ph₂ hk hr₂ hrun₂).symm
    · cases hk
      exact ((hrun hr₂ hrun₂).2 j r₁ ph₁ hj hr₁ hrun₁).trans hki.symm
    · exact h.sole j k r₁ r₂ ph₁ ph₂ hj hk hr₁ hr₂ hrun₁ hrun₂
  · intro hun j r₁ ph₁ db hj hdb
    have hold : s.disk.used sig = false := hd.symm.trans hun
    rw [getElem?_setTask task] at hj
    split_ifs at hj with hji
    · cases hj
      exact hsnap hold db hdb
    · exact h.snapshots_unused hold j r₁ ph₁ db hj hdb
  · intro hun hland
    refine h.fresh (hd.symm.trans hun) fun j r₁ ph₁ hj hr₁ => ?_
    by_cases hji : j = i
    · subst hji
      cases task.symm.trans hj
      exact hunpaid hr₁
    · refine hland j r₁ ph₁ ?_ hr₁
      rw [getElem?_setTask task, if_neg hji, hj]

theorem Phase.running_of_landed (h : ph.landed = true) : ph.isRunning = true := by
  cases ph <;> first | rfl | cases h

/-- While the request that carries `sig` is past the check and no transfer of it
has landed, the money trail does not know it. -/
theorem SpentOnce.unspent (h : SpentOnce sig s) {i : ℕ}
    (task : s.tasks[i]? = some ⟨r, ph⟩) (hr : r.signature = some sig) (hrun : ph.isRunning = true)
    (hunpaid : ph.landed = false) : spendCount sig s.log = 0 := by
  refine h.fresh (h.running_unused i r ph task hr hrun) fun j r₁ ph₁ hj hr₁ => ?_
  by_contra hland
  have hland₁ : ph₁.landed = true := by simpa using hland
  obtain rfl := h.sole j i r₁ r ph₁ ph hj task hr₁ hr (Phase.running_of_landed hland₁) hrun
  cases task.symm.trans hj
  exact hland hunpaid

/-- Every move keeps the life of a signature in order, when the request that
passes the check is alone and no save forgets the signature. -/
theorem moves_spentOnce (hc' : ∀ t ∈ s'.tasks, Coherent cfg t.request t.phase)
    (hl : refundSaved s a = true)
    (hu : soleUse sig s a = true) (hk : keepsUse cfg chain sig s a = true) (hS : SpentOnce sig s)
    (h : Moves cfg chain s a s') : SpentOnce sig s' := by
  cases h with
  | refused => exact hS
  | submit r pre =>
    -- the new task is not running and holds no snapshot
    refine ⟨?_, ?_, ?_, ?_, hS.once⟩
    · intro j r₁ ph₁ hj hr₁ hrun
      rcases getElem?_append_task hj with hj | ⟨-, he⟩
      · exact hS.running_unused j r₁ ph₁ hj hr₁ hrun
      · cases he
        cases hrun
    · intro j k r₁ r₂ ph₁ ph₂ hj hk hr₁ hr₂ hrun₁ hrun₂
      rcases getElem?_append_task hj with hj | ⟨-, he⟩
      · rcases getElem?_append_task hk with hk | ⟨-, he⟩
        · exact hS.sole j k r₁ r₂ ph₁ ph₂ hj hk hr₁ hr₂ hrun₁ hrun₂
        · cases he
          cases hrun₂
      · cases he
        cases hrun₁
    · intro hun j r₁ ph₁ db hj hdb
      rcases getElem?_append_task hj with hj | ⟨-, he⟩
      · exact hS.snapshots_unused hun j r₁ ph₁ db hj hdb
      · cases he
        cases hdb
    · intro hun hland
      refine hS.fresh hun fun j r₁ ph₁ hj hr₁ => hland j r₁ ph₁ ?_ hr₁
      exact (List.getElem?_append_left (List.getElem?_eq_some_iff.mp hj).1).trans hj
  | enter i now r ph task free entered next unpaid =>
    -- the snapshot is the file, and whoever carries `sig` found it unused there
    refine hS.set task rfl (fun _ => rfl) (fun hun db hdb => ?_) fun hr hrun => ⟨?_, ?_⟩
    · rcases next.2 with hs | rfl
      · cases hs.symm.trans hdb
        exact hun
      · cases hdb
    · rcases next.2 with hs | rfl
      · have hload : (loadDB s.disk).used sig = false := next.1.unused hr hs
        exact hload
      · have hchat := next.1
        cases hchat
        cases hr
    · intro j r₁ ph₁ hj hr₁ hrun₁
      have hidle := soleUse_start hu task hr hj hr₁
      simp [hrun₁] at hidle
  | await _ i r ph ph' db task held next unpaid unpaid' =>
    have hrunning := Phase.running_of_snapshot held
    refine hS.set task rfl (fun _ => unpaid) (fun hun db' hdb => ?_) fun hr _ => ⟨?_, ?_⟩
    · cases next.symm.trans hdb
      exact hS.snapshots_unused hun i r ph db task held
    · exact hS.running_unused i r ph task hr hrunning
    · intro j r₁ ph₁ hj hr₁ hrun₁
      exact hS.sole j i r₁ r ph₁ ph hj task hr₁ hr hrun₁ hrunning
  | lands i r db p task can =>
    have hcoh : Coherent cfg r (.paying db p true) :=
      hc' _ (List.mem_of_getElem? ((getElem?_setTask task _ i).trans (if_pos rfl)))
    have hcount : grantCount sig (p.landing cfg db) = if r.signature = some sig then 1 else 0 :=
      landing_grants hcoh
    have hset : SpentOnce sig { s with disk := s.disk, tasks := s.tasks.set i ⟨r, .paying db p true⟩ } :=
      hS.set task rfl (fun _ => rfl)
        (fun hun db' hdb => hS.snapshots_unused hun i r _ db' task hdb)
        fun hr _ => ⟨hS.running_unused i r _ task hr rfl,
          fun j r₁ ph₁ hj hr₁ hrun₁ => hS.sole j i r₁ r ph₁ _ hj task hr₁ hr hrun₁ rfl⟩
    -- only the refund of the payment with `sig` counts, and it is the first grant
    by_cases hr : r.signature = some sig
    · have hzero := hS.unspent task hr rfl rfl
      have hle := grantCount_le_spendCount sig s.log
      refine ⟨hset.running_unused, hset.sole, hset.snapshots_unused, fun _ hland => ?_, ?_⟩
      · have hopen := hland i r _ ((getElem?_setTask task _ i).trans (if_pos rfl)) hr
        cases hopen
      · simp only [grantCount_append, hcount, if_pos hr]
        omega
    · have hnone := landing_other_signature hcoh hr
      refine ⟨hset.running_unused, hset.sole, hset.snapshots_unused, fun hun hland => ?_, ?_⟩
      · rw [spendCount_append, hnone, hset.fresh hun hland]
      · simp only [grantCount_append, hcount, if_neg hr, zero_add]
        exact hS.once
  | commit _ i r ph base db evs ans task held save made =>
    have hrunning := Phase.running_of_snapshot held
    have hdone {j : ℕ} {r₁ : Request} {ph₁ : Phase}
        (hj : (s.tasks.set i ⟨r, .done ans⟩)[j]? = some ⟨r₁, ph₁⟩) (hne : ph₁ ≠ .done ans) :
        j ≠ i ∧ s.tasks[j]? = some ⟨r₁, ph₁⟩ := by
      rw [getElem?_setTask task] at hj
      split_ifs at hj with hji
      · cases hj
        exact absurd rfl hne
      · exact ⟨hji, hj⟩
    have hactive {ph₁ : Phase} (h : ph₁.isRunning = true) : ph₁ ≠ .done ans := by
      rintro rfl
      cases h
    have hsole := fun (j k : ℕ) r₁ r₂ ph₁ ph₂ hj hk hr₁ hr₂ hrun₁ hrun₂ =>
      hS.sole j k r₁ r₂ ph₁ ph₂ (hdone hj (hactive hrun₁)).2 (hdone hk (hactive hrun₂)).2 hr₁ hr₂
        hrun₁ hrun₂
    by_cases hr : r.signature = some sig
    · obtain ⟨hused, hle, hzero⟩ := commits_grants save hr
      refine ⟨?_, hsole, fun hun => ?_, fun hun => ?_, ?_⟩
      · -- any other running request with this signature would be this one
        intro j r₁ ph₁ hj hr₁ hrun₁
        obtain ⟨hji, hj⟩ := hdone hj (hactive hrun₁)
        exact absurd (hS.sole j i r₁ r ph₁ ph hj task hr₁ hr hrun₁ hrunning) hji
      · simp [hused] at hun
      · simp [hused] at hun
      · -- a payment is granted by its save, a refund was granted when it landed
        simp only [grantCount_append]
        cases hland : ph.landed with
        | false =>
          have hnone := hS.unspent task hr hrunning hland
          have hle' := grantCount_le_spendCount sig s.log
          omega
        | true =>
          have hnone := hzero hland
          have honce := hS.once
          omega
    · obtain ⟨hsame, hnone⟩ := commits_other_signature save held hr
      -- a stale snapshot may not know `sig`; `keepsUse` rules that out
      have hback (hun : db.used sig = false) : s.disk.used sig = false := by
        have hbase : base.used sig = false := hsame.symm.trans hun
        simpa [keepsUse, made, hbase] using hk
      refine ⟨?_, hsole, ?_, ?_, ?_⟩
      · intro j r₁ ph₁ hj hr₁ hrun₁
        obtain ⟨-, hj⟩ := hdone hj (hactive hrun₁)
        have hun := hS.running_unused j r₁ ph₁ hj hr₁ hrun₁
        exact hsame.trans (hS.snapshots_unused hun i r ph base task held)
      · intro hun j r₁ ph₁ db' hj hdb
        have hne : ph₁ ≠ .done ans := by
          rintro rfl
          cases hdb
        exact hS.snapshots_unused (hback hun) j r₁ ph₁ db' (hdone hj hne).2 hdb
      · intro hun hland
        simp only [spendCount_append, hnone, zero_add]
        refine hS.fresh (hback hun) fun j r₁ ph₁ hj hr₁ => ?_
        by_cases hji : j = i
        · subst hji
          cases task.symm.trans hj
          exact absurd hr₁ hr
        · exact hland j r₁ ph₁ ((getElem?_setTask task _ j).trans ((if_neg hji).trans hj)) hr₁
      · have hle := grantCount_le_spendCount sig evs
        have honce := hS.once
        simp only [grantCount_append]
        omega
  | stop _ i r ph ans task active free thrown =>
    -- a refund that landed is saved, so a task that stops has none
    refine hS.set task rfl (fun hr => ?_) (fun _ db hdb => by cases hdb) fun _ hrun => by cases hrun
    by_contra hland
    rcases (thrown (by simpa using hland)).2 with h | h
    · cases h.symm.trans hr
    · simp [h] at hl
  | completed i w ip m u now task =>
    refine hS.set task ?_ (fun _ => rfl) (fun _ db hdb => by cases hdb) fun _ hrun => by cases hrun
    cases u <;> rfl
  | sync r now db evs write saved =>
    obtain ⟨hload, hnone⟩ := writes_used write
    have hd : db.used sig = s.disk.used sig := hload
    refine ⟨fun i r ph hi hr hrun => hd.trans (hS.running_unused i r ph hi hr hrun), hS.sole,
      fun hun => hS.snapshots_unused (hd.symm.trans hun), fun hun hland => ?_, ?_⟩
    · rw [spendCount_append, hnone, hS.fresh (hd.symm.trans hun) hland]
    · have hle := grantCount_le_spendCount sig evs
      have honce := hS.once
      simp only [grantCount_append]
      omega

/-- What a refund for `sig` paid. -/
def refundPaid (sig : Signature) : Event → ℚ
  | .refunded _ s _ x => if s = sig then x else 0
  | _ => 0

theorem refundPaid_of_not_grants {e : Event} (h : e.grants sig = false) : refundPaid sig e = 0 := by
  cases e with
  | refunded rid s payer x =>
    have hs : ¬ s = sig := by simpa [Event.grants] using h
    simp [refundPaid, hs]
  | _ => rfl

theorem tally_refundPaid_le {log : List Event} {rid : RequestId} {payer : Wallet} {x : ℚ}
    (honce : grantCount sig log ≤ 1) (hmem : Event.refunded rid sig payer x ∈ log) :
    tally (refundPaid sig) log = x := by
  have hzero (l : List Event) (hl : grantCount sig l = 0) : tally (refundPaid sig) l = 0 := by
    induction l with
    | nil => rfl
    | cons e l ih =>
      have hsplit : grantCount sig (e :: l) = grantCount sig [e] + grantCount sig l :=
        grantCount_append sig [e] l
      have he : e.grants sig = false := by
        cases hg : e.grants sig with
        | false => rfl
        | true =>
          simp [grantCount, hg] at hl
      rw [tally_cons, refundPaid_of_not_grants he, ih (by omega), zero_add]
  obtain ⟨l, l', rfl⟩ := List.append_of_mem hmem
  have hone : grantCount sig [Event.refunded rid sig payer x] = 1 := by
    simp [grantCount, Event.grants]
  have hsplit : grantCount sig (l ++ .refunded rid sig payer x :: l') =
      grantCount sig l + (grantCount sig [Event.refunded rid sig payer x] + grantCount sig l') := by
    rw [← grantCount_append, ← grantCount_append]
    rfl
  rw [tally_append, tally_cons, hzero l (by omega), hzero l' (by omega)]
  simp [refundPaid]

/-- The signature buys one thing, and what is refunded for it is the price of
the one request it paid. -/
structure BoughtOnce (sig : Signature) (log : List Event) : Prop where
  once : grantCount sig log ≤ 1
  refund : ∀ rid payer x, Event.refunded rid sig payer x ∈ log → tally (refundPaid sig) log = x

theorem signature_spent_once (cfg : Config) (chain : Chain) (sig : Signature) (s₀ s : State)
    (as : List Action) (h₀ : s₀.Initial)
    (halone : Along (step cfg chain) (fun s a => refundSaved s a = true ∧ soleUse sig s a = true ∧
      keepsUse cfg chain sig s a = true) s₀ as)
    (hrun : runs (step cfg chain) s₀ as = some s) : BoughtOnce sig s.log := by
  obtain ⟨-, hS⟩ := runs_invariant (I := fun s => s.WellFormed cfg ∧ SpentOnce sig s)
    (fun s a s' hp hi h => by
      obtain ⟨hwf, hS⟩ := hi
      have hwf' := step_wellFormed hwf h
      exact ⟨hwf', moves_spentOnce hwf'.coherent hp.1 hp.2.1 hp.2.2 hS (step_moves hwf.coherent h)⟩)
    halone hrun ⟨h₀.wellFormed, h₀.spentOnce⟩
  exact ⟨hS.once, fun rid payer x hmem => tally_refundPaid_le hS.once hmem⟩

def flatModel : ServedModel := ⟨"m", "Model", some "http://bridge", some "cid", none, 1, 0, 0⟩

/-- A chain on which every signature moved one token from `P` into the vault. -/
def oneFromP : Chain := fun _ => vaultTransfer defaultConfig "P" 1000000

/-- One quoted request is paid, its inference fails and the payer is refunded;
a second request with the same signature is refused. -/
def refundRun : List Action :=
  [.sync (.quote "r1" (some flatModel) "hi") 1700000000000,
    .sync (.quote "r2" (some flatModel) "hi") 1700000000000,
    .submit (.inference "r1" "sig"), .start 0 1700000000000, .verified 0 true 1700000000000 true,
    .inferred 0 (.error "bridge timeout") true, .lands 0, .settled 0 true true,
    .submit (.inference "r2" "sig"), .start 1 1700000000000]

theorem signature_spent_once_refund :
    ∃ s, runs (step defaultConfig oneFromP) ⟨DB.empty, [], []⟩ refundRun = some s ∧
      tally (refundPaid "sig") s.log = 1 ∧ BoughtOnce "sig" s.log := by
  obtain ⟨s, hs, hpaid⟩ := runs_exists (step defaultConfig oneFromP) ⟨DB.empty, [], []⟩ refundRun
    (fun s => decide (tally (refundPaid "sig") s.log = 1)) (by decide +kernel)
  exact ⟨s, hs, of_decide_eq_true hpaid,
    signature_spent_once _ _ "sig" _ s _ ⟨rfl, rfl⟩ (by decide +kernel) hs⟩

/-- Two requests with one signature pass the check before either saves, and
both inferences fail. -/
def doubleRefundRun : List Action :=
  [.sync (.quote "r1" (some flatModel) "hi") 1700000000000,
    .sync (.quote "r2" (some flatModel) "hi") 1700000000000,
    .submit (.inference "r1" "sig"), .submit (.inference "r2" "sig"),
    .start 0 1700000000000, .start 1 1700000000000,
    .verified 0 true 1700000000000 true, .verified 1 true 1700000000000 true,
    .inferred 0 (.error "bridge timeout") true, .inferred 1 (.error "bridge timeout") true,
    .lands 0, .settled 0 true true, .lands 1, .settled 1 true true]

theorem one_signature_refunded_twice :
    ∃ s, runs (step defaultConfig oneFromP) ⟨DB.empty, [], []⟩ doubleRefundRun = some s ∧
      grantCount "sig" s.log = 2 ∧ tally (refundPaid "sig") s.log = 2 ∧
      ¬ BoughtOnce "sig" s.log := by
  obtain ⟨s, hs, hpaid⟩ := runs_exists (step defaultConfig oneFromP) ⟨DB.empty, [], []⟩
    doubleRefundRun
    (fun s => decide (grantCount "sig" s.log = 2 ∧ tally (refundPaid "sig") s.log = 2))
    (by decide +kernel)
  obtain ⟨hcount, htwo⟩ := of_decide_eq_true hpaid
  refine ⟨s, hs, hcount, htwo, fun h => ?_⟩
  have honce := h.once
  omega

end KvasirNet.Gateway
