import KvasirNet.MarketBooks

/-! Where the bytes of a relay session go. A record of statistics is made at the
first byte, paid for at each flush, and dropped with the worker of its target;
what it had carried and not been paid for by then is lost. -/
namespace KvasirNet.Market

variable {cfg : Config} {s s' : State} {a : Action}

def State.paid (s : State) (session : Session) : ℕ :=
  (s.credits.map fun c => if c.session = session then c.bytes else 0).sum

/-- What became of the records of one session: those that were dropped, and what
the present one had carried when it was last flushed. -/
structure Trail where
  discarded : List Stats
  flushed : ℕ
  deriving DecidableEq, Repr

/-- A flush reaches a record only through a target. -/
def Trail.note (session : Session) (s : State) (a : Action) (s' : State) (h : Trail) : Trail :=
  match s.relayStats.lookup session with
  | none => h
  | some st =>
    if (s'.relayStats.lookup session).isNone then ⟨st :: h.discarded, 0⟩
    else if a.flushes && (s.relayTargets.lookup session).isSome then
      { h with flushed := st.carried }
    else h

/-- The trail of a session over a run from the start. -/
def trail (cfg : Config) (session : Session) (as : List Action) : Trail :=
  recorded (step cfg) (Trail.note session) State.empty as ⟨[], 0⟩

/-! ## The condition -/

/-- The record has bytes to be paid for, and the worker of its target is stale. -/
def State.owing (s : State) (now : ℕ) (session : Session) (st : Stats) : Bool :=
  decide (st.creditedBytes < st.carried) &&
    (s.relayTargets.lookup session).any fun t => s.staleWorker now t.nodeId

/-- A report keeps this session alive: its worker is known, and the session is
its own or becomes so. -/
def State.renews (s : State) (b : CoverageBody) (session : Session) : Bool :=
  (s.workers.lookup b.workerId).isSome &&
    (s.rewires b.workerId b.url session ||
      (s.relayTargets.lookup session).any fun t => t.nodeId == b.workerId)

/-- No request finds a stale worker whose session has bytes to be paid for. -/
def paidUp (cfg : Config) (s : State) (a : Action) : Bool :=
  match a with
  | .coverage who allowed b now =>
    !(needsNode who allowed).toBool || b.workerId == "" || b.model == "" ||
      s.relayStats.entries.all fun e => !s.owing now e.1 e.2 || s.renews b e.1
  | a =>
    match a.polls cfg with
    | none => true
    | some now => s.relayStats.entries.all fun e => !s.owing now e.1 e.2

variable {st : Stats} {now : ℕ}

theorem paidUp_polls {session : Session} (hp : paidUp cfg s a = true)
    (hpolls : a.polls cfg = some now) (hst : s.relayStats.lookup session = some st) :
    s.owing now session st = false := by
  have hall : (s.relayStats.entries.all fun e => !s.owing now e.1 e.2) = true := by
    cases a with
    | coverage => simp [Action.polls] at hpolls
    | demand | volunteer | upgrade | relayBytes | relayClosed | flush =>
      simpa only [paidUp, hpolls] using hp
  have hentry := (Table.mem_entries_iff s.relayStats session st).mpr hst
  simpa using List.all_eq_true.mp hall _ hentry

theorem paidUp_coverage {who : Who} {allowed : Bool} {b : CoverageBody}
    {session : Session} (hp : paidUp cfg s (.coverage who allowed b now) = true)
    (passed : needsNode who allowed = .ok ()) (complete : ¬ (b.workerId = "" ∨ b.model = ""))
    (hst : s.relayStats.lookup session = some st) :
    s.owing now session st = false ∨ s.renews b session = true := by
  rw [not_or] at complete
  have hall : (s.relayStats.entries.all fun e => !s.owing now e.1 e.2 || s.renews b e.1) = true := by
    simpa only [paidUp, passed, Except.toBool, Bool.not_true, Bool.false_or,
      beq_eq_false_iff_ne.mpr complete.1, beq_eq_false_iff_ne.mpr complete.2] using hp
  have hentry := (Table.mem_entries_iff s.relayStats session st).mpr hst
  simpa using List.all_eq_true.mp hall _ hentry

/-! ## Dropped records -/

theorem evict_drops {session : Session}
    (hst : s.relayStats.lookup session = some st)
    (hgone : (s.evict now).relayStats.lookup session = none) :
    ((s.relayTargets.lookup session).any fun t => s.staleWorker now t.nodeId) = true := by
  rw [lookup_evict_stats, hst, Option.filter_some] at hgone
  simpa using hgone

theorem evict_stats (s : State) (now : ℕ) (session : Session) :
    (s.evict now).relayStats.lookup session = s.relayStats.lookup session ∨
      (s.evict now).relayStats.lookup session = none := by
  rw [lookup_evict_stats]
  cases s.relayStats.lookup session with
  | none => exact Or.inl rfl
  | some st =>
    rw [Option.filter_some]
    split_ifs
    · exact Or.inl rfl
    · exact Or.inr rfl

theorem owing_eq_false {session : Session}
    (h : s.owing now session st = false)
    (hstale : ((s.relayTargets.lookup session).any fun t => s.staleWorker now t.nodeId) = true) :
    st.carried ≤ st.creditedBytes := by
  rw [State.owing, hstale, Bool.and_true] at h
  exact Nat.not_lt.mp (of_decide_eq_false h)

theorem record_drops {who : Who} {id : WorkerId} {w : Worker} {session : Session}
    (hfresh : w.stale now = false) (hst : s.relayStats.lookup session = some st)
    (hgone : ((s.record cfg who id w).1.evict now).relayStats.lookup session = none) :
    s.rewires id w.url session = false ∧
      ∃ t, s.relayTargets.lookup session = some t ∧ t.nodeId ≠ id ∧
        s.staleWorker now t.nodeId = true := by
  obtain ⟨-, -, hstats, -, -, htargets⟩ := record_spec cfg s who id w
  have hdropped := evict_drops (hstats ▸ hst) hgone
  simp only [staleWorker_record cfg s who hfresh] at hdropped
  rw [htargets] at hdropped
  cases hre : s.rewires id w.url session with
  | true =>
    -- the target is the reporter's now
    simp [hre, relayTarget] at hdropped
  | false =>
    rw [hre, if_neg Bool.false_ne_true] at hdropped
    obtain ⟨t, ht, hstale⟩ := (Option.any_eq_true _ _).mp hdropped
    simp only [Bool.and_eq_true, bne_iff_ne, ne_eq] at hstale
    exact ⟨rfl, t, ht, hstale.1, hstale.2⟩

theorem report_stats (cfg : Config) (s : State) (who : Who) (b : CoverageBody) (now : ℕ)
    (session : Session) :
    (((s.census now b.workerId).record cfg who b.workerId
        (reportedWorker (s.workers.lookup b.workerId) b now)).1.evict now).relayStats.lookup session =
        s.relayStats.lookup session ∨
      (((s.census now b.workerId).record cfg who b.workerId
        (reportedWorker (s.workers.lookup b.workerId) b now)).1.evict now).relayStats.lookup session =
        none := by
  have hcensus : (s.census now b.workerId).relayStats.lookup session = s.relayStats.lookup session ∨
      (s.census now b.workerId).relayStats.lookup session = none := by
    unfold State.census
    split_ifs
    · exact Or.inl rfl
    · exact evict_stats s now session
  generalize s.census now b.workerId = s₁ at hcensus
  have hstats := (record_spec cfg s₁ who b.workerId
    (reportedWorker (s.workers.lookup b.workerId) b now)).2.2.1
  rcases evict_stats (s₁.record cfg who b.workerId
    (reportedWorker (s.workers.lookup b.workerId) b now)).1 now session with h | h
  · rw [h, hstats]
    exact hcensus
  · exact Or.inr h

theorem report_drops {who : Who} {b : CoverageBody} {session : Session}
    (hst : s.relayStats.lookup session = some st)
    (hgone : (((s.census now b.workerId).record cfg who b.workerId
      (reportedWorker (s.workers.lookup b.workerId) b now)).1.evict now).relayStats.lookup session =
        none) :
    s.renews b session = false ∧
      ((s.relayTargets.lookup session).any fun t => s.staleWorker now t.nodeId) = true := by
  have hfresh := reportedWorker_fresh (s.workers.lookup b.workerId) b now
  cases hknown : (s.workers.lookup b.workerId).isSome with
  | true =>
    rw [State.census, if_pos hknown] at hgone
    obtain ⟨hre, t, ht, hother, hstale⟩ := record_drops hfresh hst hgone
    have hre' : s.rewires b.workerId b.url session = false := hre
    refine ⟨?_, by rw [ht, Option.any_some, hstale]⟩
    rw [State.renews, hre', ht, Option.any_some, beq_eq_false_iff_ne.mpr hother, Bool.or_self,
      Bool.and_false]
  | false =>
    refine ⟨by rw [State.renews, hknown, Bool.false_and], ?_⟩
    rw [State.census, hknown, if_neg Bool.false_ne_true] at hgone
    by_contra hlive
    -- the first eviction leaves the record, the second finds nobody stale
    have hkept : (s.evict now).relayStats.lookup session = some st := by
      rw [lookup_evict_stats, hst, Option.filter_some, Bool.eq_false_of_not_eq_true hlive]
      rfl
    obtain ⟨-, t, -, -, hstale⟩ := record_drops hfresh hkept hgone
    rw [staleWorker_evict] at hstale
    cases hstale

/-! ## Flushes -/

theorem flush_stats (s : State) (session : Session) :
    (flushContributions s).relayStats.lookup session =
      (s.relayStats.lookup session).map fun st =>
        if (s.due session st).isSome then { st with creditedBytes := st.carried } else st :=
  Table.lookup_mapRows _ _ _

theorem due_session {session : Session} {c : Credit} (h : s.due session st = some c) :
    c.session = session := by
  unfold State.due at h
  split at h
  · cases h
  · split_ifs at h
    obtain rfl := Option.some.inj h
    rfl

theorem flush_paid (s : State) (session : Session) :
    (flushContributions s).paid session =
      s.paid session +
        ((s.relayStats.lookup session).bind (s.due session)).elim 0 Credit.bytes := by
  have hsum (l : List (Σ _ : Session, Stats)) :
      (((l.filterMap fun e => s.due e.1 e.2).map
        fun c => if c.session = session then c.bytes else 0)).sum =
      (l.map fun e => if e.1 = session then (s.due e.1 e.2).elim 0 Credit.bytes else 0).sum := by
    induction l with
    | nil => rfl
    | cons e l ih =>
      cases hdue : s.due e.1 e.2 with
      | none => simp [hdue, ih]
      | some c => simp [hdue, ih, due_session hdue]
  have hrow : ((s.relayStats.entries.map
      fun e => if e.1 = session then (s.due e.1 e.2).elim 0 Credit.bytes else 0)).sum =
      ((s.relayStats.lookup session).bind (s.due session)).elim 0 Credit.bytes := by
    have htotal := Table.total_eq_rowAt
      (fun x st => if x = session then (s.due x st).elim 0 Credit.bytes else 0) s.relayStats session
      (fun x st hx => if_neg hx)
    rw [Table.total, Table.rowAt] at htotal
    rw [htotal]
    cases s.relayStats.lookup session with
    | none => rfl
    | some st => simp
  unfold State.paid flushContributions
  rw [List.map_append, List.sum_append, List.map_reverse, List.sum_reverse, hsum, hrow, add_comm]

/-! ## The invariant -/

/-- What has been paid for a session is what its dropped records were credited
with and what the present one had carried at its last flush. -/
structure Audited (session : Session) (s : State) (h : Trail) : Prop where
  paid : s.paid session = (h.discarded.map Stats.creditedBytes).sum + h.flushed
  flushed : ((s.relayStats.lookup session).map Stats.creditedBytes).getD 0 = h.flushed
  present : ∀ st, s.relayStats.lookup session = some st → st.creditedBytes ≤ st.carried
  dropped : ∀ st ∈ h.discarded, st.creditedBytes ≤ st.carried

variable {session : Session} {h : Trail}

theorem Audited.empty (session : Session) : Audited session State.empty ⟨[], 0⟩ := by
  constructor
  · rfl
  · rfl
  · intro st hst
    simp [State.empty] at hst
  · intro st hst
    cases hst

theorem Audited.kept (hi : Audited session s h) (hcredits : s'.credits = s.credits)
    (hquiet : a.flushes = false)
    (hstats : s'.relayStats.lookup session = s.relayStats.lookup session ∨
      s'.relayStats.lookup session = none) : Audited session s' (h.note session s a s') := by
  have hpaid : s'.paid session = s.paid session := by rw [State.paid, State.paid, hcredits]
  cases hst : s.relayStats.lookup session with
  | none =>
    have hst' : s'.relayStats.lookup session = none := by rwa [hst, or_self] at hstats
    simp only [Trail.note, hst]
    refine ⟨hpaid.trans hi.paid, ?_, fun st hsome => ?_, hi.dropped⟩
    · rw [← hi.flushed, hst, hst']
    · rw [hst'] at hsome
      cases hsome
  | some st =>
    have hcredited : st.creditedBytes = h.flushed := by simpa [hst] using hi.flushed
    rcases hstats with hsame | hgone
    · simp only [Trail.note, hst, hsame, Option.isNone_some, hquiet, Bool.false_and,
        Bool.false_eq_true, if_false]
      exact ⟨hpaid.trans hi.paid, by rw [hsame, hi.flushed], fun st' hst' => hi.present st' (hsame ▸ hst'),
        hi.dropped⟩
    · simp only [Trail.note, hst, hgone, Option.isNone_none, if_true]
      refine ⟨?_, by rw [hgone]; rfl, fun st' hst' => ?_, fun st' hst' => ?_⟩
      · rw [hpaid, hi.paid, List.map_cons, List.sum_cons, hcredited, add_zero, add_comm]
      · rw [hgone] at hst'
        cases hst'
      · rcases List.mem_cons.mp hst' with rfl | hold
        · exact hi.present st' hst
        · exact hi.dropped st' hold

theorem Stats.carried_add (st : Stats) (bytes : ℕ) (dir : Direction) :
    st.carried ≤ (st.add bytes dir).carried ∧ (st.add bytes dir).creditedBytes = st.creditedBytes := by
  cases dir with
  | ws2tcp | tcp2ws =>
    refine ⟨?_, rfl⟩
    simp only [Stats.add, Stats.carried]
    omega

theorem Audited.carry (hi : Audited session s h) (x : Session) (dir : Direction) (bytes : ℕ) :
    Audited session (noteRelayBytes s x dir bytes)
      (h.note session s (.relayBytes x dir bytes) (noteRelayBytes s x dir bytes)) := by
  by_cases hx : session = x
  · subst hx
    have hnew : (noteRelayBytes s session dir bytes).relayStats.lookup session =
        some (((s.relayStats.lookup session).getD ⟨0, 0, 0, 0⟩).add bytes dir) :=
      AList.lookup_insert _
    have hnote : h.note session s (.relayBytes session dir bytes)
        (noteRelayBytes s session dir bytes) = h := by
      unfold Trail.note
      rw [hnew]
      split <;> simp [Action.flushes]
    -- the bytes come on top of a record that is new or within its bound
    have hbound : ((s.relayStats.lookup session).getD ⟨0, 0, 0, 0⟩).creditedBytes = h.flushed ∧
        ((s.relayStats.lookup session).getD ⟨0, 0, 0, 0⟩).creditedBytes ≤
          ((s.relayStats.lookup session).getD ⟨0, 0, 0, 0⟩).carried := by
      cases hst : s.relayStats.lookup session with
      | none => exact ⟨by simpa [hst] using hi.flushed, Nat.zero_le _⟩
      | some st => exact ⟨by simpa [hst] using hi.flushed, hi.present st hst⟩
    generalize (s.relayStats.lookup session).getD ⟨0, 0, 0, 0⟩ = st at hnew hbound
    obtain ⟨hmore, hsame⟩ := st.carried_add bytes dir
    rw [hnote]
    refine ⟨hi.paid, ?_, fun st' hst' => ?_, hi.dropped⟩
    · rw [hnew, Option.map_some, Option.getD_some, hsame]
      exact hbound.1
    · obtain rfl := Option.some.inj (hnew.symm.trans hst')
      rw [hsame]
      exact hbound.2.trans hmore
  · exact hi.kept rfl rfl (Or.inl (AList.lookup_insert_ne hx))

/-- The counters of a record that a flush reads. -/
def Stats.counts (st : Stats) : ℕ × ℕ := (st.carried, st.creditedBytes)

theorem Audited.flush {s₁ : State} (hi : Audited session s h) (hflush : a.flushes = true)
    (htargets : s₁.relayTargets = s.relayTargets) (hcredits : s₁.credits = s.credits)
    (hcounts : (s₁.relayStats.lookup session).map Stats.counts =
      (s.relayStats.lookup session).map Stats.counts) :
    Audited session (flushContributions s₁) (h.note session s a (flushContributions s₁)) := by
  have hpaid : s₁.paid session = s.paid session := by rw [State.paid, State.paid, hcredits]
  have hstats := flush_stats s₁ session
  have hmore := flush_paid s₁ session
  rw [hpaid, hi.paid] at hmore
  cases hst : s.relayStats.lookup session with
  | none =>
    have hst₁ : s₁.relayStats.lookup session = none := by simpa [hst] using hcounts
    rw [hst₁] at hstats hmore
    simp only [Trail.note, hst]
    refine ⟨hmore, ?_, fun st hsome => ?_, hi.dropped⟩
    · rw [← hi.flushed, hst, hstats]
      rfl
    · rw [hstats] at hsome
      cases hsome
  | some st =>
    obtain ⟨st₁, hst₁, hsame⟩ : ∃ st₁, s₁.relayStats.lookup session = some st₁ ∧
        st₁.counts = st.counts := by simpa [hst] using hcounts
    have hcarried : st₁.carried = st.carried := congrArg Prod.fst hsame
    have hcredited : st₁.creditedBytes = st.creditedBytes := congrArg Prod.snd hsame
    have hbound := hi.present st hst
    have hflushed : st.creditedBytes = h.flushed := by simpa [hst] using hi.flushed
    rw [hst₁, Option.map_some] at hstats
    rw [hst₁, Option.bind_some] at hmore
    simp only [Trail.note, hst, hstats, Option.isNone_some, Bool.false_eq_true, if_false, hflush,
      Bool.true_and]
    cases htarget : s.relayTargets.lookup session with
    | none =>
      -- no target, nothing due
      have hdue : s₁.due session st₁ = none := by simp only [State.due, htargets, htarget]
      rw [hdue] at hstats hmore
      refine ⟨hmore, ?_, fun st' hst' => ?_, hi.dropped⟩
      · rw [hstats]
        exact hcredited.trans hflushed
      · obtain rfl := Option.some.inj (hstats.symm.trans hst')
        change st₁.creditedBytes ≤ st₁.carried
        omega
    | some t =>
      by_cases hle : st₁.carried ≤ st₁.creditedBytes
      · have hdue : s₁.due session st₁ = none := by
          simp only [State.due, htargets, htarget, if_pos hle]
        rw [hdue] at hstats hmore
        have hall : st.carried = h.flushed := by omega
        simp only [Option.isSome_some, if_true, hall]
        refine ⟨hmore, ?_, fun st' hst' => ?_, hi.dropped⟩
        · rw [hstats]
          exact hcredited.trans hflushed
        · obtain rfl := Option.some.inj (hstats.symm.trans hst')
          change st₁.creditedBytes ≤ st₁.carried
          omega
      · have hdue : s₁.due session st₁ = some ⟨session, t.nodeId, st₁.carried - st₁.creditedBytes,
            t.owner, t.model, t.platform⟩ := by
          simp only [State.due, htargets, htarget, if_neg hle]
        rw [hdue] at hstats hmore
        simp only [Option.isSome_some, if_true] at hstats ⊢
        refine ⟨?_, ?_, fun st' hst' => ?_, hi.dropped⟩
        · rw [hmore]
          simp only [Option.elim_some]
          omega
        · rw [hstats]
          exact hcarried
        · obtain rfl := Option.some.inj (hstats.symm.trans hst')
          exact le_rfl

theorem closed_counts (s : State) (x session : Session) (now : ℕ) :
    ∃ s₁, noteRelayClosed s x now = flushContributions s₁ ∧ s₁.relayTargets = s.relayTargets ∧
      s₁.credits = s.credits ∧ (s₁.relayStats.lookup session).map Stats.counts =
        (s.relayStats.lookup session).map Stats.counts := by
  unfold noteRelayClosed
  cases hx : s.relayStats.lookup x with
  | none => exact ⟨s, rfl, rfl, rfl, rfl⟩
  | some st =>
    refine ⟨_, rfl, rfl, rfl, ?_⟩
    by_cases hs : session = x
    · subst hs
      rw [AList.lookup_insert, hx]
      rfl
    · rw [AList.lookup_insert_ne hs]

theorem flushes_of_polls (h : a.polls cfg = some now) : a.flushes = false := by
  cases a with
  | relayClosed | flush => simp [Action.polls] at h
  | demand | volunteer | coverage | upgrade | relayBytes => rfl

theorem claim_money (cfg : Config) (s : State) (now : ℕ) (owner : Wallet) (model : String)
    (layer : ℕ) (experts : ℚ × ℚ) :
    (s.claim cfg now owner model layer experts).credits = s.credits ∧
      (s.claim cfg now owner model layer experts).relayStats = s.relayStats := by
  unfold State.claim
  split_ifs
  · exact ⟨rfl, rfl⟩
  · exact ⟨rfl, rfl⟩

theorem Audited.move (hi : Audited session s h) (hm : Move cfg s a s') :
    Audited session s' (h.note session s a s') := by
  cases hm with
  | refused _ quiet => exact hi.kept rfl quiet (Or.inl rfl)
  | polled _ now polls => exact hi.kept rfl (flushes_of_polls polls) (evict_stats s now session)
  | volunteered who allowed want maxExperts now s₁ model layer experts passed swept =>
    obtain ⟨hcredits, hstats⟩ := claim_money cfg s₁ now (who.wallet.getD "") model layer experts
    rcases swept with rfl | ⟨rfl, -⟩
    · exact hi.kept hcredits rfl (Or.inl (by rw [hstats]))
    · refine hi.kept hcredits rfl ?_
      rw [hstats]
      exact evict_stats s now session
  | full who allowed b now => exact hi.kept rfl rfl (evict_stats s now session)
  | reported who allowed b now passed complete =>
    refine hi.kept ?_ rfl (report_stats cfg s who b now session)
    have hcensus : (s.census now b.workerId).credits = s.credits := by
      unfold State.census
      split_ifs <;> rfl
    calc _ = ((s.census now b.workerId).record cfg who b.workerId
            (reportedWorker (s.workers.lookup b.workerId) b now)).1.credits := rfl
      _ = (s.census now b.workerId).credits := (record_spec cfg _ who _ _).2.2.2.1
      _ = s.credits := hcensus
  | dialled who path t known target => exact hi.kept rfl rfl (Or.inl rfl)
  | carried x dir bytes => exact hi.carry x dir bytes
  | closed x now =>
    obtain ⟨s₁, he, htargets, hcredits, hcounts⟩ := closed_counts s x session now
    rw [he]
    exact hi.flush rfl htargets hcredits hcounts
  | flushed => exact hi.flush rfl rfl rfl rfl

theorem Move.drops_paid (hm : Move cfg s a s') (hp : paidUp cfg s a = true)
    (hst : s.relayStats.lookup session = some st)
    (hgone : s'.relayStats.lookup session = none) : st.carried ≤ st.creditedBytes := by
  have hsame {s₁ : State} (hkeep : s₁.relayStats.lookup session = some st)
      (hnone : s₁.relayStats.lookup session = none) : st.carried ≤ st.creditedBytes := by
    rw [hkeep] at hnone
    cases hnone
  have hevict (now : ℕ) (polls : a.polls cfg = some now)
      (hnone : (s.evict now).relayStats.lookup session = none) : st.carried ≤ st.creditedBytes :=
    owing_eq_false (paidUp_polls hp polls hst) (evict_drops hst hnone)
  cases hm with
  | refused => exact hsame hst hgone
  | polled _ now polls => exact hevict now polls hgone
  | volunteered who allowed want maxExperts now s₁ model layer experts passed swept =>
    rw [(claim_money cfg s₁ now (who.wallet.getD "") model layer experts).2] at hgone
    rcases swept with rfl | ⟨rfl, polls⟩
    · exact hsame hst hgone
    · exact hevict now polls hgone
  | full who allowed b now passed complete unknown =>
    have hrenews : s.renews b session = false := by
      rw [State.renews, unknown, Option.isSome_none, Bool.false_and]
    rcases paidUp_coverage hp passed complete hst with howing | hrenewed
    · exact owing_eq_false howing (evict_drops hst hgone)
    · rw [hrenews] at hrenewed
      cases hrenewed
  | reported who allowed b now passed complete =>
    obtain ⟨hrenews, hstale⟩ := report_drops hst hgone
    rcases paidUp_coverage hp passed complete hst with howing | hrenewed
    · exact owing_eq_false howing hstale
    · rw [hrenews] at hrenewed
      cases hrenewed
  | dialled => exact hsame hst hgone
  | carried x dir bytes =>
    by_cases hx : session = x
    · subst hx
      have hnew := hgone
      unfold noteRelayBytes at hnew
      rw [AList.lookup_insert] at hnew
      cases hnew
    · unfold noteRelayBytes at hgone
      rw [AList.lookup_insert_ne hx] at hgone
      exact hsame hst hgone
  | closed x now =>
    obtain ⟨s₁, he, -, -, hcounts⟩ := closed_counts s x session now
    rw [he, flush_stats, Option.map_eq_none_iff] at hgone
    rw [hst, hgone] at hcounts
    cases hcounts
  | flushed =>
    rw [flush_stats, hst] at hgone
    cases hgone

/-! ## Runs -/

/-- No dropped record had bytes to be paid for. -/
def Trail.Settled (h : Trail) : Prop := ∀ st ∈ h.discarded, st.carried ≤ st.creditedBytes

theorem Trail.Settled.move (hi : h.Settled) (hm : Move cfg s a s') (hp : paidUp cfg s a = true) :
    (h.note session s a s').Settled := by
  unfold Trail.note
  split
  · exact hi
  · rename_i st hst
    split_ifs with hgone
    · intro st' hst'
      rcases List.mem_cons.mp hst' with rfl | hold
      · exact hm.drops_paid hp hst (Option.isNone_iff_eq_none.mp hgone)
      · exact hi st' hold
    · exact hi
    · exact hi

theorem relayed_bytes_paid_once (cfg : Config) (as : List Action) (s : State)
    (hrun : runs (step cfg) State.empty as = some s) (session : Session) :
    (s.paid session = ((trail cfg session as).discarded.map Stats.creditedBytes).sum +
        (trail cfg session as).flushed ∧
      s.paid session ≤ ((trail cfg session as).discarded.map Stats.carried).sum +
        ((s.relayStats.lookup session).map Stats.carried).getD 0) ∧
    (Along (step cfg) (fun s a => paidUp cfg s a = true) State.empty as →
      (∀ st ∈ (trail cfg session as).discarded, st.creditedBytes = st.carried) ∧
      s.paid session = ((trail cfg session as).discarded.map Stats.carried).sum +
        (trail cfg session as).flushed) := by
  have hi : Audited session s (trail cfg session as) :=
    recorded_invariant (P := fun _ _ => True) (fun s a s' h _ hi hstep => hi.move (step_move hstep))
      (along_of_forall (fun _ _ => trivial) _ as) hrun (Audited.empty session)
  refine ⟨⟨hi.paid, ?_⟩, fun hpaid => ?_⟩
  · have hdropped : ((trail cfg session as).discarded.map Stats.creditedBytes).sum ≤
        ((trail cfg session as).discarded.map Stats.carried).sum := by
      apply List.sum_le_sum
      exact hi.dropped
    have hpresent : (trail cfg session as).flushed ≤
        ((s.relayStats.lookup session).map Stats.carried).getD 0 := by
      rw [← hi.flushed]
      cases hst : s.relayStats.lookup session with
      | none => exact le_rfl
      | some st => exact hi.present st hst
    rw [hi.paid]
    exact Nat.add_le_add hdropped hpresent
  · have hmove (s : State) (a : Action) (s' : State) (h : Trail) (hp : paidUp cfg s a = true)
        (hi : h.Settled) (hstep : step cfg s a = some s') : (h.note session s a s').Settled :=
      hi.move (step_move hstep) hp
    have hnone : Trail.Settled ⟨[], 0⟩ := fun st hst => by cases hst
    have hsettled : (trail cfg session as).Settled :=
      recorded_invariant (I := fun _ h => Trail.Settled h) hmove hpaid hrun hnone
    have hall : ∀ st ∈ (trail cfg session as).discarded, st.creditedBytes = st.carried :=
      fun st hst => le_antisymm (hi.dropped st hst) (hsettled st hst)
    refine ⟨hall, ?_⟩
    rw [hi.paid, List.map_congr_left hall]

/-- A session is flushed, closed, and only then dropped. -/
def closedThenDropped : List Action :=
  [.coverage (.node "W") true (sampleBody "w1" "relay:a" "W") 1000,
    .upgrade (.node "W") (.expertRelay "a"), .relayBytes "a" .ws2tcp 500, .flush,
    .relayBytes "a" .tcp2ws 700, .relayClosed "a" 2000, .demand .service true "" 200000]

theorem relayed_bytes_paid_once_closed :
    ∃ s, runs (step sampleConfig) State.empty closedThenDropped = some s ∧
      (trail sampleConfig "a" closedThenDropped).discarded = [⟨2000, 500, 700, 700⟩] ∧
      s.paid "a" = 700 := by
  obtain ⟨s, hrun, -⟩ := runs_exists (step sampleConfig) State.empty closedThenDropped
    (fun _ => true) (by decide +kernel)
  have htrail : trail sampleConfig "a" closedThenDropped = ⟨[⟨2000, 500, 700, 700⟩], 0⟩ := by
    decide +kernel
  obtain ⟨-, hall⟩ := relayed_bytes_paid_once sampleConfig closedThenDropped s hrun "a"
  have hpaid := (hall (by decide +kernel)).2
  rw [htrail] at hpaid
  exact ⟨s, hrun, by rw [htrail], hpaid⟩

/-- A worker falls silent while its relay carries on, and the next poll drops it. -/
def droppedUnpaid : List Action :=
  [.coverage (.node "W") true (sampleBody "w1" "relay:a" "W") 1000,
    .upgrade (.node "W") (.expertRelay "a"), .relayBytes "a" .ws2tcp 500,
    .demand .service true "" 200000]

theorem dropped_bytes_unpaid :
    ∃ s, runs (step sampleConfig) State.empty droppedUnpaid = some s ∧
      (trail sampleConfig "a" droppedUnpaid).discarded = [⟨0, 500, 0, 0⟩] ∧ s.paid "a" = 0 ∧
      ¬ s.paid "a" = ((trail sampleConfig "a" droppedUnpaid).discarded.map Stats.carried).sum +
        (trail sampleConfig "a" droppedUnpaid).flushed := by
  obtain ⟨s, hrun, hp⟩ := runs_exists (step sampleConfig) State.empty droppedUnpaid
    (fun s => decide (s.paid "a" = 0)) (by decide +kernel)
  have htrail : trail sampleConfig "a" droppedUnpaid = ⟨[⟨0, 500, 0, 0⟩], 0⟩ := by
    decide +kernel
  have hpaid : s.paid "a" = 0 := of_decide_eq_true hp
  refine ⟨s, hrun, by rw [htrail], hpaid, ?_⟩
  rw [hpaid, htrail]
  decide

end KvasirNet.Market
