import KvasirNet.MarketBytes

/-! Whose a worker is. A worker id is the first caller's who reported it, and a
session is paid to a wallet that reported or dialled it. The bridge keeps no such
record, so it is kept here beside the run. -/
namespace KvasirNet.Market

variable {cfg : Config} {s s' : State} {a : Action}

/-- Who first reported each worker id, and which wallets reported or dialled each
session. -/
structure Provenance where
  registrar : Table WorkerId Who
  dialled : List (Session × Wallet)

def Provenance.empty : Provenance := ⟨∅, []⟩

def Provenance.authenticate (h : Provenance) (who : Who) (session : Option Session) : Provenance :=
  match who.wallet, session with
  | some wallet, some x => { h with dialled := (x, wallet) :: h.dialled }
  | _, _ => h

def Provenance.note (cfg : Config) (s : State) (a : Action) (_ : State) (h : Provenance) :
    Provenance :=
  match a, (react cfg s a).2 with
  | .coverage who _ b _, .covered _ _ _ session =>
    let registrar := if b.workerId ∈ h.registrar then h.registrar
      else h.registrar.insert b.workerId who
    Provenance.authenticate { h with registrar := registrar } who session
  | .upgrade who _, .relay session _ => h.authenticate who (some session)
  | _, _ => h

/-- The bridge with the provenance kept beside it. -/
def watched (cfg : Config) : State × Provenance → Action → Option (State × Provenance) :=
  beside (step cfg) (Provenance.note cfg)

/-! ## The condition -/

def Action.who : Action → Who
  | .demand who .. | .volunteer who .. | .coverage who .. | .upgrade who .. => who
  | .relayBytes .. | .relayClosed .. | .flush => .none

def Action.nowMs : Action → Option ℕ
  | .demand _ _ _ now | .volunteer _ _ _ _ _ now | .coverage _ _ _ now | .relayClosed _ now =>
    some now
  | .upgrade .. | .relayBytes .. | .flush => none

/-- The caller reports a worker and a session of its own, and names no other
owner; a session of a stale worker is up for taking. -/
def ownReport (h : Provenance) (s : State) (who : Who) (b : CoverageBody) (now : ℕ) : Bool :=
  ((h.registrar.lookup b.workerId).all fun first => first == who) &&
  (b.owner == "" || some b.owner == who.wallet) &&
  ((relaySession b.url b.workerId).bind s.relayTargets.lookup).all fun t =>
    s.staleWorker now t.nodeId || h.registrar.lookup t.nodeId == some who

/-- A dial finds an owner, or the worker is the caller's or the service's. -/
def ownDial (h : Provenance) (s : State) (who : Who) (session : Session) : Bool :=
  (s.relayTargets.lookup session).all fun t =>
    t.owner != "" || h.registrar.lookup t.nodeId == some who ||
      h.registrar.lookup t.nodeId == some .service

/-- A flush finds an owner wherever something is due. -/
def ownedDue (s : State) : Bool :=
  s.relayStats.entries.all fun e =>
    (s.relayTargets.lookup e.1).all fun t =>
      t.owner != "" || decide (e.2.carried ≤ e.2.creditedBytes)

def minding (x : State × Provenance) : Action → Bool
  | .coverage who _ b now => ownReport x.2 x.1 who b now
  | .upgrade who path => ownDial x.2 x.1 who path.session
  | .relayClosed .. | .flush => ownedDue x.1
  | .demand .. | .volunteer .. | .relayBytes .. => true

/-! ## What others keep -/

/-- The worker's record, its port and its targets are as they were. -/
structure Untouched (id : WorkerId) (s s' : State) : Prop where
  worker : s'.workers.lookup id = s.workers.lookup id
  port : s'.ports.lookup id = s.ports.lookup id
  target : ∀ session t, t.nodeId = id →
    (s'.relayTargets.lookup session = some t ↔ s.relayTargets.lookup session = some t)

theorem Untouched.refl (id : WorkerId) (s : State) : Untouched id s s :=
  ⟨rfl, rfl, fun _ _ _ => Iff.rfl⟩

theorem Untouched.trans {id : WorkerId} {s₁ s₂ s₃ : State} (h₁ : Untouched id s₁ s₂)
    (h₂ : Untouched id s₂ s₃) : Untouched id s₁ s₃ where
  worker := h₂.worker.trans h₁.worker
  port := h₂.port.trans h₁.port
  target session t ht := (h₂.target session t ht).trans (h₁.target session t ht)

theorem Untouched.of_eq {id : WorkerId} (hw : s'.workers = s.workers) (hp : s'.ports = s.ports)
    (ht : s'.relayTargets = s.relayTargets) : Untouched id s s' :=
  ⟨by rw [hw], by rw [hp], fun _ _ _ => by rw [ht]⟩

theorem filter_fresh {α : Type*} {p : α → Bool} {o : Option α} (h : o.any p = false) :
    (o.filter fun x => !p x) = o := by
  cases o with
  | none => rfl
  | some x =>
    rw [Option.any_some] at h
    rw [Option.filter_some, h]
    rfl

variable {now : ℕ}

theorem Untouched.evict {id : WorkerId} (hfresh : s.staleWorker now id = false) :
    Untouched id s (s.evict now) where
  worker := by
    rw [lookup_evict_workers]
    exact filter_fresh hfresh
  port := by
    rw [lookup_evict_ports, hfresh]
    cases s.ports.lookup id <;> rfl
  target session t ht := by
    rw [lookup_evict_targets, Option.filter_eq_some_iff, ht, hfresh]
    simp

theorem Untouched.census {id : WorkerId} (hfresh : s.staleWorker now id = false)
    (x : WorkerId) : Untouched id s (s.census now x) := by
  unfold State.census
  split_ifs
  · exact Untouched.refl id s
  · exact Untouched.evict hfresh

theorem Untouched.record {id x : WorkerId} {who : Who} {w : Worker} (hx : id ≠ x)
    (htake : ∀ session t, s.rewires x w.url session = true →
      s.relayTargets.lookup session = some t → t.nodeId ≠ id) :
    Untouched id s (s.record cfg who x w).1 := by
  obtain ⟨hworkers, -, -, -, hports, htargets⟩ := record_spec cfg s who x w
  refine ⟨by rw [hworkers, AList.lookup_insert_ne hx], hports id hx, fun session t ht => ?_⟩
  rw [htargets]
  cases hre : s.rewires x w.url session with
  | true =>
    rw [if_pos rfl]
    constructor
    · intro h
      obtain rfl := Option.some.inj h
      exact absurd ht.symm hx
    · intro h
      exact absurd ht (htake session t hre h)
  | false => rw [if_neg Bool.false_ne_true]

theorem Untouched.fresh {id : WorkerId} (h : Untouched id s s')
    (hfresh : s.staleWorker now id = false) : s'.staleWorker now id = false := by
  unfold State.staleWorker at hfresh ⊢
  rw [h.worker]
  exact hfresh

theorem nowMs_of_polls (h : a.polls cfg = some now) : a.nowMs = some now := by
  cases a with
  | demand who allowed want nowMs | volunteer who allowed isFrozen want maxExperts nowMs =>
    simp only [Action.polls] at h
    split_ifs at h
    exact h
  | coverage | upgrade | relayBytes | relayClosed | flush => cases h

variable {h : Provenance} {A B : Wallet} {id : WorkerId}

variable {b : CoverageBody}

theorem ownReport_ne (hown : ownReport h s (.node A) b now = true)
    (hreg : h.registrar.lookup id = some (.node B)) (hne : B ≠ A) : id ≠ b.workerId := by
  rintro rfl
  simp only [ownReport, hreg, Bool.and_eq_true, Option.all_some, beq_iff_eq, Who.node.injEq] at hown
  exact hne hown.1.1

variable {session : Session}

theorem ownReport_take {t : Target}
    (hown : ownReport h s (.node A) b now = true)
    (hreg : h.registrar.lookup id = some (.node B)) (hne : B ≠ A)
    (hfresh : s.staleWorker now id = false)
    (hs : relaySession b.url b.workerId = some session)
    (ht : s.relayTargets.lookup session = some t) : t.nodeId ≠ id := by
  rintro rfl
  simp only [ownReport, hs, Option.bind_some, ht, Bool.and_eq_true, Option.all_some, hfresh,
    Bool.false_or, hreg, beq_iff_eq, Option.some.injEq, Who.node.injEq] at hown
  exact hne hown.2

theorem Move.untouched (hm : Move cfg s a s') (hmind : minding (s, h) a = true)
    (hwho : a.who = .node A) (hreg : h.registrar.lookup id = some (.node B)) (hne : B ≠ A)
    (hfresh : ∀ now, a.nowMs = some now → s.staleWorker now id = false) : Untouched id s s' := by
  cases hm with
  | refused => exact Untouched.refl id s
  | polled _ now polls =>
    have hevict := Untouched.evict (hfresh now (nowMs_of_polls polls))
    exact hevict.trans (Untouched.of_eq rfl rfl rfl)
  | volunteered who allowed want maxExperts now s₁ model layer experts passed swept =>
    obtain ⟨hworkers, hports, htargets⟩ :=
      claim_tables cfg s₁ now (who.wallet.getD "") model layer experts
    have hclaim : Untouched id s₁ (s₁.claim cfg now (who.wallet.getD "") model layer experts) :=
      Untouched.of_eq hworkers hports htargets
    rcases swept with rfl | ⟨rfl, -⟩
    · exact hclaim
    · have hsweep : Untouched id s (s.sweep now) :=
        (Untouched.evict (hfresh now rfl)).trans (Untouched.of_eq rfl rfl rfl)
      exact hsweep.trans hclaim
  | full who allowed b now => exact Untouched.evict (hfresh now rfl)
  | reported who allowed b now passed complete =>
    obtain rfl : who = .node A := hwho
    have hown : ownReport h s (.node A) b now = true := hmind
    have hcensus := Untouched.census (hfresh now rfl) b.workerId
    have hrecord : Untouched id s ((s.census now b.workerId).record cfg (.node A) b.workerId
        (reportedWorker (s.workers.lookup b.workerId) b now)).1 := by
      apply hcensus.trans
      apply Untouched.record (ownReport_ne hown hreg hne)
      intro session t hre ht
      have hs : relaySession b.url b.workerId = some session :=
        of_decide_eq_true (Bool.and_eq_true_iff.mp hre).1
      exact ownReport_take hown hreg hne (hfresh now rfl) hs (census_targets ht)
    exact hrecord.trans (Untouched.evict (hrecord.fresh (hfresh now rfl)))
  | dialled who path t known target =>
    obtain rfl : who = .node A := hwho
    have hown : ownDial h s (.node A) path.session = true := hmind
    refine ⟨rfl, rfl, fun session u hu => ?_⟩
    by_cases hx : session = path.session
    · subst hx
      rw [AList.lookup_insert, target, Option.some.injEq, Option.some.injEq]
      by_cases hid : t.nodeId = id
      · -- the target has its owner already
        subst hid
        simp only [ownDial, target, Option.all_some, hreg, Bool.or_eq_true, bne_iff_ne, ne_eq,
          beq_iff_eq, Option.some.injEq, Who.node.injEq, hne, or_false, reduceCtorEq] at hown
        rw [orText, if_neg hown]
      · constructor
        · rintro rfl
          exact absurd hu hid
        · rintro rfl
          exact absurd hu hid
    · rw [AList.lookup_insert_ne hx]
  | carried | closed | flushed => cases hwho

/-! ## Claims -/

theorem Move.claims (hm : Move cfg s a s') (hwho : a.who = .node A) {c : Claim} (hc : c.owner ≠ A)
    (hlive : ∀ now ts, a.nowMs = some now → s.pending.lookup c = some ts →
      now ≤ ts + pendingAssignmentMs) : s'.pending.lookup c = s.pending.lookup c := by
  have hsweep (now : ℕ) (hnow : a.nowMs = some now) :
      (s.sweep now).pending.lookup c = s.pending.lookup c := by
    have hkeep : (s.sweep now).pending.lookup c =
        (s.pending.lookup c).filter fun ts => decide (now ≤ ts + pendingAssignmentMs) :=
      Table.lookup_keep _ _ _
    rw [hkeep]
    cases hts : s.pending.lookup c with
    | none => rfl
    | some ts => rw [Option.filter_some, if_pos (decide_eq_true (hlive now ts hnow hts))]
  cases hm with
  | refused => rfl
  | polled _ now polls => exact hsweep now (nowMs_of_polls polls)
  | volunteered who allowed want maxExperts now s₁ model layer experts passed swept =>
    obtain rfl : who = .node A := hwho
    have hclaim : (s₁.claim cfg now A model layer experts).pending.lookup c =
        s₁.pending.lookup c := by
      unfold State.claim
      split_ifs
      · rfl
      · apply AList.lookup_insert_ne
        rintro rfl
        exact hc rfl
    rcases swept with rfl | ⟨rfl, -⟩
    · exact hclaim
    · exact hclaim.trans (hsweep now rfl)
  | full who allowed b now => rfl
  | reported who allowed b now passed complete =>
    obtain rfl : who = .node A := hwho
    have hcensus : (s.census now b.workerId).pending = s.pending := by
      unfold State.census
      split_ifs <;> rfl
    -- a report settles claims of its own wallet only
    have hsettle (s₁ : State) (model : String) (segments : List Segment) :
        (s₁.settle cfg A model segments).pending.lookup c = s₁.pending.lookup c := by
      unfold State.settle
      split_ifs
      · rfl
      · rw [Table.lookup_keep]
        simp only [beq_eq_false_iff_ne.mpr hc, Bool.false_and, Bool.not_false]
        cases s₁.pending.lookup c <;> rfl
    have hrecord := (record_spec cfg (s.census now b.workerId) (.node A) b.workerId
      (reportedWorker (s.workers.lookup b.workerId) b now)).2.1
    change ((s.census now b.workerId).record cfg (.node A) b.workerId
      (reportedWorker (s.workers.lookup b.workerId) b now)).1.pending.lookup c = _
    rw [hrecord, Who.wallet, Option.getD_some, hsettle, hcensus]
  | dialled => rfl
  | carried | closed | flushed => cases hwho

/-! ## Attribution -/

structure Attributed (s : State) (h : Provenance) : Prop where
  worker : ∀ id w, s.workers.lookup id = some w →
    w.owner = "" ∨ h.registrar.lookup id = some (.node w.owner)
  target : ∀ session t, s.relayTargets.lookup session = some t →
    t.owner = "" ∨ (session, t.owner) ∈ h.dialled
  credit : ∀ c ∈ s.credits, (c.session, c.owner) ∈ h.dialled

theorem Attributed.empty : Attributed State.empty Provenance.empty := by
  constructor <;> intros <;> simp_all [State.empty]

theorem Attributed.shrink (hi : Attributed s h)
    (hw : ∀ id w, s'.workers.lookup id = some w → s.workers.lookup id = some w)
    (ht : ∀ session t, s'.relayTargets.lookup session = some t →
      s.relayTargets.lookup session = some t) (hc : s'.credits = s.credits) : Attributed s' h where
  worker id w h := hi.worker id w (hw id w h)
  target session t h := hi.target session t (ht session t h)
  credit c h := hi.credit c (hc ▸ h)

theorem Attributed.evict (hi : Attributed s h) (now : ℕ) : Attributed (s.evict now) h := by
  refine hi.shrink (fun id w hid => ?_) (fun session t hs => ?_) rfl
  · rw [lookup_evict_workers, Option.filter_eq_some_iff] at hid
    exact hid.1
  · rw [lookup_evict_targets, Option.filter_eq_some_iff] at hs
    exact hs.1

theorem Attributed.sweep (hi : Attributed s h) (now : ℕ) : Attributed (s.sweep now) h :=
  (hi.evict now).shrink (fun _ _ h => h) (fun _ _ h => h) rfl

theorem Attributed.census (hi : Attributed s h) (now : ℕ) (x : WorkerId) :
    Attributed (s.census now x) h := by
  unfold State.census
  split_ifs
  · exact hi
  · exact hi.evict now

structure Provenance.Extends (h h' : Provenance) : Prop where
  registrar : ∀ id who, h.registrar.lookup id = some who → h'.registrar.lookup id = some who
  dialled : ∀ x, x ∈ h.dialled → x ∈ h'.dialled

theorem Attributed.extend {h' : Provenance} (hi : Attributed s h) (he : h.Extends h') :
    Attributed s h' where
  worker id w hid := (hi.worker id w hid).imp_right (he.registrar id _)
  target session t hs := (hi.target session t hs).imp_right (he.dialled _)
  credit c hc := he.dialled _ (hi.credit c hc)

/-- After a granted report the worker has a registrar, and the session it names
has the reporter among its wallets. -/
def Provenance.afterReport (h : Provenance) (who : Who) (b : CoverageBody) : Provenance :=
  Provenance.authenticate
    { h with registrar := if b.workerId ∈ h.registrar then h.registrar
        else h.registrar.insert b.workerId who } who (relaySession b.url b.workerId)

theorem authenticate_registrar (h : Provenance) (who : Who) (session : Option Session) :
    (h.authenticate who session).registrar = h.registrar := by
  unfold Provenance.authenticate
  split <;> rfl

theorem authenticate_dialled (h : Provenance) (who : Who) (session : Option Session)
    (x : Session × Wallet) :
    x ∈ (h.authenticate who session).dialled ↔
      (session = some x.1 ∧ who.wallet = some x.2) ∨ x ∈ h.dialled := by
  obtain ⟨y, wallet⟩ := x
  unfold Provenance.authenticate
  cases hw : who.wallet with
  | none => simp
  | some v =>
    cases session with
    | none => simp
    | some z => simp [eq_comm]

theorem afterReport_extends (h : Provenance) (who : Who) (b : CoverageBody) :
    h.Extends (h.afterReport who b) where
  registrar id first hid := by
    rw [Provenance.afterReport, authenticate_registrar]
    dsimp only
    split_ifs with hmem
    · exact hid
    · rw [AList.lookup_insert_ne, hid]
      rintro rfl
      exact hmem (AList.lookup_isSome.mp (by rw [hid]; rfl))
  dialled x hx := by
    rw [Provenance.afterReport, authenticate_dialled]
    exact Or.inr hx

theorem afterReport_registrar {who : Who}
    (hfirst : ∀ first, h.registrar.lookup b.workerId = some first → first = who) :
    (h.afterReport who b).registrar.lookup b.workerId = some who := by
  rw [Provenance.afterReport, authenticate_registrar]
  dsimp only
  split_ifs with hmem
  · obtain ⟨first, hsome⟩ := Option.isSome_iff_exists.mp (AList.lookup_isSome.mpr hmem)
    rw [hsome, hfirst first hsome]
  · exact AList.lookup_insert _

theorem orText_cases (x y : String) : orText x y = x ∧ x ≠ "" ∨ x = "" ∧ orText x y = y := by
  unfold orText
  split_ifs with hx
  · exact Or.inr ⟨hx, rfl⟩
  · exact Or.inl ⟨rfl, hx⟩

theorem reportedWorker_owner {who : Who} (hi : Attributed s h)
    (hown : ownReport h s who b now = true) :
    (reportedWorker (s.workers.lookup b.workerId) b now).owner = "" ∨
      who = .node (reportedWorker (s.workers.lookup b.workerId) b now).owner := by
  simp only [ownReport, Bool.and_eq_true, Bool.or_eq_true, beq_iff_eq] at hown
  obtain ⟨⟨hfirst, howner⟩, -⟩ := hown
  have hwallet {v : Wallet} (h : some v = who.wallet) : who = .node v := by
    cases who with
    | node u =>
      obtain rfl := Option.some.inj h
      rfl
    | service | none => cases h
  simp only [reportedWorker]
  rcases orText_cases b.owner ((Option.map Worker.owner (s.workers.lookup b.workerId)).getD "")
    with ⟨he, hne⟩ | ⟨-, he⟩
  · rw [he]
    rcases howner with hempty | hsame
    · exact absurd hempty hne
    · exact Or.inr (hwallet hsame)
  · rw [he]
    cases hw : s.workers.lookup b.workerId with
    | none => exact Or.inl rfl
    | some w =>
      rcases hi.worker _ w hw with hempty | hreg
      · exact Or.inl hempty
      · -- the worker on record is its registrar's, and that is the reporter
        rw [hreg, Option.all_some, beq_iff_eq] at hfirst
        exact Or.inr hfirst.symm

theorem Attributed.report {who : Who} (hi : Attributed s h)
    (hown : ownReport h s who b now = true) :
    Attributed (((s.census now b.workerId).record cfg who b.workerId
      (reportedWorker (s.workers.lookup b.workerId) b now)).1.evict now) (h.afterReport who b) := by
  have hfirst : ∀ first, h.registrar.lookup b.workerId = some first → first = who := by
    intro first hreg
    simp only [ownReport, Bool.and_eq_true, hreg, Option.all_some, beq_iff_eq] at hown
    exact hown.1.1
  have howner := reportedWorker_owner hi hown
  have hs := (hi.census now b.workerId).extend (afterReport_extends h who b)
  apply Attributed.evict
  obtain ⟨hworkers, -, -, hcredits, -, htargets⟩ := record_spec cfg (s.census now b.workerId) who
    b.workerId (reportedWorker (s.workers.lookup b.workerId) b now)
  refine ⟨fun id w hid => ?_, fun session t ht => ?_, fun c hc => ?_⟩
  · rw [hworkers] at hid
    by_cases hx : id = b.workerId
    · subst hx
      rw [AList.lookup_insert] at hid
      obtain rfl := Option.some.inj hid
      refine howner.imp_right fun hwho => ?_
      rw [afterReport_registrar hfirst, ← hwho]
    · rw [AList.lookup_insert_ne hx] at hid
      exact hs.worker id w hid
  · rw [htargets] at ht
    cases hre : (s.census now b.workerId).rewires b.workerId
        (reportedWorker (s.workers.lookup b.workerId) b now).url session with
    | false =>
      rw [hre, if_neg Bool.false_ne_true] at ht
      exact hs.target session t ht
    | true =>
      rw [hre, if_pos rfl] at ht
      obtain rfl := Option.some.inj ht
      have hnamed : relaySession b.url b.workerId = some session :=
        of_decide_eq_true (Bool.and_eq_true_iff.mp hre).1
      simp only [relayTarget]
      rcases orText_cases (reportedWorker (s.workers.lookup b.workerId) b now).owner
          ((((s.census now b.workerId).relayTargets.lookup session).map Target.owner).getD "")
        with ⟨he, hne⟩ | ⟨-, he⟩
      · -- the reporter is the owner, and has named the session just now
        rw [he]
        refine Or.inr ?_
        rw [Provenance.afterReport, authenticate_dialled]
        exact Or.inl ⟨hnamed, by rw [howner.resolve_left hne]; rfl⟩
      · rw [he]
        cases hprior : (s.census now b.workerId).relayTargets.lookup session with
        | none => exact Or.inl rfl
        | some prior => exact hs.target session prior hprior
  · rw [hcredits] at hc
    exact hs.credit c hc

theorem Attributed.dial {who : Who} {t : Target} (hi : Attributed s h)
    (ht : s.relayTargets.lookup session = some t) :
    Attributed { s with
        relayTargets := s.relayTargets.insert session
          { t with owner := orText t.owner (who.wallet.getD "") } }
      (h.authenticate who (some session)) := by
  have hs : Attributed s (h.authenticate who (some session)) := by
    refine hi.extend ⟨fun id first hid => ?_, fun x hx => ?_⟩
    · rwa [authenticate_registrar]
    · rw [authenticate_dialled]
      exact Or.inr hx
  refine ⟨hs.worker, fun x u hu => ?_, hs.credit⟩
  by_cases hx : x = session
  · subst hx
    rw [AList.lookup_insert] at hu
    obtain rfl := Option.some.inj hu
    dsimp only
    rcases orText_cases t.owner (who.wallet.getD "") with ⟨he, hne⟩ | ⟨-, he⟩
    · rw [he]
      exact hs.target x t ht
    · rw [he, authenticate_dialled]
      cases hw : who.wallet with
      | none => exact Or.inl rfl
      | some wallet => exact Or.inr (Or.inl ⟨rfl, rfl⟩)
  · rw [AList.lookup_insert_ne hx] at hu
    exact hs.target x u hu

theorem due_owner {st : Stats} {c : Credit} (hdue : s.due session st = some c) :
    ∃ t, s.relayTargets.lookup session = some t ∧ c.session = session ∧ c.owner = t.owner ∧
      st.creditedBytes < st.carried := by
  unfold State.due at hdue
  split at hdue
  · cases hdue
  · rename_i t ht
    split_ifs at hdue with hle
    obtain rfl := Option.some.inj hdue
    exact ⟨t, ht, rfl, rfl, Nat.not_le.mp hle⟩

theorem Attributed.flush (hi : Attributed s h) (hown : ownedDue s = true) :
    Attributed (flushContributions s) h := by
  refine ⟨hi.worker, hi.target, fun c hc => ?_⟩
  rcases List.mem_append.mp hc with hnew | hold
  · obtain ⟨⟨session, st⟩, hentry, hdue⟩ := List.mem_filterMap.mp (List.mem_reverse.mp hnew)
    obtain ⟨t, ht, hsession, howner, hlt⟩ := due_owner hdue
    have hset := List.all_eq_true.mp hown _ hentry
    rw [ht, Option.all_some, Bool.or_eq_true, bne_iff_ne, decide_eq_true_iff] at hset
    rw [hsession, howner]
    have hne : t.owner ≠ "" := hset.resolve_right (Nat.not_le.mpr hlt)
    exact (hi.target session t ht).resolve_left hne
  · exact hi.credit c hold

theorem closed_entries (s : State) (x : Session) (now : ℕ) :
    ∃ s₁, noteRelayClosed s x now = flushContributions s₁ ∧ s₁.workers = s.workers ∧
      s₁.relayTargets = s.relayTargets ∧ s₁.credits = s.credits ∧
      (ownedDue s = true → ownedDue s₁ = true) := by
  unfold noteRelayClosed
  cases hx : s.relayStats.lookup x with
  | none => exact ⟨s, rfl, rfl, rfl, rfl, fun h => h⟩
  | some st =>
    refine ⟨_, rfl, rfl, rfl, rfl, fun hown => ?_⟩
    apply List.all_eq_true.mpr
    rintro ⟨session, st'⟩ hentry
    rw [Table.mem_entries_iff] at hentry
    by_cases hs : session = x
    · -- closing leaves the counters
      subst hs
      rw [AList.lookup_insert] at hentry
      obtain rfl := Option.some.inj hentry
      exact List.all_eq_true.mp hown ⟨session, st⟩ ((Table.mem_entries_iff _ _ _).mpr hx)
    · rw [AList.lookup_insert_ne hs] at hentry
      exact List.all_eq_true.mp hown ⟨session, st'⟩ ((Table.mem_entries_iff _ _ _).mpr hentry)

/-! ## Steps and runs -/

theorem wire_session (s : State) (x : WorkerId) (w : Worker) :
    (s.wire x w).2.2 = relaySession w.url x := by
  unfold State.wire
  cases relaySession w.url x with
  | none => rfl
  | some session =>
    rcases portFor_cases s x with ⟨port, -, he⟩ | ⟨port, -, -, he⟩ | he
    · rw [he]
    · rw [he]
    · rw [he]

theorem record_session (cfg : Config) (s : State) (who : Who) (x : WorkerId) (w : Worker) :
    (s.record cfg who x w).2.2 = relaySession w.url x := wire_session _ x w

theorem coverageReport_cases (cfg : Config) (s : State) (now : ℕ) (who : Who) (b : CoverageBody) :
    (∃ e, coverageReport cfg s now who b = (s, .refused e)) ∨
    (∃ e, coverageReport cfg s now who b = (s.evict now, .refused e)) ∨
    ∃ n wired port, coverageReport cfg s now who b =
      (((s.census now b.workerId).record cfg who b.workerId
        (reportedWorker (s.workers.lookup b.workerId) b now)).1.evict now,
        .covered n wired port (relaySession b.url b.workerId)) := by
  unfold coverageReport
  split_ifs with hrequired
  · exact Or.inl ⟨_, rfl⟩
  · dsimp only
    split_ifs with hfull
    · have hnew : (s.workers.lookup b.workerId).isSome = false := by simpa using hfull.1
      refine Or.inr (Or.inl ⟨.censusFull, ?_⟩)
      simp only [State.census, hnew, Bool.false_eq_true, if_false]
    · have hsession := record_session cfg (s.census now b.workerId) who b.workerId
        (reportedWorker (s.workers.lookup b.workerId) b now)
      rw [hsession]
      exact Or.inr (Or.inr ⟨_, _, _, rfl⟩)

theorem resolveUpgrade_cases (s : State) (who : Who) (path : Path) :
    (∃ e, resolveUpgrade s who path = (s, .refused e)) ∨
    ∃ t, s.relayTargets.lookup path.session = some t ∧ who ≠ .none ∧
      resolveUpgrade s who path =
        ({ s with
            relayTargets := s.relayTargets.insert path.session
              { t with owner := orText t.owner (who.wallet.getD "") } },
          .relay path.session t.port) := by
  unfold resolveUpgrade
  split_ifs with hwho
  · exact Or.inl ⟨_, rfl⟩
  · cases ht : s.relayTargets.lookup path.session with
    | none =>
      simp only [State.dial, ht, Option.map_none]
      cases path with
      | expertRelay | ringRelay => exact Or.inl ⟨_, rfl⟩
    | some t =>
      simp only [State.dial, ht, Option.map_some]
      exact Or.inr ⟨t, rfl, hwho, rfl⟩

theorem Attributed.quiet (hi : Attributed s h) (hm : Move cfg s a s')
    (hnone : ∀ who allowed b now, a ≠ .coverage who allowed b now) (hdial : ∀ who path, a ≠ .upgrade who path)
    (hquiet : a.flushes = false) : Attributed s' h := by
  cases hm with
  | refused => exact hi
  | polled _ now => exact hi.sweep now
  | volunteered who allowed want maxExperts now s₁ model layer experts passed swept =>
    have hs₁ : Attributed s₁ h := by
      rcases swept with rfl | ⟨rfl, -⟩
      · exact hi
      · exact hi.sweep now
    obtain ⟨hworkers, -, htargets⟩ := claim_tables cfg s₁ now (who.wallet.getD "") model layer experts
    refine hs₁.shrink (fun _ _ h => hworkers ▸ h) (fun _ _ h => htargets ▸ h) ?_
    exact (claim_money cfg s₁ now (who.wallet.getD "") model layer experts).1
  | full who allowed b now => exact absurd rfl (hnone who allowed b now)
  | reported who allowed b now => exact absurd rfl (hnone who allowed b now)
  | dialled who path => exact absurd rfl (hdial who path)
  | carried => exact hi.shrink (fun _ _ h => h) (fun _ _ h => h) rfl
  | closed | flushed => cases hquiet

theorem Attributed.react (hi : Attributed s h) (hmind : minding (s, h) a = true) :
    Attributed (react cfg s a).1 (h.note cfg s a (react cfg s a).1) := by
  have hm := react_move cfg s a
  cases a with
  | demand | volunteer | relayBytes =>
    exact hi.quiet hm (fun _ _ _ _ => Action.noConfusion) (fun _ _ => Action.noConfusion) rfl
  | coverage who allowed b now =>
    simp only [Market.react, Provenance.note]
    cases needsNode who allowed with
    | error e => exact hi
    | ok =>
      dsimp only
      rcases coverageReport_cases cfg s now who b with ⟨e, he⟩ | ⟨e, he⟩ | ⟨n, wired, port, he⟩
      · rw [he]
        exact hi
      · rw [he]
        exact hi.evict now
      · rw [he]
        exact hi.report hmind
  | upgrade who path =>
    simp only [Market.react, Provenance.note]
    rcases resolveUpgrade_cases s who path with ⟨e, he⟩ | ⟨t, ht, -, he⟩
    · rw [he]
      exact hi
    · rw [he]
      exact hi.dial ht
  | relayClosed x now =>
    obtain ⟨s₁, he, hworkers, htargets, hcredits, hown⟩ := closed_entries s x now
    have hs₁ : Attributed s₁ h :=
      hi.shrink (fun _ _ h => hworkers ▸ h) (fun _ _ h => htargets ▸ h) hcredits
    change Attributed (noteRelayClosed s x now) h
    rw [he]
    exact hs₁.flush (hown hmind)
  | flush => exact hi.flush hmind

theorem earnings_kept_apart (cfg : Config) (as : List Action) (s : State) (h : Provenance)
    (hrun : runs (watched cfg) (State.empty, Provenance.empty) as = some (s, h))
    (hmind : Along (watched cfg) (fun x a => minding x a = true) (State.empty, Provenance.empty) as) :
    runs (step cfg) State.empty as = some s ∧
    (∀ c ∈ s.credits, (c.session, c.owner) ∈ h.dialled) ∧
    ∀ before a after s₁ h₁ A, as = before ++ a :: after →
      runs (watched cfg) (State.empty, Provenance.empty) before = some (s₁, h₁) →
      a.who = .node A →
      (∀ id B, h₁.registrar.lookup id = some (.node B) → B ≠ A →
        (∀ now, a.nowMs = some now → s₁.staleWorker now id = false) →
        Untouched id s₁ (react cfg s₁ a).1) ∧
      ∀ c : Claim, c.owner ≠ A →
        (∀ now ts, a.nowMs = some now → s₁.pending.lookup c = some ts →
          now ≤ ts + pendingAssignmentMs) →
        (react cfg s₁ a).1.pending.lookup c = s₁.pending.lookup c := by
  have hstep (x : State × Provenance) (a : Action) (x' : State × Provenance)
      (hm : minding x a = true) (hi : Attributed x.1 x.2) (hx : watched cfg x a = some x') :
      Attributed x'.1 x'.2 := by
    obtain ⟨s, h⟩ := x
    obtain rfl : ((react cfg s a).1, h.note cfg s a (react cfg s a).1) = x' := Option.some.inj hx
    exact hi.react hm
  have hi : Attributed s h :=
    runs_invariant (I := fun x : State × Provenance => Attributed x.1 x.2) hstep hmind hrun
      Attributed.empty
  refine ⟨runs_beside hrun, hi.credit, fun before a after s₁ h₁ A has hbefore hwho => ?_⟩
  subst has
  have ha : minding (s₁, h₁) a = true :=
    Along.after (P := fun x a => minding x a = true) before hmind hbefore
  have hm := react_move cfg s₁ a
  exact ⟨fun id B hreg hne hfresh => hm.untouched ha hwho hreg hne hfresh,
    fun c hc hlive => hm.claims hwho hc hlive⟩

/-- Two wallets keep to their own workers, and the second one is paid. -/
def twoWallets : List Action :=
  [.coverage (.node "W") true (sampleBody "w1" "relay:a" "W") 1000,
    .coverage (.node "V") true (sampleBody "w2" "relay:b" "") 2000,
    .upgrade (.node "V") (.expertRelay "b"), .relayBytes "b" .ws2tcp 500, .flush,
    .coverage (.node "V") true (sampleBody "w2" "relay:b" "") 3000]

theorem earnings_kept_apart_two :
    ∃ s h s₁ h₁, runs (watched sampleConfig) (State.empty, Provenance.empty) twoWallets = some (s, h) ∧
      runs (watched sampleConfig) (State.empty, Provenance.empty) (twoWallets.take 5) =
        some (s₁, h₁) ∧
      s.credits = [⟨"b", "w2", 500, "V", "m", Platform.unsaid⟩] ∧ ("b", "V") ∈ h.dialled ∧
      Untouched "w1" s₁
        (react sampleConfig s₁ (.coverage (.node "V") true (sampleBody "w2" "relay:b" "") 3000)).1 := by
  obtain ⟨⟨s, h⟩, hrun, hp⟩ := runs_exists (watched sampleConfig) (State.empty, Provenance.empty)
    twoWallets (fun x => decide (x.1.credits = [⟨"b", "w2", 500, "V", "m", Platform.unsaid⟩]))
    (by decide +kernel)
  obtain ⟨⟨s₁, h₁⟩, hbefore, hp₁⟩ := runs_exists (watched sampleConfig)
    (State.empty, Provenance.empty) (twoWallets.take 5)
    (fun x => decide (x.2.registrar.lookup "w1" = some (.node "W") ∧
      x.1.staleWorker 3000 "w1" = false)) (by decide +kernel)
  have hcredits : s.credits = [⟨"b", "w2", 500, "V", "m", Platform.unsaid⟩] := of_decide_eq_true hp
  obtain ⟨hreg, hfresh⟩ := of_decide_eq_true hp₁
  obtain ⟨-, hcredit, hothers⟩ := earnings_kept_apart sampleConfig twoWallets s h hrun
    (by decide +kernel)
  refine ⟨s, h, s₁, h₁, hrun, hbefore, hcredits, ?_, ?_⟩
  · exact hcredit ⟨"b", "w2", 500, "V", "m", Platform.unsaid⟩ (by rw [hcredits]; exact List.mem_singleton_self _)
  · refine (hothers (twoWallets.take 5) _ [] s₁ h₁ "V" rfl hbefore rfl).1 "w1" "W" hreg (by decide) ?_
    intro now hnow
    obtain rfl := Option.some.inj hnow
    exact hfresh

/-- A wallet reports a worker; another reports the same id and session, and
names an owner who never called. -/
def takenOver : List Action :=
  [.coverage (.node "W") true (sampleBody "w1" "relay:a" "W") 1000,
    .coverage (.node "V") true (sampleBody "w1" "relay:a" "Z") 2000,
    .upgrade (.node "W") (.expertRelay "a"), .relayBytes "a" .ws2tcp 500, .flush]

theorem takeover_diverts_earnings :
    ∃ s h s₁ h₁, runs (watched sampleConfig) (State.empty, Provenance.empty) takenOver = some (s, h) ∧
      runs (watched sampleConfig) (State.empty, Provenance.empty) (takenOver.take 1) =
        some (s₁, h₁) ∧
      h₁.registrar.lookup "w1" = some (.node "W") ∧ s₁.staleWorker 2000 "w1" = false ∧
      ¬ Untouched "w1" s₁
        (react sampleConfig s₁ (.coverage (.node "V") true (sampleBody "w1" "relay:a" "Z") 2000)).1 ∧
      s.credits = [⟨"a", "w1", 500, "Z", "m", Platform.unsaid⟩] ∧ ("a", "Z") ∉ h.dialled := by
  obtain ⟨⟨s, h⟩, hrun, hp⟩ := runs_exists (watched sampleConfig) (State.empty, Provenance.empty)
    takenOver (fun x => decide (x.1.credits = [⟨"a", "w1", 500, "Z", "m", Platform.unsaid⟩] ∧
      ("a", "Z") ∉ x.2.dialled)) (by decide +kernel)
  obtain ⟨⟨s₁, h₁⟩, hbefore, hp₁⟩ := runs_exists (watched sampleConfig)
    (State.empty, Provenance.empty) (takenOver.take 1)
    (fun x => decide (x.2.registrar.lookup "w1" = some (.node "W") ∧
      x.1.staleWorker 2000 "w1" = false ∧
      (react sampleConfig x.1
        (.coverage (.node "V") true (sampleBody "w1" "relay:a" "Z") 2000)).1.workers.lookup "w1" ≠
          x.1.workers.lookup "w1")) (by decide +kernel)
  obtain ⟨hcredits, hdialled⟩ := of_decide_eq_true hp
  obtain ⟨hreg, hfresh, hchanged⟩ := of_decide_eq_true hp₁
  exact ⟨s, h, s₁, h₁, hrun, hbefore, hreg, hfresh, fun hsame => hchanged hsame.worker, hcredits,
    hdialled⟩

end KvasirNet.Market
