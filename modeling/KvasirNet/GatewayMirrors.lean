import KvasirNet.GatewaySystem
import KvasirNet.GatewayWrites

/-! Propagation of the governed pricing. The source takes the admin changes; the
relays and followers mirror it through pushes and polls, which may arrive late,
more than once and in any order. -/
namespace KvasirNet.Gateway

def handled (cfg : Config) (nowMs : ℕ) (r : SyncRequest) (disk : DB) : DB :=
  match r.apply cfg nowMs (loadDB disk) with
  | .ok out => out.db.getD disk
  | .error _ => disk

theorem step_sync_disk {cfg : Config} {chain : Chain} {s s' : State} {r : SyncRequest} {now : ℕ}
    (h : step cfg chain s (.sync r now) = some s') : s'.disk = handled cfg now r s.disk := by
  cases hr : r.apply cfg now (loadDB s.disk) with
  | ok out =>
    simp only [step, hr] at h
    cases h
    simp [handled, hr]
  | error e =>
    simp only [step, hr] at h
    cases h
    simp [handled, hr]

/-- A relay or a follower: its settings keep the admin out. -/
structure Mirror where
  cfg : Config
  disk : DB
  locked : cfg.isWriteLocked = true

def DB.loadedPricing (db : DB) : LoadedPricing := loadPricing (loadDB db).pricing

def Mirror.pricing (m : Mirror) : LoadedPricing := m.disk.loadedPricing

def Mirror.handle (m : Mirror) (nowMs : ℕ) (r : SyncRequest) : Mirror :=
  { m with disk := handled m.cfg nowMs r m.disk }

/-- The source, its mirrors, and every push and poll answer ever sent. Nothing is
taken out of `sent`, so a message can arrive at any later time, or twice. -/
structure Network where
  source : DB
  mirrors : List Mirror
  sent : List PricePayload

def Network.pricing (n : Network) : LoadedPricing := n.source.loadedPricing

def Network.setMirror (n : Network) (i : ℕ) (m : Mirror) : Network :=
  { n with mirrors := n.mirrors.set i m }

/-- `none` names the source, `some i` the mirror at `i`. -/
inductive NetAction
  | adminPricing (target : Option ℕ) (gate : Option Refusal) (c : PriceChange) (nowMs : ℕ)
  | publish (sender : Option ℕ)
  | deliverPush (receiver message : ℕ) (keyOk : Bool) (nowMs : ℕ)
  | deliverPoll (receiver message : ℕ) (nowMs : ℕ)

/-- `cfg` is the source's configuration. The source publishes when it pushes and
when it is polled, a mirror when it is polled. -/
def netStep (cfg : Config) (n : Network) : NetAction → Option Network
  | .adminPricing none gate c nowMs =>
    some { n with source := handled cfg nowMs (.adminPricing gate c) n.source }
  | .adminPricing (some i) gate c nowMs =>
    n.mirrors[i]?.map fun m => n.setMirror i (m.handle nowMs (.adminPricing gate c))
  | .publish none => some { n with sent := n.sent ++ [n.pricing.payload cfg.genesisWallet] }
  | .publish (some i) =>
    n.mirrors[i]?.map fun m => { n with sent := n.sent ++ [m.pricing.payload m.cfg.genesisWallet] }
  | .deliverPush i k keyOk nowMs =>
    match n.mirrors[i]?, n.sent[k]? with
    | some m, some b => some (n.setMirror i (m.handle nowMs (.pricingPush keyOk b)))
    | _, _ => none
  | .deliverPoll i k nowMs =>
    match n.mirrors[i]?, n.sent[k]? with
    | some m, some b => some (n.setMirror i (m.handle nowMs (.pricingSync b)))
    | _, _ => none

variable {cfg : Config} {n n' : Network} {a : NetAction}

/-- `p` is replaced by a copy of the newer `q`. -/
structure Adopts (p q p' : LoadedPricing) : Prop where
  newer : p.updatedAt < q.updatedAt
  updatedAt : p'.updatedAt = q.updatedAt
  defaults : p'.defaults = q.defaults
  perModel : p'.perModel = q.perModel

variable {p p' : LoadedPricing} {b : PricePayload}

theorem adoptPush_some {genesis : Wallet}
    (h : adoptPush genesis p b = .ok (some p')) :
    ∃ d, b.defaults = some d ∧ p.updatedAt < b.updatedAt ∧
      p' = p.overwrite d b b.updatedAt "genesis-push" := by
  unfold adoptPush at h
  split at h
  · cases h
  · rename_i d hd
    split_ifs at h with hg hold
    · cases Except.ok.inj h
    · exact ⟨d, hd, not_le.mp hold, (Option.some.inj (Except.ok.inj h)).symm⟩

theorem adoptSync_some {url : String} {now : ℕ}
    (h : adoptSync url p b now = some p') :
    ∃ d, b.defaults = some d ∧ p.updatedAt < b.updatedAt ∧
      p' = p.overwrite d b b.updatedAt ("genesis-sync:" ++ url) := by
  unfold adoptSync at h
  split at h
  · cases h
  · rename_i d hd
    split_ifs at h with hold hzero
    · -- a newer payload carries a time
      omega
    · cases h
      exact ⟨d, hd, not_le.mp hold, rfl⟩

variable {q : LoadedPricing}

theorem adopts_overwrite {g : Wallet} {d : PricePatch} {by_ : String}
    (hd : (q.payload g).defaults = some d) (hlt : p.updatedAt < (q.payload g).updatedAt) :
    Adopts p q (p.overwrite d (q.payload g) (q.payload g).updatedAt by_) := by
  obtain rfl : q.defaults.patch = d := Option.some.inj hd
  exact ⟨hlt, rfl, rfl, rfl⟩

theorem handle_adminPricing (m : Mirror) (now : ℕ) (gate : Option Refusal) (c : PriceChange) :
    m.handle now (.adminPricing gate c) = m := by
  have hdisk : handled m.cfg now (.adminPricing gate c) m.disk = m.disk := by
    unfold handled
    cases gate <;> simp [SyncRequest.apply, gated, m.locked]
  simp [Mirror.handle, hdisk]

theorem handled_cases (cfg : Config) (now : ℕ) (r : SyncRequest) (disk : DB) :
    handled cfg now r disk = disk ∨
      ∃ evs, Writes cfg now (loadDB disk) r (handled cfg now r disk) evs := by
  unfold handled
  split
  · rename_i out hout
    cases hdb : out.db with
    | none => exact Or.inl rfl
    | some db => exact Or.inr ⟨out.events, apply_writes hout hdb⟩
  · exact Or.inl rfl

theorem handle_pricingPush (m : Mirror) (now : ℕ) (keyOk : Bool) (q : LoadedPricing) (g : Wallet) :
    (m.handle now (.pricingPush keyOk (q.payload g))).pricing = m.pricing ∨
      Adopts m.pricing q (m.handle now (.pricingPush keyOk (q.payload g))).pricing := by
  rcases handled_cases m.cfg now (.pricingPush keyOk (q.payload g)) m.disk with h | ⟨evs, h⟩
  · exact Or.inl (congrArg DB.loadedPricing h)
  · right
    unfold Mirror.handle Mirror.pricing
    generalize handled m.cfg now (.pricingPush keyOk (q.payload g)) m.disk = db at h
    cases h with
    | pricingPush b p adopt =>
      obtain ⟨d, hd, hlt, rfl⟩ := adoptPush_some adopt
      exact adopts_overwrite hd hlt

theorem handle_pricingSync (m : Mirror) (now : ℕ) (q : LoadedPricing) (g : Wallet) :
    (m.handle now (.pricingSync (q.payload g))).pricing = m.pricing ∨
      Adopts m.pricing q (m.handle now (.pricingSync (q.payload g))).pricing := by
  rcases handled_cases m.cfg now (.pricingSync (q.payload g)) m.disk with h | ⟨evs, h⟩
  · exact Or.inl (congrArg DB.loadedPricing h)
  · right
    unfold Mirror.handle Mirror.pricing
    generalize handled m.cfg now (.pricingSync (q.payload g)) m.disk = db at h
    cases h with
    | pricingSync b p adopt =>
      obtain ⟨d, hd, hlt, rfl⟩ := adoptSync_some adopt
      exact adopts_overwrite hd hlt

theorem handled_adminPricing (cfg : Config) (now : ℕ) (gate : Option Refusal) (c : PriceChange)
    (disk : DB) :
    handled cfg now (.adminPricing gate c) disk = disk ∨
      (handled cfg now (.adminPricing gate c) disk).loadedPricing.updatedAt = now / 1000 := by
  rcases handled_cases cfg now (.adminPricing gate c) disk with h | ⟨evs, h⟩
  · exact Or.inl h
  · right
    generalize handled cfg now (.adminPricing gate c) disk = db at h
    cases h with
    | adminPricing c next price =>
      show ((loadPricing (loadDB disk).pricing).change c.target next (now / 1000)
        cfg.genesisWallet).updatedAt = now / 1000
      unfold LoadedPricing.change
      split_ifs <;> rfl

/-- A version of the pricing behind the source, or the source's own. -/
def LoadedPricing.Mirrors (p src : LoadedPricing) : Prop :=
  p.updatedAt < src.updatedAt ∨
    p.updatedAt = src.updatedAt ∧ p.defaults = src.defaults ∧ p.perModel = src.perModel

theorem Adopts.mirrors {src : LoadedPricing} (h : Adopts p q p') (hq : q.Mirrors src) :
    p'.Mirrors src := by
  unfold LoadedPricing.Mirrors
  rw [h.updatedAt, h.defaults, h.perModel]
  exact hq

/-- Every mirror and every message in flight holds a version of the source. -/
structure Network.Consistent (n : Network) : Prop where
  mirrors : ∀ m ∈ n.mirrors, m.pricing.Mirrors n.pricing
  sent : ∀ b ∈ n.sent, ∃ (q : LoadedPricing) (g : Wallet), b = q.payload g ∧ q.Mirrors n.pricing

/-- The source's pricing gets a second that no mirror and no message carries yet. -/
def unusedSecond (n : Network) : NetAction → Bool
  | .adminPricing none _ _ nowMs =>
    (n.mirrors.all fun m => decide (m.pricing.updatedAt < nowMs / 1000)) &&
      n.sent.all fun b => decide (b.updatedAt < nowMs / 1000)
  | _ => true

theorem Network.Consistent.setMirror (h : n.Consistent) {i : ℕ} {m' : Mirror}
    (hm' : m'.pricing.Mirrors n.pricing) : (n.setMirror i m').Consistent := by
  refine ⟨fun m hm => ?_, h.sent⟩
  rcases List.mem_or_eq_of_mem_set hm with hm | rfl
  · exact h.mirrors m hm
  · exact hm'

theorem Network.Consistent.publish (h : n.Consistent) (g : Wallet)
    (hq : q.Mirrors n.pricing) : { n with sent := n.sent ++ [q.payload g] }.Consistent := by
  refine ⟨h.mirrors, fun b hb => ?_⟩
  rcases List.mem_append.mp hb with hb | hb
  · exact h.sent b hb
  · exact ⟨q, g, List.mem_singleton.mp hb, hq⟩

theorem netStep_deliver (hn : n.Consistent) {i k : ℕ} {m : Mirror} (nowMs : ℕ)
    (hi : n.mirrors[i]? = some m) (hk : n.sent[k]? = some b) {r : SyncRequest}
    (hr : (∃ keyOk, r = .pricingPush keyOk b) ∨ r = .pricingSync b) :
    (m.handle nowMs r).pricing.Mirrors n.pricing ∧
      ((m.handle nowMs r).pricing = m.pricing ∨
        m.pricing.updatedAt < (m.handle nowMs r).pricing.updatedAt) := by
  obtain ⟨q, g, rfl, hq⟩ := hn.sent b (List.mem_of_getElem? hk)
  have hm : m.pricing.Mirrors n.pricing := hn.mirrors m (List.mem_of_getElem? hi)
  have hcase : (m.handle nowMs r).pricing = m.pricing ∨
      Adopts m.pricing q (m.handle nowMs r).pricing := by
    rcases hr with ⟨keyOk, rfl⟩ | rfl
    · exact handle_pricingPush m nowMs keyOk q g
    · exact handle_pricingSync m nowMs q g
  rcases hcase with hsame | hadopt
  · exact ⟨hsame ▸ hm, Or.inl hsame⟩
  · refine ⟨hadopt.mirrors hq, Or.inr ?_⟩
    rw [hadopt.updatedAt]
    exact hadopt.newer

/-- What a step of the network can do: change the source, send a copy of a
gateway's pricing, or hand a message to a mirror. -/
theorem netStep_cases (h : netStep cfg n a = some n') :
    (∃ gate c now, a = .adminPricing none gate c now ∧
      n' = { n with source := handled cfg now (.adminPricing gate c) n.source }) ∨
    (∃ q g, n' = { n with sent := n.sent ++ [q.payload g] } ∧
      (q = n.pricing ∨ ∃ m ∈ n.mirrors, q = m.pricing)) ∨
    (∃ (i : ℕ) (m : Mirror), n.mirrors[i]? = some m ∧ n' = n.setMirror i m) ∨
    ∃ (i k : ℕ) (m : Mirror) (b : PricePayload) (now : ℕ) (r : SyncRequest), n.mirrors[i]? = some m ∧ n.sent[k]? = some b ∧
      ((∃ keyOk, r = .pricingPush keyOk b) ∨ r = .pricingSync b) ∧
      n' = n.setMirror i (m.handle now r) := by
  cases a with
  | adminPricing target gate c now =>
    cases target with
    | none => exact Or.inl ⟨gate, c, now, rfl, (Option.some.inj h).symm⟩
    | some i =>
      -- an admin request that reaches a mirror is refused there
      simp only [netStep, Option.map_eq_some_iff] at h
      obtain ⟨m, hm, rfl⟩ := h
      rw [handle_adminPricing]
      exact Or.inr (Or.inr (Or.inl ⟨i, m, hm, rfl⟩))
  | publish sender =>
    cases sender with
    | none =>
      exact Or.inr (Or.inl ⟨n.pricing, cfg.genesisWallet, (Option.some.inj h).symm, Or.inl rfl⟩)
    | some i =>
      simp only [netStep, Option.map_eq_some_iff] at h
      obtain ⟨m, hm, rfl⟩ := h
      exact Or.inr (Or.inl ⟨m.pricing, m.cfg.genesisWallet, rfl,
        Or.inr ⟨m, List.mem_of_getElem? hm, rfl⟩⟩)
  | deliverPush i k keyOk now =>
    simp only [netStep] at h
    split at h
    · rename_i m b hm hb
      cases h
      exact Or.inr (Or.inr (Or.inr ⟨i, k, m, b, now, _, hm, hb, Or.inl ⟨keyOk, rfl⟩, rfl⟩))
    · cases h
  | deliverPoll i k now =>
    simp only [netStep] at h
    split at h
    · rename_i m b hm hb
      cases h
      exact Or.inr (Or.inr (Or.inr ⟨i, k, m, b, now, _, hm, hb, Or.inr rfl, rfl⟩))
    · cases h

theorem netStep_consistent (hu : unusedSecond n a = true) (hn : n.Consistent)
    (h : netStep cfg n a = some n') : n'.Consistent := by
  rcases netStep_cases h with ⟨gate, c, now, rfl, rfl⟩ | ⟨q, g, rfl, hq⟩ | ⟨i, m, hi, rfl⟩ |
    ⟨i, k, m, b, now, r, hi, hk, hr, rfl⟩
  · rcases handled_adminPricing cfg now gate c n.source with hsame | hdate
    · rw [hsame]
      exact hn
    · -- everything there is older than the new version
      simp only [unusedSecond, Bool.and_eq_true, List.all_eq_true, decide_eq_true_eq] at hu
      have hnow : Network.pricing { n with source := handled cfg now (.adminPricing gate c) n.source } =
          (handled cfg now (.adminPricing gate c) n.source).loadedPricing := rfl
      refine ⟨fun m hm => Or.inl ?_, fun b hb => ?_⟩
      · rw [hnow, hdate]
        exact hu.1 m hm
      · obtain ⟨q, g, rfl, -⟩ := hn.sent b hb
        refine ⟨q, g, rfl, Or.inl ?_⟩
        rw [hnow, hdate]
        exact hu.2 _ hb
  · -- a message is a copy of what its sender holds, the source or a mirror
    apply hn.publish g
    rcases hq with rfl | ⟨m, hm, rfl⟩
    · exact Or.inr ⟨rfl, rfl, rfl⟩
    · exact hn.mirrors m hm
  · exact hn.setMirror (hn.mirrors m (List.mem_of_getElem? hi))
  · exact hn.setMirror (netStep_deliver hn now hi hk hr).1

/-- Every mirror kept its pricing or has replaced it by a later one. -/
def Network.NotOlder (n n' : Network) : Prop :=
  ∀ (i : ℕ) (m : Mirror), n.mirrors[i]? = some m → ∃ m', n'.mirrors[i]? = some m' ∧
    (m'.pricing = m.pricing ∨ m.pricing.updatedAt < m'.pricing.updatedAt)

theorem Network.NotOlder.refl (n : Network) : n.NotOlder n :=
  fun _ m hm => ⟨m, hm, Or.inl rfl⟩

theorem Network.NotOlder.trans {n₁ n₂ n₃ : Network} (h₁ : n₁.NotOlder n₂) (h₂ : n₂.NotOlder n₃) :
    n₁.NotOlder n₃ := by
  intro i m₁ hm₁
  obtain ⟨m₂, hm₂, hle₁⟩ := h₁ i m₁ hm₁
  obtain ⟨m₃, hm₃, hle₂⟩ := h₂ i m₂ hm₂
  refine ⟨m₃, hm₃, ?_⟩
  rcases hle₁ with h | h
  · rwa [h] at hle₂
  · rcases hle₂ with h' | h'
    · right
      rwa [h']
    · exact Or.inr (h.trans h')

theorem Network.NotOlder.setMirror {i : ℕ} {m m' : Mirror} (hi : n.mirrors[i]? = some m)
    (h : m'.pricing = m.pricing ∨ m.pricing.updatedAt < m'.pricing.updatedAt) :
    n.NotOlder (n.setMirror i m') := by
  intro j mj hj
  have hlt : i < n.mirrors.length := (List.getElem?_eq_some_iff.mp hi).1
  by_cases hij : i = j
  · subst hij
    obtain rfl : m = mj := Option.some.inj (hi.symm.trans hj)
    exact ⟨m', by simp [Network.setMirror, hlt], h⟩
  · exact ⟨mj, by simpa [Network.setMirror, List.getElem?_set_ne hij] using hj, Or.inl rfl⟩

theorem netStep_notOlder (hn : n.Consistent) (h : netStep cfg n a = some n') : n.NotOlder n' := by
  rcases netStep_cases h with ⟨gate, c, now, -, rfl⟩ | ⟨q, g, rfl, -⟩ | ⟨i, m, hi, rfl⟩ |
    ⟨i, k, m, b, now, r, hi, hk, hr, rfl⟩
  · exact Network.NotOlder.refl n
  · exact Network.NotOlder.refl n
  · exact Network.NotOlder.setMirror hi (Or.inl rfl)
  · exact Network.NotOlder.setMirror hi (netStep_deliver hn now hi hk hr).2

/-- A mirror dated as the source charges the source's prices. -/
def Network.Agrees (n : Network) : Prop :=
  ∀ m ∈ n.mirrors, m.pricing.updatedAt = n.pricing.updatedAt →
    ∀ modelId, pricingFrom m.pricing modelId = pricingFrom n.pricing modelId

theorem Network.Consistent.agrees (h : n.Consistent) : n.Agrees := by
  intro m hm hdate modelId
  rcases h.mirrors m hm with hlt | ⟨-, hdefaults, hmodels⟩
  · omega
  · unfold pricingFrom
    rw [hdefaults, hmodels]

/-- The mirrors start with versions of the source, and nothing is in flight. -/
structure Network.Initial (n : Network) : Prop where
  mirrors : ∀ m ∈ n.mirrors, m.pricing.Mirrors n.pricing
  sent_nil : n.sent = []

theorem pricing_agreement (cfg : Config) (n₀ n₁ n₂ : Network) (as bs : List NetAction)
    (h₀ : n₀.Initial)
    (hpast : runs (netStep cfg) n₀ as = some n₁) (hlater : runs (netStep cfg) n₁ bs = some n₂)
    (hunused₁ : Along (netStep cfg) (fun n a => unusedSecond n a = true) n₀ as)
    (hunused₂ : Along (netStep cfg) (fun n a => unusedSecond n a = true) n₁ bs) :
    n₁.NotOlder n₂ ∧ n₂.Agrees := by
  have hstart : n₀.Consistent := ⟨h₀.mirrors, fun b hb => by simp [h₀.sent_nil] at hb⟩
  have hmid : n₁.Consistent :=
    runs_invariant (fun _ _ _ hu hn h => netStep_consistent hu hn h) hunused₁ hpast hstart
  have hend := runs_relation
    (R := fun n n' => n.Consistent → n'.Consistent ∧ n.NotOlder n')
    (fun n hn => ⟨hn, Network.NotOlder.refl n⟩)
    (fun _ _ _ hr hs hn => ⟨(hs (hr hn).1).1, (hr hn).2.trans (hs (hr hn).1).2⟩)
    (fun _ _ _ hu h hn => ⟨netStep_consistent hu hn h, netStep_notOlder hn h⟩)
    hunused₂ hlater hmid
  exact ⟨hend.2, hend.1.agrees⟩

/-- A relay that has not heard from the source yet. -/
def newRelay : Mirror := ⟨{ defaultConfig with receivesPush := true }, DB.empty, rfl⟩

def flatPrice (q : ℚ) : PriceChange := ⟨none, some (.fin q), some (.fin 0), some (.fin 0)⟩

/-- The source changes the default price, pushes it and is heard. -/
def firstChange : List NetAction :=
  [.adminPricing none none (flatPrice 1) 1700000000000, .publish none,
    .deliverPush 0 0 true 1700000000100]

/-- A second change, pushed again; the first push arrives once more after it. -/
def secondChange (nowMs : ℕ) : List NetAction :=
  [.adminPricing none none (flatPrice 2) nowMs, .publish none, .deliverPush 0 1 true nowMs,
    .deliverPush 0 0 true nowMs]

def oneRelay : Network := ⟨DB.empty, [newRelay], []⟩

theorem pricing_agreement_nextSecond :
    ∃ n₁ n₂, runs (netStep defaultConfig) oneRelay firstChange = some n₁ ∧
      runs (netStep defaultConfig) n₁ (secondChange 1700000001000) = some n₂ ∧
      (∀ m ∈ n₂.mirrors, (pricingFrom m.pricing "m").basePrice = 2) ∧
      n₁.NotOlder n₂ ∧ n₂.Agrees := by
  obtain ⟨n₁, h₁, hp⟩ := runs_exists (netStep defaultConfig) oneRelay firstChange
    (fun n => decide ((runs (netStep defaultConfig) n (secondChange 1700000001000)).any (fun n =>
        decide (∀ m ∈ n.mirrors, (pricingFrom m.pricing "m").basePrice = 2)) = true ∧
      Along (netStep defaultConfig) (fun n a => unusedSecond n a = true) n
        (secondChange 1700000001000)))
    (by decide +kernel)
  obtain ⟨hrun, hunused⟩ := of_decide_eq_true hp
  obtain ⟨n₂, h₂, hprice⟩ := runs_exists (netStep defaultConfig) n₁ (secondChange 1700000001000) _ hrun
  have hinit : oneRelay.Initial := by
    refine ⟨fun m hm => ?_, rfl⟩
    obtain rfl := List.mem_singleton.mp hm
    exact Or.inr ⟨rfl, rfl, rfl⟩
  have hagree := pricing_agreement defaultConfig oneRelay n₁ n₂ firstChange
    (secondChange 1700000001000) hinit h₁ h₂ (by decide +kernel) hunused
  exact ⟨n₁, n₂, h₁, h₂, of_decide_eq_true hprice, hagree⟩

/-- Both changes fall in one second: the relay is dated as the source and keeps
the first price, also when the second is pushed again. -/
theorem same_second_change_lost :
    ∃ n, runs (netStep defaultConfig) oneRelay (firstChange ++ secondChange 1700000000900) = some n ∧
      (∀ m ∈ n.mirrors, m.pricing.updatedAt = n.pricing.updatedAt ∧
        (pricingFrom m.pricing "m").basePrice = 1) ∧
      (pricingFrom n.pricing "m").basePrice = 2 ∧ ¬ n.Agrees := by
  obtain ⟨n, hn, hp⟩ := runs_exists (netStep defaultConfig) oneRelay
    (firstChange ++ secondChange 1700000000900)
    (fun n => decide ((∀ m ∈ n.mirrors, m.pricing.updatedAt = n.pricing.updatedAt ∧
        (pricingFrom m.pricing "m").basePrice = 1) ∧
      (pricingFrom n.pricing "m").basePrice = 2 ∧ n.mirrors.length = 1)) (by decide +kernel)
  obtain ⟨hmirrors, hsource, hlen⟩ := of_decide_eq_true hp
  refine ⟨n, hn, hmirrors, hsource, fun hagree => ?_⟩
  obtain ⟨m, hm⟩ := List.length_eq_one_iff.mp hlen
  have hmem : m ∈ n.mirrors := by simp [hm]
  obtain ⟨hdate, hone⟩ := hmirrors m hmem
  have hprice := congrArg Price.basePrice (hagree m hmem hdate "m")
  rw [hone, hsource] at hprice
  norm_num at hprice

end KvasirNet.Gateway
