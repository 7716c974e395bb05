import KvasirNet.Failover
import KvasirNet.MoeReduce

/-! The rounds of a dispatch are a failover that gives up: they do what a failover in rounds does
until a round in which no worker answers, and then leave what waits to the local slice. -/
namespace KvasirNet.Moe

section
variable {R H M : Type*}

def service (r : Routing R H) (eps : List Endpoint) (answers : ℕ → ℕ → Bool) :
    Failover.Service ℕ where
  replicas := eps.length
  covers i p := ∃ w, eps[i]? = some w ∧ w.covers (r.sel p) = true
  answers k i := answers k i = true

/-- The pairs that the hot cache leaves to the workers. -/
def Here.leaves (here : Here) (computes : Bool) (r : Routing R H) : Set ℕ :=
  {p | p < r.nPairs ∧ ¬ (0 < here.hotK ∧ here.haveSlice = true ∧ computes = true ∧
    here.hot (r.sel p) = true)}

/-- Before the first round: what the hot cache leaves waits, and the workers that are dead or not
connected are down. -/
def beginning (here : Here) (computes : Bool) (r : Routing R H) (eps : List Endpoint) :
    Failover.Stage ℕ where
  waiting := here.leaves computes r
  down := {i | ∀ w, eps[i]? = some w → w.live = false}

/-- The pair is computed by a worker that has its expert and answers. -/
def FromWorker (r : Routing R H) (remote : Endpoint → ℤ → H → M) (eps : List Endpoint)
    (answers : ℕ → ℕ → Bool) (p : ℕ) (f : H → M) : Prop :=
  ∃ (i : ℕ) (w : Endpoint), eps[i]? = some w ∧ w.live = true ∧ w.covers (r.sel p) = true ∧
    (∃ k, answers k i = true) ∧ f = remote w (r.sel p - w.expertBegin)

end

section
variable {R H M α : Type*} {r : Routing R H} {remote : Endpoint → ℤ → H → M}
  {done taken : ℕ → Bool} {w : Endpoint} {eps ws : List Endpoint} {p i j : ℕ}

/-! ### Who is asked -/

/-- The pair is open, and the endpoint is the first live one that has its expert. -/
structure Takes (r : Routing R H) (done taken : ℕ → Bool) (eps : List Endpoint) (p j : ℕ)
    (w : Endpoint) : Prop where
  lt : p < r.nPairs
  isOpen : done p = false
  free : taken p = false
  at' : eps[j]? = some w
  live : w.live = true
  covers : w.covers (r.sel p) = true
  first : ∀ m < j, ∀ v, eps[m]? = some v → v.live = true → v.covers (r.sel p) = false

theorem takes_zero {v : Endpoint} : Takes r done taken (v :: ws) p 0 w ↔
    v = w ∧ v.live = true ∧ p ∈ claimed r done taken v := by
  rw [mem_claimed]
  constructor
  · intro h
    obtain rfl : v = w := Option.some.inj h.at'
    exact ⟨rfl, h.live, h.lt, h.isOpen, h.free, h.covers⟩
  · rintro ⟨rfl, hlive, hlt, hopen, hfree, hcovers⟩
    exact ⟨hlt, hopen, hfree, rfl, hlive, hcovers, fun m hm => absurd hm (Nat.not_lt_zero m)⟩

theorem takes_succ {v : Endpoint} : Takes r done taken (v :: ws) p (j + 1) w ↔
    Takes r done taken ws p j w ∧ (v.live = true → v.covers (r.sel p) = false) := by
  constructor
  · intro h
    refine ⟨⟨h.lt, h.isOpen, h.free, h.at', h.live, h.covers, fun m hm => ?_⟩, ?_⟩
    · exact h.first (m + 1) (Nat.succ_lt_succ hm)
    · exact h.first 0 (Nat.succ_pos j) v rfl
  · rintro ⟨h, hv⟩
    refine ⟨h.lt, h.isOpen, h.free, h.at', h.live, h.covers, fun m hm => ?_⟩
    cases m with
    | zero =>
      intro u hu
      obtain rfl := Option.some.inj hu
      exact hv
    | succ m => exact h.first m (Nat.lt_of_succ_lt_succ hm)

theorem takes_after {v : Endpoint} (hlive : v.live = true) :
    Takes r done (fun q => taken q || (claimed r done taken v).contains q) ws p j w ↔
      Takes r done taken ws p j w ∧ (v.live = true → v.covers (r.sel p) = false) := by
  constructor
  · intro h
    have hfree := Bool.or_eq_false_iff.mp h.free
    refine ⟨⟨h.lt, h.isOpen, hfree.1, h.at', h.live, h.covers, h.first⟩, fun _ => ?_⟩
    by_contra hcovers
    have hmem : p ∈ claimed r done taken v :=
      mem_claimed.mpr ⟨h.lt, h.isOpen, hfree.1, by simpa using hcovers⟩
    exact absurd hfree.2 (by simpa using hmem)
  · rintro ⟨h, hv⟩
    refine ⟨h.lt, h.isOpen, Bool.or_eq_false_iff.mpr ⟨h.free, ?_⟩, h.at', h.live, h.covers, h.first⟩
    by_contra hmem
    have hclaims : p ∈ claimed r done taken v := by simpa using hmem
    exact Bool.noConfusion ((hv hlive).symm.trans (mem_claimed.mp hclaims).2.2.2)

theorem mem_assign {n : ℕ} : (∃ sub ∈ assign r done i taken eps,
      sub.1 = n ∧ sub.2.1 = w ∧ p ∈ sub.2.2) ↔ ∃ j, n = i + j ∧ Takes r done taken eps p j w := by
  induction eps generalizing i taken with
  | nil =>
    constructor
    · rintro ⟨sub, hsub, -⟩
      cases hsub
    · rintro ⟨j, -, h⟩
      cases h.at'
  | cons v ws ih =>
    -- the first endpoint's own request, and the others' among what it leaves
    have hsplit : (∃ j, n = i + j ∧ Takes r done taken (v :: ws) p j w) ↔
        (n = i ∧ v = w ∧ v.live = true ∧ p ∈ claimed r done taken v) ∨
          ∃ j, n = i + 1 + j ∧ Takes r done taken ws p j w ∧
            (v.live = true → v.covers (r.sel p) = false) := by
      constructor
      · rintro ⟨j, hn, h⟩
        cases j with
        | zero => exact .inl ⟨hn, takes_zero.mp h⟩
        | succ j => exact .inr ⟨j, by omega, takes_succ.mp h⟩
      · rintro (⟨hn, h⟩ | ⟨j, hn, h⟩)
        · exact ⟨0, hn, takes_zero.mpr h⟩
        · exact ⟨j + 1, by omega, takes_succ.mpr h⟩
    rw [hsplit]
    unfold assign
    by_cases hlive : v.live = true
    · rw [if_pos hlive]
      dsimp only
      have hrest := @ih (fun q => taken q || (claimed r done taken v).contains q) (i + 1)
      simp only [takes_after hlive] at hrest
      rw [← hrest]
      split_ifs with hempty
      · rw [hempty]
        simp
      · simp only [List.mem_cons, exists_eq_or_imp, hlive, true_and]
        refine or_congr ?_ Iff.rfl
        constructor
        · rintro ⟨rfl, rfl, hp⟩
          exact ⟨rfl, rfl, hp⟩
        · rintro ⟨rfl, rfl, hp⟩
          exact ⟨rfl, rfl, hp⟩
    · rw [if_neg hlive, ih]
      simp [hlive]

/-! ### What a round does -/

section Settle
variable {serve : ℤ → (ℤ → H → M) → List ℕ → α → α} {answers : ℕ → Bool}

theorem settle_yes {x : Progress α × List Endpoint × Bool} {sub : ℕ × Endpoint × List ℕ}
    (h : answers sub.1 = true) : settle serve remote answers x sub =
      (x.1.served serve sub.2.1.expertBegin (remote sub.2.1) sub.2.2, x.2.1, true) := by
  rw [settle, if_pos h]

theorem settle_no {x : Progress α × List Endpoint × Bool} {sub : ℕ × Endpoint × List ℕ}
    (h : ¬ answers sub.1 = true) : settle serve remote answers x sub =
      (x.1, x.2.1.modify sub.1 Endpoint.bury, x.2.2) := by
  rw [settle, if_neg h]

theorem modify_bury (eps : List Endpoint) (i j : ℕ) : (eps.modify i Endpoint.bury)[j]? =
    if i = j then (eps[j]?).map Endpoint.bury else eps[j]? := by
  rw [List.getElem?_modify]
  split_ifs with h
  · rfl
  · cases eps[j]? <;> rfl

theorem settled_done (subs : List (ℕ × Endpoint × List ℕ)) (x : Progress α × List Endpoint × Bool)
    (p : ℕ) : (subs.foldl (settle serve remote answers) x).1.done p = true ↔
      x.1.done p = true ∨ ∃ sub ∈ subs, answers sub.1 = true ∧ p ∈ sub.2.2 := by
  induction subs generalizing x with
  | nil => simp
  | cons sub subs ih =>
    rw [List.foldl_cons, ih]
    by_cases h : answers sub.1 = true
    · rw [settle_yes h]
      dsimp only
      rw [served_done]
      simp [h, or_assoc]
    · rw [settle_no h]
      simp [h]

theorem settled_eps (subs : List (ℕ × Endpoint × List ℕ)) (x : Progress α × List Endpoint × Bool)
    (j : ℕ) : ((∃ sub ∈ subs, sub.1 = j ∧ ¬ answers sub.1 = true) →
        (subs.foldl (settle serve remote answers) x).2.1[j]? = (x.2.1[j]?).map Endpoint.bury) ∧
      ((¬ ∃ sub ∈ subs, sub.1 = j ∧ ¬ answers sub.1 = true) →
        (subs.foldl (settle serve remote answers) x).2.1[j]? = x.2.1[j]?) := by
  induction subs generalizing x with
  | nil => exact ⟨fun ⟨_, hsub, _⟩ => absurd hsub List.not_mem_nil, fun _ => rfl⟩
  | cons sub subs ih =>
    rw [List.foldl_cons]
    obtain ⟨hbury, hkeep⟩ := ih (settle serve remote answers x sub)
    by_cases h : answers sub.1 = true
    · rw [settle_yes h] at hbury hkeep ⊢
      simp only [List.mem_cons, exists_eq_or_imp, h, not_true_eq_false, and_false, false_or]
      exact ⟨hbury, hkeep⟩
    · rw [settle_no h] at hbury hkeep ⊢
      dsimp only at hbury hkeep
      rw [modify_bury] at hbury hkeep
      by_cases hlater : ∃ sub ∈ subs, sub.1 = j ∧ ¬ answers sub.1 = true
      · refine ⟨fun _ => ?_, fun hnot => ?_⟩
        · rw [hbury hlater]
          by_cases hj : sub.1 = j
          · rw [if_pos hj, Option.map_map]
            rfl
          · rw [if_neg hj]
        · obtain ⟨later, hmem, hprop⟩ := hlater
          exact absurd ⟨later, List.mem_cons_of_mem _ hmem, hprop⟩ hnot
      · rw [hkeep hlater]
        refine ⟨fun hex => ?_, fun hnot => ?_⟩
        · obtain ⟨it, hmem, hit, hno⟩ := hex
          rcases List.mem_cons.mp hmem with rfl | hmem
          · rw [if_pos hit]
          · exact absurd ⟨it, hmem, hit, hno⟩ hlater
        · have hj : sub.1 ≠ j := fun hj => hnot ⟨sub, List.mem_cons_self, hj, h⟩
          rw [if_neg hj]

theorem settled_flag (subs : List (ℕ × Endpoint × List ℕ)) (x : Progress α × List Endpoint × Bool) :
    (subs.foldl (settle serve remote answers) x).2.2 = true ↔
      x.2.2 = true ∨ ∃ sub ∈ subs, answers sub.1 = true := by
  induction subs generalizing x with
  | nil => simp
  | cons sub subs ih =>
    rw [List.foldl_cons, ih]
    by_cases h : answers sub.1 = true
    · rw [settle_yes h]
      simp [h]
    · rw [settle_no h]
      simp [h]

theorem settled_counted {n : ℕ} (subs : List (ℕ × Endpoint × List ℕ))
    (x : Progress α × List Endpoint × Bool) (hx : Counted n x.1)
    (hsubs : ∀ sub ∈ subs, ∀ p ∈ sub.2.2, p < n) :
    Counted n (subs.foldl (settle serve remote answers) x).1 := by
  induction subs generalizing x with
  | nil => exact hx
  | cons sub subs ih =>
    rw [List.foldl_cons]
    refine ih _ ?_ fun s hs => hsubs s (List.mem_cons_of_mem sub hs)
    by_cases h : answers sub.1 = true
    · rw [settle_yes h]
      have hstart : Counted n { x.1 with
          out := serve sub.2.1.expertBegin (remote sub.2.1) sub.2.2 x.1.out } := hx
      exact (hstart.mark (hsubs sub List.mem_cons_self)).1
    · rw [settle_no h]
      exact hx

end Settle

theorem Counted.lt {n : ℕ} {c c' : Progress α} (h : Counted n c) (h' : Counted n c')
    (hmore : ∀ p, c.done p = true → c'.done p = true) (hp : p < n) (hopen : c.done p = false)
    (hdone : c'.done p = true) : c'.remaining < c.remaining := by
  rw [h, h']
  apply Finset.card_lt_card
  refine ⟨fun q hq => ?_, fun hsub => ?_⟩
  · obtain ⟨hrange, hq⟩ := Finset.mem_filter.mp hq
    refine Finset.mem_filter.mpr ⟨hrange, ?_⟩
    by_contra hyes
    exact Bool.noConfusion (hq.symm.trans (hmore q (by simpa using hyes)))
  · have hmem := hsub (Finset.mem_filter.mpr ⟨Finset.mem_range.mpr hp, hopen⟩)
    exact Bool.noConfusion ((Finset.mem_filter.mp hmem).2.symm.trans hdone)

theorem Counted.eq_zero {n : ℕ} {c : Progress α} (h : Counted n c)
    (hall : ∀ p < n, c.done p = true) : c.remaining = 0 := by
  rw [h, Finset.card_eq_zero]
  apply Finset.filter_eq_empty_iff.mpr
  intro p hp hopen
  exact Bool.noConfusion (hopen.symm.trans (hall p (Finset.mem_range.mp hp)))

/-! ### The rounds are a failover -/

section Track
variable {eps₀ : List Endpoint} {answers : ℕ → ℕ → Bool} {c : Progress α}
  {s : Failover.Stage ℕ} {k : ℕ}

/-- The callback between two rounds is at a stage of the failover. -/
structure Tracks (r : Routing R H) (eps₀ : List Endpoint) (c : Progress α) (eps : List Endpoint)
    (s : Failover.Stage ℕ) : Prop where
  waiting : ∀ p, p ∈ s.waiting ↔ p < r.nPairs ∧ c.done p = false
  down : ∀ i : ℕ, i ∈ s.down ↔ ∀ w, eps[i]? = some w → w.live = false
  kept : ∀ i : ℕ, eps[i]? = eps₀[i]? ∨ eps[i]? = (eps₀[i]?).map Endpoint.bury
  counted : Counted r.nPairs c

theorem live_bury (w : Endpoint) : w.bury.live = false := by
  simp [Endpoint.live, Endpoint.bury]

theorem Tracks.at_first (h : Tracks r eps₀ c eps s) (hw : eps[i]? = some w)
    (hlive : w.live = true) : eps₀[i]? = some w := by
  rcases h.kept i with hsame | hburied
  · rw [← hsame, hw]
  · rw [hw] at hburied
    obtain ⟨v, -, rfl⟩ := Option.map_eq_some_iff.mp hburied.symm
    rw [live_bury] at hlive
    cases hlive

theorem Tracks.live_of_up (h : Tracks r eps₀ c eps s) (hup : i ∉ s.down) :
    ∃ w, eps[i]? = some w ∧ w.live = true := by
  rw [h.down] at hup
  push Not at hup
  obtain ⟨w, hw, hlive⟩ := hup
  exact ⟨w, hw, by simpa using hlive⟩

theorem Tracks.asks_iff (h : Tracks r eps₀ c eps s) :
    (service r eps₀ answers).Asks s p i ↔
      ∃ sub ∈ assign r c.done 0 (fun _ => false) eps, sub.1 = i ∧ p ∈ sub.2.2 := by
  have htakes : (∃ sub ∈ assign r c.done 0 (fun _ => false) eps, sub.1 = i ∧ p ∈ sub.2.2) ↔
      ∃ w, Takes r c.done (fun _ => false) eps p i w := by
    constructor
    · rintro ⟨sub, hsub, hi, hp⟩
      obtain ⟨j, hj, ht⟩ := mem_assign.mp ⟨sub, hsub, hi, rfl, hp⟩
      rw [Nat.zero_add] at hj
      subst hj
      exact ⟨_, ht⟩
    · rintro ⟨w, ht⟩
      obtain ⟨sub, hsub, hi, -, hp⟩ := mem_assign.mpr ⟨i, (Nat.zero_add i).symm, ht⟩
      exact ⟨sub, hsub, hi, hp⟩
  rw [htakes]
  constructor
  · intro ha
    obtain ⟨hlt, hopen⟩ := (h.waiting p).mp ha.waits
    obtain ⟨w, hw, hlive⟩ := h.live_of_up ha.up
    obtain ⟨v, hv, hcovers⟩ := ha.covers
    obtain rfl : v = w := Option.some.inj (hv.symm.trans (h.at_first hw hlive))
    refine ⟨v, hlt, hopen, rfl, hw, hlive, hcovers, fun m hm u hu hulive => ?_⟩
    by_contra hucovers
    have hdown := ha.first m hm ⟨u, h.at_first hu hulive, by simpa using hucovers⟩
    exact Bool.noConfusion (((h.down m).mp hdown u hu).symm.trans hulive)
  · rintro ⟨w, ht⟩
    have hfirst := h.at_first ht.at' ht.live
    refine ⟨(h.waiting p).mpr ⟨ht.lt, ht.isOpen⟩, (List.getElem?_eq_some_iff.mp hfirst).1,
      fun hdown => ?_, ⟨w, hfirst, ht.covers⟩, fun m hm hcov => ?_⟩
    · exact Bool.noConfusion (((h.down i).mp hdown w ht.at').symm.trans ht.live)
    · obtain ⟨v, hv, hvcovers⟩ := hcov
      rw [h.down]
      intro u hu
      by_contra hulive
      have hulive : u.live = true := by simpa using hulive
      obtain rfl : v = u := Option.some.inj (hv.symm.trans (h.at_first hu hulive))
      exact Bool.noConfusion ((ht.first m hm v hu hulive).symm.trans hvcovers)

theorem Tracks.none_asked (h : Tracks r eps₀ c eps s)
    (hsubs : assign r c.done 0 (fun _ => false) eps = []) :
    ¬ (service r eps₀ answers).Helps k s := by
  rintro ⟨p, i, ha, -⟩
  obtain ⟨sub, hsub, -⟩ := h.asks_iff.mp ha
  rw [hsubs] at hsub
  cases hsub

theorem Tracks.asked (h : Tracks r eps₀ c eps s) {sub : ℕ × Endpoint × List ℕ}
    (hsub : sub ∈ assign r c.done 0 (fun _ => false) eps) :
    ∃ p, (service r eps₀ answers).Asks s p sub.1 := by
  have hsome := ((assign_asks c.done (fun _ => false) 0 eps).1 sub hsub).1.some
  obtain ⟨p, hp⟩ := List.exists_mem_of_ne_nil _ hsome
  exact ⟨p, h.asks_iff.mpr ⟨sub, hsub, rfl, hp⟩⟩

variable {serve : ℤ → (ℤ → H → M) → List ℕ → α → α}

theorem Tracks.helps_iff (h : Tracks r eps₀ c eps s) :
    ((assign r c.done 0 (fun _ => false) eps).foldl (settle serve remote (answers k))
      (c, eps, false)).2.2 = true ↔ (service r eps₀ answers).Helps k s := by
  rw [settled_flag]
  constructor
  · rintro (hno | ⟨sub, hsub, hyes⟩)
    · cases hno
    · obtain ⟨p, ha⟩ := h.asked hsub
      exact ⟨p, sub.1, ha, hyes⟩
  · rintro ⟨p, i, ha, hyes⟩
    obtain ⟨sub, hsub, rfl, -⟩ := h.asks_iff.mp ha
    exact .inr ⟨sub, hsub, hyes⟩

theorem Tracks.round (h : Tracks r eps₀ c eps s) :
    Tracks r eps₀
      ((assign r c.done 0 (fun _ => false) eps).foldl (settle serve remote (answers k))
        (c, eps, false)).1
      ((assign r c.done 0 (fun _ => false) eps).foldl (settle serve remote (answers k))
        (c, eps, false)).2.1
      ((service r eps₀ answers).next k s) where
  waiting p := by
    have hasked : (∃ sub ∈ assign r c.done 0 (fun _ => false) eps,
        answers k sub.1 = true ∧ p ∈ sub.2.2) ↔
        ∃ i, (service r eps₀ answers).Asks s p i ∧ (service r eps₀ answers).answers k i := by
      constructor
      · rintro ⟨sub, hsub, hyes, hp⟩
        exact ⟨sub.1, h.asks_iff.mpr ⟨sub, hsub, rfl, hp⟩, hyes⟩
      · rintro ⟨i, ha, hyes⟩
        obtain ⟨sub, hsub, rfl, hp⟩ := h.asks_iff.mp ha
        exact ⟨sub, hsub, hyes, hp⟩
    rw [← Bool.not_eq_true, settled_done, hasked, not_or, Bool.not_eq_true, ← and_assoc,
      ← h.waiting]
    exact Iff.rfl
  down j := by
    obtain ⟨hbury, hkeep⟩ := @settled_eps H M α remote serve (answers k)
      (assign r c.done 0 (fun _ => false) eps) (c, eps, false) j
    by_cases hfails : ∃ sub ∈ assign r c.done 0 (fun _ => false) eps,
        sub.1 = j ∧ ¬ answers k sub.1 = true
    · rw [hbury hfails]
      obtain ⟨sub, hsub, rfl, hno⟩ := hfails
      refine ⟨fun _ w hw => ?_, fun _ => .inr ⟨h.asked hsub, hno⟩⟩
      obtain ⟨v, -, rfl⟩ := Option.map_eq_some_iff.mp hw
      exact live_bury v
    · rw [hkeep hfails]
      constructor
      · rintro (hdown | ⟨⟨p, ha⟩, hno⟩)
        · exact (h.down j).mp hdown
        · obtain ⟨sub, hsub, rfl, -⟩ := h.asks_iff.mp ha
          exact absurd ⟨sub, hsub, rfl, hno⟩ hfails
      · exact fun hdown => .inl ((h.down j).mpr hdown)
  kept j := by
    obtain ⟨hbury, hkeep⟩ := @settled_eps H M α remote serve (answers k)
      (assign r c.done 0 (fun _ => false) eps) (c, eps, false) j
    by_cases hfails : ∃ sub ∈ assign r c.done 0 (fun _ => false) eps,
        sub.1 = j ∧ ¬ answers k sub.1 = true
    · rw [hbury hfails]
      right
      rcases h.kept j with hsame | hburied
      · dsimp only
        rw [hsame]
      · dsimp only
        rw [hburied, Option.map_map]
        rfl
    · rw [hkeep hfails]
      exact h.kept j
  counted := by
    apply settled_counted _ _ h.counted
    intro sub hsub p hp
    exact (((assign_asks c.done (fun _ => false) 0 eps).1 sub hsub).1.isOpen p hp).1

theorem Tracks.round_lt (h : Tracks r eps₀ c eps s)
    (hhelps : (service r eps₀ answers).Helps k s) :
    ((assign r c.done 0 (fun _ => false) eps).foldl (settle serve remote (answers k))
      (c, eps, false)).1.remaining < c.remaining := by
  obtain ⟨p, i, ha, hyes⟩ := hhelps
  obtain ⟨sub, hsub, rfl, hp⟩ := h.asks_iff.mp ha
  obtain ⟨hlt, hopen⟩ := (h.waiting p).mp ha.waits
  have hround := @Tracks.round R H M α r remote eps eps₀ answers c s k serve h
  refine h.counted.lt hround.counted (fun q hq => ?_) hlt hopen ?_
  · exact (settled_done _ _ q).mpr (.inl hq)
  · exact (settled_done _ _ p).mpr (.inr ⟨sub, hsub, hyes, hp⟩)

theorem Tracks.nothing (h : Tracks r eps₀ c eps s) (hzero : c.remaining = 0) :
    ¬ s.waiting.Nonempty := by
  rintro ⟨p, hp⟩
  obtain ⟨hlt, hopen⟩ := (h.waiting p).mp hp
  exact Bool.noConfusion ((h.counted.all_done hzero p hlt).symm.trans hopen)

theorem Tracks.something (h : Tracks r eps₀ c eps s) (hne : c.remaining ≠ 0) :
    s.waiting.Nonempty := by
  by_contra hnone
  refine hne (h.counted.eq_zero fun p hp => ?_)
  by_contra hopen
  exact hnone ⟨p, (h.waiting p).mpr ⟨hp, by simpa using hopen⟩⟩

theorem Tracks.round_ne (h : Tracks r eps₀ c eps s) (hne : c.remaining ≠ 0)
    (hno : ¬ (service r eps₀ answers).Helps k s) :
    ((assign r c.done 0 (fun _ => false) eps).foldl (settle serve remote (answers k))
      (c, eps, false)).1.remaining ≠ 0 := by
  intro hzero
  have hround := @Tracks.round R H M α r remote eps eps₀ answers c s k serve h
  refine hne (h.counted.eq_zero fun p hp => ?_)
  have hdone := hround.counted.all_done hzero p hp
  rcases (settled_done _ _ p).mp hdone with hbefore | ⟨sub, hsub, hyes, -⟩
  · exact hbefore
  · obtain ⟨q, ha⟩ := h.asked hsub
    exact absurd ⟨q, sub.1, ha, hyes⟩ hno

theorem rounds_steady (s₀ : Failover.Stage ℕ) (fuel : ℕ) {c : Progress α} {eps : List Endpoint}
    (h : Tracks r eps₀ c eps ((service r eps₀ answers).after s₀ k)) (hfuel : c.remaining ≤ fuel) :
    (rounds r serve remote answers fuel k c eps).1.remaining = 0 ↔
      ∀ m ≥ k, ((service r eps₀ answers).after s₀ m).waiting.Nonempty →
        (service r eps₀ answers).Helps m ((service r eps₀ answers).after s₀ m) := by
  -- nothing waits later either
  have hover {j : ℕ} {c : Progress α} {eps : List Endpoint}
      (h : Tracks r eps₀ c eps ((service r eps₀ answers).after s₀ j)) (hzero : c.remaining = 0) :
      ∀ m ≥ j, ((service r eps₀ answers).after s₀ m).waiting.Nonempty →
        (service r eps₀ answers).Helps m ((service r eps₀ answers).after s₀ m) := by
    rintro m hm ⟨p, hp⟩
    exact absurd ⟨p, Failover.waiting_subset hm hp⟩ (h.nothing hzero)
  induction fuel generalizing k c eps with
  | zero =>
    have hzero : c.remaining = 0 := Nat.le_zero.mp hfuel
    exact iff_of_true hzero (hover h hzero)
  | succ fuel ih =>
    unfold rounds
    dsimp only
    by_cases hzero : c.remaining = 0
    · rw [if_pos hzero]
      exact iff_of_true hzero (hover h hzero)
    rw [if_neg hzero]
    by_cases hsubs : assign r c.done 0 (fun _ => false) eps = []
    · rw [if_pos hsubs]
      exact iff_of_false hzero fun hall =>
        h.none_asked hsubs (hall k le_rfl (h.something hzero))
    rw [if_neg hsubs]
    by_cases hhelps : (service r eps₀ answers).Helps k ((service r eps₀ answers).after s₀ k)
    · rw [if_pos (h.helps_iff.mpr hhelps)]
      have hless := @Tracks.round_lt R H M α r remote eps eps₀ answers c _ k serve h hhelps
      have hnext : Tracks r eps₀ _ _ ((service r eps₀ answers).after s₀ (k + 1)) :=
        @Tracks.round R H M α r remote eps eps₀ answers c _ k serve h
      refine (ih hnext (Nat.le_of_lt_succ (hless.trans_le hfuel))).trans ?_
      constructor
      · intro hlater m hm
        rcases Nat.eq_or_lt_of_le hm with rfl | hlt
        · exact fun _ => hhelps
        · exact hlater m hlt
      · exact fun hall m hm => hall m (Nat.le_of_succ_le hm)
    · rw [if_neg (mt h.helps_iff.mp hhelps)]
      refine iff_of_false (h.round_ne hzero hhelps) fun hall => ?_
      exact hhelps (hall k le_rfl (h.something hzero))

/-! ### What the workers answered -/

/-- `Good done source out`: the output is made of what the sources of the done pairs give for their
tokens' rows. Serving open pairs gives each the source that serves it. -/
def Collects (r : Routing R H) (serve : ℤ → (ℤ → H → M) → List ℕ → α → α)
    (Good : (ℕ → Bool) → (ℕ → H → M) → α → Prop) : Prop :=
  ∀ base f idx done source out, Good done source out → idx.Nodup →
    (∀ p ∈ idx, p < r.nPairs ∧ done p = false) →
    Good (fun p => done p || idx.contains p)
      (fun p => if p ∈ idx then f (r.sel p - base) else source p) (serve base f idx out)

variable {Good : (ℕ → Bool) → (ℕ → H → M) → α → Prop} {left : Set ℕ} {own source : ℕ → H → M}

/-- The pairs that the workers are left are computed by workers, the others here. -/
structure Drawn (r : Routing R H) (remote : Endpoint → ℤ → H → M) (eps₀ : List Endpoint)
    (answers : ℕ → ℕ → Bool) (Good : (ℕ → Bool) → (ℕ → H → M) → α → Prop) (left : Set ℕ)
    (own : ℕ → H → M) (c : Progress α) (source : ℕ → H → M) : Prop where
  good : Good c.done source c.out
  workers : ∀ p ∈ left, c.done p = true → FromWorker r remote eps₀ answers p (source p)
  here : ∀ p < r.nPairs, p ∉ left → c.done p = true ∧ source p = own p

theorem Drawn.served (hcollects : Collects r serve Good)
    (h : Drawn r remote eps₀ answers Good left own c source) {sub : ℕ × Endpoint × List ℕ}
    (hasks : Asks r c.done sub) (hfirst : eps₀[sub.1]? = some sub.2.1)
    (hlive : sub.2.1.live = true) (hyes : answers k sub.1 = true) :
    Drawn r remote eps₀ answers Good left own
      (c.served serve sub.2.1.expertBegin (remote sub.2.1) sub.2.2)
      (fun p => if p ∈ sub.2.2 then remote sub.2.1 (r.sel p - sub.2.1.expertBegin) else source p)
    where
  good := by
    rw [served_out, served_done]
    exact hcollects _ _ _ _ _ _ h.good hasks.once hasks.isOpen
  workers p hp hdone := by
    by_cases hmem : p ∈ sub.2.2
    · rw [if_pos hmem]
      exact ⟨sub.1, sub.2.1, hfirst, hlive, hasks.covers p hmem, ⟨k, hyes⟩, rfl⟩
    · rw [if_neg hmem]
      rw [served_done] at hdone
      exact h.workers p hp (by simpa [hmem] using hdone)
  here p hp hout := by
    obtain ⟨hdone, hown⟩ := h.here p hp hout
    have hmem : p ∉ sub.2.2 := fun hmem =>
      Bool.noConfusion ((hasks.isOpen p hmem).2.symm.trans hdone)
    rw [if_neg hmem, served_done]
    exact ⟨by simp [hdone], hown⟩

theorem settled_drawn (hcollects : Collects r serve Good) (subs : List (ℕ × Endpoint × List ℕ))
    (x : Progress α × List Endpoint × Bool)
    (hx : Drawn r remote eps₀ answers Good left own x.1 source)
    (hasks : ∀ sub ∈ subs, Asks r x.1.done sub)
    (hapart : subs.Pairwise fun a b => ∀ p ∈ a.2.2, p ∉ b.2.2)
    (hfirst : ∀ sub ∈ subs, eps₀[sub.1]? = some sub.2.1 ∧ sub.2.1.live = true) :
    ∃ source, Drawn r remote eps₀ answers Good left own
      (subs.foldl (settle serve remote (answers k)) x).1 source := by
  induction subs generalizing x source with
  | nil => exact ⟨source, hx⟩
  | cons sub subs ih =>
    obtain ⟨hthis, hrest⟩ := List.pairwise_cons.mp hapart
    have hlater := fun s hs => hfirst s (List.mem_cons_of_mem sub hs)
    rw [List.foldl_cons]
    by_cases hyes : answers k sub.1 = true
    · rw [settle_yes hyes]
      obtain ⟨hat, hlive⟩ := hfirst sub List.mem_cons_self
      refine ih _ (hx.served hcollects (hasks sub List.mem_cons_self) hat hlive hyes)
        (fun s hs => ?_) hrest hlater
      -- the later requests share no pair with this one
      have hold := hasks s (List.mem_cons_of_mem sub hs)
      refine ⟨hold.some, hold.once, fun p hp => ⟨(hold.isOpen p hp).1, ?_⟩, hold.covers⟩
      have hnot : p ∉ sub.2.2 := fun hmem => hthis s hs p hmem hp
      rw [served_done]
      simp [(hold.isOpen p hp).2, hnot]
    · rw [settle_no hyes]
      exact ih _ hx (fun s hs => hasks s (List.mem_cons_of_mem sub hs)) hrest hlater

theorem rounds_drawn (hcollects : Collects r serve Good) (fuel : ℕ) {c : Progress α}
    {eps : List Endpoint} {s : Failover.Stage ℕ} (h : Tracks r eps₀ c eps s)
    (hdrawn : Drawn r remote eps₀ answers Good left own c source) :
    (∃ source, Drawn r remote eps₀ answers Good left own
        (rounds r serve remote answers fuel k c eps).1 source) ∧
      Counted r.nPairs (rounds r serve remote answers fuel k c eps).1 := by
  induction fuel generalizing k c eps s source with
  | zero => exact ⟨⟨source, hdrawn⟩, h.counted⟩
  | succ fuel ih =>
    obtain ⟨hasks, hapart⟩ := assign_asks (r := r) c.done (fun _ => false) 0 eps
    have hfirst : ∀ sub ∈ assign r c.done 0 (fun _ => false) eps,
        eps₀[sub.1]? = some sub.2.1 ∧ sub.2.1.live = true := by
      intro sub hsub
      obtain ⟨p, hp⟩ := List.exists_mem_of_ne_nil _ (hasks sub hsub).1.some
      obtain ⟨j, hj, ht⟩ := mem_assign.mp ⟨sub, hsub, rfl, rfl, hp⟩
      rw [Nat.zero_add] at hj
      exact ⟨h.at_first (hj ▸ ht.at') ht.live, ht.live⟩
    obtain ⟨source', hsettled⟩ := @settled_drawn R H M α r remote eps₀ answers k serve Good left
      own source hcollects _ (c, eps, false) hdrawn (fun sub hsub => (hasks sub hsub).1) hapart
      hfirst
    have hround := @Tracks.round R H M α r remote eps eps₀ answers c s k serve h
    unfold rounds
    dsimp only
    split_ifs
    · exact ⟨⟨source, hdrawn⟩, h.counted⟩
    · exact ⟨⟨source, hdrawn⟩, h.counted⟩
    · exact ih hround hsettled
    · exact ⟨⟨source', hsettled⟩, hround.counted⟩

end Track

/-! ### The callback -/

section Callback
variable {serve : ℤ → (ℤ → H → M) → List ℕ → α → α} {ffn : ℤ → H → M} {here : Here} {luck : Luck}
  {out : α} {Good : (ℕ → Bool) → (ℕ → H → M) → α → Prop}

/-- Every round of the failover helps while something waits, up to the number of workers. -/
def Helped (r : Routing R H) (here : Here) (luck : Luck) (eps : List Endpoint) : Prop :=
  ∀ k < eps.length,
    ((service r eps luck.answers).after (beginning here luck.hotComputes r eps) k).waiting.Nonempty →
      (service r eps luck.answers).Helps k
        ((service r eps luck.answers).after (beginning here luck.hotComputes r eps) k)

/-- Each pair has a worker that is connected, not dead, has its expert and would answer. -/
def Replicated (r : Routing R H) (eps : List Endpoint) (answers : ℕ → ℕ → Bool) : Prop :=
  ∀ p < r.nPairs, ∃ (i : ℕ) (w : Endpoint), eps[i]? = some w ∧ w.live = true ∧
    w.covers (r.sel p) = true ∧ ∀ k, answers k i = true

theorem steady_iff_helped (h : Replicated r eps luck.answers) :
    (service r eps luck.answers).Steady (beginning here luck.hotComputes r eps) ↔
      Helped r here luck eps := by
  apply Failover.steady_iff
  rintro p ⟨hp, -⟩
  obtain ⟨i, w, hw, hlive, hcovers, hanswers⟩ := h p hp
  refine ⟨i, (List.getElem?_eq_some_iff.mp hw).1, fun hdown => ?_, ⟨w, hw, hcovers⟩, hanswers⟩
  exact Bool.noConfusion ((hdown w hw).symm.trans hlive)

variable [AddCommMonoid M]

theorem hotPass_done (computes : Bool) (p : ℕ) :
    p ∈ here.leaves computes r ↔ p < r.nPairs ∧
      (hotPass r serve ffn here computes ⟨fun _ => false, r.nPairs, out⟩).done p = false := by
  unfold Here.leaves hotPass
  rw [Set.mem_ofPred_eq]
  refine and_congr_right fun hp => ?_
  split_ifs with hon
  · dsimp only
    split_ifs with hcomputes
    · rw [served_done]
      simp [hon, hcomputes.2, hp]
    · refine iff_of_true (fun hhot => hcomputes ⟨?_, hhot.2.2.1⟩) rfl
      exact List.ne_nil_of_mem (List.mem_filter.mpr ⟨List.mem_range.mpr hp, hhot.2.2.2⟩)
  · exact iff_of_true (fun hhot => hon ⟨hhot.1, hhot.2.1⟩) rfl

theorem hotPass_tracks (computes : Bool) : Tracks r eps
    (hotPass r serve ffn here computes ⟨fun _ => false, r.nPairs, out⟩) eps
    (beginning here computes r eps) where
  waiting p := hotPass_done computes p
  down i := Iff.rfl
  kept i := .inl rfl
  counted := by
    have hstart (out : α) : Counted r.nPairs ⟨fun _ => false, r.nPairs, out⟩ := by simp [Counted]
    unfold hotPass
    split_ifs
    · dsimp only
      split_ifs
      · refine ((hstart _).mark fun p hp => ?_).1
        exact List.mem_range.mp (List.mem_filter.mp hp).1
      · exact hstart out
    · exact hstart out

theorem hotPass_drawn (hcollects : Collects r serve Good)
    (hempty : ∀ source, Good (fun _ => false) source out) (computes : Bool)
    (answers : ℕ → ℕ → Bool) : Drawn r remote eps answers Good (here.leaves computes r)
      (fun p => here.slice.compute ffn (r.sel p))
      (hotPass r serve ffn here computes ⟨fun _ => false, r.nPairs, out⟩)
      (fun p => here.slice.compute ffn (r.sel p)) where
  good := by
    unfold hotPass
    split_ifs
    · dsimp only
      split_ifs
      · rw [served_out, served_done]
        have hgood := hcollects 0 (here.slice.compute ffn)
          ((List.range r.nPairs).filter fun p => here.hot (r.sel p)) (fun _ => false)
          (fun p => here.slice.compute ffn (r.sel p)) out (hempty _) (List.nodup_range.filter _)
          fun p hp => ⟨List.mem_range.mp (List.mem_filter.mp hp).1, rfl⟩
        simpa only [Int.sub_zero, ite_self] using hgood
      · exact hempty _
    · exact hempty _
  workers p hp hdone := by
    have hopen : (hotPass r serve ffn here computes ⟨fun _ => false, r.nPairs, out⟩).done p =
        false := ((hotPass_done computes p).mp hp).2
    exact Bool.noConfusion (hopen.symm.trans hdone)
  here p hp hout := by
    refine ⟨?_, rfl⟩
    by_contra hdone
    have hopen : (hotPass r serve ffn here computes ⟨fun _ => false, r.nPairs, out⟩).done p =
        false := by simpa using hdone
    exact hout ((hotPass_done computes p).mpr ⟨hp, hopen⟩)

theorem callback_iff (h : Replicated r eps luck.answers) :
    (callback r serve remote ffn here { luck with fallbackComputes := false } eps out).1 = true ↔
      Helped r here luck eps := by
  have htracks := @hotPass_tracks R H M α r eps serve ffn here out _ luck.hotComputes
  have hsteady := @rounds_steady R H M α r remote eps luck.answers 0 serve
    (beginning here luck.hotComputes r eps) r.nPairs _ eps htracks (by
      have hle := Finset.card_filter_le (Finset.range r.nPairs) fun p =>
        (hotPass r serve ffn here luck.hotComputes ⟨fun _ => false, r.nPairs, out⟩).done p = false
      rw [Finset.card_range] at hle
      exact htracks.counted ▸ hle)
  rw [← steady_iff_helped h]
  refine Iff.trans ?_ (hsteady.trans ?_)
  · unfold callback fallback
    dsimp only
    split_ifs with hzero hhere
    · exact iff_of_true rfl hzero
    · exact hhere.2.elim
    · exact iff_of_false not_false hzero
  · exact ⟨fun hall k => hall k (Nat.zero_le k), fun hall k _ => hall k⟩

theorem callback_sources (hcollects : Collects r serve Good)
    (hempty : ∀ source, Good (fun _ => false) source out) (h : Replicated r eps luck.answers)
    (hhelped : Helped r here luck eps) (computes : Bool) :
    (callback r serve remote ffn here { luck with fallbackComputes := computes } eps out).1 = true ∧
      ∃ source, (∀ p ∈ here.leaves luck.hotComputes r,
          FromWorker r remote eps luck.answers p (source p)) ∧
        (∀ p < r.nPairs, p ∉ here.leaves luck.hotComputes r →
          source p = here.slice.compute ffn (r.sel p)) ∧
        ∃ done : ℕ → Bool, (∀ p < r.nPairs, done p = true) ∧ Good done source
          (callback r serve remote ffn here { luck with fallbackComputes := computes } eps
            out).2.1.out := by
  have hok := (@callback_iff R H M α r remote eps serve ffn here luck out _ h).mpr hhelped
  obtain ⟨⟨source, hdrawn⟩, hcounted⟩ := @rounds_drawn R H M α r remote eps luck.answers 0 serve
    Good _ _ _ hcollects r.nPairs _ eps _
    (@hotPass_tracks R H M α r eps serve ffn here out _ luck.hotComputes)
    (hotPass_drawn hcollects hempty luck.hotComputes luck.answers)
  unfold callback fallback at hok ⊢
  dsimp only at hok ⊢
  split_ifs at hok with hzero hhere
  · rw [if_pos hzero]
    have hall := hcounted.all_done hzero
    refine ⟨rfl, source, fun p hp => hdrawn.workers p hp (hall p hp.1),
      fun p hp hout => (hdrawn.here p hp hout).2, _, hall, hdrawn.good⟩
  · exact hhere.2.elim

end Callback

end

/-! ### Both wires -/

section
variable {R H M : Type*} (r : Routing R H)

/-- On the first wire a done pair has the row that its source gives. -/
def RowsFrom (done : ℕ → Bool) (source : ℕ → H → M) (out : ℕ → M) : Prop :=
  ∀ p < r.nPairs, done p = true → out p = source p (r.cur (r.token p))

theorem serveDispatch_collects : Collects r (serveDispatch r) (RowsFrom r (M := M)) := by
  intro base f idx done source out hgood honce hopen p hp hdone
  rw [serveDispatch_apply]
  dsimp only at hdone ⊢
  split_ifs with hmem
  · rfl
  · exact hgood p hp (by simpa [hmem] using hdone)

/-- The routing with each pair as an expert of its own. -/
def Routing.byPair : Routing R H := { r with sel := fun p => (p : ℤ) }

variable [Semiring R] [AddCommMonoid M] [Module R M]

/-- On the second wire a token has the weighted rows that the sources of its done pairs give. -/
def SumsFrom (done : ℕ → Bool) (source : ℕ → H → M) (out : ℕ → M) : Prop :=
  SumsGood r.byPair (fun e => source e.toNat) done out

theorem serveReduce_byPair (base : ℤ) (f : ℤ → H → M) (idx : List ℕ) (out : ℕ → M) :
    serveReduce r base f idx out =
      serveReduce r.byPair 0 (fun e => f (r.sel e.toNat - base)) idx out := by
  funext t
  rw [serveReduce_apply, serveReduce_apply]
  simp only [Routing.byPair, Int.sub_zero, Int.toNat_natCast]
  rfl

theorem serveReduce_collects : Collects r (serveReduce r) (SumsFrom r (M := M)) := by
  intro base f idx done source out hgood honce hopen
  have hsame : SumsGood r.byPair (fun e => if e.toNat ∈ idx then f (r.sel e.toNat - base)
      else source e.toNat) done out := by
    intro t
    rw [hgood t]
    apply Finset.sum_congr rfl
    intro p _
    -- a done pair is none of these
    by_cases hdone : done p = true ∧ r.byPair.token p = t
    · have hmem : p ∉ idx := fun hmem => Bool.noConfusion ((hopen p hmem).2.symm.trans hdone.1)
      rw [if_pos hdone, if_pos hdone]
      simp [Routing.share, Routing.value, Routing.byPair, hmem]
    · rw [if_neg hdone, if_neg hdone]
  rw [serveReduce_byPair]
  refine serveReduce_lawful r.byPair _ 0 _ idx done out hsame honce hopen fun p hp row => ?_
  simp [Routing.byPair, hp]

theorem SumsFrom.all {done : ℕ → Bool} {source : ℕ → H → M} {out : ℕ → M}
    (h : SumsFrom r done source out) (hall : ∀ p < r.nPairs, done p = true) {t : ℕ}
    (ht : t < r.nTokens) : out t = ∑ u ∈ Finset.range r.nUsed,
      r.probs (t * r.nUsed + u) • source (t * r.nUsed + u) (r.cur t) := by
  calc out t = ∑ p ∈ Finset.range r.byPair.nPairs, if done p = true ∧ r.byPair.token p = t then
          r.byPair.share (fun e => source e.toNat) p else 0 := h t
    _ = ∑ p ∈ Finset.range r.byPair.nPairs, if r.byPair.token p = t then
          r.byPair.share (fun e => source e.toNat) p else 0 := by
        apply Finset.sum_congr rfl
        intro p hp
        simp [hall p (Finset.mem_range.mp hp)]
    _ = ∑ u ∈ Finset.range r.byPair.nUsed,
          r.byPair.share (fun e => source e.toNat) (t * r.byPair.nUsed + u) :=
        sum_pairs_of_token r.byPair _ ht
    _ = r.byPair.monolithic (fun e => source e.toNat) t := sum_share_eq r.byPair _ t

end

section
variable {R H M : Type*} [Semiring R] [AddCommMonoid M] [Module R M]

/-- What the pairs are computed by: workers, but for those that the hot cache does not leave. -/
structure Sources (r : Routing R H) (remote : Endpoint → ℤ → H → M) (ffn : ℤ → H → M) (here : Here)
    (luck : Luck) (eps : List Endpoint) (source : ℕ → H → M) : Prop where
  workers : ∀ p ∈ here.leaves luck.hotComputes r,
    FromWorker r remote eps luck.answers p (source p)
  hot : ∀ p < r.nPairs, p ∉ here.leaves luck.hotComputes r →
    source p = here.slice.compute ffn (r.sel p)

/-- `map_dispatch_cb` succeeds with what the workers computed, whether or not the local slice could
compute anything in their place. -/
def DispatchReached (r : Routing R H) (remote : Endpoint → ℤ → H → M) (ffn : ℤ → H → M)
    (here : Here) (luck : Luck) (eps : List Endpoint) (expertsOut : ℕ → M) : Prop :=
  ∀ computes : Bool,
    (mapDispatch r remote ffn here { luck with fallbackComputes := computes } eps
      expertsOut).1 = true ∧
    ∃ source, Sources r remote ffn here luck eps source ∧ ∀ p < r.nPairs,
      (mapDispatch r remote ffn here { luck with fallbackComputes := computes } eps
        expertsOut).2.1.out p = source p (r.cur (r.token p))

/-- The same of `map_reduce_cb`. -/
def ReduceReached (r : Routing R H) (remote : Endpoint → ℤ → H → M) (ffn : ℤ → H → M)
    (here : Here) (luck : Luck) (eps : List Endpoint) : Prop :=
  ∀ computes : Bool,
    (mapReduce r remote ffn here { luck with fallbackComputes := computes } eps).1 = true ∧
    ∃ source, Sources r remote ffn here luck eps source ∧ ∀ t < r.nTokens,
      (mapReduce r remote ffn here { luck with fallbackComputes := computes } eps).2.1.out t =
        ∑ u ∈ Finset.range r.nUsed,
          r.probs (t * r.nUsed + u) • source (t * r.nUsed + u) (r.cur t)

/-- When each pair has a worker that would answer, the pairs are obtained from workers exactly when
some worker answers in every round in which pairs still wait. -/
theorem reaches_replicas (r : Routing R H) (remote : Endpoint → ℤ → H → M) (ffn : ℤ → H → M)
    (here : Here) (luck : Luck) (eps : List Endpoint) (expertsOut : ℕ → M)
    (hreplicated : Replicated r eps luck.answers) :
    (DispatchReached r remote ffn here luck eps expertsOut ↔ Helped r here luck eps) ∧
    (ReduceReached r remote ffn here luck eps ↔ Helped r here luck eps) := by
  refine ⟨⟨fun hreached => ?_, fun hhelped computes => ?_⟩,
    ⟨fun hreached => ?_, fun hhelped computes => ?_⟩⟩
  · exact (callback_iff hreplicated).mp (hreached false).1
  · obtain ⟨hok, source, hworkers, hhot, done, hall, hgood⟩ :=
      @callback_sources R H M (ℕ → M) r remote eps _ ffn here luck expertsOut _ _
        (serveDispatch_collects r) (fun _ _ _ h => Bool.noConfusion h) hreplicated hhelped computes
    exact ⟨hok, source, ⟨hworkers, hhot⟩, fun p hp => hgood p hp (hall p hp)⟩
  · exact (callback_iff hreplicated).mp (hreached false).1
  · have hempty : ∀ source : ℕ → H → M, SumsFrom r (fun _ => false) source fun _ => 0 := by
      intro source t
      simp
    obtain ⟨hok, source, hworkers, hhot, done, hall, hgood⟩ :=
      @callback_sources R H M (ℕ → M) r remote eps _ ffn here luck _ _ _ (serveReduce_collects r)
        hempty hreplicated hhelped computes
    exact ⟨hok, source, ⟨hworkers, hhot⟩, fun t ht => hgood.all r hall ht⟩

end

/-- A token whose two slots go to a replicated expert and to another one. -/
def twoExperts : Routing ℤ ℤ := ⟨2, 1, fun _ => 5, fun p => if p = 0 then 0 else 2, fun _ => 1⟩

def threeWorkers : List Endpoint := [⟨0, 2, 5, false⟩, ⟨0, 2, 6, false⟩, ⟨2, 4, 7, false⟩]

def noSlice : Here := ⟨false, ⟨0⟩, 0, fun _ => false⟩

def firstFails : Luck := ⟨false, fun _ i => i != 0, false⟩

theorem reaches_replicas_two :
    DispatchReached twoExperts sampleRemote sampleFfn noSlice firstFails threeWorkers
      (fun _ => 0) ∧
    ReduceReached twoExperts sampleRemote sampleFfn noSlice firstFails threeWorkers := by
  have hreplicated : Replicated twoExperts threeWorkers firstFails.answers := by
    intro p _
    by_cases hp : p = 0
    · subst hp
      exact ⟨1, ⟨0, 2, 6, false⟩, rfl, by decide, by decide, fun _ => rfl⟩
    · refine ⟨2, ⟨2, 4, 7, false⟩, rfl, by decide, ?_, fun _ => rfl⟩
      simp [twoExperts, hp, Endpoint.covers]
  have hhelped : Helped twoExperts noSlice firstFails threeWorkers :=
    (@callback_iff ℤ ℤ ℤ (ℕ → ℤ) twoExperts sampleRemote threeWorkers (serveDispatch twoExperts)
      sampleFfn noSlice firstFails (fun _ => 0) _ hreplicated).mp (by decide)
  obtain ⟨hdispatch, hreduce⟩ := reaches_replicas twoExperts sampleRemote sampleFfn noSlice
    firstFails threeWorkers (fun _ => 0) hreplicated
  exact ⟨hdispatch.mpr hhelped, hreduce.mpr hhelped⟩

def oneExpert : Routing ℤ ℤ := ⟨1, 1, fun _ => 5, fun _ => 0, fun _ => 1⟩

def twoReplicas : List Endpoint := [⟨0, 2, 5, false⟩, ⟨0, 2, 6, false⟩]

/-- The second replica would answer, but it is not asked: nobody answered in the first round. -/
theorem second_replica_unasked :
    Replicated oneExpert twoReplicas firstFails.answers ∧
    (mapDispatch oneExpert sampleRemote sampleFfn noSlice firstFails twoReplicas
      (fun _ => 0)).1 = false ∧
    (mapReduce oneExpert sampleRemote sampleFfn noSlice firstFails twoReplicas).1 = false ∧
    (mapReduce oneExpert sampleRemote sampleFfn noSlice firstFails twoReplicas).2.2 =
      [⟨0, 2, -1, true⟩, ⟨0, 2, 6, false⟩] := by
  refine ⟨fun p _ => ?_, by decide, by decide, by decide⟩
  exact ⟨1, ⟨0, 2, 6, false⟩, rfl, by decide, (by decide : Endpoint.covers ⟨0, 2, 6, false⟩ 0 = true),
    fun _ => rfl⟩

end KvasirNet.Moe
