import KvasirNet.MoeDispatch
import Mathlib.Data.List.Nodup

/-! Whatever the workers do, every pair is computed once. The callback's loop is
the same on both wires, so what it keeps is proved for any wire that is lawful:
serving pairs that are not done makes exactly those done. -/
namespace KvasirNet.Moe

variable {R H M α : Type*} {r : Routing R H}

/-! ## Marking -/

theorem markOne_done (c : Progress α) (p q : ℕ) :
    (c.markOne p).done q = (c.done q || q == p) := by
  unfold Progress.markOne
  split_ifs with hp
  · by_cases hq : q = p
    · subst hq
      rw [hp, Bool.true_or]
    · rw [beq_eq_false_iff_ne.mpr hq, Bool.or_false]
  · by_cases hq : q = p
    · subst hq
      simp
    · simp [hq]

theorem mark_done (c : Progress α) (idx : List ℕ) (q : ℕ) :
    (c.mark idx).done q = (c.done q || idx.contains q) := by
  induction idx generalizing c with
  | nil => simp [Progress.mark]
  | cons p idx ih =>
    have hstep : c.mark (p :: idx) = (c.markOne p).mark idx := rfl
    rw [hstep, ih, markOne_done, List.contains_cons, Bool.or_assoc]

theorem mark_out (c : Progress α) (idx : List ℕ) : (c.mark idx).out = c.out := by
  induction idx generalizing c with
  | nil => rfl
  | cons p idx ih =>
    have hstep : c.mark (p :: idx) = (c.markOne p).mark idx := rfl
    rw [hstep, ih]
    unfold Progress.markOne
    split_ifs <;> rfl

/-- The counter is the number of pairs that are not done. -/
def Counted (n : ℕ) (c : Progress α) : Prop :=
  c.remaining = ((Finset.range n).filter fun p => c.done p = false).card

theorem Counted.markOne {n p : ℕ} {c : Progress α} (h : Counted n c) (hp : p < n) :
    Counted n (c.markOne p) ∧ (c.done p = false → (c.markOne p).remaining < c.remaining) ∧
      (c.markOne p).remaining ≤ c.remaining := by
  cases hd : c.done p with
  | true =>
    have hsame : c.markOne p = c := by rw [Progress.markOne, hd, if_pos rfl]
    rw [hsame]
    exact ⟨h, fun hf => Bool.noConfusion hf, le_rfl⟩
  | false =>
    have hmem : p ∈ (Finset.range n).filter fun q => c.done q = false :=
      Finset.mem_filter.mpr ⟨Finset.mem_range.mpr hp, hd⟩
    have hrest : ((Finset.range n).filter fun q => (c.markOne p).done q = false) =
        ((Finset.range n).filter fun q => c.done q = false).erase p := by
      ext q
      simp only [Finset.mem_filter, Finset.mem_erase, markOne_done, Bool.or_eq_false_iff,
        beq_eq_false_iff_ne]
      tauto
    have hremaining : (c.markOne p).remaining = c.remaining - 1 := by
      rw [Progress.markOne, hd, if_neg Bool.false_ne_true]
    have hpos : 0 < c.remaining := by
      rw [h]
      exact Finset.card_pos.mpr ⟨p, hmem⟩
    refine ⟨?_, fun _ => by omega, by omega⟩
    rw [Counted, hrest, Finset.card_erase_of_mem hmem, hremaining, h]

theorem Counted.mark {n : ℕ} {idx : List ℕ} {c : Progress α} (h : Counted n c)
    (hidx : ∀ p ∈ idx, p < n) :
    Counted n (c.mark idx) ∧ (c.mark idx).remaining ≤ c.remaining := by
  induction idx generalizing c with
  | nil => exact ⟨h, le_rfl⟩
  | cons p idx ih =>
    obtain ⟨hone, -, hle⟩ := h.markOne (hidx p List.mem_cons_self)
    obtain ⟨hall, hrest⟩ := ih hone fun q hq => hidx q (List.mem_cons_of_mem p hq)
    exact ⟨hall, hrest.trans hle⟩

theorem Counted.mark_lt {n : ℕ} {idx : List ℕ} {c : Progress α} (h : Counted n c) (hne : idx ≠ [])
    (hidx : ∀ p ∈ idx, p < n ∧ c.done p = false) : (c.mark idx).remaining < c.remaining := by
  cases idx with
  | nil => exact absurd rfl hne
  | cons p idx =>
    obtain ⟨hp, hd⟩ := hidx p List.mem_cons_self
    obtain ⟨hone, hlt, -⟩ := h.markOne hp
    have hrest : ∀ q ∈ idx, q < n := fun q hq => (hidx q (List.mem_cons_of_mem p hq)).1
    exact (hone.mark hrest).2.trans_lt (hlt hd)

/-! ## Requests of a round -/

/-- A request asks for pairs that are open, each once, and nobody else's. -/
structure Asks (r : Routing R H) (done : ℕ → Bool) (sub : ℕ × Endpoint × List ℕ) : Prop where
  some : sub.2.2 ≠ []
  once : sub.2.2.Nodup
  isOpen : ∀ p ∈ sub.2.2, p < r.nPairs ∧ done p = false
  covers : ∀ p ∈ sub.2.2, sub.2.1.covers (r.sel p) = true

theorem mem_claimed {done taken : ℕ → Bool} {w : Endpoint} {p : ℕ} :
    p ∈ claimed r done taken w ↔
      p < r.nPairs ∧ done p = false ∧ taken p = false ∧ w.covers (r.sel p) = true := by
  simp [claimed, and_assoc]

theorem assign_asks (done taken : ℕ → Bool) (i : ℕ) (eps : List Endpoint) :
    (∀ sub ∈ assign r done i taken eps,
      Asks r done sub ∧ ∀ p ∈ sub.2.2, taken p = false) ∧
    (assign r done i taken eps).Pairwise fun a b => ∀ p ∈ a.2.2, p ∉ b.2.2 := by
  induction eps generalizing i taken with
  | nil => exact ⟨fun sub h => absurd h List.not_mem_nil, List.Pairwise.nil⟩
  | cons w ws ih =>
    unfold assign
    split_ifs with hlive
    · dsimp only
      obtain ⟨hrest, hpairs⟩ := ih (fun p => taken p || (claimed r done taken w).contains p) (i + 1)
      have hfree : ∀ sub ∈ assign r done (i + 1)
          (fun p => taken p || (claimed r done taken w).contains p) ws,
          Asks r done sub ∧ ∀ p ∈ sub.2.2, taken p = false ∧ p ∉ claimed r done taken w := by
        intro sub hsub
        obtain ⟨hasks, htaken⟩ := hrest sub hsub
        refine ⟨hasks, fun p hp => ?_⟩
        have hor := htaken p hp
        rw [Bool.or_eq_false_iff] at hor
        exact ⟨hor.1, by simpa using hor.2⟩
      split_ifs with hempty
      · exact ⟨fun sub hsub => ⟨(hfree sub hsub).1, fun p hp => ((hfree sub hsub).2 p hp).1⟩, hpairs⟩
      · refine ⟨fun sub hsub => ?_, List.pairwise_cons.mpr ⟨fun sub hsub p hp hq => ?_, hpairs⟩⟩
        · rcases List.mem_cons.mp hsub with rfl | hold
          · refine ⟨⟨hempty, List.nodup_range.filter _, fun p hp => ?_, fun p hp => ?_⟩, fun p hp => ?_⟩
            · exact ⟨(mem_claimed.mp hp).1, (mem_claimed.mp hp).2.1⟩
            · exact (mem_claimed.mp hp).2.2.2
            · exact (mem_claimed.mp hp).2.2.1
          · exact ⟨(hfree sub hold).1, fun p hp => ((hfree sub hold).2 p hp).1⟩
        · exact ((hfree sub hsub).2 p hq).2 hp
    · exact ih taken (i + 1)

/-! ## Lawful wires -/

section Loop
variable {ffn : ℤ → H → M} {remote : Endpoint → ℤ → H → M}
  {serve : ℤ → (ℤ → H → M) → List ℕ → α → α} {Good : (ℕ → Bool) → α → Prop}

/-- `Good done out`: the output is what the done pairs make of it. Serving open
pairs, each once and with the right experts, makes them done. -/
def Lawful (r : Routing R H) (ffn : ℤ → H → M) (serve : ℤ → (ℤ → H → M) → List ℕ → α → α)
    (Good : (ℕ → Bool) → α → Prop) : Prop :=
  ∀ base f idx done out, Good done out → idx.Nodup →
    (∀ p ∈ idx, p < r.nPairs ∧ done p = false) →
    (∀ p ∈ idx, ∀ row, f (r.sel p - base) row = ffn (r.sel p) row) →
    Good (fun p => done p || idx.contains p) (serve base f idx out)

/-- The output is good for what is done, and the counter is right. -/
structure Holds (r : Routing R H) (Good : (ℕ → Bool) → α → Prop) (c : Progress α) : Prop where
  good : Good c.done c.out
  counted : Counted r.nPairs c

theorem served_out (serve : ℤ → (ℤ → H → M) → List ℕ → α → α) (c : Progress α) (base : ℤ)
    (f : ℤ → H → M) (idx : List ℕ) : (c.served serve base f idx).out = serve base f idx c.out :=
  mark_out _ _

theorem served_done (serve : ℤ → (ℤ → H → M) → List ℕ → α → α) (c : Progress α) (base : ℤ)
    (f : ℤ → H → M) (idx : List ℕ) :
    (c.served serve base f idx).done = fun p => c.done p || idx.contains p :=
  funext (mark_done _ idx)

theorem Holds.marked {c : Progress α} {base : ℤ} {f : ℤ → H → M} {idx : List ℕ}
    (hc : Holds r Good c) (hopen : ∀ p ∈ idx, p < r.nPairs ∧ c.done p = false)
    (hgood : Good (fun p => c.done p || idx.contains p) (serve base f idx c.out)) :
    Holds r Good (c.served serve base f idx) where
  good := by
    rw [served_out, served_done]
    exact hgood
  counted := by
    have hcounted : Counted r.nPairs { c with out := serve base f idx c.out } := hc.counted
    exact (hcounted.mark fun p hp => (hopen p hp).1).1

theorem Holds.served {c : Progress α} {base : ℤ} {f : ℤ → H → M} {idx : List ℕ}
    (hlaw : Lawful r ffn serve Good) (hc : Holds r Good c) (honce : idx.Nodup)
    (hopen : ∀ p ∈ idx, p < r.nPairs ∧ c.done p = false)
    (hf : ∀ p ∈ idx, ∀ row, f (r.sel p - base) row = ffn (r.sel p) row) :
    Holds r Good (c.served serve base f idx) :=
  hc.marked hopen (hlaw base f idx c.done c.out hc.good honce hopen hf)

theorem served_lt {c : Progress α} {base : ℤ} {f : ℤ → H → M} {idx : List ℕ}
    (hc : Holds r Good c) (hne : idx ≠ []) (hopen : ∀ p ∈ idx, p < r.nPairs ∧ c.done p = false) :
    (c.served serve base f idx).remaining < c.remaining := by
  have hcounted : Counted r.nPairs { c with out := serve base f idx c.out } := hc.counted
  exact hcounted.mark_lt hne hopen

/-- Serving pairs of a worker's range from what it answers makes them done. -/
def Serves (r : Routing R H) (serve : ℤ → (ℤ → H → M) → List ℕ → α → α)
    (remote : Endpoint → ℤ → H → M) (Good : (ℕ → Bool) → α → Prop) : Prop :=
  ∀ w idx done out, Good done out → idx.Nodup → (∀ p ∈ idx, p < r.nPairs ∧ done p = false) →
    (∀ p ∈ idx, w.covers (r.sel p) = true) →
    Good (fun p => done p || idx.contains p) (serve w.expertBegin (remote w) idx out)

theorem Lawful.serves (hlaw : Lawful r ffn serve Good) (hremote : ServesRange remote ffn) :
    Serves r serve remote Good :=
  fun w idx done out hgood honce hopen hcovers => hlaw _ _ idx done out hgood honce hopen
    fun p hp row => hremote w (r.sel p) row (hcovers p hp)

theorem settle_holds (hserves : Serves r serve remote Good)
    (answers : ℕ → Bool) (subs : List (ℕ × Endpoint × List ℕ))
    (x : Progress α × List Endpoint × Bool) (hx : Holds r Good x.1)
    (hasks : ∀ sub ∈ subs, Asks r x.1.done sub)
    (hapart : subs.Pairwise fun a b => ∀ p ∈ a.2.2, p ∉ b.2.2) :
    Holds r Good (subs.foldl (settle serve remote answers) x).1 ∧
      (subs.foldl (settle serve remote answers) x).1.remaining ≤ x.1.remaining ∧
      ((subs.foldl (settle serve remote answers) x).2.2 = true → x.2.2 = true ∨
        (subs.foldl (settle serve remote answers) x).1.remaining < x.1.remaining) := by
  induction subs generalizing x with
  | nil => exact ⟨hx, le_rfl, Or.inl⟩
  | cons sub subs ih =>
    obtain ⟨hfirst, hrest⟩ := List.pairwise_cons.mp hapart
    have hsub := hasks sub List.mem_cons_self
    rw [List.foldl_cons]
    cases hanswer : answers sub.1 with
    | false =>
      have hstep : settle serve remote answers x sub =
          (x.1, x.2.1.modify sub.1 Endpoint.bury, x.2.2) := by
        rw [settle, hanswer, if_neg Bool.false_ne_true]
      rw [hstep]
      exact ih _ hx (fun s hs => hasks s (List.mem_cons_of_mem sub hs)) hrest
    | true =>
      have hstep : settle serve remote answers x sub =
          (x.1.served serve sub.2.1.expertBegin (remote sub.2.1) sub.2.2, x.2.1, true) := by
        rw [settle, hanswer, if_pos rfl]
      have hgood := hserves sub.2.1 sub.2.2 x.1.done x.1.out hx.good hsub.once hsub.isOpen
        hsub.covers
      have hserved := hx.marked hsub.isOpen hgood
      have hless : (x.1.served serve sub.2.1.expertBegin (remote sub.2.1) sub.2.2).remaining <
          x.1.remaining := served_lt hx hsub.some hsub.isOpen
      rw [hstep]
      -- the later requests share no pair with this one, so theirs are still open
      have hlater : ∀ s ∈ subs,
          Asks r (x.1.served serve sub.2.1.expertBegin (remote sub.2.1) sub.2.2).done s := by
        intro s hs
        have hold := hasks s (List.mem_cons_of_mem sub hs)
        refine ⟨hold.some, hold.once, fun p hp => ⟨(hold.isOpen p hp).1, ?_⟩, hold.covers⟩
        rw [served_done]
        dsimp only
        rw [(hold.isOpen p hp).2, Bool.false_or]
        simpa using fun hmem => hfirst s hs p hmem hp
      obtain ⟨hholds, hle, -⟩ := ih
        (x.1.served serve sub.2.1.expertBegin (remote sub.2.1) sub.2.2, x.2.1, true) hserved hlater hrest
      exact ⟨hholds, hle.trans hless.le, fun _ => Or.inr (hle.trans_lt hless)⟩

theorem rounds_holds (hserves : Serves r serve remote Good) (answers : ℕ → ℕ → Bool)
    (fuel round : ℕ) (c : Progress α) (eps : List Endpoint) (hc : Holds r Good c) :
    Holds r Good (rounds r serve remote answers fuel round c eps).1 := by
  induction fuel generalizing round c eps with
  | zero => exact hc
  | succ fuel ih =>
    unfold rounds
    dsimp only
    split_ifs with hzero hsubs hprogress
    · exact hc
    · exact hc
    all_goals
      obtain ⟨hasks, hapart⟩ := assign_asks (r := r) c.done (fun _ => false) 0 eps
      obtain ⟨hsettled, -, -⟩ := settle_holds hserves (answers round)
        (assign r c.done 0 (fun _ => false) eps) (c, eps, false) hc
        (fun sub hsub => (hasks sub hsub).1) hapart
    · exact ih _ _ _ hsettled
    · exact hsettled

/-- A round that goes on has served a pair, whatever the workers answered, so more rounds than
pairs change nothing: the loop ends by itself. -/
theorem rounds_enough (answers : ℕ → ℕ → Bool) (fuel round : ℕ) (c : Progress α)
    (eps : List Endpoint) (hc : Counted r.nPairs c) (hfuel : c.remaining ≤ fuel) :
    rounds r serve remote answers (fuel + 1) round c eps =
      rounds r serve remote answers fuel round c eps := by
  induction fuel generalizing round c eps with
  | zero =>
    have hzero : c.remaining = 0 := by omega
    simp only [rounds, hzero, if_true]
  | succ fuel ih =>
    rw [rounds, rounds]
    dsimp only
    split_ifs with hzero hsubs hprogress
    · rfl
    · rfl
    · obtain ⟨hasks, hapart⟩ := assign_asks (r := r) c.done (fun _ => false) 0 eps
      have hserves : Serves r serve remote fun _ _ => True := fun _ _ _ _ _ _ _ _ => trivial
      obtain ⟨hsettled, -, hless⟩ := settle_holds hserves (answers round)
        (assign r c.done 0 (fun _ => false) eps) (c, eps, false) ⟨trivial, hc⟩
        (fun sub hsub => (hasks sub hsub).1) hapart
      have hlt := (hless hprogress).resolve_left Bool.false_ne_true
      exact ih _ _ _ hsettled.counted (by dsimp only at hlt; omega)
    · rfl

theorem Counted.all_done {n : ℕ} {c : Progress α} (h : Counted n c) (hzero : c.remaining = 0) :
    ∀ p < n, c.done p = true := by
  intro p hp
  by_contra hd
  have hmem : p ∈ (Finset.range n).filter fun q => c.done q = false :=
    Finset.mem_filter.mpr ⟨Finset.mem_range.mpr hp, by simpa using hd⟩
  have hpos := Finset.card_pos.mpr ⟨p, hmem⟩
  rw [Counted, hzero] at h
  omega

theorem callback_good [AddCommMonoid M] (hlaw : Lawful r ffn serve Good) (hremote : ServesRange remote ffn)
    {here : Here} (hslice : ∀ p < r.nPairs, here.slice.holds (r.sel p) = true) {luck : Luck}
    {eps : List Endpoint} {out : α} (hout : Good (fun _ => false) out)
    (hok : (callback r serve remote ffn here luck eps out).1 = true) :
    ∃ done, (∀ p < r.nPairs, done p = true) ∧
      Good done (callback r serve remote ffn here luck eps out).2.1.out := by
  have hcompute (idx : List ℕ) (hidx : ∀ p ∈ idx, p < r.nPairs) :
      ∀ p ∈ idx, ∀ row, here.slice.compute ffn (r.sel p - 0) row = ffn (r.sel p) row := by
    intro p hp row
    rw [sub_zero, Slice.compute, if_pos (hslice p (hidx p hp))]
  have hstart : Holds r Good ⟨fun _ => false, r.nPairs, out⟩ := ⟨hout, by simp [Counted]⟩
  have hhot : Holds r Good (hotPass r serve ffn here luck.hotComputes
      ⟨fun _ => false, r.nPairs, out⟩) := by
    unfold hotPass
    split_ifs with hon
    · dsimp only
      split_ifs with hcomputes
      · have hrange : ∀ p ∈ (List.range r.nPairs).filter (fun p => here.hot (r.sel p)),
            p < r.nPairs := fun p hp => List.mem_range.mp (List.mem_filter.mp hp).1
        exact hstart.served hlaw (List.nodup_range.filter _) (fun p hp => ⟨hrange p hp, rfl⟩)
          (hcompute _ hrange)
      · exact hstart
    · exact hstart
  have hrounds := rounds_holds (hlaw.serves hremote) luck.answers r.nPairs 0 _ eps hhot
  unfold callback at hok ⊢
  dsimp only at hok ⊢
  generalize (rounds r serve remote luck.answers r.nPairs 0 (hotPass r serve ffn here
    luck.hotComputes ⟨fun _ => false, r.nPairs, out⟩) eps) = x at hok hrounds ⊢
  unfold fallback at hok ⊢
  split_ifs at hok ⊢ with hzero hhere
  · exact ⟨x.1.done, hrounds.counted.all_done hzero, hrounds.good⟩
  · have hopen : ∀ p ∈ (List.range r.nPairs).filter (fun p => !x.1.done p),
        p < r.nPairs ∧ x.1.done p = false := by
      intro p hp
      obtain ⟨hmem, hd⟩ := List.mem_filter.mp hp
      exact ⟨List.mem_range.mp hmem, by simpa using hd⟩
    have hserved := hrounds.served hlaw (List.nodup_range.filter _) hopen
      (hcompute _ fun p hp => (hopen p hp).1)
    refine ⟨_, fun p hp => ?_, hserved.good⟩
    rw [served_done]
    dsimp only
    cases hd : x.1.done p with
    | true => rfl
    | false =>
      rw [Bool.false_or, List.contains_iff_mem, List.mem_filter]
      exact ⟨List.mem_range.mpr hp, by rw [hd]; rfl⟩

end Loop

end KvasirNet.Moe
