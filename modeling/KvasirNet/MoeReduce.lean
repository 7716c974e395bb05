import KvasirNet.MoeRounds
import Mathlib.Tactic.Ring

/-! Both wires compute what one machine with all the experts would: a row for each
pair on the first, the weighted sum of a token's rows on the second. -/
namespace KvasirNet.Moe

variable {R H M : Type*} {r : Routing R H} {ffn : ℤ → H → M}

/-- What the pair is worth: its expert on its token's row. -/
def Routing.value (r : Routing R H) (ffn : ℤ → H → M) (p : ℕ) : M :=
  ffn (r.sel p) (r.cur (r.token p))

theorem Routing.pair_lt (r : Routing R H) {t u : ℕ} (ht : t < r.nTokens) (hu : u < r.nUsed) :
    t * r.nUsed + u < r.nPairs := by
  calc t * r.nUsed + u < t * r.nUsed + r.nUsed := by omega
    _ = (t + 1) * r.nUsed := by ring
    _ ≤ r.nTokens * r.nUsed := Nat.mul_le_mul_right _ ht
    _ = r.nPairs := Nat.mul_comm _ _

theorem Routing.token_pair (r : Routing R H) (t : ℕ) {u : ℕ} (hu : u < r.nUsed) :
    r.token (t * r.nUsed + u) = t := by
  rw [Routing.token, Nat.mul_comm, Nat.mul_add_div (by omega), Nat.div_eq_of_lt hu, Nat.add_zero]

/-! ## The per-expert wire -/

theorem foldl_update_apply {idx : List ℕ} (v : ℕ → M) (out : ℕ → M) (q : ℕ) :
    (idx.map fun p => (p, v p)).foldl (fun out e => Function.update out e.1 e.2) out q =
      if q ∈ idx then v q else out q := by
  induction idx generalizing out with
  | nil => simp
  | cons p idx ih =>
    rw [List.map_cons, List.foldl_cons, ih]
    by_cases hq : q ∈ idx
    · simp [hq]
    · by_cases hp : q = p
      · subst hp
        simp [hq]
      · simp [hq, hp]

theorem serveDispatch_apply (base : ℤ) (f : ℤ → H → M) (idx : List ℕ) (out : ℕ → M) (q : ℕ) :
    serveDispatch r base f idx out q =
      if q ∈ idx then f (r.sel q - base) (r.cur (r.token q)) else out q := by
  have hzip : idx.zip ((fillSub r base idx).answer f) =
      idx.map fun p => (p, f (r.sel p - base) (r.cur (r.token p))) := by
    simp only [SubReq.answer, fillSub, List.zipWith_map]
    induction idx with
    | nil => rfl
    | cons p idx ih => rw [List.zipWith_cons_cons, List.zip_cons_cons, ih, List.map_cons]
  have hscatter : serveDispatch r base f idx out =
      (idx.zip ((fillSub r base idx).answer f)).foldl (fun out e => Function.update out e.1 e.2)
        out := rfl
  rw [hscatter, hzip, foldl_update_apply]

def RowsGood (r : Routing R H) (ffn : ℤ → H → M) (done : ℕ → Bool) (out : ℕ → M) : Prop :=
  ∀ p < r.nPairs, done p = true → out p = r.value ffn p

theorem serveDispatch_lawful (r : Routing R H) (ffn : ℤ → H → M) :
    Lawful r ffn (serveDispatch r) (RowsGood r ffn) := by
  intro base f idx done out hgood honce hopen hf p hp hd
  rw [serveDispatch_apply]
  split_ifs with hmem
  · rw [hf p hmem, Routing.value]
  · have hbefore : done p = true := by simpa [hmem] using hd
    exact hgood p hp hbefore

/-! ## Gathering rows -/

/-- A token's slot points at its row, and the row index of each pair at the row
of its token. -/
structure Gather.Points (g : Gather) (toks : List ℕ) : Prop where
  slot : ∀ tok, g.tokSlot tok ≠ 0 → g.toks[g.tokSlot tok - 1]? = some tok
  row : g.rowIdx.map (fun k => g.toks[k]?) = toks.map some

theorem getElem?_append_some {l : List ℕ} {k tok x : ℕ} (h : l[k]? = some tok) :
    (l ++ [x])[k]? = some tok := by
  have hlt := (List.getElem?_eq_some_iff.mp h).1
  rw [List.getElem?_append_left hlt, h]

theorem Gather.Points.add {g : Gather} {toks : List ℕ} (h : g.Points toks) (tok : ℕ) :
    (g.add tok).Points (toks ++ [tok]) := by
  unfold Gather.add
  by_cases hnew : g.tokSlot tok = 0
  · rw [if_pos hnew]
    constructor
    · intro x hx
      dsimp only at hx ⊢
      by_cases hxt : x = tok
      · subst hxt
        simp
      · rw [Function.update_of_ne hxt] at hx ⊢
        exact getElem?_append_some (h.slot x hx)
    · -- rows that were there stay where they are
      have hold : g.rowIdx.map (fun k => (g.toks ++ [tok])[k]?) = toks.map some := by
        rw [← h.row]
        apply List.map_congr_left
        intro k hk
        have hsome : g.toks[k]? ∈ toks.map some := by
          rw [← h.row]
          exact List.mem_map_of_mem hk
        obtain ⟨x, -, hx⟩ := List.mem_map.mp hsome
        rw [getElem?_append_some hx.symm, ← hx]
      simp [hold]
  · rw [if_neg hnew]
    refine ⟨h.slot, ?_⟩
    rw [List.map_append, List.map_append, h.row, List.map_singleton, List.map_singleton,
      h.slot tok hnew]

theorem gather_points (toks : List ℕ) : (gather toks).Points toks := by
  have hfold (before : List ℕ) (g : Gather) (h : g.Points before) (toks : List ℕ) :
      (toks.foldl Gather.add g).Points (before ++ toks) := by
    induction toks generalizing before g with
    | nil => simpa using h
    | cons tok toks ih =>
      have hstep := ih (before ++ [tok]) (g.add tok) (h.add tok)
      simpa using hstep
  have hempty : Gather.Points ⟨[], fun _ => 0, []⟩ [] :=
    ⟨fun tok h => absurd rfl h, rfl⟩
  exact hfold [] _ hempty toks

/-! ## The reducing wire -/

section Module
variable [Semiring R] [AddCommMonoid M] [Module R M]

def Routing.share (r : Routing R H) (ffn : ℤ → H → M) (p : ℕ) : M :=
  r.probs p • r.value ffn p

theorem work_placed (r : Routing R H) (base : ℤ) (f : ℤ → H → M) (idx : List ℕ) (toks : List ℕ)
    (rowIdx : List ℕ) (hrows : rowIdx.map (fun k => toks[k]?) = (idx.map r.token).map some) :
    ((rowIdx.zip ((idx.map fun p => r.sel p - base).zip (idx.map r.probs))).map fun e =>
      (e.1, (((toks.map r.cur)[e.1]?).elim 0 fun row => e.2.2 • f e.2.1 row : M))).map
      (fun e => (toks.getD e.1 0, e.2)) =
    idx.map fun p => (r.token p, r.probs p • f (r.sel p - base) (r.cur (r.token p))) := by
  induction idx generalizing rowIdx with
  | nil =>
    have hnil : rowIdx = [] := by simpa using hrows
    rw [hnil]
    rfl
  | cons p idx ih =>
    cases rowIdx with
    | nil => cases hrows
    | cons k rowIdx =>
      simp only [List.map_cons, List.cons.injEq] at hrows
      obtain ⟨hk, hrest⟩ := hrows
      have htail := ih rowIdx hrest
      simp only [List.map_cons, List.zip_cons_cons]
      rw [htail, List.getElem?_map, hk, List.getD_eq_getElem?_getD, hk]
      rfl

theorem work_rows {r : Routing R H} {base : ℤ} {f : ℤ → H → M} {idx : List ℕ} :
    ∀ e ∈ (fillReduce r base idx).work f,
      (fillReduce r base idx).toks[e.1]? = some ((fillReduce r base idx).toks.getD e.1 0) := by
  intro e he
  obtain ⟨x, hx, rfl⟩ := List.mem_map.mp he
  have hk : x.1 ∈ (gather (idx.map r.token)).rowIdx := (List.of_mem_zip hx).1
  have hpoint : (gather (idx.map r.token)).toks[x.1]? ∈ (idx.map r.token).map some := by
    rw [← (gather_points (idx.map r.token)).row]
    exact List.mem_map_of_mem hk
  obtain ⟨tok, -, htok⟩ := List.mem_map.mp hpoint
  change (gather (idx.map r.token)).toks[x.1]? = some ((gather (idx.map r.token)).toks.getD x.1 0)
  rw [List.getD_eq_getElem?_getD, ← htok]
  rfl

theorem serveReduce_apply (base : ℤ) (f : ℤ → H → M) (idx : List ℕ) (out : ℕ → M) (t : ℕ) :
    serveReduce r base f idx out t =
      out t + (idx.map fun p =>
        if r.token p = t then r.probs p • f (r.sel p - base) (r.cur (r.token p)) else 0).sum := by
  have hsums : (fillReduce r base idx).toks.zip ((fillReduce r base idx).answer f) =
      rowSums (fillReduce r base idx).toks ((fillReduce r base idx).work f) := by
    have hlen : (fillReduce r base idx).rows.length = (fillReduce r base idx).toks.length := by
      simp [fillReduce]
    rw [ReduceReq.answer, hlen, rowSums]
    apply List.ext_getElem?
    intro k
    by_cases hk : k < (fillReduce r base idx).toks.length
    · simp [hk, scatterAdd_apply]
    · simp [not_lt.mp hk]
  have hplaced := work_placed r base f idx (gather (idx.map r.token)).toks
    (gather (idx.map r.token)).rowIdx (gather_points (idx.map r.token)).row
  calc serveReduce r base f idx out t =
        out t + cellSum ((fillReduce r base idx).toks.zip ((fillReduce r base idx).answer f)) t :=
          scatterAdd_apply _ _ _
    _ = out t + cellSum (((fillReduce r base idx).work f).map fun e =>
          ((fillReduce r base idx).toks.getD e.1 0, e.2)) t := by
        rw [hsums, cellSum_rowSums (fun k => (fillReduce r base idx).toks.getD k 0) work_rows]
    _ = out t + cellSum (idx.map fun p =>
          (r.token p, r.probs p • f (r.sel p - base) (r.cur (r.token p)))) t := by
        congr 2
    _ = _ := by simp only [cellSum, List.map_map, Function.comp_def]

/-- Every token has the weighted rows of its done pairs. -/
def SumsGood (r : Routing R H) (ffn : ℤ → H → M) (done : ℕ → Bool) (out : ℕ → M) : Prop :=
  ∀ t, out t = ∑ p ∈ Finset.range r.nPairs,
    if done p = true ∧ r.token p = t then r.share ffn p else 0

theorem serveReduce_lawful (r : Routing R H) (ffn : ℤ → H → M) :
    Lawful r ffn (serveReduce r) (SumsGood r ffn) := by
  intro base f idx done out hgood honce hopen hf t
  have hidx : (idx.map fun p =>
      if r.token p = t then r.probs p • f (r.sel p - base) (r.cur (r.token p)) else 0).sum =
      ∑ p ∈ Finset.range r.nPairs, if p ∈ idx ∧ r.token p = t then r.share ffn p else 0 := by
    have hmap : (idx.map fun p =>
        if r.token p = t then r.probs p • f (r.sel p - base) (r.cur (r.token p)) else 0) =
        idx.map fun p => if r.token p = t then r.share ffn p else 0 := by
      apply List.map_congr_left
      intro p hp
      rw [hf p hp, Routing.share, Routing.value]
    have hsub : idx.toFinset ⊆ Finset.range r.nPairs := by
      intro p hp
      exact Finset.mem_range.mpr (hopen p (List.mem_toFinset.mp hp)).1
    rw [hmap, ← List.sum_toFinset _ honce, ← Finset.sum_subset hsub]
    · apply Finset.sum_congr rfl
      intro p hp
      simp [List.mem_toFinset.mp hp]
    · intro p _ hp
      simp [mt List.mem_toFinset.mpr hp]
  rw [serveReduce_apply, hgood t, hidx, ← Finset.sum_add_distrib]
  apply Finset.sum_congr rfl
  intro p hp
  -- a pair is counted with the done ones or with these, never with both
  by_cases hmem : p ∈ idx
  · simp [hmem, (hopen p hmem).2]
  · simp [hmem]

theorem sum_pairs_of_token (r : Routing R H) (ffn : ℤ → H → M) {t : ℕ} (ht : t < r.nTokens) :
    (∑ p ∈ Finset.range r.nPairs, if r.token p = t then r.share ffn p else 0) =
      ∑ u ∈ Finset.range r.nUsed, r.share ffn (t * r.nUsed + u) := by
  rw [← Finset.sum_filter]
  symm
  apply Finset.sum_bij fun u _ => t * r.nUsed + u
  · intro u hu
    have hlt := Finset.mem_range.mp hu
    exact Finset.mem_filter.mpr ⟨Finset.mem_range.mpr (r.pair_lt ht hlt), r.token_pair t hlt⟩
  · intro u _ v _ h
    omega
  · intro p hp
    obtain ⟨hrange, htok⟩ := Finset.mem_filter.mp hp
    have hpos : 0 < r.nUsed := by
      rcases Nat.eq_zero_or_pos r.nUsed with hzero | hpos
      · simp [Routing.nPairs, hzero] at hrange
      · exact hpos
    refine ⟨p % r.nUsed, Finset.mem_range.mpr (Nat.mod_lt p hpos), ?_⟩
    rw [← htok, Routing.token, Nat.mul_comm]
    exact Nat.div_add_mod p r.nUsed
  · intro u _
    rfl

/-- What one machine with all the experts computes for a token. -/
def Routing.monolithic (r : Routing R H) (ffn : ℤ → H → M) (t : ℕ) : M :=
  ∑ u ∈ Finset.range r.nUsed,
    r.probs (t * r.nUsed + u) • ffn (r.sel (t * r.nUsed + u)) (r.cur t)

theorem sum_share_eq (r : Routing R H) (ffn : ℤ → H → M) (t : ℕ) :
    (∑ u ∈ Finset.range r.nUsed, r.share ffn (t * r.nUsed + u)) = r.monolithic ffn t := by
  apply Finset.sum_congr rfl
  intro u hu
  have hlt := Finset.mem_range.mp hu
  rw [Routing.share, Routing.value, r.token_pair t hlt]

theorem dispatch_is_monolithic (r : Routing R H) (remote : Endpoint → ℤ → H → M)
    (ffn : ℤ → H → M) (here : Here) (luck luck' : Luck) (eps eps' : List Endpoint)
    (expertsOut : ℕ → M) (hremote : ServesRange remote ffn)
    (hslice : ∀ p < r.nPairs, here.slice.holds (r.sel p) = true) :
    ((mapReduce r remote ffn here luck eps).1 = true → ∀ t < r.nTokens,
      (mapReduce r remote ffn here luck eps).2.1.out t = r.monolithic ffn t) ∧
    ((mapDispatch r remote ffn here luck' eps' expertsOut).1 = true →
      (∀ p < r.nPairs, (mapDispatch r remote ffn here luck' eps' expertsOut).2.1.out p =
        r.value ffn p) ∧
      ∀ t < r.nTokens, (∑ u ∈ Finset.range r.nUsed, r.probs (t * r.nUsed + u) •
        (mapDispatch r remote ffn here luck' eps' expertsOut).2.1.out (t * r.nUsed + u)) =
          r.monolithic ffn t) := by
  constructor
  · intro hok t ht
    have hstart : SumsGood r ffn (fun _ => false) fun _ => 0 := by
      intro t
      simp
    obtain ⟨done, hall, hgood⟩ :=
      callback_good (serveReduce_lawful r ffn) hremote hslice hstart hok
    calc (mapReduce r remote ffn here luck eps).2.1.out t =
          ∑ p ∈ Finset.range r.nPairs,
            if done p = true ∧ r.token p = t then r.share ffn p else 0 := hgood t
      _ = ∑ p ∈ Finset.range r.nPairs, if r.token p = t then r.share ffn p else 0 := by
          apply Finset.sum_congr rfl
          intro p hp
          simp [hall p (Finset.mem_range.mp hp)]
      _ = ∑ u ∈ Finset.range r.nUsed, r.share ffn (t * r.nUsed + u) := sum_pairs_of_token r ffn ht
      _ = r.monolithic ffn t := sum_share_eq r ffn t
  · intro hok
    have hstart : RowsGood r ffn (fun _ => false) expertsOut := fun p _ h => Bool.noConfusion h
    obtain ⟨done, hall, hgood⟩ :=
      callback_good (serveDispatch_lawful r ffn) hremote hslice hstart hok
    have hrows : ∀ p < r.nPairs, (mapDispatch r remote ffn here luck' eps' expertsOut).2.1.out p =
        r.value ffn p := fun p hp => hgood p hp (hall p hp)
    refine ⟨hrows, fun t ht => ?_⟩
    rw [← sum_share_eq]
    apply Finset.sum_congr rfl
    intro u hu
    have hlt := Finset.mem_range.mp hu
    rw [hrows _ (r.pair_lt ht hlt), Routing.share]

end Module

def sampleRouting : Routing ℤ ℤ :=
  ⟨2, 2, fun t => t + 1, fun p => if p = 0 then 0 else if p = 2 then 1 else 2, fun p => p + 1⟩

def sampleFfn (e row : ℤ) : ℤ := (e + 1) * row

def sampleRemote (w : Endpoint) (localId row : ℤ) : ℤ := sampleFfn (w.expertBegin + localId) row

/-- The second worker answers, the first one only in the second round. -/
def sampleLuck : Luck := ⟨true, fun round i => i == 1 || round == 1, true⟩

/-- Two workers, the second within the first one's range. -/
def sampleEndpoints : List Endpoint := [⟨0, 2, 5, false⟩, ⟨1, 2, 6, false⟩]

def sampleHere : Here := ⟨true, ⟨3⟩, 1, fun e => e == 0⟩

theorem dispatch_is_monolithic_sample :
    (mapReduce sampleRouting sampleRemote sampleFfn sampleHere sampleLuck sampleEndpoints).1 = true ∧
      (mapReduce sampleRouting sampleRemote sampleFfn sampleHere sampleLuck sampleEndpoints).2.1.out 1 =
        3 * (2 * 2) + 4 * (3 * 2) := by
  have hremote : ServesRange sampleRemote sampleFfn := by
    intro w e row _
    rw [sampleRemote, add_sub_cancel]
  have hslice : ∀ p < sampleRouting.nPairs, sampleHere.slice.holds (sampleRouting.sel p) = true := by
    decide
  have hok : (mapReduce sampleRouting sampleRemote sampleFfn sampleHere sampleLuck
      sampleEndpoints).1 = true := by decide
  have hall := (dispatch_is_monolithic sampleRouting sampleRemote sampleFfn sampleHere sampleLuck
    sampleLuck sampleEndpoints sampleEndpoints (fun _ => 0) hremote hslice).1 hok 1 (by decide)
  exact ⟨hok, hall.trans (by decide)⟩

theorem rounds_enough_sample :
    rounds sampleRouting (serveReduce sampleRouting) sampleRemote sampleLuck.answers 5 0
        ⟨fun _ => false, 4, fun _ => 0⟩ sampleEndpoints =
      rounds sampleRouting (serveReduce sampleRouting) sampleRemote sampleLuck.answers 4 0
        ⟨fun _ => false, 4, fun _ => 0⟩ sampleEndpoints :=
  rounds_enough sampleLuck.answers 4 0 _ _ rfl le_rfl

end KvasirNet.Moe
