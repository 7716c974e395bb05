import KvasirNet.MoeFailover
import Mathlib.Data.List.Sort

/-! The hot cache of a dispatch. One vector counts how often each expert is asked for, another says
which experts are hot, and both are indexed by the ids as the graph hands them over. -/
namespace KvasirNet.Moe

/-- How a call ends that does not return: it indexes outside a vector, or a vector cannot have the
size that it is given. -/
inductive Fault
  | outside
  | thrown
  deriving DecidableEq, Repr

/-- `(int)` of a size. -/
@[irreducible]
def intOf (n : ℕ) : ℤ := Int.bmod n (2 ^ 32)

/-- `(size_t) e + 1` of an int. -/
def sizeAfter (e : ℤ) : ℕ := ((e + 1) % 2 ^ 64).toNat

def cellAt {α : Type} (v : List α) (e : ℤ) : Except Fault α :=
  if 0 ≤ e then (v[e.toNat]?).elim (.error .outside) .ok else .error .outside

/-- `resize`, where `room` elements fit in memory. -/
def resize {α : Type} (room : ℕ) (v : List α) (n : ℕ) (a : α) : Except Fault (List α) :=
  if n ≤ room then .ok (v.take n ++ List.replicate (n - v.length) a) else .error .thrown

/-- `partial_sort` of the experts by their counts: the first `k` are the greatest, in order. Among
equal counts it may choose. -/
structure PartialSort where
  order : List ℕ → ℕ → List ℕ
  perm : ∀ (counts : List ℕ) (k : ℕ), (order counts k).Perm (List.range counts.length)
  top : ∀ (counts : List ℕ) (k i j : ℕ), i < j → i < k → j < counts.length →
    counts.getD ((order counts k).getD j 0) 0 ≤ counts.getD ((order counts k).getD i 0) 0

/-- What of a dispatch state changes from call to call. -/
structure HotCache where
  counts : List ℕ
  hot : List Bool
  calls : ℕ
  deriving DecidableEq, Repr

def HotCache.initial : HotCache := ⟨[], [], 0⟩

def HotCache.grow (room : ℕ) (c : HotCache) (e : ℤ) : Except Fault HotCache := do
  let counts ← resize room c.counts (sizeAfter e) 0
  let hot ← resize room c.hot (sizeAfter e) false
  pure { c with counts := counts, hot := hot }

def HotCache.cover (room : ℕ) (c : HotCache) (e : ℤ) : Except Fault HotCache :=
  if intOf c.counts.length ≤ e then c.grow room e else .ok c

def HotCache.count (room : ℕ) (c : HotCache) (e : ℤ) : Except Fault HotCache := do
  let c ← c.cover room e
  if 0 ≤ e ∧ e < c.counts.length then
    pure { c with counts := c.counts.modify e.toNat (· + 1) }
  else throw .outside

def setHot (hot : List Bool) (i : ℕ) : Except Fault (List Bool) :=
  if i < hot.length then .ok (hot.set i true) else .error .outside

/-- The hottest experts. The vector that is sorted has `(int) counts.size()` elements. -/
def HotCache.refresh (sort : PartialSort) (hotK : ℤ) (c : HotCache) : Except Fault HotCache :=
  if intOf c.counts.length < 0 then .error .thrown
  else do
    let hot ← ((sort.order c.counts hotK.toNat).take hotK.toNat).foldlM setHot
      (List.replicate c.hot.length false)
    pure { c with hot := hot }

/-- The hottest experts are chosen anew every 64 calls. -/
def HotCache.review (sort : PartialSort) (hotK : ℤ) (c : HotCache) : Except Fault HotCache :=
  if c.calls % 64 = 1 then c.refresh sort hotK else .ok c

def HotCache.isHot (c : HotCache) (e : ℤ) : Except Fault Bool :=
  if e < intOf c.hot.length then cellAt c.hot e else .ok false

/-- What of a dispatch state stays. The slice has experts of the model, and a tensor has some. -/
structure Node (H M : Type) where
  nExpert : ℕ
  hotK : ℤ
  haveSlice : Bool
  weights : List (H → M)
  room : ℕ
  sort : PartialSort
  loaded : haveSlice = true → weights ≠ []
  cut : weights.length ≤ nExpert

inductive CallKind
  | dispatch
  | reduce
  deriving DecidableEq, Repr

/-- A call of either callback: what the graph hands over, the workers and how they fare, and what
the output held before. -/
structure Callback (R : Type*) (H M : Type) where
  kind : CallKind
  routing : Routing R H
  eps : List Endpoint
  luck : Luck
  held : ℕ → M

section
variable {R : Type*} {H M : Type}

def Routing.ids (r : Routing R H) : List ℤ := (List.range r.nPairs).map r.sel

def Node.caches (N : Node H M) : Bool := decide (0 < N.hotK) && N.haveSlice

/-- The hot cache's part of a call, up to the choice of the pairs that are hot. -/
def Node.account (N : Node H M) (r : Routing R H) (c : HotCache) : Except Fault HotCache :=
  let c := { c with calls := c.calls + 1 }
  if N.caches = true then do
    let c ← r.ids.foldlM (HotCache.count N.room) c
    let c ← c.review N.sort N.hotK
    let _ ← r.ids.mapM c.isHot
    pure c
  else pure c

section Weights
variable [Zero M]

def badSlot (weights : List (H → M)) (e : ℤ) : Bool :=
  decide (e < 0) || decide (intOf weights.length ≤ e)

/-- `compute_experts` on the slice's weights: bad ids become 0 for the product, and their rows are
zeroed. -/
def computeExperts (weights : List (H → M)) (sel : List ℤ) (rows : List H) :
    Except Fault (List M) := do
  let selSafe := sel.map fun e => if badSlot weights e then 0 else e
  let out ← (selSafe.zip rows).mapM fun x => do
    let expert ← cellAt weights x.1
    pure (expert x.2)
  pure (List.zipWith (fun e v => if badSlot weights e then 0 else v) sel out)

def Node.ffn (N : Node H M) (e : ℤ) (row : H) : M := (N.weights[e.toNat]?).elim 0 fun f => f row

end Weights

def Node.slice (N : Node H M) : Slice := ⟨intOf N.weights.length⟩

/-- What the callback meets here, with the hot experts as they are. -/
def Node.here (N : Node H M) (c : HotCache) : Here where
  haveSlice := N.haveSlice
  slice := N.slice
  hotK := N.hotK.toNat
  hot e := (c.isHot e).toOption.getD false

section Run
variable [Semiring R] [AddCommMonoid M] [Module R M] (N : Node H M)
  (remote : Endpoint → ℤ → H → M)

/-- A call: whether it succeeds and the output. -/
def Node.call (c : HotCache) (q : Callback R H M) : Except Fault (HotCache × Bool × (ℕ → M)) := do
  let c ← N.account q.routing c
  let x := match q.kind with
    | .dispatch => mapDispatch q.routing remote N.ffn (N.here c) q.luck q.eps q.held
    | .reduce => mapReduce q.routing remote N.ffn (N.here c) q.luck q.eps
  pure (c, x.1, x.2.1.out)

def Node.history (qs : List (Callback R H M)) : Except Fault HotCache :=
  qs.foldlM (fun c q => do
    let x ← N.call remote c q
    pure x.1) .initial

/-- The pairs whose cells of `done` and of the output a call writes, in order. -/
def Node.touched (c : HotCache) (q : Callback R H M) : List ℕ :=
  (callback q.routing (fun _ _ idx out => out ++ idx) remote N.ffn (N.here c) q.luck q.eps
    ([] : List ℕ)).2.1.out

end Run

end

/-! ### Computations that may throw -/

/-- It never indexes outside a vector, and what it returns is as said; or it throws. -/
def Lands {α : Type} (P : α → Prop) : Except Fault α → Prop
  | .ok a => P a
  | .error f => f = .thrown

section
variable {α β : Type} {P : α → Prop} {Q : β → Prop}

variable {x : Except Fault α}

theorem Lands.bind {f : α → Except Fault β} (hx : Lands P x)
    (hf : ∀ a, P a → Lands Q (f a)) : Lands Q (x >>= f) := by
  cases x with
  | error e => exact hx
  | ok a => exact hf a hx

theorem Lands.ok {a : α} (hx : Lands P x) (h : x = .ok a) : P a := by
  subst h
  exact hx

theorem Lands.ne_outside (hx : Lands P x) : x ≠ .error .outside := by
  rintro rfl
  cases hx

theorem Lands.foldlM {κ : Type*} {f : α → κ → Except Fault α} {l : List κ} {a : α} (ha : P a)
    (hf : ∀ a, P a → ∀ b ∈ l, Lands P (f a b)) : Lands P (l.foldlM f a) := by
  induction l generalizing a with
  | nil => exact ha
  | cons b l ih =>
    rw [List.foldlM_cons]
    exact (hf a ha b List.mem_cons_self).bind fun a' ha' =>
      ih ha' fun x hx c hc => hf x hx c (List.mem_cons_of_mem b hc)

theorem Lands.mapM {f : β → Except Fault α} {l : List β} (hf : ∀ b ∈ l, Lands (fun _ => True) (f b)) :
    Lands (fun _ => True) (l.mapM f) := by
  induction l with
  | nil => trivial
  | cons b l ih =>
    rw [List.mapM_cons]
    refine (hf b List.mem_cons_self).bind fun a _ => ?_
    exact (ih fun c hc => hf c (List.mem_cons_of_mem b hc)).bind fun _ _ => trivial

end

/-! ### The accounting -/

theorem intOf_le (n : ℕ) : intOf n ≤ n := by
  unfold intOf
  rw [Int.bmod_def]
  omega

theorem lands_cellAt {α : Type} {v : List α} {e : ℤ} (hpos : 0 ≤ e) (hlt : e < v.length) :
    Lands (fun _ => True) (cellAt v e) := by
  have hn : e.toNat < v.length := by omega
  unfold cellAt
  rw [if_pos hpos, List.getElem?_eq_getElem hn]
  trivial

/-- The counters are at most as many as the experts, and so are the marks. -/
structure HotCache.Sound (n : ℕ) (c : HotCache) : Prop where
  bounded : c.counts.length ≤ n
  marks : c.hot.length = c.counts.length

variable {n room : ℕ} {c : HotCache} {e : ℤ}

theorem lands_resize {α : Type} (v : List α) (m : ℕ) (a : α) :
    Lands (fun w => w.length = m) (resize room v m a) := by
  unfold resize
  split_ifs
  · change (v.take m ++ List.replicate (m - v.length) a).length = m
    rw [List.length_append, List.length_take, List.length_replicate]
    omega
  · rfl

theorem sizeAfter_of_nonneg (hpos : 0 ≤ e) (hint : e < 2 ^ 31) : sizeAfter e = e.toNat + 1 := by
  unfold sizeAfter
  omega

theorem lands_grow (c : HotCache) (hpos : 0 ≤ e) (hint : e < 2 ^ 31) :
    Lands (fun c' => c'.counts.length = e.toNat + 1 ∧ c'.hot.length = e.toNat + 1)
      (c.grow room e) := by
  unfold HotCache.grow
  rw [sizeAfter_of_nonneg hpos hint]
  refine (lands_resize c.counts (e.toNat + 1) 0).bind fun counts hcounts => ?_
  exact (lands_resize c.hot (e.toNat + 1) false).bind fun hot hhot => ⟨hcounts, hhot⟩

theorem HotCache.Sound.count (h : c.Sound n) (hpos : 0 ≤ e) (hlt : e < n) (hint : e < 2 ^ 31) :
    Lands (HotCache.Sound n) (c.count room e) := by
  have hroom : Lands (fun c' : HotCache => c'.Sound n ∧ e < c'.counts.length)
      (c.cover room e) := by
    unfold HotCache.cover
    split_ifs with hgrow
    · have hgrown : Lands _ (c.grow room e) := lands_grow c hpos hint
      cases hx : c.grow room e with
      | error f =>
        rw [hx] at hgrown
        exact hgrown
      | ok c' =>
        obtain ⟨hcounts, hhot⟩ := hgrown.ok hx
        exact ⟨⟨by omega, by omega⟩, by omega⟩
    · have hle := intOf_le c.counts.length
      exact ⟨h, by omega⟩
  unfold HotCache.count
  refine hroom.bind fun c' hc' => ?_
  rw [if_pos ⟨hpos, hc'.2⟩]
  exact ⟨by rw [List.length_modify]; exact hc'.1.bounded,
    by rw [List.length_modify]; exact hc'.1.marks⟩

theorem HotCache.Sound.refresh (h : c.Sound n) (sort : PartialSort) (hotK : ℤ) :
    Lands (HotCache.Sound n) (c.refresh sort hotK) := by
  unfold HotCache.refresh
  by_cases hsize : intOf c.counts.length < 0
  · rw [if_pos hsize]
    rfl
  rw [if_neg hsize]
  have hset : Lands (fun hot : List Bool => hot.length = c.hot.length)
      (((sort.order c.counts hotK.toNat).take hotK.toNat).foldlM setHot
        (List.replicate c.hot.length false)) := by
    refine Lands.foldlM List.length_replicate fun hot hlen i hi => ?_
    have hmem := (sort.perm c.counts hotK.toNat).mem_iff.mp (List.mem_of_mem_take hi)
    have hlt : i < hot.length := by
      rw [hlen, h.marks]
      exact List.mem_range.mp hmem
    unfold setHot
    rw [if_pos hlt]
    exact List.length_set.trans hlen
  exact hset.bind fun hot hlen => ⟨h.bounded, hlen.trans h.marks⟩

theorem HotCache.Sound.review (h : c.Sound n) (sort : PartialSort) (hotK : ℤ) :
    Lands (HotCache.Sound n) (c.review sort hotK) := by
  unfold HotCache.review
  by_cases hcalls : c.calls % 64 = 1
  · rw [if_pos hcalls]
    exact h.refresh sort hotK
  · rw [if_neg hcalls]
    exact h

theorem lands_isHot (c : HotCache) (hpos : 0 ≤ e) : Lands (fun _ => True) (c.isHot e) := by
  unfold HotCache.isHot
  by_cases hlt : e < intOf c.hot.length
  · rw [if_pos hlt]
    exact lands_cellAt hpos (hlt.trans_le (intOf_le _))
  · rw [if_neg hlt]
    trivial

section
variable {R : Type*} {H M : Type} {N : Node H M} {r : Routing R H}

def Routing.Within (r : Routing R H) (n : ℕ) : Prop := ∀ p < r.nPairs, 0 ≤ r.sel p ∧ r.sel p < n

theorem Routing.Within.ids (h : r.Within n) (he : e ∈ r.ids) : 0 ≤ e ∧ e < n := by
  obtain ⟨p, hp, rfl⟩ := List.mem_map.mp he
  exact h p (List.mem_range.mp hp)

def Routing.Int32 (r : Routing R H) : Prop :=
  ∀ p < r.nPairs, -2 ^ 31 ≤ r.sel p ∧ r.sel p < 2 ^ 31

theorem Routing.Int32.ids (h : r.Int32) (he : e ∈ r.ids) : e < 2 ^ 31 := by
  obtain ⟨p, hp, rfl⟩ := List.mem_map.mp he
  exact (h p (List.mem_range.mp hp)).2

theorem HotCache.Sound.account (h : c.Sound n) (hint : r.Int32)
    (hwithin : N.caches = true → r.Within n) : Lands (HotCache.Sound n) (N.account r c) := by
  have hnext : ({ c with calls := c.calls + 1 } : HotCache).Sound n := ⟨h.bounded, h.marks⟩
  unfold Node.account
  dsimp only
  split_ifs with hcaches
  · have hids := fun e he => (hwithin hcaches).ids (e := e) he
    refine (Lands.foldlM hnext fun c' hc' e he => ?_).bind fun counted hcounted => ?_
    · exact hc'.count (hids e he).1 (hids e he).2 (hint.ids he)
    refine (hcounted.review N.sort N.hotK).bind fun c' hc' => ?_
    exact (Lands.mapM fun e he => lands_isHot c' (hids e he).1).bind fun _ _ => hc'
  · exact hnext

/-! ### The slice's weights -/

variable {weights : List (H → M)}

theorem holds_iff :
    (Slice.mk (intOf weights.length)).holds e = !badSlot weights e := by
  unfold Slice.holds badSlot
  by_cases hneg : e < 0
  · simp [hneg]
  · by_cases hle : intOf weights.length ≤ e
    · simp [hneg, hle, not_lt.mpr hle]
    · simp [hneg, hle, not_le.mp hle, not_lt.mp hneg]

theorem cellAt_safe (hne : weights ≠ []) (e : ℤ) :
    ∃ f, cellAt weights (if badSlot weights e then 0 else e) = .ok f ∧
      (badSlot weights e = false → weights[e.toNat]? = some f) := by
  cases hbad : badSlot weights e with
  | true =>
    rw [if_pos rfl]
    cases weights with
    | nil => exact absurd rfl hne
    | cons f fs => exact ⟨f, rfl, fun h => Bool.noConfusion h⟩
  | false =>
    obtain ⟨hneg, hle⟩ := Bool.or_eq_false_iff.mp hbad
    have hpos : 0 ≤ e := not_lt.mp (of_decide_eq_false hneg)
    have hlt : e < intOf weights.length := not_le.mp (of_decide_eq_false hle)
    have hlen := intOf_le weights.length
    have hn : e.toNat < weights.length := by omega
    rw [if_neg Bool.false_ne_true]
    refine ⟨weights[e.toNat], ?_, fun _ => List.getElem?_eq_getElem hn⟩
    unfold cellAt
    rw [if_pos hpos, List.getElem?_eq_getElem hn]
    rfl

variable [AddCommMonoid M]

theorem computeExperts_eq (hne : weights ≠ []) (sel : List ℤ)
    (rows : List H) : computeExperts weights sel rows = .ok (List.zipWith
      ((Slice.mk (intOf weights.length)).compute fun e row =>
        (weights[e.toNat]?).elim 0 fun f => f row) sel rows) := by
  have hout (sel : List ℤ) (rows : List H) : ∃ out : List M,
      ((sel.map fun e => if badSlot weights e then 0 else e).zip rows).mapM (fun x => do
          let expert ← cellAt weights x.1
          pure (expert x.2)) = .ok out ∧
        List.zipWith (fun e v => if badSlot weights e then 0 else v) sel out = List.zipWith
          ((Slice.mk (intOf weights.length)).compute fun e row =>
            (weights[e.toNat]?).elim 0 fun f => f row) sel rows := by
    induction sel generalizing rows with
    | nil => exact ⟨[], rfl, rfl⟩
    | cons e sel ih =>
      cases rows with
      | nil => exact ⟨[], rfl, rfl⟩
      | cons row rows =>
        obtain ⟨out, hmap, hzip⟩ := ih rows
        obtain ⟨f, hf, hsome⟩ := cellAt_safe hne e
        refine ⟨f row :: out, ?_, ?_⟩
        · rw [List.map_cons, List.zip_cons_cons, List.mapM_cons, hf, hmap]
          rfl
        · rw [List.zipWith_cons_cons, List.zipWith_cons_cons, hzip, Slice.compute, holds_iff]
          cases hbad : badSlot weights e with
          | true => rfl
          | false =>
            rw [hsome hbad]
            rfl
  obtain ⟨out, hmap, hzip⟩ := hout sel rows
  unfold computeExperts
  dsimp only
  rw [hmap, ← hzip]
  rfl

end

/-! ### The callback, whatever the ids -/

section
variable {R H M α : Type*} [AddCommMonoid M] {r : Routing R H} {remote : Endpoint → ℤ → H → M}
  {eps : List Endpoint} {serve : ℤ → (ℤ → H → M) → List ℕ → α → α} {ffn : ℤ → H → M} {here : Here}
  {luck : Luck} {out : α} {Good : (ℕ → Bool) → (ℕ → H → M) → α → Prop}

theorem fallback_sources (P : ℕ → (H → M) → Prop) {c : Progress α} {source : ℕ → H → M}
    (computes : Bool) (hcollects : Collects r serve Good) (hgood : Good c.done source c.out)
    (hcounted : Counted r.nPairs c) (hsource : ∀ p < r.nPairs, c.done p = true → P p (source p))
    (hown : ∀ p, P p (here.slice.compute ffn (r.sel p))) :
    ∃ (source : ℕ → H → M) (done : ℕ → Bool),
      Good done source (fallback r serve ffn here computes c).2.out ∧
      (∀ p < r.nPairs, done p = true → P p (source p)) ∧
      ((fallback r serve ffn here computes c).1 = true → ∀ p < r.nPairs, done p = true) := by
  unfold fallback
  split_ifs with hzero hhere
  · exact ⟨source, c.done, hgood, hsource, fun _ => hcounted.all_done hzero⟩
  · have hopen : ∀ p ∈ (List.range r.nPairs).filter (fun p => !c.done p),
        p < r.nPairs ∧ c.done p = false := by
      intro p hp
      obtain ⟨hmem, hnot⟩ := List.mem_filter.mp hp
      exact ⟨List.mem_range.mp hmem, by simpa using hnot⟩
    have hserved := hcollects 0 (here.slice.compute ffn) _ c.done source c.out hgood
      (List.nodup_range.filter _) hopen
    rw [← served_out serve c 0] at hserved
    refine ⟨_, _, hserved, fun p hp hdone => ?_, fun _ p hp => ?_⟩
    · split_ifs with hmem
      · rw [Int.sub_zero]
        exact hown p
      · refine hsource p hp ?_
        simpa [hmem] using hdone
    · cases hdone : c.done p with
      | true => exact Bool.true_or _
      | false => simpa [hdone] using hp
  · exact ⟨source, c.done, hgood, hsource, fun h => h.elim⟩

theorem callback_drawn (hcollects : Collects r serve Good)
    (hempty : ∀ source, Good (fun _ => false) source out) :
    ∃ (source : ℕ → H → M) (done : ℕ → Bool),
      Good done source (callback r serve remote ffn here luck eps out).2.1.out ∧
      (∀ p < r.nPairs, done p = true → FromWorker r remote eps luck.answers p (source p) ∨
        source p = here.slice.compute ffn (r.sel p)) ∧
      ((callback r serve remote ffn here luck eps out).1 = true →
        ∀ p < r.nPairs, done p = true) := by
  obtain ⟨⟨source, hdrawn⟩, hcounted⟩ := @rounds_drawn R H M α r remote eps luck.answers 0 serve
    Good _ _ _ hcollects r.nPairs _ eps _
    (@hotPass_tracks R H M α r eps serve ffn here out _ luck.hotComputes)
    (hotPass_drawn hcollects hempty luck.hotComputes luck.answers)
  refine fallback_sources (fun p f => FromWorker r remote eps luck.answers p f ∨
    f = here.slice.compute ffn (r.sel p)) luck.fallbackComputes hcollects hdrawn.good hcounted
    (fun p hp hdone => ?_) fun p => .inr rfl
  by_cases hleft : p ∈ here.leaves luck.hotComputes r
  · exact .inl (hdrawn.workers p hleft hdone)
  · exact .inr (hdrawn.here p hp hleft).2

theorem callback_succeeds (hslice : here.haveSlice = true) (hcomputes : luck.fallbackComputes = true) :
    (callback r serve remote ffn here luck eps out).1 = true := by
  unfold callback fallback
  dsimp only
  split_ifs with hzero hhere
  · rfl
  · rfl
  · exact absurd ⟨hslice, hcomputes⟩ hhere

end

/-! ### A history of calls -/

section
variable {R : Type*} {H M : Type}

/-- While the hot cache is in use every id is an expert of the model; and so is, always, every
expert of a worker's range. -/
structure Tame (N : Node H M) (q : Callback R H M) : Prop where
  ids : N.caches = true → q.routing.Within N.nExpert
  ranges : ∀ w ∈ q.eps, 0 ≤ w.expertBegin ∧ w.expertEnd ≤ N.nExpert

variable {N : Node H M} {remote : Endpoint → ℤ → H → M} {q : Callback R H M}
  {c : HotCache}
  [AddCommMonoid M]

theorem Node.compute_outside {e : ℤ} (he : ¬ (0 ≤ e ∧ e < N.nExpert)) :
    N.slice.compute N.ffn e = fun _ => 0 := by
  funext row
  have hlen := intOf_le N.weights.length
  have hcut : (N.weights.length : ℤ) ≤ N.nExpert := Int.ofNat_le.mpr N.cut
  have hnot : N.slice.holds e ≠ true := by
    intro hholds
    obtain ⟨hpos, hlt⟩ := Bool.and_eq_true_iff.mp hholds
    have hlt : e < intOf N.weights.length := of_decide_eq_true hlt
    exact he ⟨of_decide_eq_true hpos, by omega⟩
  rw [Slice.compute, if_neg hnot]

theorem Tame.source_outside (h : Tame N q) {p : ℕ} {source : H → M}
    (hsource : FromWorker q.routing remote q.eps q.luck.answers p source ∨
      source = N.slice.compute N.ffn (q.routing.sel p))
    (hout : ¬ (0 ≤ q.routing.sel p ∧ q.routing.sel p < N.nExpert)) : source = fun _ => 0 := by
  rcases hsource with ⟨i, w, hw, -, hcovers, -, -⟩ | hown
  · obtain ⟨hbegin, hend⟩ := h.ranges w (List.mem_of_getElem? hw)
    obtain ⟨hle, hlt⟩ := Bool.and_eq_true_iff.mp hcovers
    have hle := of_decide_eq_true hle
    have hlt := of_decide_eq_true hlt
    exact absurd ⟨by omega, by omega⟩ hout
  · rw [hown, N.compute_outside hout]

theorem Node.touched_lt (N : Node H M) (remote : Endpoint → ℤ → H → M) (c : HotCache)
    (q : Callback R H M) : ∀ p ∈ N.touched remote c q, p < q.routing.nPairs := by
  have hcollects : Collects q.routing (fun _ (_ : ℤ → H → M) idx out => out ++ idx)
      (fun _ _ out => ∀ p ∈ out, p < q.routing.nPairs) := by
    intro base f idx done source out hgood _ hopen p hp
    rcases List.mem_append.mp hp with hp | hp
    · exact hgood p hp
    · exact (hopen p hp).1
  obtain ⟨-, -, hgood, -⟩ := @callback_drawn R H M (List ℕ) _ q.routing remote q.eps _ N.ffn
    (N.here c) q.luck [] _ hcollects fun _ p hp => absurd hp List.not_mem_nil
  exact hgood

variable [Semiring R] [Module R M]

/-- The output is made of what workers and the slice compute for the pairs, and a pair whose id is
outside the model adds nothing. -/
def Contributes (N : Node H M) (remote : Endpoint → ℤ → H → M) (q : Callback R H M) (out : ℕ → M) :
    Prop :=
  ∃ source : ℕ → H → M,
    (∀ p < q.routing.nPairs, ¬ (0 ≤ q.routing.sel p ∧ q.routing.sel p < N.nExpert) →
      source p = fun _ => 0) ∧
    (∀ p < q.routing.nPairs, FromWorker q.routing remote q.eps q.luck.answers p (source p) ∨
      source p = N.slice.compute N.ffn (q.routing.sel p)) ∧
    match q.kind with
    | .dispatch => ∀ p < q.routing.nPairs, out p = source p (q.routing.cur (q.routing.token p))
    | .reduce => ∀ t < q.routing.nTokens, out t = ∑ u ∈ Finset.range q.routing.nUsed,
        q.routing.probs (t * q.routing.nUsed + u) •
          source (t * q.routing.nUsed + u) (q.routing.cur t)

theorem Tame.contributes (h : Tame N q) {c' : HotCache} {out : ℕ → M}
    (hcall : N.call remote c q = .ok (c', true, out)) : Contributes N remote q out := by
  unfold Node.call at hcall
  cases haccount : N.account q.routing c with
  | error f =>
    rw [haccount] at hcall
    cases hcall
  | ok counted =>
    rw [haccount] at hcall
    obtain ⟨kind, r, eps, luck, held⟩ := q
    have hx := Except.ok.inj hcall
    dsimp only at hx
    cases kind with
    | dispatch =>
      dsimp only at hx
      simp only [Prod.mk.injEq] at hx
      obtain ⟨rfl, hok, rfl⟩ := hx
      obtain ⟨source, done, hgood, hsources, hall⟩ := @callback_drawn R H M (ℕ → M) _ r remote eps
        _ N.ffn (N.here counted) luck held _ (serveDispatch_collects r)
        (fun _ _ _ h => Bool.noConfusion h)
      have hall := hall hok
      refine ⟨source, fun p hp hout => ?_, fun p hp => hsources p hp (hall p hp), fun p hp => ?_⟩
      · exact h.source_outside (hsources p hp (hall p hp)) hout
      · exact hgood p hp (hall p hp)
    | reduce =>
      dsimp only at hx
      simp only [Prod.mk.injEq] at hx
      obtain ⟨rfl, hok, rfl⟩ := hx
      have hempty : ∀ source : ℕ → H → M, SumsFrom r (fun _ => false) source fun _ => 0 := by
        intro source t
        simp
      obtain ⟨source, done, hgood, hsources, hall⟩ := @callback_drawn R H M (ℕ → M) _ r remote eps
        _ N.ffn (N.here counted) luck _ _ (serveReduce_collects r) hempty
      have hall := hall hok
      refine ⟨source, fun p hp hout => ?_, fun p hp => hsources p hp (hall p hp), fun t ht => ?_⟩
      · exact h.source_outside (hsources p hp (hall p hp)) hout
      · exact hgood.all r hall ht

theorem HotCache.Sound.call (h : c.Sound N.nExpert) (hint : q.routing.Int32) (htame : Tame N q) :
    Lands (fun x => x.1.Sound N.nExpert) (N.call remote c q) :=
  (h.account hint htame.ids).bind fun _ hc' => hc'

theorem lands_history {qs : List (Callback R H M)} (hint : ∀ q ∈ qs, q.routing.Int32)
    (htame : ∀ q ∈ qs, Tame N q) : Lands (HotCache.Sound N.nExpert) (N.history remote qs) := by
  have hinitial : HotCache.initial.Sound N.nExpert := ⟨Nat.zero_le _, rfl⟩
  refine Lands.foldlM hinitial fun c hc q hq => ?_
  have hcall : Lands _ (N.call remote c q) := hc.call (hint q hq) (htame q hq)
  exact hcall.bind fun _ hx => hx

theorem Node.call_succeeds {c' : HotCache} {ok : Bool} {out : ℕ → M}
    (hcall : N.call remote c q = .ok (c', ok, out)) (hslice : N.haveSlice = true)
    (hcomputes : q.luck.fallbackComputes = true) : ok = true := by
  unfold Node.call at hcall
  cases haccount : N.account q.routing c with
  | error f =>
    rw [haccount] at hcall
    cases hcall
  | ok counted =>
    rw [haccount] at hcall
    have hx := congrArg (fun x => x.2.1) (Except.ok.inj hcall)
    dsimp only at hx
    rw [← hx]
    cases q.kind with
    | dispatch => exact callback_succeeds hslice hcomputes
    | reduce => exact callback_succeeds hslice hcomputes

/-- While every id is an expert of the model whenever the hot cache is in use, no call indexes
outside a vector, the counters are at most as many as the experts, and a pair whose id is outside
the model adds nothing. -/
theorem garbage_harmless (N : Node H M) (remote : Endpoint → ℤ → H → M) (qs : List (Callback R H M))
    (hint : ∀ q ∈ qs, q.routing.Int32) (htame : ∀ q ∈ qs, Tame N q) :
    N.history remote qs ≠ .error .outside ∧
    (∀ past q, past ++ [q] <+: qs → ∀ c, N.history remote past = .ok c →
      N.call remote c q ≠ .error .outside ∧
      ∀ c' ok out, N.call remote c q = .ok (c', ok, out) →
        c'.counts.length ≤ N.nExpert ∧ c'.hot.length ≤ N.nExpert ∧
        (∀ p ∈ N.touched remote c' q, p < q.routing.nPairs) ∧
        (N.haveSlice = true → q.luck.fallbackComputes = true → ok = true) ∧
        (ok = true → Contributes N remote q out)) ∧
    (N.haveSlice = true → ∀ sel rows, computeExperts N.weights sel rows =
      .ok (List.zipWith (N.slice.compute N.ffn) sel rows)) := by
  refine ⟨(lands_history hint htame).ne_outside, fun past q hprefix c hpast => ?_,
    fun hslice sel rows => computeExperts_eq (N.loaded hslice) sel rows⟩
  have hmem : q ∈ qs := hprefix.subset (List.mem_append_right past (List.mem_singleton_self q))
  have hbefore := fun q' (hq' : q' ∈ past) => hprefix.subset (List.mem_append_left [q] hq')
  have hhistory : Lands (HotCache.Sound N.nExpert) (N.history remote past) :=
    lands_history (fun q' hq' => hint q' (hbefore q' hq')) fun q' hq' => htame q' (hbefore q' hq')
  have hsound : c.Sound N.nExpert := hhistory.ok hpast
  have hcall : Lands _ (N.call remote c q) := hsound.call (hint q hmem) (htame q hmem)
  refine ⟨hcall.ne_outside, fun c' ok out hresult => ?_⟩
  have hafter := hcall.ok hresult
  refine ⟨hafter.bounded, hafter.marks.trans_le hafter.bounded, N.touched_lt remote c' q,
    N.call_succeeds hresult, fun hok => ?_⟩
  subst hok
  exact (htame q hmem).contributes hresult

end

/-! ### A slice of four experts -/

def HotterThan (counts : List ℕ) (a b : ℕ) : Prop := counts.getD b 0 ≤ counts.getD a 0

instance (counts : List ℕ) : DecidableRel (HotterThan counts) := fun _ _ => Nat.decLe _ _

instance (counts : List ℕ) : Std.Total (HotterThan counts) := ⟨fun _ _ => Nat.le_total _ _⟩

instance (counts : List ℕ) : IsTrans ℕ (HotterThan counts) := ⟨fun _ _ _ h h' => h'.trans h⟩

def fullSort : PartialSort where
  order counts _ := (List.range counts.length).insertionSort (HotterThan counts)
  perm counts _ := List.perm_insertionSort _ _
  top counts _ i j hij _ hj := by
    have hlen : ((List.range counts.length).insertionSort (HotterThan counts)).length =
        counts.length := by rw [List.length_insertionSort, List.length_range]
    have hsorted := List.pairwise_iff_getElem.mp
      (List.pairwise_insertionSort (HotterThan counts) (List.range counts.length)) i j
      (by omega) (by omega) hij
    rw [List.getD_eq_getElem?_getD (i := j), List.getD_eq_getElem?_getD (i := i),
      List.getElem?_eq_getElem, List.getElem?_eq_getElem]
    exact hsorted

def fourExperts (hotK : ℤ) : Node ℤ ℤ where
  nExpert := 4
  hotK := hotK
  haveSlice := true
  weights := [fun x => x, fun x => 2 * x, fun x => 3 * x, fun x => 4 * x]
  room := 2 ^ 32
  sort := fullSort
  loaded := fun _ => by decide
  cut := le_rfl

def slots (kind : CallKind) (a b : ℤ) : Callback ℤ ℤ ℤ where
  kind := kind
  routing := ⟨2, 1, fun _ => 5, fun p => if p = 0 then a else b, fun _ => 1⟩
  eps := []
  luck := ⟨true, fun _ _ => false, true⟩
  held := fun _ => 0

/-- `0xBEBEBEBE`, as the warmup hands it over. -/
def warmupId : ℤ := -1094795586

/-- With the hot cache on, an id of the warmup indexes outside the counters, and an id past the
model makes them more than the experts. -/
theorem garbage_ids_harm :
    (fourExperts 1).history sampleRemote [slots .dispatch warmupId 0] = .error .outside ∧
    (fourExperts 1).history sampleRemote [slots .reduce warmupId 0] = .error .outside ∧
    (fourExperts 1).history sampleRemote [slots .dispatch 7 0] =
      .ok ⟨[1, 0, 0, 0, 0, 0, 0, 1], [true, false, false, false, false, false, false, false], 1⟩ ∧
    (fourExperts 1).history sampleRemote [slots .reduce 7 0] =
      .ok ⟨[1, 0, 0, 0, 0, 0, 0, 1], [true, false, false, false, false, false, false, false], 1⟩ := by
  refine ⟨?_, ?_, ?_, ?_⟩
  · decide +kernel
  · decide +kernel
  · decide +kernel
  · decide +kernel

/-- With it off, the same id adds nothing. -/
theorem garbage_harmless_off : ∃ (c : HotCache) (out : ℕ → ℤ),
    (fourExperts 0).call sampleRemote .initial (slots .dispatch warmupId 2) =
      .ok (c, true, out) ∧ out 0 = 0 ∧ c.counts.length ≤ 4 := by
  have hint : ∀ q ∈ [slots .dispatch warmupId 2], q.routing.Int32 := by
    intro q hq
    obtain rfl := List.mem_singleton.mp hq
    change ∀ p < 2, _
    decide
  have htame : ∀ q ∈ [slots .dispatch warmupId 2], Tame (fourExperts 0) q := by
    intro q hq
    obtain rfl := List.mem_singleton.mp hq
    exact ⟨fun h => absurd h (by decide), fun w hw => absurd hw List.not_mem_nil⟩
  obtain ⟨-, hcalls, -⟩ := garbage_harmless (fourExperts 0) sampleRemote
    [slots .dispatch warmupId 2] hint htame
  obtain ⟨-, hresult⟩ := hcalls [] _ (List.prefix_refl _) .initial rfl
  obtain ⟨hbounded, -, -, hok, hout⟩ := hresult _ _ _ rfl
  obtain ⟨source, hzero, -, hrows⟩ := hout (hok rfl rfl)
  refine ⟨_, _, rfl, ?_, hbounded⟩
  rw [hrows 0 (by decide), hzero 0 (by decide) (by decide)]

end KvasirNet.Moe
