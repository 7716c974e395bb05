import KvasirNet.ExpertWorker
import Mathlib.Tactic.Ring

/-! Whatever arrives, the expert worker sizes and indexes its buffers within bounds, and what it
answers is what the request asks for, at every width of its chunks. -/
namespace KvasirNet.ExpertWorker

open KvasirNet.Moe KvasirNet.Checked

/-! ### The chunk loop -/

def hiddenFrom (nEmbd : ℕ) (cur : Vec UInt32) (t : ℕ) : ℕ → UInt32 :=
  fun k => cur.get (t * nEmbd + k)

/-- The ids of so many tokens from a token on. -/
def idsFrom (nUsed : ℕ) (sel : List ℤ) (t nt : ℕ) : List ℤ :=
  (sel.drop (t * nUsed)).take (nUsed * nt)

/-- What a dispatch is given once the request has been checked. -/
structure Valid (nEmbd : ℕ) (nLocal : ℤ) (nUsed nTokens : ℕ) (cur : Vec UInt32) (sel : List ℤ) :
    Prop where
  hidden : cur.size = nEmbd * nTokens
  length : sel.length = nUsed * nTokens
  below : allIndicesBelow sel nLocal = true
  distinct : noDuplicateExperts sel nUsed nTokens = true
  bytes : 4 * (nEmbd * (nUsed * nTokens)) < 2 ^ 64
  tokens : nTokens ≤ 2 ^ 16

section Dispatch
variable (B : Backend) (nEmbd : ℕ) (width nUsed nTokens : ℕ) (cur : Vec UInt32) (sel : List ℤ)

/-- The backend computes the chunk that starts at a token. -/
def ChunkComputed (t : ℕ) : Prop :=
  B.computes nUsed (min width (nTokens - t)) (hiddenFrom nEmbd cur t)
    (idsFrom nUsed sel t (min width (nTokens - t))) = true

def Computed : Prop :=
  ∀ t < nTokens, width ∣ t → ChunkComputed B nEmbd width nUsed nTokens cur sel t

instance : Decidable (Computed B nEmbd width nUsed nTokens cur sel) :=
  inferInstanceAs (Decidable (∀ t < nTokens, width ∣ t → B.computes nUsed (min width (nTokens - t))
    (hiddenFrom nEmbd cur t) (idsFrom nUsed sel t (min width (nTokens - t))) = true))

/-- The output at a place, from the graph of its chunk. -/
def chunkedAt (x : ℕ) : UInt32 :=
  let t := x / (nUsed * nEmbd) / width * width
  B.graph nUsed (min width (nTokens - t)) (hiddenFrom nEmbd cur t)
    (idsFrom nUsed sel t (min width (nTokens - t))) (x - t * (nUsed * nEmbd))

end Dispatch

section Dispatch
variable {B : Backend} {nEmbd : ℕ} {nLocal : ℤ} {width nUsed nTokens : ℕ} {cur : Vec UInt32}
  {sel : List ℤ}

theorem allIndicesBelow_infix {v w : List ℤ} {limit : ℤ} (h : allIndicesBelow v limit = true)
    (hw : ∀ x ∈ w, x ∈ v) : allIndicesBelow w limit = true := by
  apply List.all_eq_true.mpr
  intro x hx
  exact List.all_eq_true.mp h x (hw x hx)

variable {t : ℕ}

theorem idsFrom_token {nt i : ℕ} (hi : i < nt) :
    ((idsFrom nUsed sel t nt).drop (i * nUsed)).take nUsed =
      (sel.drop ((t + i) * nUsed)).take nUsed := by
  have hfit : i * nUsed + nUsed ≤ nUsed * nt := by
    calc i * nUsed + nUsed = nUsed * (i + 1) := by ring
      _ ≤ nUsed * nt := Nat.mul_le_mul_left _ hi
  have hplace : t * nUsed + i * nUsed = (t + i) * nUsed := (Nat.add_mul _ _ _).symm
  unfold idsFrom
  rw [List.drop_take, List.drop_drop, List.take_take, hplace, min_eq_left (by omega)]

theorem Valid.chunk_below (h : Valid nEmbd nLocal nUsed nTokens cur sel) (t nt : ℕ) :
    allIndicesBelow (idsFrom nUsed sel t nt) nLocal = true :=
  allIndicesBelow_infix h.below fun _ hx => List.mem_of_mem_drop (List.mem_of_mem_take hx)

theorem Valid.chunk_distinct (h : Valid nEmbd nLocal nUsed nTokens cur sel) {nt : ℕ}
    (hfit : t + nt ≤ nTokens) : noDuplicateExperts (idsFrom nUsed sel t nt) nUsed nt = true := by
  have hall := h.distinct
  unfold noDuplicateExperts at hall ⊢
  split_ifs at hall ⊢
  · rfl
  · rw [List.all_eq_true] at hall ⊢
    intro i hi
    have hlt : i < nt := List.mem_range.mp hi
    rw [idsFrom_token hlt]
    exact hall (t + i) (List.mem_range.mpr (by omega))

theorem computeBlock_eq (h : Valid nEmbd nLocal nUsed nTokens cur sel) {nt : ℕ}
    (hfit : t + nt ≤ nTokens) :
    computeBlock B nEmbd nLocal nUsed nt cur (t * nEmbd) sel (t * nUsed) =
      .ok (if B.computes nUsed nt (hiddenFrom nEmbd cur t) (idsFrom nUsed sel t nt) = true then
        some ⟨nEmbd * (nUsed * nt), B.graph nUsed nt (hiddenFrom nEmbd cur t)
          (idsFrom nUsed sel t nt)⟩
        else none) := by
  have hcur : t * nEmbd + nEmbd * nt ≤ cur.size := by
    calc t * nEmbd + nEmbd * nt = nEmbd * (t + nt) := by ring
      _ ≤ nEmbd * nTokens := Nat.mul_le_mul_left _ hfit
      _ = cur.size := h.hidden.symm
  have hsel : t * nUsed + nUsed * nt ≤ sel.length := by
    calc t * nUsed + nUsed * nt = nUsed * (t + nt) := by ring
      _ ≤ nUsed * nTokens := Nat.mul_le_mul_left _ hfit
      _ = sel.length := h.length.symm
  have hbytes : 4 * (nEmbd * (nUsed * nt)) < 2 ^ 64 := by
    apply lt_of_le_of_lt _ h.bytes
    apply Nat.mul_le_mul_left
    apply Nat.mul_le_mul_left
    exact Nat.mul_le_mul_left _ (by omega)
  have hbelow := h.chunk_below t nt
  have hdistinct := h.chunk_distinct hfit
  unfold idsFrom at hbelow hdistinct
  unfold computeBlock
  rw [if_pos ⟨hcur, hsel⟩]
  simp only [hbelow, hdistinct, if_true, elems_three hbytes]
  rfl

theorem next_start (hint : width < 2 ^ 31) (htokens : nTokens ≤ 2 ^ 16) (ht : t < nTokens)
    (hdvd : width ∣ t) : t + width < 2 ^ 31 := by
  rcases Nat.eq_zero_or_pos t with rfl | hpos
  · omega
  · have hle := Nat.le_of_dvd hpos hdvd
    omega

theorem chunkedAt_of_start {x : ℕ} (hdvd : width ∣ t)
    (hlo : t * (nUsed * nEmbd) ≤ x) (hhi : x < (t + width) * (nUsed * nEmbd)) :
    chunkedAt B nEmbd width nUsed nTokens cur sel x =
      B.graph nUsed (min width (nTokens - t)) (hiddenFrom nEmbd cur t)
        (idsFrom nUsed sel t (min width (nTokens - t))) (x - t * (nUsed * nEmbd)) := by
  obtain ⟨m, rfl⟩ := hdvd
  have hlower : width * m ≤ x / (nUsed * nEmbd) := by
    apply (Nat.le_div_iff_mul_le ?_).mpr hlo
    by_contra hzero
    rw [Nat.eq_zero_of_not_pos hzero, Nat.mul_zero] at hhi
    omega
  have hupper : x / (nUsed * nEmbd) < width * m + width := Nat.div_lt_of_lt_mul (by
    rw [Nat.mul_comm]
    exact hhi)
  have hchunk : x / (nUsed * nEmbd) / width = m := by
    apply Nat.div_eq_of_lt_le
    · rw [Nat.mul_comm]
      exact hlower
    · rw [Nat.add_mul, Nat.mul_comm m, Nat.one_mul]
      exact hupper
  unfold chunkedAt
  rw [hchunk, Nat.mul_comm m width]

/-- The output with the chunk of a token copied in. -/
def withChunk (B : Backend) (nEmbd width nUsed nTokens : ℕ) (cur : Vec UInt32) (sel : List ℤ) (t : ℕ)
    (out : Vec UInt32) : Vec UInt32 :=
  ⟨out.size, fun k =>
    if t * (nUsed * nEmbd) ≤ k ∧
        k < t * (nUsed * nEmbd) + nEmbd * (nUsed * min width (nTokens - t)) then
      B.graph nUsed (min width (nTokens - t)) (hiddenFrom nEmbd cur t)
        (idsFrom nUsed sel t (min width (nTokens - t))) (k - t * (nUsed * nEmbd))
    else out.get k⟩

variable {out : Vec UInt32}

theorem withChunk_before {x : ℕ} (hx : x < t * (nUsed * nEmbd)) :
    (withChunk B nEmbd width nUsed nTokens cur sel t out).get x = out.get x :=
  if_neg fun h => Nat.not_lt_of_le h.1 hx

theorem withChunk_chunk {x : ℕ} (hdvd : width ∣ t) (ht : t < nTokens)
    (hlo : t * (nUsed * nEmbd) ≤ x) (hhi : x < (t + width) * (nUsed * nEmbd))
    (hlast : x < nTokens * (nUsed * nEmbd)) :
    (withChunk B nEmbd width nUsed nTokens cur sel t out).get x =
      chunkedAt B nEmbd width nUsed nTokens cur sel x := by
  have hend : x < t * (nUsed * nEmbd) + nEmbd * (nUsed * min width (nTokens - t)) := by
    have hswap : t * (nUsed * nEmbd) + nEmbd * (nUsed * min width (nTokens - t)) =
        (t + min width (nTokens - t)) * (nUsed * nEmbd) := by ring
    rw [hswap]
    rcases min_choice width (nTokens - t) with hmin | hmin
    · rw [hmin]
      exact hhi
    · rw [hmin, Nat.add_sub_cancel' ht.le]
      exact hlast
  rw [chunkedAt_of_start hdvd hlo hhi]
  exact if_pos ⟨hlo, hend⟩

/-- What the loop leaves, when every chunk from a token on is computed: what was there before, then
the output of each chunk. -/
structure Filled (B : Backend) (nEmbd width nUsed nTokens : ℕ) (cur : Vec UInt32) (sel : List ℤ)
    (t : ℕ) (out out' : Vec UInt32) : Prop where
  size : out'.size = out.size
  before : ∀ x < t * (nUsed * nEmbd), out'.get x = out.get x
  after : ∀ x, t * (nUsed * nEmbd) ≤ x → x < nTokens * (nUsed * nEmbd) →
    out'.get x = chunkedAt B nEmbd width nUsed nTokens cur sel x

theorem Filled.of_chunk {out' : Vec UInt32} (hdvd : width ∣ t) (ht : t < nTokens)
    (h : Filled B nEmbd width nUsed nTokens cur sel (t + width)
      (withChunk B nEmbd width nUsed nTokens cur sel t out) out') :
    Filled B nEmbd width nUsed nTokens cur sel t out out' where
  size := h.size
  before x hx := by
    have hmul : (t + width) * (nUsed * nEmbd) = t * (nUsed * nEmbd) + width * (nUsed * nEmbd) :=
      Nat.add_mul _ _ _
    rw [h.before x (by omega), withChunk_before hx]
  after x hlo hlast := by
    by_cases hx : x < (t + width) * (nUsed * nEmbd)
    · rw [h.before x hx, withChunk_chunk hdvd ht hlo hx hlast]
    · exact h.after x (by omega) hlast

theorem dispatchFrom_turn (h : Valid nEmbd nLocal nUsed nTokens cur sel) (hwidth : 0 < width)
    (hint : width < 2 ^ 31) (hdvd : width ∣ t) (ht : t < nTokens)
    (hout : out.size = nEmbd * (nUsed * nTokens)) :
    (ChunkComputed B nEmbd width nUsed nTokens cur sel t →
      dispatchFrom B nEmbd nLocal hwidth nUsed nTokens cur sel t out =
        dispatchFrom B nEmbd nLocal hwidth nUsed nTokens cur sel (t + width)
          (withChunk B nEmbd width nUsed nTokens cur sel t out)) ∧
      (¬ ChunkComputed B nEmbd width nUsed nTokens cur sel t →
        dispatchFrom B nEmbd nLocal hwidth nUsed nTokens cur sel t out = .ok none) := by
  have hblock := computeBlock_eq (B := B) h
    (by omega : t + min width (nTokens - t) ≤ nTokens)
  constructor
  · intro hchunk
    -- the chunk fits behind the chunks before it
    have hend : t * nUsed * nEmbd + nEmbd * (nUsed * min width (nTokens - t)) ≤ out.size := by
      calc t * nUsed * nEmbd + nEmbd * (nUsed * min width (nTokens - t))
          = nEmbd * (nUsed * (t + min width (nTokens - t))) := by ring
        _ ≤ nEmbd * (nUsed * nTokens) := by
          apply Nat.mul_le_mul_left
          apply Nat.mul_le_mul_left
          omega
        _ = out.size := hout.symm
    have hcopy : out.copy (t * nUsed * nEmbd) ⟨nEmbd * (nUsed * min width (nTokens - t)),
        B.graph nUsed (min width (nTokens - t)) (hiddenFrom nEmbd cur t)
          (idsFrom nUsed sel t (min width (nTokens - t)))⟩ ((0 : ℕ) : ℤ)
          (nEmbd * (nUsed * min width (nTokens - t))) = _ := copy_ok hend (Nat.zero_add _).le
    rw [Nat.cast_zero] at hcopy
    simp only [Nat.zero_add, Nat.mul_assoc] at hcopy
    have hnext := next_start hint h.tokens ht hdvd
    unfold ChunkComputed at hchunk
    rw [if_pos hchunk] at hblock
    rw [dispatchFrom, dif_pos ht, hblock]
    simp only [Except.bind, Nat.mul_assoc, hcopy, if_pos hnext]
    rfl
  · intro hchunk
    unfold ChunkComputed at hchunk
    rw [if_neg hchunk] at hblock
    rw [dispatchFrom, dif_pos ht, hblock]
    rfl

/-- The loop from the start of a chunk on: it never leaves its buffers, and it ends without a
result if a chunk is not computed. -/
theorem dispatchFrom_eq (h : Valid nEmbd nLocal nUsed nTokens cur sel) (hwidth : 0 < width)
    (hint : width < 2 ^ 31) (hdvd : width ∣ t)
    (hout : out.size = nEmbd * (nUsed * nTokens)) :
    ((∀ t' < nTokens, t ≤ t' → width ∣ t' →
        ChunkComputed B nEmbd width nUsed nTokens cur sel t') ∧
      ∃ out', dispatchFrom B nEmbd nLocal hwidth nUsed nTokens cur sel t out = .ok (some out') ∧
        Filled B nEmbd width nUsed nTokens cur sel t out out') ∨
      ((∃ t' < nTokens, width ∣ t' ∧ ¬ ChunkComputed B nEmbd width nUsed nTokens cur sel t') ∧
        dispatchFrom B nEmbd nLocal hwidth nUsed nTokens cur sel t out = .ok none) := by
  induction hleft : nTokens - t using Nat.strong_induction_on generalizing t out with
  | _ left ih =>
    by_cases ht : t < nTokens
    · obtain ⟨hgo, hstop⟩ := dispatchFrom_turn (B := B) h hwidth hint hdvd ht hout
      by_cases hchunk : ChunkComputed B nEmbd width nUsed nTokens cur sel t
      · rw [hgo hchunk]
        rcases ih (nTokens - (t + width)) (by omega) (Nat.dvd_add hdvd (Nat.dvd_refl width))
          (show (withChunk B nEmbd width nUsed nTokens cur sel t out).size = _ from hout) rfl with
          ⟨hall, out', hout', hfilled⟩ | hnone
        · refine .inl ⟨?_, out', hout', hfilled.of_chunk hdvd ht⟩
          intro t' ht' hle hdvd'
          rcases hle.eq_or_lt with rfl | hlt
          · exact hchunk
          · -- between two starts there is none
            have hgap := Nat.le_of_dvd (by omega) (Nat.dvd_sub hdvd' hdvd)
            exact hall t' ht' (by omega) hdvd'
        · exact .inr hnone
      · exact .inr ⟨⟨t, ht, hdvd, hchunk⟩, hstop hchunk⟩
    · refine .inl ⟨fun t' ht' hle => absurd ht' (by omega), out, ?_, rfl, fun _ _ => rfl, ?_⟩
      · rw [dispatchFrom, dif_neg ht]
      · intro x hlo hlast
        have hmul := Nat.mul_le_mul_right (nUsed * nEmbd) (Nat.le_of_not_lt ht)
        omega

theorem computeDispatch_eq (h : Valid nEmbd nLocal nUsed nTokens cur sel) (hwidth : 0 < width)
    (hint : width < 2 ^ 31) :
    (Computed B nEmbd width nUsed nTokens cur sel ∧
      ∃ out, computeDispatch B nEmbd nLocal hwidth nUsed nTokens cur sel = .ok (some out) ∧
        out.size = nEmbd * (nUsed * nTokens) ∧
        ∀ x < nEmbd * (nUsed * nTokens),
          out.get x = chunkedAt B nEmbd width nUsed nTokens cur sel x) ∨
      (¬ Computed B nEmbd width nUsed nTokens cur sel ∧
        computeDispatch B nEmbd nLocal hwidth nUsed nTokens cur sel = .ok none) := by
  have hstart : computeDispatch B nEmbd nLocal hwidth nUsed nTokens cur sel =
      dispatchFrom B nEmbd nLocal hwidth nUsed nTokens cur sel 0
        ⟨nEmbd * (nUsed * nTokens), fun _ => 0⟩ := by
    unfold computeDispatch
    rw [elems_three h.bytes]
    rfl
  rw [hstart]
  rcases dispatchFrom_eq (B := B) h hwidth hint (Nat.dvd_zero width)
    (show (⟨nEmbd * (nUsed * nTokens), fun _ => 0⟩ : Vec UInt32).size = _ from rfl) with
    ⟨hall, out, hout, hfilled⟩ | ⟨⟨t, ht, hdvd, hchunk⟩, hnone⟩
  · refine .inl ⟨fun t ht hdvd => hall t ht (Nat.zero_le t) hdvd, out, hout, hfilled.size, ?_⟩
    intro x hx
    apply hfilled.after x
    · rw [Nat.zero_mul]
      exact Nat.zero_le x
    · calc x < nEmbd * (nUsed * nTokens) := hx
        _ = nTokens * (nUsed * nEmbd) := by ring
  · exact .inr ⟨fun hall => hchunk (hall t ht hdvd), hnone⟩

end Dispatch

/-! ### What the backend is for -/

def column (n : ℕ) (b : ℕ → UInt32) (j : ℕ) : List UInt32 :=
  (List.range n).map fun k => b (j * n + k)

section Product
variable (B : Backend) (nEmbd : ℕ) (nLocal : ℤ) (matvec : Weights → ℤ → List UInt32 → ℕ → UInt32)

def Weights.rows : Weights → ℕ
  | .up | .gate => B.nFf
  | .down => nEmbd

def Weights.cols : Weights → ℕ
  | .up | .gate => nEmbd
  | .down => B.nFf

/-- `c = as[:,:,i] @ b[:,e%r,t], i = ids[e,t]`, as `ggml_mul_mat_id` documents itself, where `matvec`
is the product of an expert's matrix and a column. -/
def IndirectProduct : Prop :=
  ∀ (w : Weights) (nCols nUsed nTokens : ℕ) (b : ℕ → UInt32) (ids : List ℤ), nCols ∣ nUsed →
    ids.length = nUsed * nTokens → allIndicesBelow ids nLocal = true →
    noDuplicateExperts ids nUsed nTokens = true →
    ∀ t < nTokens, ∀ e < nUsed, ∀ r < w.rows B nEmbd,
      B.mulMatId w nCols nUsed nTokens b ids ((t * nUsed + e) * w.rows B nEmbd + r) =
        matvec w (ids.getD (t * nUsed + e) 0) (column (w.cols B nEmbd) b (t * nCols + e % nCols)) r

def expertAt (id : ℤ) (x : List UInt32) (k : ℕ) : UInt32 :=
  matvec .down id ((List.range B.nFf).map fun j => B.swiglu (matvec .gate id x j) (matvec .up id x j))
    k

end Product

section Product
variable {B : Backend} {nEmbd : ℕ} {nLocal : ℤ} {matvec : Weights → ℤ → List UInt32 → ℕ → UInt32}
  {width nUsed nTokens : ℕ} {cur : Vec UInt32} {sel : List ℤ}

variable {t : ℕ}

theorem graph_eq (hB : IndirectProduct B nEmbd nLocal matvec) {hidden : ℕ → UInt32} {ids : List ℤ}
    (hlen : ids.length = nUsed * nTokens) (hbelow : allIndicesBelow ids nLocal = true)
    (hdistinct : noDuplicateExperts ids nUsed nTokens = true) {e k : ℕ} (ht : t < nTokens)
    (he : e < nUsed) (hk : k < nEmbd) :
    B.graph nUsed nTokens hidden ids ((t * nUsed + e) * nEmbd + k) =
      expertAt B matvec (ids.getD (t * nUsed + e) 0) (column nEmbd hidden t) k := by
  have hfirst : ∀ w : Weights, w.rows B nEmbd = B.nFf → w.cols B nEmbd = nEmbd → ∀ j < B.nFf,
      B.mulMatId w 1 nUsed nTokens hidden ids ((t * nUsed + e) * B.nFf + j) =
        matvec w (ids.getD (t * nUsed + e) 0) (column nEmbd hidden t) j := by
    intro w hrows hcols j hj
    have hw := hB w 1 nUsed nTokens hidden ids (Nat.one_dvd _) hlen hbelow hdistinct t ht e he j
      (by rwa [hrows])
    rwa [hrows, hcols, Nat.mod_one, Nat.mul_one, Nat.add_zero] at hw
  have hdown := hB .down nUsed nUsed nTokens (fun k => B.swiglu
    (B.mulMatId .gate 1 nUsed nTokens hidden ids k) (B.mulMatId .up 1 nUsed nTokens hidden ids k)) ids
    (Nat.dvd_refl _) hlen hbelow hdistinct t ht e he k hk
  rw [Nat.mod_eq_of_lt he] at hdown
  refine hdown.trans ?_
  have hact : column B.nFf (fun k => B.swiglu (B.mulMatId .gate 1 nUsed nTokens hidden ids k)
      (B.mulMatId .up 1 nUsed nTokens hidden ids k)) (t * nUsed + e) =
      (List.range B.nFf).map fun j =>
        B.swiglu (matvec .gate (ids.getD (t * nUsed + e) 0) (column nEmbd hidden t) j)
          (matvec .up (ids.getD (t * nUsed + e) 0) (column nEmbd hidden t) j) := by
    apply List.map_congr_left
    intro j hj
    have hlt : j < B.nFf := List.mem_range.mp hj
    exact congrArg₂ B.swiglu (hfirst .gate rfl rfl j hlt) (hfirst .up rfl rfl j hlt)
  unfold expertAt
  rw [← hact]
  rfl

theorem idsFrom_length (h : Valid nEmbd nLocal nUsed nTokens cur sel) {nt : ℕ}
    (hfit : t + nt ≤ nTokens) : (idsFrom nUsed sel t nt).length = nUsed * nt := by
  have hall : t * nUsed + nUsed * nt ≤ nUsed * nTokens := by
    calc t * nUsed + nUsed * nt = nUsed * (t + nt) := by ring
      _ ≤ nUsed * nTokens := Nat.mul_le_mul_left _ hfit
  unfold idsFrom
  rw [List.length_take, List.length_drop, h.length]
  omega

theorem idsFrom_getD {nt i e : ℕ} (hi : i < nt) (he : e < nUsed) :
    (idsFrom nUsed sel t nt).getD (i * nUsed + e) 0 = sel.getD ((t + i) * nUsed + e) 0 := by
  have hfit : i * nUsed + e < nUsed * nt := by
    calc i * nUsed + e < i * nUsed + nUsed := Nat.add_lt_add_left he _
      _ = nUsed * (i + 1) := by ring
      _ ≤ nUsed * nt := Nat.mul_le_mul_left _ hi
  have hplace : t * nUsed + (i * nUsed + e) = (t + i) * nUsed + e := by ring
  unfold idsFrom
  rw [List.getD_eq_getElem?_getD, List.getD_eq_getElem?_getD, List.getElem?_take_of_lt hfit,
    List.getElem?_drop, hplace]

theorem column_hiddenFrom (t i : ℕ) :
    column nEmbd (hiddenFrom nEmbd cur t) i = column nEmbd cur.get (t + i) := by
  apply List.map_congr_left
  intro k hk
  have hplace : t * nEmbd + (i * nEmbd + k) = (t + i) * nEmbd + k := by ring
  exact congrArg cur.get hplace

theorem Valid.graph_chunk (h : Valid nEmbd nLocal nUsed nTokens cur sel)
    (hB : IndirectProduct B nEmbd nLocal matvec) {nt i e k : ℕ} (hfit : t + nt ≤ nTokens)
    (hi : i < nt) (he : e < nUsed) (hk : k < nEmbd) :
    B.graph nUsed nt (hiddenFrom nEmbd cur t) (idsFrom nUsed sel t nt)
        ((i * nUsed + e) * nEmbd + k) =
      expertAt B matvec (sel.getD ((t + i) * nUsed + e) 0) (column nEmbd cur.get (t + i)) k := by
  rw [graph_eq hB (idsFrom_length h hfit) (h.chunk_below t nt) (h.chunk_distinct hfit) hi he hk,
    idsFrom_getD hi he, column_hiddenFrom]

theorem chunkedAt_eq (h : Valid nEmbd nLocal nUsed nTokens cur sel)
    (hB : IndirectProduct B nEmbd nLocal matvec) (hwidth : 0 < width) {e k : ℕ} (ht : t < nTokens)
    (he : e < nUsed) (hk : k < nEmbd) :
    chunkedAt B nEmbd width nUsed nTokens cur sel ((t * nUsed + e) * nEmbd + k) =
      expertAt B matvec (sel.getD (t * nUsed + e) 0) (column nEmbd cur.get t) k := by
  -- the token is the `i`-th of the chunk that starts at `c`
  obtain ⟨c, i, hdvd, hi, rfl⟩ : ∃ c i, width ∣ c ∧ i < width ∧ t = c + i :=
    ⟨width * (t / width), t % width, Nat.dvd_mul_right _ _, Nat.mod_lt t hwidth,
      (Nat.div_add_mod t width).symm⟩
  have hplace : ((c + i) * nUsed + e) * nEmbd + k =
      c * (nUsed * nEmbd) + ((i * nUsed + e) * nEmbd + k) := by ring
  have hinner : (i * nUsed + e) * nEmbd + k < width * (nUsed * nEmbd) := by
    calc (i * nUsed + e) * nEmbd + k < (i * nUsed + e) * nEmbd + nEmbd := Nat.add_lt_add_left hk _
      _ = (i * nUsed + e + 1) * nEmbd := by ring
      _ ≤ (i * nUsed + nUsed) * nEmbd := Nat.mul_le_mul_right _ (Nat.add_le_add_left he _)
      _ = (i + 1) * (nUsed * nEmbd) := by ring
      _ ≤ width * (nUsed * nEmbd) := Nat.mul_le_mul_right _ hi
  have hhi : c * (nUsed * nEmbd) + ((i * nUsed + e) * nEmbd + k) < (c + width) * (nUsed * nEmbd) := by
    rw [Nat.add_mul c width]
    exact Nat.add_lt_add_left hinner _
  rw [hplace, chunkedAt_of_start hdvd (Nat.le_add_right _ _) hhi, Nat.add_sub_cancel_left,
    h.graph_chunk hB (by omega) (by omega) he hk]

theorem place_split {x : ℕ} (hx : x < nEmbd * (nUsed * nTokens)) :
    ∃ t < nTokens, ∃ e < nUsed, ∃ k < nEmbd, x = (t * nUsed + e) * nEmbd + k := by
  have hE : 0 < nEmbd := Nat.pos_of_ne_zero fun h => by simp [h] at hx
  have hU : 0 < nUsed := Nat.pos_of_ne_zero fun h => by simp [h] at hx
  have hslot : x / nEmbd < nUsed * nTokens := Nat.div_lt_of_lt_mul hx
  refine ⟨x / nEmbd / nUsed, Nat.div_lt_of_lt_mul hslot, x / nEmbd % nUsed, Nat.mod_lt _ hU,
    x % nEmbd, Nat.mod_lt _ hE, ?_⟩
  rw [Nat.mul_comm (x / nEmbd / nUsed), Nat.div_add_mod, Nat.mul_comm (x / nEmbd), Nat.div_add_mod]

theorem dispatch_eq_block (h : Valid nEmbd nLocal nUsed nTokens cur sel)
    (hB : IndirectProduct B nEmbd nLocal matvec) (hwidth : 0 < width) (hint : width < 2 ^ 31)
    {out whole : Vec UInt32}
    (hout : computeDispatch B nEmbd nLocal hwidth nUsed nTokens cur sel = .ok (some out))
    (hwhole : computeBlock B nEmbd nLocal nUsed nTokens cur 0 sel 0 = .ok (some whole)) :
    out.size = whole.size ∧ ∀ x < out.size, out.get x = whole.get x := by
  have hblock := computeBlock_eq (B := B) h (by omega : 0 + nTokens ≤ nTokens)
  rw [Nat.zero_mul, Nat.zero_mul, hwhole] at hblock
  have hsome := Except.ok.inj hblock
  split_ifs at hsome with hcomputed
  have hwholeEq := Option.some.inj hsome
  rcases computeDispatch_eq (B := B) h hwidth hint with ⟨-, out', hout', hsize, hvalue⟩ | ⟨-, hnone⟩
  · rw [hout] at hout'
    obtain rfl := Option.some.inj (Except.ok.inj hout')
    subst hwholeEq
    refine ⟨hsize, ?_⟩
    intro x hx
    rw [hsize] at hx
    rw [hvalue x hx]
    obtain ⟨t, ht, e, he, k, hk, rfl⟩ := place_split hx
    have hgraph := h.graph_chunk hB (by omega : 0 + nTokens ≤ nTokens) ht he hk
    rw [Nat.zero_add] at hgraph
    rw [chunkedAt_eq h hB hwidth ht he hk]
    exact hgraph.symm
  · rw [hout] at hnone
    cases hnone

end Product

/-! ### The weighted sums -/

section Reduce
variable {S : Scalars} {nEmbd : ℕ}

/-- Pairs up to a bound added to a place, in their order. -/
def sumAt (S : Scalars) (nEmbd : ℕ) (probs e : ℕ → UInt32) (rowIdx : List ℤ) (n x : ℕ) : UInt32 :=
  ((List.range n).filter fun i => rowIdx.getD i 0 = (x / nEmbd : ℕ)).foldl
    (fun acc i => S.addMul acc (probs i) (e (i * nEmbd + x % nEmbd))) 0

theorem sumAt_succ (probs e : ℕ → UInt32) (rowIdx : List ℤ) (n x : ℕ) :
    sumAt S nEmbd probs e rowIdx (n + 1) x =
      if rowIdx.getD n 0 = (x / nEmbd : ℕ) then
        S.addMul (sumAt S nEmbd probs e rowIdx n x) (probs n) (e (n * nEmbd + x % nEmbd))
      else sumAt S nEmbd probs e rowIdx n x := by
  unfold sumAt
  rw [List.range_succ, List.filter_append, List.foldl_append]
  split_ifs with h
  · rw [List.filter_cons_of_pos (by simpa using h)]
    rfl
  · rw [List.filter_cons_of_neg (by simpa using h)]
    rfl

theorem place_row (hEmbd : 0 < nEmbd) {r x : ℕ} :
    (r * nEmbd ≤ x ∧ x < r * nEmbd + nEmbd) ↔ x / nEmbd = r := by
  rw [Nat.div_eq_iff hEmbd]
  omega

variable {rowIdx : List ℤ} {nRows n : ℕ}

theorem gatherRow_ok (hEmbd : 0 < nEmbd) {rows h : Vec UInt32} {i r : ℕ}
    (hi : i < n) (hrow : rowIdx[i]? = some (r : ℤ)) (hr : r < nRows)
    (hrows : rows.size = nEmbd * nRows) (hh : h.size = nEmbd * n) :
    gatherRow nEmbd rows rowIdx h i = .ok ⟨h.size, fun x =>
      if x / nEmbd = i then rows.get (r * nEmbd + x % nEmbd) else h.get x⟩ := by
  have hto : i * nEmbd + nEmbd ≤ h.size := by
    calc i * nEmbd + nEmbd = nEmbd * (i + 1) := by ring
      _ ≤ nEmbd * n := Nat.mul_le_mul_left _ hi
      _ = h.size := hh.symm
  have hfrom : r * nEmbd + nEmbd ≤ rows.size := by
    calc r * nEmbd + nEmbd = nEmbd * (r + 1) := by ring
      _ ≤ nEmbd * nRows := Nat.mul_le_mul_left _ hr
      _ = rows.size := hrows.symm
  have hitem : item rowIdx i = .ok (r : ℤ) := by
    unfold item
    rw [hrow]
    rfl
  have hcopy := copy_ok hto hfrom
  unfold gatherRow
  rw [hitem]
  refine Eq.trans ?_ (hcopy.trans (congrArg Except.ok ?_))
  · rw [Nat.cast_mul]
    rfl
  · congr 1
    funext x
    by_cases hx : x / nEmbd = i
    · obtain ⟨hlo, hhi⟩ := (place_row hEmbd).mpr hx
      have hrest : x - i * nEmbd = x % nEmbd := by
        have hsplit := Nat.div_add_mod x nEmbd
        rw [hx, Nat.mul_comm] at hsplit
        omega
      rw [if_pos ⟨hlo, hhi⟩, if_pos hx, hrest]
    · rw [if_neg fun h => hx ((place_row hEmbd).mp h), if_neg hx]

theorem addRow_ok (hEmbd : 0 < nEmbd) {probs e out : Vec UInt32}
    {i r : ℕ} (hi : i < n) (hrow : rowIdx[i]? = some (r : ℤ)) (hr : r < nRows)
    (hprobs : probs.size = n) (he : e.size = nEmbd * n) (hout : out.size = nEmbd * nRows) :
    addRow S nEmbd probs e rowIdx out i = .ok ⟨out.size, fun x =>
      if x / nEmbd = r then
        S.addMul (out.get x) (probs.get i) (e.get (i * nEmbd + x % nEmbd))
      else out.get x⟩ := by
  have hfrom : i * nEmbd + nEmbd ≤ e.size := by
    calc i * nEmbd + nEmbd = nEmbd * (i + 1) := by ring
      _ ≤ nEmbd * n := Nat.mul_le_mul_left _ hi
      _ = e.size := he.symm
  have hto : r * nEmbd + nEmbd ≤ out.size := by
    calc r * nEmbd + nEmbd = nEmbd * (r + 1) := by ring
      _ ≤ nEmbd * nRows := Nat.mul_le_mul_left _ hr
      _ = out.size := hout.symm
  have hitem : item rowIdx i = .ok (r : ℤ) := by
    unfold item
    rw [hrow]
    rfl
  have hrow : ∀ k < nEmbd, ∀ out : Vec UInt32,
      (e.read ((i * nEmbd + k : ℕ) : ℤ)).bind (fun x =>
        out.modify ((r : ℤ) * nEmbd + k) fun y => S.addMul y (probs.get i) x) =
        out.modify ((r * nEmbd + k : ℕ) : ℤ) fun y =>
          S.addMul y (probs.get i) (e.get (i * nEmbd + k)) := by
    intro k hk out
    rw [read_ok (by omega : i * nEmbd + k < e.size), Nat.cast_add, Nat.cast_mul]
    rfl
  have hloop := modify_range hrow hto
  have hread : probs.read i = .ok (probs.get i) := read_ok (by omega)
  unfold addRow
  rw [hitem]
  refine Eq.trans ?_ (hloop.trans (congrArg Except.ok ?_))
  · change (probs.read i >>= _) = _
    rw [hread]
    rfl
  · congr 1
    funext x
    by_cases hx : x / nEmbd = r
    · obtain ⟨hlo, hhi⟩ := (place_row hEmbd).mpr hx
      have hrest : x - r * nEmbd = x % nEmbd := by
        have hsplit := Nat.div_add_mod x nEmbd
        rw [hx, Nat.mul_comm] at hsplit
        omega
      rw [if_pos ⟨hlo, hhi⟩, if_pos hx, hrest]
    · rw [if_neg fun h => hx ((place_row hEmbd).mp h), if_neg hx]

def pairRows (nEmbd : ℕ) (rows : ℕ → UInt32) (rowIdx : List ℤ) (n x : ℕ) : UInt32 :=
  if x / nEmbd < n then rows ((rowIdx.getD (x / nEmbd) 0).toNat * nEmbd + x % nEmbd) else 0

/-- The rows that the pairs of a request name. -/
structure RowsNamed (rowIdx : List ℤ) (n nRows : ℕ) : Prop where
  length : rowIdx.length = n
  below : allIndicesBelow rowIdx nRows = true

theorem RowsNamed.row (h : RowsNamed rowIdx n nRows) {i : ℕ}
    (hi : i < n) : ∃ r : ℕ, rowIdx[i]? = some (r : ℤ) ∧ r < nRows := by
  have hlt : i < rowIdx.length := h.length.symm ▸ hi
  have hmem := List.all_eq_true.mp h.below _ (List.getElem_mem hlt)
  simp only [Bool.and_eq_true, decide_eq_true_eq] at hmem
  refine ⟨rowIdx[i].toNat, ?_, by omega⟩
  rw [Int.toNat_of_nonneg hmem.1]
  exact List.getElem?_eq_getElem hlt

theorem gather_ok (hEmbd : 0 < nEmbd) {rows : Vec UInt32}
    (hidx : RowsNamed rowIdx n nRows) (hrows : rows.size = nEmbd * nRows) :
    (List.range n).foldlM (gatherRow nEmbd rows rowIdx) ⟨nEmbd * n, fun _ => 0⟩ =
      .ok ⟨nEmbd * n, pairRows nEmbd rows.get rowIdx n⟩ := by
  obtain ⟨b, hb, rfl⟩ := range_foldlM (f := gatherRow nEmbd rows rowIdx)
    (fun i b => b = ⟨nEmbd * n, pairRows nEmbd rows.get rowIdx i⟩)
    (a := ⟨nEmbd * n, fun _ => 0⟩) rfl n (by
      intro i hi b hb
      obtain ⟨r, hrow, hr⟩ := hidx.row hi
      refine ⟨_, gatherRow_ok hEmbd hi hrow hr hrows (by rw [hb]), ?_⟩
      rw [hb]
      congr 1
      funext x
      unfold pairRows
      by_cases hx : x / nEmbd = i
      · rw [if_pos hx, if_pos (by omega), hx, List.getD_eq_getElem?_getD, hrow]
        rfl
      · rw [if_neg hx]
        -- no other pair's place has changed
        have hlt : x / nEmbd < i ↔ x / nEmbd < i + 1 := by omega
        exact if_congr hlt rfl rfl)
  exact hb

theorem sum_ok (hEmbd : 0 < nEmbd) {probs e : Vec UInt32}
    (hidx : RowsNamed rowIdx n nRows) (hprobs : probs.size = n) (he : e.size = nEmbd * n) :
    (List.range n).foldlM (addRow S nEmbd probs e rowIdx) ⟨nEmbd * nRows, fun _ => 0⟩ =
      .ok ⟨nEmbd * nRows, sumAt S nEmbd probs.get e.get rowIdx n⟩ := by
  obtain ⟨b, hb, rfl⟩ := range_foldlM (f := addRow S nEmbd probs e rowIdx)
    (fun i b => b = ⟨nEmbd * nRows, sumAt S nEmbd probs.get e.get rowIdx i⟩)
    (a := ⟨nEmbd * nRows, fun _ => 0⟩) rfl n (by
      intro i hi b hb
      obtain ⟨r, hrow, hr⟩ := hidx.row hi
      refine ⟨_, addRow_ok hEmbd hi hrow hr hprobs he (by rw [hb]), ?_⟩
      rw [hb]
      congr 1
      funext x
      have hget : rowIdx.getD i 0 = (r : ℤ) := by
        rw [List.getD_eq_getElem?_getD, hrow]
        rfl
      rw [sumAt_succ, hget]
      by_cases hx : x / nEmbd = r
      · rw [if_pos hx, if_pos (by rw [hx])]
      · rw [if_neg hx, if_neg (by omega)])
  exact hb

end Reduce

/-! ### A request that is taken -/

/-- A request of the first wire with so many slots for each token. -/
structure HeldDispatch (nEmbd : ℕ) (nLocal : ℤ) (nUsed : ℕ) (q : WorkerReq) : Prop where
  wire : q.wire = .v1
  used : 1 ≤ nUsed ∧ nUsed ≤ 64
  tokens : 1 ≤ q.nRows ∧ q.nRows ≤ 8192
  pairs : q.nPairs = nUsed * q.nRows
  length : q.ids.length = nUsed * q.nRows
  below : allIndicesBelow q.ids nLocal = true
  distinct : noDuplicateExperts q.ids nUsed q.nRows = true

structure HeldReduce (nLocal : ℤ) (q : WorkerReq) : Prop where
  wire : q.wire = .v2 ∨ q.wire = .v2f16
  rows : 1 ≤ q.nRows ∧ q.nRows ≤ 8192
  pairs : 1 ≤ q.nPairs ∧ q.nPairs ≤ 65536
  named : RowsNamed q.rowIdx q.nPairs q.nRows
  length : q.ids.length = q.nPairs
  below : allIndicesBelow q.ids nLocal = true

section Held
variable {nEmbd : ℕ} {nLocal : ℤ}

variable {rest bs : Bytes}

theorem many_i32_count {n : ℕ} {xs : List ℤ}
    (h : Reader.many (Reader.i32 Drop.short) n bs = .ok (xs, rest)) : xs.length = n :=
  (Reader.many_eq_ok (P := fun _ => True) (fun _ _ _ _ => trivial) h).1

theorem heldDispatch {u v : ℤ} {q : WorkerReq}
    (h : readDispatch nEmbd nLocal u v bs = .ok (q, rest)) : HeldDispatch nEmbd nLocal u.toNat q := by
  unfold readDispatch at h
  split_ifs at h with hrange
  · obtain ⟨hu, hv⟩ := Bool.and_eq_true_iff.mp hrange
    rw [inRange_iff] at hu hv
    unfold maxReqExperts at hu
    unfold maxReqTokens at hv
    obtain ⟨rows, mid, -, h⟩ := Reader.bind_eq_ok h
    obtain ⟨sel, last, hsel, h⟩ := Reader.bind_eq_ok h
    split_ifs at h with hbelow hdistinct
    · obtain ⟨-, rfl⟩ := Reader.pure_eq_ok h
      exact ⟨rfl, by omega, by dsimp only; omega, rfl, many_i32_count hsel, hbelow, hdistinct⟩
    · cases h
    · cases h
  · cases h

theorem heldReduce {wire : Wire} (hwire : wire = .v2 ∨ wire = .v2f16) {v : ℤ}
    {q : WorkerReq} (h : readReduce nEmbd nLocal wire v bs = .ok (q, rest)) : HeldReduce nLocal q := by
  obtain ⟨n, mid, -, h⟩ := Reader.bind_eq_ok h
  split_ifs at h with hrange
  · obtain ⟨hv, hn⟩ := Bool.and_eq_true_iff.mp hrange
    rw [inRange_iff] at hv hn
    unfold maxReqRows at hv
    unfold maxReqPairs maxReqRows at hn
    obtain ⟨rows, mid₁, -, h⟩ := Reader.bind_eq_ok h
    obtain ⟨rowIdx, mid₂, hidx, h⟩ := Reader.bind_eq_ok h
    obtain ⟨ids, mid₃, hids, h⟩ := Reader.bind_eq_ok h
    obtain ⟨probs, last, -, h⟩ := Reader.bind_eq_ok h
    split_ifs at h with hindex
    · obtain ⟨hrowBelow, hbelow⟩ := Bool.and_eq_true_iff.mp hindex
      obtain ⟨-, rfl⟩ := Reader.pure_eq_ok h
      have hnat : ((v.toNat : ℕ) : ℤ) = v := Int.toNat_of_nonneg (by omega)
      refine ⟨hwire, by dsimp only; omega, by dsimp only; omega, ⟨many_i32_count hidx, ?_⟩,
        many_i32_count hids, hbelow⟩
      rw [hnat]
      exact hrowBelow
    · cases h
  · cases h

theorem held_of_read {q : WorkerReq}
    (h : readRequest nEmbd nLocal bs = .ok (q, rest)) :
    (∃ nUsed, HeldDispatch nEmbd nLocal nUsed q) ∨ HeldReduce nLocal q := by
  obtain ⟨first, mid, -, h⟩ := Reader.bind_eq_ok h
  obtain ⟨second, rest', -, h⟩ := Reader.bind_eq_ok h
  split_ifs at h
  · exact .inr (heldReduce (.inr rfl) h)
  · exact .inr (heldReduce (.inl rfl) h)
  · exact .inl ⟨_, heldDispatch h⟩

end Held

/-! ### What a request asks for -/

section Ask
variable (S : Scalars) (B : Backend) (nEmbd width : ℕ)
  (matvec : Weights → ℤ → List UInt32 → ℕ → UInt32) (q : WorkerReq)

def usedOf : ℕ :=
  match q.wire with
  | .v1 => slots q
  | .v2 | .v2f16 => 1

def tokensOf : ℕ :=
  match q.wire with
  | .v1 => q.nRows
  | .v2 | .v2f16 => q.nPairs

/-- The hidden rows of the dispatch: the tokens', or a copy for each pair. -/
def hiddenOf : Vec UInt32 :=
  match q.wire with
  | .v1 => ⟨nEmbd * q.nRows, word S q.wire q.rows⟩
  | .v2 | .v2f16 => ⟨nEmbd * q.nPairs, pairRows nEmbd (word S q.wire q.rows) q.rowIdx q.nPairs⟩

/-- The backend computes every chunk of a request. -/
def Answered : Prop :=
  Computed B nEmbd width (usedOf q) (tokensOf q) (hiddenOf S nEmbd q) q.ids

instance : Decidable (Answered S B nEmbd width q) :=
  inferInstanceAs (Decidable (Computed B nEmbd width (usedOf q) (tokensOf q) (hiddenOf S nEmbd q)
    q.ids))

def rowOf (r : ℕ) : List UInt32 := column nEmbd (word S q.wire q.rows) r

/-- What the request asks for in a place of a row: the outputs of the row's experts, each times its
weight, in the order of the pairs. -/
def weightedSum (r k : ℕ) : UInt32 :=
  ((List.range q.nPairs).filter fun i => q.rowIdx.getD i 0 = (r : ℤ)).foldl (fun acc i =>
    S.addMul acc (word S q.wire q.probs i)
      (expertAt B matvec (q.ids.getD i 0) (rowOf S nEmbd q r) k)) 0

/-- The scalars that a request asks for: on the first wire a row for each slot of each token, on the
others a row for each row. -/
def reference (x : ℕ) : ℕ :=
  match q.wire with
  | .v1 => (expertAt B matvec (q.ids.getD (x / nEmbd) 0) (rowOf S nEmbd q (x / nEmbd / slots q))
      (x % nEmbd)).toNat
  | .v2 => (weightedSum S B nEmbd matvec q (x / nEmbd) (x % nEmbd)).toNat
  | .v2f16 => (S.toF16 (weightedSum S B nEmbd matvec q (x / nEmbd) (x % nEmbd))).toNat

/-- The answer is what the request asks for, if the backend multiplies as a product does, or there
is none. -/
def Decided (nLocal : ℤ) {width : ℕ} (hwidth : 0 < width)
    (matvec : Weights → ℤ → List UInt32 → ℕ → UInt32) (q : WorkerReq) : Prop :=
  (Answered S B nEmbd width q ∧ ∃ out, evaluate S B nEmbd nLocal hwidth q = .ok (some out) ∧
    (IndirectProduct B nEmbd nLocal matvec →
      ∀ x < q.outWords nEmbd, out x = reference S B nEmbd matvec q x)) ∨
    (¬ Answered S B nEmbd width q ∧ evaluate S B nEmbd nLocal hwidth q = .ok none)

end Ask

section Evaluate
variable {S : Scalars} {B : Backend} {nEmbd : ℕ} {nLocal : ℤ} {width : ℕ} {q : WorkerReq}
  {matvec : Weights → ℤ → List UInt32 → ℕ → UInt32}

theorem size_fits (hint : nEmbd < 2 ^ 31) {w n : ℕ} (hw : w ≤ 4) (hn : n ≤ 2 ^ 20) :
    w * (nEmbd * n) < 2 ^ 64 := by
  calc w * (nEmbd * n) ≤ 4 * (2 ^ 31 * 2 ^ 20) :=
        Nat.mul_le_mul hw (Nat.mul_le_mul hint.le hn)
    _ < 2 ^ 64 := by decide

theorem HeldDispatch.slots_eq {nUsed : ℕ} (h : HeldDispatch nEmbd nLocal nUsed q) :
    slots q = nUsed := by
  unfold slots
  rw [h.pairs]
  exact Nat.mul_div_cancel _ h.tokens.1

theorem HeldDispatch.valid (hint : nEmbd < 2 ^ 31) {nUsed : ℕ}
    (h : HeldDispatch nEmbd nLocal nUsed q) :
    Valid nEmbd nLocal (usedOf q) (tokensOf q) (hiddenOf S nEmbd q) q.ids := by
  have husedOf : usedOf q = nUsed := by
    unfold usedOf
    rw [h.wire]
    exact h.slots_eq
  have htokensOf : tokensOf q = q.nRows := by
    unfold tokensOf
    rw [h.wire]
  have hused := h.used
  have htokens := h.tokens
  have hcount : nUsed * q.nRows ≤ 2 ^ 20 := by
    calc nUsed * q.nRows ≤ 64 * 8192 := Nat.mul_le_mul hused.2 htokens.2
      _ ≤ 2 ^ 20 := by decide
  rw [husedOf, htokensOf]
  refine ⟨?_, h.length, h.below, h.distinct, size_fits hint le_rfl hcount, by omega⟩
  unfold hiddenOf
  rw [h.wire]

theorem HeldReduce.valid (hint : nEmbd < 2 ^ 31) (h : HeldReduce nLocal q) :
    Valid nEmbd nLocal (usedOf q) (tokensOf q) (hiddenOf S nEmbd q) q.ids := by
  have husedOf : usedOf q = 1 := by
    unfold usedOf
    rcases h.wire with hw | hw <;> rw [hw]
  have htokensOf : tokensOf q = q.nPairs := by
    unfold tokensOf
    rcases h.wire with hw | hw <;> rw [hw]
  have hpairs := h.pairs
  rw [husedOf, htokensOf]
  refine ⟨?_, by rw [h.length, Nat.one_mul], h.below, rfl, size_fits hint le_rfl (by omega), by omega⟩
  unfold hiddenOf
  rcases h.wire with hw | hw <;> rw [hw]

theorem HeldDispatch.evaluate_eq (matvec : Weights → ℤ → List UInt32 → ℕ → UInt32)
    (hEmbd : 0 < nEmbd) (hint : nEmbd < 2 ^ 31) {nUsed : ℕ}
    (h : HeldDispatch nEmbd nLocal nUsed q) (hwidth : 0 < width) (hwint : width < 2 ^ 31) :
    Decided S B nEmbd nLocal hwidth matvec q := by
  have hvalid := h.valid (S := S) hint
  have htokens := h.tokens
  have hsize : elems 4 [(nEmbd : ℤ), (q.nRows : ℤ)] = .ok (nEmbd * q.nRows) :=
    elems_two (size_fits hint le_rfl (by omega))
  have heval : evaluate S B nEmbd nLocal hwidth q =
      (computeDispatch B nEmbd nLocal hwidth (usedOf q) (tokensOf q) (hiddenOf S nEmbd q)
        q.ids).map fun out => out.map fun v k => (v.get k).toNat := by
    unfold evaluate dispatch usedOf tokensOf hiddenOf
    rw [hsize, h.wire]
    rfl
  unfold Decided
  rw [heval]
  rcases computeDispatch_eq (B := B) hvalid hwidth hwint with
    ⟨hall, out, hout, -, hvalue⟩ | ⟨hnot, hnone⟩
  · rw [hout]
    refine Or.inl ⟨hall, _, rfl, ?_⟩
    intro hB x hx
    have hwords : q.outWords nEmbd = nEmbd * (usedOf q * tokensOf q) := by
      unfold WorkerReq.outWords usedOf tokensOf
      rw [h.wire, h.pairs, h.slots_eq]
    rw [hwords] at hx
    obtain ⟨t, ht, e, he, k, hk, rfl⟩ := place_split hx
    have hslot : ((t * usedOf q + e) * nEmbd + k) / nEmbd = t * usedOf q + e := by
      rw [Nat.mul_comm, Nat.mul_add_div hEmbd, Nat.div_eq_of_lt hk, Nat.add_zero]
    have hplace : ((t * usedOf q + e) * nEmbd + k) % nEmbd = k := by
      rw [Nat.mul_comm, Nat.mul_add_mod, Nat.mod_eq_of_lt hk]
    have husedOf : usedOf q = slots q := by
      unfold usedOf
      rw [h.wire]
    have htoken : (t * usedOf q + e) / slots q = t := by
      rw [husedOf] at he ⊢
      rw [Nat.mul_comm, Nat.mul_add_div (by omega), Nat.div_eq_of_lt he, Nat.add_zero]
    have hrow : column nEmbd (hiddenOf S nEmbd q).get t = rowOf S nEmbd q t := by
      unfold hiddenOf rowOf
      rw [h.wire]
    unfold reference
    rw [h.wire]
    dsimp only
    rw [hslot, hplace, htoken, hvalue _ hx, chunkedAt_eq hvalid hB hwidth ht he hk, hrow]
  · rw [hnone]
    exact Or.inr ⟨hnot, rfl⟩

theorem HeldReduce.hidden_eq (S : Scalars) (nEmbd : ℕ) (h : HeldReduce nLocal q) :
    usedOf q = 1 ∧ tokensOf q = q.nPairs ∧ hiddenOf S nEmbd q =
      ⟨nEmbd * q.nPairs, pairRows nEmbd (word S q.wire q.rows) q.rowIdx q.nPairs⟩ := by
  unfold usedOf tokensOf hiddenOf
  rcases h.wire with hw | hw
  · rw [hw]
    exact ⟨rfl, rfl, rfl⟩
  · rw [hw]
    exact ⟨rfl, rfl, rfl⟩

theorem HeldReduce.pair_column (hEmbd : 0 < nEmbd) (h : HeldReduce nLocal q) {i r : ℕ}
    (hi : i < q.nPairs) (hr : q.rowIdx.getD i 0 = (r : ℤ)) :
    column nEmbd (hiddenOf S nEmbd q).get i = rowOf S nEmbd q r := by
  obtain ⟨-, -, hhidden⟩ := h.hidden_eq S nEmbd
  rw [hhidden]
  apply List.map_congr_left
  intro k hk
  have hlt : k < nEmbd := List.mem_range.mp hk
  have hrow : (i * nEmbd + k) / nEmbd = i := by
    rw [Nat.mul_comm, Nat.mul_add_div hEmbd, Nat.div_eq_of_lt hlt, Nat.add_zero]
  have hplace : (i * nEmbd + k) % nEmbd = k := by
    rw [Nat.mul_comm, Nat.mul_add_mod, Nat.mod_eq_of_lt hlt]
  change pairRows nEmbd _ q.rowIdx q.nPairs (i * nEmbd + k) = _
  unfold pairRows
  rw [hrow, hplace, if_pos hi, hr, Int.toNat_natCast]

theorem HeldReduce.reduce_eq (matvec : Weights → ℤ → List UInt32 → ℕ → UInt32)
    (hEmbd : 0 < nEmbd) (hint : nEmbd < 2 ^ 31) (h : HeldReduce nLocal q)
    (hwidth : 0 < width) (hwint : width < 2 ^ 31) :
    (Answered S B nEmbd width q ∧ ∃ out, reduce S B nEmbd nLocal hwidth q = .ok (some out) ∧
      (IndirectProduct B nEmbd nLocal matvec → ∀ x,
        out.get x = weightedSum S B nEmbd matvec q (x / nEmbd) (x % nEmbd))) ∨
      (¬ Answered S B nEmbd width q ∧ reduce S B nEmbd nLocal hwidth q = .ok none) := by
  have hvalid := h.valid (S := S) hint
  have hrows := h.rows
  have hpairs := h.pairs
  obtain ⟨hused, htokens, hhidden⟩ := h.hidden_eq S nEmbd
  have hrowWords : elems 4 [(nEmbd : ℤ), (q.nRows : ℤ)] = .ok (nEmbd * q.nRows) :=
    elems_two (size_fits hint le_rfl (by omega))
  have hprobs : elems 4 [(q.nPairs : ℤ)] = .ok q.nPairs := elems_one (by omega)
  have hpairWords : elems 4 [(nEmbd : ℤ), (q.nPairs : ℤ)] = .ok (nEmbd * q.nPairs) :=
    elems_two (size_fits hint le_rfl (by omega))
  have hgather := gather_ok hEmbd h.named
    (show (⟨nEmbd * q.nRows, word S q.wire q.rows⟩ : Vec UInt32).size = _ from rfl)
  have hreduce : reduce S B nEmbd nLocal hwidth q =
      (computeDispatch B nEmbd nLocal hwidth (usedOf q) (tokensOf q) (hiddenOf S nEmbd q)
        q.ids).bind fun r => r.elim (.ok none) fun e => ((List.range q.nPairs).foldlM
          (addRow S nEmbd ⟨q.nPairs, word S q.wire q.probs⟩ e q.rowIdx)
          ⟨nEmbd * q.nRows, fun _ => 0⟩).map some := by
    unfold reduce
    rw [hrowWords, hprobs, hpairWords, hused, htokens, hhidden]
    change Except.bind ((List.range q.nPairs).foldlM _ _) _ = _
    rw [hgather]
    change Except.bind (computeDispatch B nEmbd nLocal hwidth 1 q.nPairs _ q.ids) _ = _
    congr 1
    funext r
    cases r with
    | none => rfl
    | some e => rfl
  rw [hreduce]
  rcases computeDispatch_eq (B := B) hvalid hwidth hwint with
    ⟨hall, e, he, hsize, hvalue⟩ | ⟨hnot, hnone⟩
  · rw [he]
    have hcount : usedOf q * tokensOf q = q.nPairs := by rw [hused, htokens, Nat.one_mul]
    rw [hcount] at hsize hvalue
    have hsum := sum_ok (S := S) hEmbd h.named
      (show (⟨q.nPairs, word S q.wire q.probs⟩ : Vec UInt32).size = _ from rfl) hsize
    refine .inl ⟨hall, _, congrArg (Except.map some) hsum, ?_⟩
    intro hB x
    unfold weightedSum
    change sumAt S nEmbd (word S q.wire q.probs) e.get q.rowIdx q.nPairs x = _
    unfold sumAt
    apply List.foldl_ext
    intro acc i hi
    obtain ⟨hmem, hrow⟩ := List.mem_filter.mp hi
    have hlt : i < q.nPairs := List.mem_range.mp hmem
    have hrow : q.rowIdx.getD i 0 = ((x / nEmbd : ℕ) : ℤ) := of_decide_eq_true hrow
    have hk : x % nEmbd < nEmbd := Nat.mod_lt x hEmbd
    have hin : i * nEmbd + x % nEmbd < nEmbd * q.nPairs := by
      calc i * nEmbd + x % nEmbd < i * nEmbd + nEmbd := Nat.add_lt_add_left hk _
        _ = nEmbd * (i + 1) := by ring
        _ ≤ nEmbd * q.nPairs := Nat.mul_le_mul_left _ hlt
    have hpair := chunkedAt_eq hvalid hB hwidth (t := i) (e := 0) (k := x % nEmbd)
      (by rw [htokens]; exact hlt) (by rw [hused]; exact Nat.one_pos) hk
    rw [hused, Nat.mul_one, Nat.add_zero, h.pair_column hEmbd hlt hrow] at hpair
    rw [hvalue _ hin, hused, hpair]
  · rw [hnone]
    exact .inr ⟨hnot, rfl⟩

theorem HeldReduce.evaluate_eq (matvec : Weights → ℤ → List UInt32 → ℕ → UInt32)
    (hEmbd : 0 < nEmbd) (hint : nEmbd < 2 ^ 31) (h : HeldReduce nLocal q)
    (hwidth : 0 < width) (hwint : width < 2 ^ 31) :
    Decided S B nEmbd nLocal hwidth matvec q := by
  have hrows := h.rows
  have hhalf : elems 2 [(nEmbd : ℤ), (q.nRows : ℤ)] = .ok (nEmbd * q.nRows) :=
    elems_two (size_fits hint (by omega) (by omega))
  have heval : ∀ out, reduce S B nEmbd nLocal hwidth q = .ok out →
      evaluate S B nEmbd nLocal hwidth q = .ok (out.map fun v k =>
        match q.wire with
        | .v1 | .v2 => (v.get k).toNat
        | .v2f16 => (S.toF16 (v.get k)).toNat) := by
    intro out hout
    unfold evaluate
    rw [hout, hhalf]
    rcases h.wire with hw | hw
    · rw [hw]
      rfl
    · rw [hw]
      rfl
  rcases h.reduce_eq (S := S) (B := B) matvec hEmbd hint hwidth hwint with
    ⟨hall, out, hout, hvalue⟩ | ⟨hnot, hnone⟩
  · refine Or.inl ⟨hall, _, heval _ hout, ?_⟩
    intro hB x _
    unfold reference
    rcases h.wire with hw | hw
    · rw [hw]
      exact congrArg UInt32.toNat (hvalue hB x)
    · rw [hw]
      exact congrArg (fun y => (S.toF16 y).toNat) (hvalue hB x)
  · exact Or.inr ⟨hnot, heval _ hnone⟩

end Evaluate

/-! ### The connection -/

section Connection
variable {nEmbd : ℕ} {nLocal : ℤ}

/-- A reader whose failures close the connection. -/
def closing {α : Type} (r : Reader Drop α) : Reader Stop α := fun bs => (r bs).mapError .close

variable {α : Type}

theorem closing_bind {β : Type} (r : Reader Drop α) (f : α → Reader Drop β) :
    closing (r >>= f) = closing r >>= fun a => closing (f a) := by
  funext bs
  simp only [closing, bind, StateT.bind, Except.bind]
  cases r bs with
  | error d => rfl
  | ok x => rfl

theorem closing_pure (a : α) : closing (pure a : Reader Drop α) = pure a := rfl

theorem closing_throw (d : Drop) :
    closing (throw d : Reader Drop α) = throw (.close d) := rfl

theorem closing_ite {c : Prop} [Decidable c] (r s : Reader Drop α) :
    closing (if c then r else s) = if c then closing r else closing s := by
  split_ifs
  · rfl
  · rfl

theorem closing_take (n : ℕ) :
    closing (Reader.take Drop.short n) = Reader.take (Stop.close .short) n := by
  funext bs
  unfold closing Reader.take
  split_ifs
  · rfl
  · rfl

theorem closing_i32 : closing (Reader.i32 Drop.short) = Reader.i32 (Stop.close .short) := by
  unfold Reader.i32
  rw [closing_bind, closing_take]
  rfl

theorem closing_many (r : Reader Drop α) (n : ℕ) :
    closing (Reader.many r n) = Reader.many (closing r) n := by
  induction n with
  | zero => rfl
  | succ n ih =>
    unfold Reader.many
    rw [closing_bind]
    congr 1
    funext a
    rw [closing_bind, ih]
    rfl

theorem alloc_eq {width n : ℕ} {dims : List ℤ} (h : elems width dims = .ok n) :
    alloc width dims = pure n := by
  funext bs
  unfold alloc
  rw [h]
  rfl

theorem recvReduce_eq (hint : nEmbd < 2 ^ 31) (wire : Wire) (v : ℤ) :
    recvReduce nEmbd nLocal wire v = closing (readReduce nEmbd nLocal wire v) := by
  unfold recvReduce readReduce
  rw [closing_bind, closing_i32]
  congr 1
  funext n
  rw [closing_ite, closing_throw]
  split_ifs with hrange
  · obtain ⟨hv, hn⟩ := Bool.and_eq_true_iff.mp hrange
    rw [inRange_iff] at hv hn
    unfold maxReqRows at hv
    unfold maxReqPairs maxReqRows at hn
    have hwire : wire.width ≤ 4 := by
      cases wire with
      | v1 | v2 | v2f16 => decide
    have hvNat : ((v.toNat : ℕ) : ℤ) = v := Int.toNat_of_nonneg (by omega)
    have hnNat : ((n.toNat : ℕ) : ℤ) = n := Int.toNat_of_nonneg (by omega)
    have hrows : elems wire.width [(nEmbd : ℤ), v] = .ok (nEmbd * v.toNat) := by
      rw [← hvNat, Int.toNat_natCast]
      exact elems_two (size_fits hint hwire (by omega))
    have hcount : ∀ w ≤ 4, elems w [n] = .ok n.toNat := by
      intro w hw
      rw [← hnNat, Int.toNat_natCast]
      apply elems_one
      calc w * n.toNat ≤ 4 * 65536 := Nat.mul_le_mul hw (by omega)
        _ < 2 ^ 64 := by decide
    rw [alloc_eq hrows, alloc_eq (hcount _ hwire), alloc_eq (hcount 4 le_rfl)]
    simp only [pure_bind, closing_bind, closing_take, closing_many, closing_i32, closing_ite,
      closing_pure, closing_throw, Nat.mul_assoc]
  · rfl

theorem recvDispatch_eq (hint : nEmbd < 2 ^ 31) (u v : ℤ) :
    recvDispatch nEmbd nLocal u v = closing (readDispatch nEmbd nLocal u v) := by
  unfold recvDispatch readDispatch
  rw [closing_ite, closing_throw]
  split_ifs with hrange
  · obtain ⟨hu, hv⟩ := Bool.and_eq_true_iff.mp hrange
    rw [inRange_iff] at hu hv
    unfold maxReqExperts at hu
    unfold maxReqTokens at hv
    have huNat : ((u.toNat : ℕ) : ℤ) = u := Int.toNat_of_nonneg (by omega)
    have hvNat : ((v.toNat : ℕ) : ℤ) = v := Int.toNat_of_nonneg (by omega)
    have hrows : elems 4 [(nEmbd : ℤ), v] = .ok (nEmbd * v.toNat) := by
      rw [← hvNat, Int.toNat_natCast]
      exact elems_two (size_fits hint le_rfl (by omega))
    have hids : elems 4 [u, v] = .ok (u.toNat * v.toNat) := by
      rw [← huNat, ← hvNat, Int.toNat_natCast, Int.toNat_natCast]
      exact elems_two (size_fits (by omega) le_rfl (by omega))
    rw [alloc_eq hrows, alloc_eq hids]
    simp only [pure_bind, closing_bind, closing_take, closing_many, closing_i32, closing_ite,
      closing_pure, closing_throw, Nat.mul_assoc]
  · rfl

theorem recvRequest_eq (hint : nEmbd < 2 ^ 31) :
    recvRequest nEmbd nLocal = closing (readRequest nEmbd nLocal) := by
  unfold recvRequest readRequest
  simp only [closing_bind, closing_i32, closing_ite, recvReduce_eq hint, recvDispatch_eq hint]

variable {S : Scalars} {B : Backend} {width : ℕ}
  {matvec : Weights → ℤ → List UInt32 → ℕ → UInt32}

theorem evaluate_held (matvec : Weights → ℤ → List UInt32 → ℕ → UInt32)
    (hEmbd : 0 < nEmbd) (hint : nEmbd < 2 ^ 31) (hwidth : 0 < width)
    (hwint : width < 2 ^ 31) {bs rest : Bytes} {q : WorkerReq}
    (h : readRequest nEmbd nLocal bs = .ok (q, rest)) :
    Decided S B nEmbd nLocal hwidth matvec q := by
  rcases held_of_read h with ⟨nUsed, hheld⟩ | hheld
  · exact hheld.evaluate_eq matvec hEmbd hint hwidth hwint
  · exact hheld.evaluate_eq matvec hEmbd hint hwidth hwint

theorem reply_congr {q : WorkerReq} {f g : ℕ → ℕ} (h : ∀ x < q.outWords nEmbd, f x = g x) :
    q.reply nEmbd f = q.reply nEmbd g := by
  unfold WorkerReq.reply
  apply List.flatMap_congr
  intro x hx
  rw [h x (List.mem_range.mp hx)]

theorem serve_turn (matvec : Weights → ℤ → List UInt32 → ℕ → UInt32)
    (hEmbd : 0 < nEmbd) (hint : nEmbd < 2 ^ 31) (hwidth : 0 < width)
    (hwint : width < 2 ^ 31) (fuel : ℕ) (bs : Bytes) :
    ((∃ d, readRequest nEmbd nLocal bs = .error d) ∧
        serve S B nEmbd nLocal hwidth (fuel + 1) bs = .ok ([], [], bs)) ∨
      ∃ q rest, readRequest nEmbd nLocal bs = .ok (q, rest) ∧
        ((¬ Answered S B nEmbd width q ∧
            serve S B nEmbd nLocal hwidth (fuel + 1) bs = .ok ([q], [], rest)) ∨
          (Answered S B nEmbd width q ∧ ∃ out,
            (IndirectProduct B nEmbd nLocal matvec →
              ∀ x < q.outWords nEmbd, out x = reference S B nEmbd matvec q x) ∧
            serve S B nEmbd nLocal hwidth (fuel + 1) bs =
              (serve S B nEmbd nLocal hwidth fuel rest).map fun x =>
                (q :: x.1, q.reply nEmbd out ++ x.2.1, x.2.2))) := by
  have hrecv : recvRequest nEmbd nLocal bs = (readRequest nEmbd nLocal bs).mapError .close :=
    congrFun (recvRequest_eq hint) bs
  cases hread : readRequest nEmbd nLocal bs with
  | error d =>
    rw [hread] at hrecv
    refine .inl ⟨⟨d, rfl⟩, ?_⟩
    unfold serve
    rw [hrecv]
    rfl
  | ok x =>
    obtain ⟨q, rest⟩ := x
    rw [hread] at hrecv
    refine .inr ⟨q, rest, rfl, ?_⟩
    rcases evaluate_held (S := S) (B := B) matvec hEmbd hint hwidth hwint hread with
      ⟨hall, out, hout, hvalue⟩ | ⟨hnot, hnone⟩
    · refine .inr ⟨hall, out, hvalue, ?_⟩
      rw [serve, hrecv]
      change Except.bind (evaluate S B nEmbd nLocal hwidth q) _ = _
      rw [hout]
      rfl
    · refine .inl ⟨hnot, ?_⟩
      rw [serve, hrecv]
      change Except.bind (evaluate S B nEmbd nLocal hwidth q) _ = _
      rw [hnone]
      rfl

theorem serve_safe (hEmbd : 0 < nEmbd) (hint : nEmbd < 2 ^ 31) (hwidth : 0 < width)
    (hwint : width < 2 ^ 31) (fuel : ℕ) (bs : Bytes) :
    ∃ served, serve S B nEmbd nLocal hwidth fuel bs = .ok served := by
  induction fuel generalizing bs with
  | zero => exact ⟨_, rfl⟩
  | succ fuel ih =>
    rcases serve_turn (S := S) (B := B) (fun _ _ _ _ => 0) hEmbd hint hwidth hwint fuel bs
      with ⟨-, hend⟩ | ⟨q, rest, -, ⟨-, hend⟩ | ⟨-, out, -, hnext⟩⟩
    · exact ⟨_, hend⟩
    · exact ⟨_, hend⟩
    · obtain ⟨served, hserved⟩ := ih rest
      rw [hnext, hserved]
      exact ⟨_, rfl⟩

theorem serve_eq (hEmbd : 0 < nEmbd) (hint : nEmbd < 2 ^ 31) (hwidth : 0 < width)
    (hwint : width < 2 ^ 31) (hB : IndirectProduct B nEmbd nLocal matvec) (fuel : ℕ) (bs : Bytes) :
    serve S B nEmbd nLocal hwidth fuel bs =
      .ok (handleConn nEmbd nLocal (fun q =>
        if Answered S B nEmbd width q then some (reference S B nEmbd matvec q) else none) fuel bs) := by
  induction fuel generalizing bs with
  | zero => rfl
  | succ fuel ih =>
    unfold handleConn
    rcases serve_turn (S := S) (B := B) matvec hEmbd hint hwidth hwint fuel bs with
      ⟨⟨d, hread⟩, hend⟩ | ⟨q, rest, hread, ⟨hnot, hend⟩ | ⟨hall, out, hvalue, hnext⟩⟩
    · rw [hread, hend]
    · rw [hread, hend]
      dsimp only
      rw [if_neg hnot]
    · rw [hread, hnext, ih rest]
      dsimp only
      have hreply := reply_congr (hvalue hB)
      rw [if_pos hall, hreply]
      rfl

end Connection

section Main
variable (S : Scalars) (B : Backend) {nEmbd : ℕ} (nLocal : ℤ) {width : ℕ}

/-- The expert worker on a hostile stream. Whatever the backend does, no buffer size is negative or
too large and no index is out of bounds. On a backend whose indirect product is the documented one,
each answer is what its request asks for, and the chunks of a dispatch make the output of one block
on all of its tokens. -/
theorem hostile_input (hEmbd : 0 < nEmbd) (hint : nEmbd < 2 ^ 31) (hwidth : 0 < width)
    (hwint : width < 2 ^ 31) :
    (∀ fuel bs, ∃ served, serve S B nEmbd nLocal hwidth fuel bs = .ok served) ∧
      ∀ matvec, IndirectProduct B nEmbd nLocal matvec →
        (∀ fuel bs, serve S B nEmbd nLocal hwidth fuel bs =
          .ok (handleConn nEmbd nLocal (fun q =>
            if Answered S B nEmbd width q then some (reference S B nEmbd matvec q) else none)
            fuel bs)) ∧
        ∀ nUsed nTokens cur sel, Valid nEmbd nLocal nUsed nTokens cur sel →
          ∃ chunks block,
            computeDispatch B nEmbd nLocal hwidth nUsed nTokens cur sel = .ok chunks ∧
            computeBlock B nEmbd nLocal nUsed nTokens cur 0 sel 0 = .ok block ∧
            ∀ out ∈ chunks, ∀ whole ∈ block,
              out.size = whole.size ∧ ∀ x < out.size, out.get x = whole.get x := by
  refine ⟨serve_safe hEmbd hint hwidth hwint, ?_⟩
  intro matvec hB
  refine ⟨serve_eq hEmbd hint hwidth hwint hB, ?_⟩
  intro nUsed nTokens cur sel hvalid
  have hblock := computeBlock_eq (B := B) hvalid (by omega : 0 + nTokens ≤ nTokens)
  rw [Nat.zero_mul, Nat.zero_mul] at hblock
  obtain ⟨chunks, hchunks⟩ : ∃ chunks,
      computeDispatch B nEmbd nLocal hwidth nUsed nTokens cur sel = .ok chunks := by
    rcases computeDispatch_eq (B := B) hvalid hwidth hwint with ⟨-, out, hout, -⟩ | ⟨-, hnone⟩
    · exact ⟨_, hout⟩
    · exact ⟨_, hnone⟩
  refine ⟨chunks, _, hchunks, hblock, ?_⟩
  intro out hout whole hwhole
  obtain rfl : chunks = some out := hout
  exact dispatch_eq_block hvalid hB hwidth hwint hchunks (hblock.trans (congrArg Except.ok hwhole))

end Main

/-- A layer of width one whose experts pass a row on. -/
def passBackend : Backend where
  nFf := 1
  mulMatId w nCols nUsed _ b _ k :=
    match w with
    | .up | .gate | .down => b (k / nUsed * nCols + k % nUsed % nCols)
  swiglu g _ := g
  computes _ _ _ _ := true

theorem passBackend_product :
    IndirectProduct passBackend 1 1 fun _ _ x r => x.getD r 0 := by
  intro w nCols nUsed nTokens b ids _ _ _ _ t _ e he r hr
  have hrows : w.rows passBackend 1 = 1 := by cases w <;> rfl
  have hcols : w.cols passBackend 1 = 1 := by cases w <;> rfl
  rw [hrows] at hr ⊢
  obtain rfl : r = 0 := by omega
  rw [hcols, Nat.mul_one, Nat.add_zero]
  have hpass : passBackend.mulMatId w nCols nUsed nTokens b ids (t * nUsed + e) =
      b ((t * nUsed + e) / nUsed * nCols + (t * nUsed + e) % nUsed % nCols) := by
    cases w <;> rfl
  have htoken : (t * nUsed + e) / nUsed = t := by
    rw [Nat.mul_comm, Nat.mul_add_div (by omega), Nat.div_eq_of_lt he, Nat.add_zero]
  have hslot : (t * nUsed + e) % nUsed = e := by
    rw [Nat.mul_comm, Nat.mul_add_mod, Nat.mod_eq_of_lt he]
  rw [hpass, htoken, hslot]
  unfold column
  rw [List.range_one, List.map_singleton, Nat.mul_one, Nat.add_zero]
  rfl

theorem hostile_input_one :
    serve ⟨fun y _ _ => y, fun _ => 0, fun _ => 0⟩ passBackend 1 1 Nat.one_pos 2
        (i32Bytes 1 ++ i32Bytes 1 ++ [0, 0, 128, 63] ++ i32Bytes 0 ++ [1, 2]) =
      .ok ([⟨.v1, 1, 1, [0, 0, 128, 63], [], [0], []⟩], [0, 0, 128, 63], [1, 2]) := by
  have hmain := @hostile_input ⟨fun y _ _ => y, fun _ => 0, fun _ => 0⟩ passBackend 1 1 1 Nat.one_pos
    (by decide) Nat.one_pos (by decide)
  exact ((hmain.2 _ passBackend_product).1 2 _).trans (by decide +kernel)

end KvasirNet.ExpertWorker
