import KvasirNet.MoeReduce
import KvasirNet.ByteFormat

/-! The request of a router and the loop of a worker, byte for byte. The router
expands tokens to pairs on the first wire and sends unique rows on the two
reducing ones; the worker caps tokens, rows and pairs and closes the connection
on anything else. -/
namespace KvasirNet.Moe

inductive Wire
  | v1
  | v2
  | v2f16
  deriving DecidableEq, Repr

/-- The bytes of a scalar: hidden rows, weights and results. -/
def Wire.width : Wire → ℕ
  | v1 | v2 => 4
  | v2f16 => 2

/-- The bits of a hidden row, a scalar for each place. -/
abbrev Row := ℕ → UInt32

section Router
variable (toF16 : UInt32 → UInt16) (nEmbd : ℕ)

def Wire.scalar (wire : Wire) (x : UInt32) : Bytes :=
  match wire with
  | .v1 | .v2 => leBytes 4 x.toNat
  | .v2f16 => leBytes 2 (toF16 x).toNat

def Wire.row (wire : Wire) (row : Row) : Bytes :=
  (List.range nEmbd).flatMap fun k => wire.scalar toF16 (row k)

/-- What `ep_dispatch` sends. -/
def dispatchBytes (q : SubReq Row) : Bytes :=
  i32Bytes 1 ++ (i32Bytes q.idx.length ++ (q.rows.flatMap (Wire.v1.row toF16 nEmbd) ++
    q.ids.flatMap i32Bytes))

/-- What `ep_reduce` sends. -/
def reduceBytes (wire : Wire) (kind : ℤ) (q : ReduceReq UInt32 Row) : Bytes :=
  i32Bytes kind ++ (i32Bytes q.toks.length ++ (i32Bytes q.idx.length ++
    (q.rows.flatMap (wire.row toF16 nEmbd) ++ ((q.rowIdx.flatMap fun (k : ℕ) => i32Bytes k) ++
      (q.ids.flatMap i32Bytes ++ q.probs.flatMap (wire.scalar toF16))))))

end Router

/-! ## The worker -/

def maxReqExperts : ℤ := 64
def maxReqTokens : ℤ := 8192
def maxReqRows : ℤ := 8192
def maxReqPairs : ℤ := maxReqRows * 8

inductive Drop
  | short
  | caps
  | index
  | duplicate
  deriving DecidableEq, Repr

/-- A request as the worker holds it; on the first wire a row is a token. -/
structure WorkerReq where
  wire : Wire
  nRows : ℕ
  nPairs : ℕ
  rows : Bytes
  rowIdx : List ℤ
  ids : List ℤ
  probs : Bytes
  deriving DecidableEq, Repr

def inRange (v lo hi : ℤ) : Bool := decide (lo ≤ v) && decide (v ≤ hi)

def allIndicesBelow (v : List ℤ) (limit : ℤ) : Bool :=
  v.all fun x => decide (0 ≤ x) && decide (x < limit)

def noDuplicateExperts (sel : List ℤ) (nUsed nTokens : ℕ) : Bool :=
  if nUsed < 2 then true
  else (List.range nTokens).all fun t => decide ((sel.drop (t * nUsed)).take nUsed).Nodup

section Worker
variable (nEmbd : ℕ) (nLocal : ℤ)

def readReduce (wire : Wire) (nRows : ℤ) : Reader Drop WorkerReq := do
  let nPairs ← Reader.i32 .short
  if inRange nRows 1 maxReqRows && inRange nPairs 1 maxReqPairs then do
    let rows ← Reader.take .short (wire.width * nEmbd * nRows.toNat)
    let rowIdx ← Reader.many (Reader.i32 .short) nPairs.toNat
    let ids ← Reader.many (Reader.i32 .short) nPairs.toNat
    let probs ← Reader.take .short (wire.width * nPairs.toNat)
    if allIndicesBelow rowIdx nRows && allIndicesBelow ids nLocal then
      pure ⟨wire, nRows.toNat, nPairs.toNat, rows, rowIdx, ids, probs⟩
    else throw .index
  else throw .caps

def readDispatch (nUsed nTokens : ℤ) : Reader Drop WorkerReq :=
  if inRange nUsed 1 maxReqExperts && inRange nTokens 1 maxReqTokens then do
    let rows ← Reader.take .short (4 * nEmbd * nTokens.toNat)
    let sel ← Reader.many (Reader.i32 .short) (nUsed.toNat * nTokens.toNat)
    if allIndicesBelow sel nLocal then
      if noDuplicateExperts sel nUsed.toNat nTokens.toNat then
        pure ⟨.v1, nTokens.toNat, nUsed.toNat * nTokens.toNat, rows, [], sel, []⟩
      else throw .duplicate
    else throw .index
  else throw .caps

/-- The first word of the header says the wire. -/
def readRequest : Reader Drop WorkerReq := do
  let first ← Reader.i32 .short
  let second ← Reader.i32 .short
  if first = -3 then readReduce nEmbd nLocal .v2f16 second
  else if first = -2 then readReduce nEmbd nLocal .v2 second
  else readDispatch nEmbd nLocal first second

/-- The scalars of a result: a row for each pair, or a sum for each row. -/
def WorkerReq.outWords (q : WorkerReq) : ℕ :=
  match q.wire with
  | .v1 => nEmbd * q.nPairs
  | .v2 | .v2f16 => nEmbd * q.nRows

def WorkerReq.reply (q : WorkerReq) (out : ℕ → ℕ) : Bytes :=
  (List.range (q.outWords nEmbd)).flatMap fun k => leBytes q.wire.width (out k)

/-- The loop on one connection: the requests served, the bytes sent and what is
unread when it ends. `compute` is the result of a request, if the backend gives
one. -/
def handleConn (compute : WorkerReq → Option (ℕ → ℕ)) :
    ℕ → Bytes → List WorkerReq × Bytes × Bytes
  | 0, bs => ([], [], bs)
  | fuel + 1, bs =>
    match readRequest nEmbd nLocal bs with
    | .error _ => ([], [], bs)
    | .ok (q, rest) =>
      match compute q with
      | none => ([q], [], rest)
      | some out =>
        let x := handleConn compute fuel rest
        (q :: x.1, q.reply nEmbd out ++ x.2.1, x.2.2)

end Worker

/-! ## Requests of a router -/

/-- A request to a worker: it asks for at least one pair, all of them experts of
the worker's range, and counts them in an `int`. -/
structure Sent (w : Endpoint) where
  wire : Wire
  r : Routing UInt32 Row
  idx : List ℕ
  asks : idx ≠ []
  covered : ∀ p ∈ idx, w.covers (r.sel p) = true
  int : idx.length < 2 ^ 31

namespace Sent
variable {w : Endpoint} (toF16 : UInt32 → UInt16) (nEmbd : ℕ)

def nRows (q : Sent w) : ℕ := (fillReduce q.r w.expertBegin q.idx).toks.length

def bytes (q : Sent w) : Bytes :=
  match q.wire with
  | .v1 => dispatchBytes toF16 nEmbd (fillSub q.r w.expertBegin q.idx)
  | .v2 => reduceBytes toF16 nEmbd .v2 (-2) (fillReduce q.r w.expertBegin q.idx)
  | .v2f16 => reduceBytes toF16 nEmbd .v2f16 (-3) (fillReduce q.r w.expertBegin q.idx)

def recvBytes (q : Sent w) : ℕ :=
  match q.wire with
  | .v1 => nEmbd * q.idx.length * 4
  | .v2 => nEmbd * q.nRows * 4
  | .v2f16 => nEmbd * q.nRows * 2

def withinCaps (q : Sent w) : Prop :=
  match q.wire with
  | .v1 => (q.idx.length : ℤ) ≤ maxReqTokens
  | .v2 | .v2f16 => (q.nRows : ℤ) ≤ maxReqRows ∧ (q.idx.length : ℤ) ≤ maxReqPairs

end Sent

/-! ## Lengths -/

section Lengths
variable {toF16 : UInt32 → UInt16} {nEmbd : ℕ}

theorem length_flatMap_const {α : Type*} {write : α → Bytes} {n : ℕ} (h : ∀ x, (write x).length = n)
    (items : List α) : (items.flatMap write).length = n * items.length := by
  induction items with
  | nil => rfl
  | cons x items ih =>
    rw [List.flatMap_cons, List.length_append, h, ih, List.length_cons, Nat.mul_succ, Nat.add_comm]

theorem length_scalar (wire : Wire) (x : UInt32) : (wire.scalar toF16 x).length = wire.width := by
  cases wire with
  | v1 | v2 | v2f16 => exact length_leBytes _ _

theorem length_row (wire : Wire) (row : Row) :
    (wire.row toF16 nEmbd row).length = wire.width * nEmbd := by
  rw [Wire.row, length_flatMap_const (fun k => length_scalar wire (row k)), List.length_range]

theorem length_reply (q : WorkerReq) (out : ℕ → ℕ) :
    (q.reply nEmbd out).length = q.wire.width * q.outWords nEmbd := by
  rw [WorkerReq.reply, length_flatMap_const (fun k => length_leBytes _ _), List.length_range]

end Lengths

theorem gather_rows (toks : List ℕ) :
    (gather toks).rowIdx.length = toks.length ∧ (gather toks).toks.length ≤ toks.length ∧
      ∀ k ∈ (gather toks).rowIdx, k < (gather toks).toks.length := by
  have hpoints := gather_points toks
  refine ⟨?_, ?_, fun k hk => ?_⟩
  · simpa using congrArg List.length hpoints.row
  · have hfold (g : Gather) (toks : List ℕ) :
        (toks.foldl Gather.add g).toks.length ≤ g.toks.length + toks.length := by
      induction toks generalizing g with
      | nil => exact Nat.le_add_right _ _
      | cons tok toks ih =>
        have hadd : (g.add tok).toks.length ≤ g.toks.length + 1 := by
          unfold Gather.add
          split_ifs <;> simp
        have hrest := ih (g.add tok)
        rw [List.foldl_cons, List.length_cons]
        omega
    have hall := hfold ⟨[], fun _ => 0, []⟩ toks
    rwa [List.length_nil, Nat.zero_add] at hall
  · have hmem : (gather toks).toks[k]? ∈ toks.map some := by
      rw [← hpoints.row]
      exact List.mem_map_of_mem hk
    obtain ⟨tok, -, htok⟩ := List.mem_map.mp hmem
    exact (List.getElem?_eq_some_iff.mp htok.symm).1

theorem gather_pos {toks : List ℕ} (h : toks ≠ []) : 1 ≤ (gather toks).toks.length := by
  obtain ⟨hlen, -, hlt⟩ := gather_rows toks
  have hne : (gather toks).rowIdx ≠ [] := by
    rw [ne_eq, ← List.length_eq_zero_iff, hlen]
    simpa using h
  obtain ⟨k, hk⟩ := List.exists_mem_of_ne_nil _ hne
  have hk' := hlt k hk
  omega

/-! ## One request -/

section Accept
variable {toF16 : UInt32 → UInt16} {nEmbd : ℕ} {nLocal : ℤ} {w : Endpoint}

theorem take_of_length {xs rest : Bytes} {n : ℕ} (h : xs.length = n) :
    Reader.take Drop.short n (xs ++ rest) = .ok (xs, rest) := by
  subst h
  exact Reader.take_append _ xs rest

theorem many_i32 {ids : List ℤ} {n : ℕ} (hn : ids.length = n)
    (h : ∀ x ∈ ids, 0 ≤ x ∧ x < 2 ^ 31) (rest : Bytes) :
    Reader.many (Reader.i32 Drop.short) n (ids.flatMap i32Bytes ++ rest) = .ok (ids, rest) := by
  subst hn
  have hone : ∀ x ∈ ids, ∀ rest, Reader.i32 Drop.short (i32Bytes x ++ rest) = .ok (id x, rest) := by
    intro x hx rest
    obtain ⟨hlo, hhi⟩ := h x hx
    exact Reader.i32_append _ ⟨by omega, hhi⟩ rest
  have hread := Reader.many_append hone rest
  rwa [List.map_id] at hread

theorem allIndicesBelow_of {v : List ℤ} {limit : ℤ} (h : ∀ x ∈ v, 0 ≤ x ∧ x < limit) :
    allIndicesBelow v limit = true := by
  apply List.all_eq_true.mpr
  intro x hx
  simpa using h x hx

theorem inRange_iff {v lo hi : ℤ} : inRange v lo hi = true ↔ lo ≤ v ∧ v ≤ hi := by
  simp [inRange]

theorem local_ids {r : Routing UInt32 Row} {idx : List ℕ}
    (hcovered : ∀ p ∈ idx, w.covers (r.sel p) = true)
    (hshard : w.expertEnd - w.expertBegin ≤ nLocal) :
    ∀ x ∈ idx.map (fun p => r.sel p - w.expertBegin), 0 ≤ x ∧ x < nLocal := by
  intro x hx
  obtain ⟨p, hp, rfl⟩ := List.mem_map.mp hx
  have hc := hcovered p hp
  simp only [Endpoint.covers, Bool.and_eq_true, decide_eq_true_eq] at hc
  omega

theorem readDispatch_sent {rows : Bytes} {ids : List ℤ} {n : ℕ} (hn : 1 ≤ n)
    (hrows : rows.length = 4 * nEmbd * n) (hlen : ids.length = n)
    (hids : ∀ x ∈ ids, 0 ≤ x ∧ x < nLocal) (hlocal : nLocal < 2 ^ 31) (rest : Bytes) :
    readDispatch nEmbd nLocal 1 n (rows ++ (ids.flatMap i32Bytes ++ rest)) =
      if (n : ℤ) ≤ maxReqTokens then .ok (⟨.v1, n, n, rows, [], ids, []⟩, rest)
      else .error .caps := by
  have hword : ∀ x ∈ ids, 0 ≤ x ∧ x < 2 ^ 31 := fun x hx =>
    ⟨(hids x hx).1, (hids x hx).2.trans hlocal⟩
  unfold readDispatch
  by_cases hcap : (n : ℤ) ≤ maxReqTokens
  · have hrange : (inRange 1 1 maxReqExperts && inRange n 1 maxReqTokens) = true := by
      rw [Bool.and_eq_true, inRange_iff, inRange_iff]
      exact ⟨by decide, by exact_mod_cast hn, hcap⟩
    have hcount : (1 : ℤ).toNat * (n : ℤ).toNat = n := by simp
    have hdup : noDuplicateExperts ids (1 : ℤ).toNat (n : ℤ).toNat = true := rfl
    rw [Int.toNat_natCast] at hcount hdup
    rw [if_pos hrange, if_pos hcap, Int.toNat_natCast, Reader.bind_of_ok (take_of_length hrows)]
    rw [hcount, Reader.bind_of_ok (many_i32 hlen hword rest), if_pos (allIndicesBelow_of hids),
      if_pos hdup]
    rfl
  · have hrange : ¬ (inRange 1 1 maxReqExperts && inRange n 1 maxReqTokens) = true := by
      rw [Bool.and_eq_true, inRange_iff, inRange_iff]
      exact fun h => hcap h.2.2
    rw [if_neg hrange, if_neg hcap]
    rfl

theorem readReduce_sent {wire : Wire} {rows probs : Bytes} {rowIdx ids : List ℤ} {m n : ℕ}
    (hm : 1 ≤ m) (hn : 1 ≤ n) (hmint : m < 2 ^ 31) (hnint : n < 2 ^ 31)
    (hrows : rows.length = wire.width * nEmbd * m) (hrowLen : rowIdx.length = n)
    (hidLen : ids.length = n) (hprobs : probs.length = wire.width * n)
    (hrowIdx : ∀ x ∈ rowIdx, 0 ≤ x ∧ x < (m : ℤ))
    (hids : ∀ x ∈ ids, 0 ≤ x ∧ x < nLocal) (hlocal : nLocal < 2 ^ 31) (rest : Bytes) :
    readReduce nEmbd nLocal wire m (i32Bytes n ++ (rows ++ (rowIdx.flatMap i32Bytes ++
      (ids.flatMap i32Bytes ++ (probs ++ rest))))) =
      if (m : ℤ) ≤ maxReqRows ∧ (n : ℤ) ≤ maxReqPairs then
        .ok (⟨wire, m, n, rows, rowIdx, ids, probs⟩, rest)
      else .error .caps := by
  have hcountWord : -2 ^ 31 ≤ (n : ℤ) ∧ (n : ℤ) < 2 ^ 31 := by omega
  have hrowWord : ∀ x ∈ rowIdx, 0 ≤ x ∧ x < 2 ^ 31 := fun x hx =>
    ⟨(hrowIdx x hx).1, (hrowIdx x hx).2.trans (by exact_mod_cast hmint)⟩
  have hidWord : ∀ x ∈ ids, 0 ≤ x ∧ x < 2 ^ 31 := fun x hx =>
    ⟨(hids x hx).1, (hids x hx).2.trans hlocal⟩
  unfold readReduce
  rw [Reader.bind_of_ok (Reader.i32_append _ hcountWord _)]
  by_cases hcap : (m : ℤ) ≤ maxReqRows ∧ (n : ℤ) ≤ maxReqPairs
  · have hrange : (inRange m 1 maxReqRows && inRange n 1 maxReqPairs) = true := by
      rw [Bool.and_eq_true, inRange_iff, inRange_iff]
      exact ⟨⟨by exact_mod_cast hm, hcap.1⟩, by exact_mod_cast hn, hcap.2⟩
    have hindex : (allIndicesBelow rowIdx m && allIndicesBelow ids nLocal) = true := by
      rw [Bool.and_eq_true]
      exact ⟨allIndicesBelow_of hrowIdx, allIndicesBelow_of hids⟩
    rw [if_pos hrange, if_pos hcap, Int.toNat_natCast, Int.toNat_natCast,
      Reader.bind_of_ok (take_of_length hrows), Reader.bind_of_ok (many_i32 hrowLen hrowWord _),
      Reader.bind_of_ok (many_i32 hidLen hidWord _), Reader.bind_of_ok (take_of_length hprobs),
      if_pos hindex]
    rfl
  · have hrange : ¬ (inRange m 1 maxReqRows && inRange n 1 maxReqPairs) = true := by
      rw [Bool.and_eq_true, inRange_iff, inRange_iff]
      exact fun h => hcap ⟨h.1.2, h.2.2⟩
    rw [if_neg hrange, if_neg hcap]
    rfl

/-- What the worker holds once a request is read. -/
def Sent.held (toF16 : UInt32 → UInt16) (nEmbd : ℕ) (q : Sent w) : WorkerReq :=
  let d := fillSub q.r w.expertBegin q.idx
  let g := fillReduce q.r w.expertBegin q.idx
  match q.wire with
  | .v1 => ⟨.v1, q.idx.length, q.idx.length, d.rows.flatMap (Wire.v1.row toF16 nEmbd), [], d.ids, []⟩
  | wire => ⟨wire, q.nRows, q.idx.length, g.rows.flatMap (wire.row toF16 nEmbd),
      g.rowIdx.map fun (k : ℕ) => (k : ℤ), g.ids, g.probs.flatMap (wire.scalar toF16)⟩

theorem Sent.one_le (q : Sent w) : 1 ≤ q.idx.length :=
  List.length_pos_of_ne_nil q.asks

theorem readRequest_dispatch (q : Sent w) (hshard : w.expertEnd - w.expertBegin ≤ nLocal)
    (hlocal : nLocal < 2 ^ 31) (rest : Bytes) :
    readRequest nEmbd nLocal
        (dispatchBytes toF16 nEmbd (fillSub q.r w.expertBegin q.idx) ++ rest) =
      if (q.idx.length : ℤ) ≤ maxReqTokens then
        .ok (⟨.v1, q.idx.length, q.idx.length,
          (fillSub q.r w.expertBegin q.idx).rows.flatMap (Wire.v1.row toF16 nEmbd), [],
          (fillSub q.r w.expertBegin q.idx).ids, []⟩, rest)
      else .error .caps := by
  have hone := q.one_le
  have hint := q.int
  have hword : -2 ^ 31 ≤ (q.idx.length : ℤ) ∧ (q.idx.length : ℤ) < 2 ^ 31 := by omega
  have hrows : ((fillSub q.r w.expertBegin q.idx).rows.flatMap (Wire.v1.row toF16 nEmbd)).length =
      4 * nEmbd * q.idx.length := by
    rw [length_flatMap_const (length_row Wire.v1), fillSub, List.length_map]
    rfl
  have hids : (fillSub q.r w.expertBegin q.idx).ids.length = q.idx.length := List.length_map _
  have hcount : (fillSub q.r w.expertBegin q.idx).idx.length = q.idx.length := rfl
  simp only [dispatchBytes, List.append_assoc, hcount]
  unfold readRequest
  rw [Reader.bind_of_ok (Reader.i32_append _ (by decide) _),
    Reader.bind_of_ok (Reader.i32_append _ hword _), if_neg (by decide), if_neg (by decide)]
  exact readDispatch_sent hone hrows hids (local_ids q.covered hshard) hlocal rest

theorem readRequest_reduce (q : Sent w) (hshard : w.expertEnd - w.expertBegin ≤ nLocal)
    (hlocal : nLocal < 2 ^ 31) {wire : Wire} {kind : ℤ}
    (hkind : wire = .v2 ∧ kind = -2 ∨ wire = .v2f16 ∧ kind = -3) (rest : Bytes) :
    readRequest nEmbd nLocal
        (reduceBytes toF16 nEmbd wire kind (fillReduce q.r w.expertBegin q.idx) ++ rest) =
      if (q.nRows : ℤ) ≤ maxReqRows ∧ (q.idx.length : ℤ) ≤ maxReqPairs then
        .ok (⟨wire, q.nRows, q.idx.length,
          (fillReduce q.r w.expertBegin q.idx).rows.flatMap (wire.row toF16 nEmbd),
          (fillReduce q.r w.expertBegin q.idx).rowIdx.map fun (k : ℕ) => (k : ℤ),
          (fillReduce q.r w.expertBegin q.idx).ids,
          (fillReduce q.r w.expertBegin q.idx).probs.flatMap (wire.scalar toF16)⟩, rest)
      else .error .caps := by
  have htoks : q.idx.map q.r.token ≠ [] := by simpa using q.asks
  obtain ⟨hrowLen, hfew, hbelow⟩ := gather_rows (q.idx.map q.r.token)
  rw [List.length_map] at hrowLen hfew
  have hm : 1 ≤ q.nRows := gather_pos htoks
  have hint := q.int
  have hmint : q.nRows < 2 ^ 31 := lt_of_le_of_lt hfew q.int
  have hword : -2 ^ 31 ≤ (q.nRows : ℤ) ∧ (q.nRows : ℤ) < 2 ^ 31 := by omega
  have hrows : ((fillReduce q.r w.expertBegin q.idx).rows.flatMap (wire.row toF16 nEmbd)).length =
      wire.width * nEmbd * q.nRows := by
    rw [length_flatMap_const (length_row wire), fillReduce, List.length_map]
    rfl
  have hprobs : ((fillReduce q.r w.expertBegin q.idx).probs.flatMap (wire.scalar toF16)).length =
      wire.width * q.idx.length := by
    rw [length_flatMap_const (length_scalar wire), fillReduce, List.length_map]
  have hids : (fillReduce q.r w.expertBegin q.idx).ids.length = q.idx.length := List.length_map _
  have hidx : ((fillReduce q.r w.expertBegin q.idx).rowIdx.map fun (k : ℕ) => (k : ℤ)).length =
      q.idx.length := by
    rw [List.length_map]
    exact hrowLen
  have hrange : ∀ x ∈ (fillReduce q.r w.expertBegin q.idx).rowIdx.map fun (k : ℕ) => (k : ℤ),
      0 ≤ x ∧ x < (q.nRows : ℤ) := by
    intro x hx
    obtain ⟨k, hk, rfl⟩ := List.mem_map.mp hx
    have hlt : k < q.nRows := hbelow k hk
    omega
  -- the row indices are written as they are kept, a natural number each
  have hwritten : ((fillReduce q.r w.expertBegin q.idx).rowIdx.flatMap fun (k : ℕ) => i32Bytes k) =
      ((fillReduce q.r w.expertBegin q.idx).rowIdx.map fun (k : ℕ) => (k : ℤ)).flatMap i32Bytes :=
    (List.flatMap_map _ _ _).symm
  have hcount : (fillReduce q.r w.expertBegin q.idx).idx.length = q.idx.length := rfl
  have htok : (fillReduce q.r w.expertBegin q.idx).toks.length = q.nRows := rfl
  have hread := readReduce_sent hm q.one_le hmint hint hrows hidx hids hprobs hrange
    (local_ids q.covered hshard) hlocal rest
  simp only [reduceBytes, List.append_assoc, hwritten, hcount, htok]
  unfold readRequest
  obtain ⟨rfl, rfl⟩ | ⟨rfl, rfl⟩ := hkind
  · rw [Reader.bind_of_ok (Reader.i32_append _ (by decide) _),
      Reader.bind_of_ok (Reader.i32_append _ hword _), if_neg (by decide), if_pos rfl]
    exact hread
  · rw [Reader.bind_of_ok (Reader.i32_append _ (by decide) _),
      Reader.bind_of_ok (Reader.i32_append _ hword _), if_pos rfl]
    exact hread

theorem readRequest_sent (q : Sent w) (hshard : w.expertEnd - w.expertBegin ≤ nLocal)
    (hlocal : nLocal < 2 ^ 31) (rest : Bytes) :
    (q.withinCaps →
      readRequest nEmbd nLocal (q.bytes toF16 nEmbd ++ rest) = .ok (q.held toF16 nEmbd, rest)) ∧
    (¬ q.withinCaps →
      readRequest nEmbd nLocal (q.bytes toF16 nEmbd ++ rest) = .error .caps) := by
  unfold Sent.bytes Sent.withinCaps Sent.held
  cases q.wire with
  | v1 =>
    dsimp only
    rw [readRequest_dispatch q hshard hlocal rest]
    exact ⟨fun h => if_pos h, fun h => if_neg h⟩
  | v2 =>
    dsimp only
    rw [readRequest_reduce q hshard hlocal (Or.inl ⟨rfl, rfl⟩) rest]
    exact ⟨fun h => if_pos h, fun h => if_neg h⟩
  | v2f16 =>
    dsimp only
    rw [readRequest_reduce q hshard hlocal (Or.inr ⟨rfl, rfl⟩) rest]
    exact ⟨fun h => if_pos h, fun h => if_neg h⟩

theorem length_answer (q : Sent w) (out : ℕ → ℕ) :
    ((q.held toF16 nEmbd).reply nEmbd out).length = q.recvBytes nEmbd := by
  rw [length_reply]
  unfold Sent.held Sent.recvBytes WorkerReq.outWords
  cases q.wire with
  | v1 | v2 | v2f16 => exact Nat.mul_comm _ _

/-! ## A connection -/

theorem handleConn_sent (hshard : w.expertEnd - w.expertBegin ≤ nLocal) (hlocal : nLocal < 2 ^ 31)
    (compute : WorkerReq → ℕ → ℕ) (qs : List (Sent w)) (hcaps : ∀ q ∈ qs, q.withinCaps)
    {fuel : ℕ} (hfuel : qs.length < fuel) :
    handleConn nEmbd nLocal (fun q => some (compute q)) fuel (qs.flatMap (Sent.bytes toF16 nEmbd)) =
      (qs.map (Sent.held toF16 nEmbd),
        qs.flatMap fun q => (q.held toF16 nEmbd).reply nEmbd (compute (q.held toF16 nEmbd)), []) := by
  induction qs generalizing fuel with
  | nil =>
    cases fuel with
    | zero => rfl
    | succ fuel => rfl
  | cons q qs ih =>
    obtain ⟨fuel, rfl⟩ : ∃ k, fuel = k + 1 := ⟨fuel - 1, by simp at hfuel; omega⟩
    have hread : readRequest nEmbd nLocal
        (q.bytes toF16 nEmbd ++ qs.flatMap (Sent.bytes toF16 nEmbd)) =
        .ok (q.held toF16 nEmbd, qs.flatMap (Sent.bytes toF16 nEmbd)) :=
      (readRequest_sent q hshard hlocal _).1 (hcaps q List.mem_cons_self)
    have hrest := ih (fun x hx => hcaps x (List.mem_cons_of_mem q hx)) (Nat.lt_of_succ_lt_succ hfuel)
    rw [List.flatMap_cons, handleConn, hread]
    dsimp only
    rw [hrest]
    rfl

theorem assign_sent {r : Routing UInt32 Row} {done taken : ℕ → Bool} {i : ℕ} {eps : List Endpoint}
    {sub : ℕ × Endpoint × List ℕ} (hsub : sub ∈ assign r done i taken eps)
    (hint : r.nPairs < 2 ^ 31) (wire : Wire) :
    ∃ q : Sent sub.2.1, q.wire = wire ∧ q.r = r ∧ q.idx = sub.2.2 := by
  have hasks := ((assign_asks done taken i eps).1 sub hsub).1
  have hfew : sub.2.2.length ≤ r.nPairs := by
    have hsubset : sub.2.2 ⊆ List.range r.nPairs := fun p hp =>
      List.mem_range.mpr (hasks.isOpen p hp).1
    have hcard := (List.subperm_of_subset hasks.once hsubset).length_le
    rwa [List.length_range] at hcard
  exact ⟨⟨wire, r, sub.2.2, hasks.some, hasks.covers, lt_of_le_of_lt hfew hint⟩, rfl, rfl, rfl⟩

end Accept

/-- What the router asks of an endpoint is read whole by a worker whose shard has
the endpoint's range, if and only if it is within the worker's caps, and then the
answer is as long as the router waits for. On a connection that only carries
such requests every one is served and no byte is left over. -/
theorem request_accepted_iff_caps (toF16 : UInt32 → UInt16) (nEmbd : ℕ) (nLocal : ℤ) (w : Endpoint)
    (hshard : w.expertEnd - w.expertBegin ≤ nLocal) (hlocal : nLocal < 2 ^ 31) :
    (∀ (r : Routing UInt32 Row) (done taken : ℕ → Bool) (i j : ℕ) (eps : List Endpoint) (idx : List ℕ),
      (j, w, idx) ∈ assign r done i taken eps → r.nPairs < 2 ^ 31 → ∀ wire,
        ∃ q : Sent w, q.wire = wire ∧ q.r = r ∧ q.idx = idx) ∧
    (∀ (q : Sent w) (rest : Bytes),
      ((∃ held, readRequest nEmbd nLocal (q.bytes toF16 nEmbd ++ rest) = .ok (held, rest)) ↔
        q.withinCaps) ∧
      ∀ held left, readRequest nEmbd nLocal (q.bytes toF16 nEmbd ++ rest) = .ok (held, left) →
        left = rest ∧ ∀ out, (held.reply nEmbd out).length = q.recvBytes nEmbd) ∧
    (∀ (compute : WorkerReq → ℕ → ℕ) (qs : List (Sent w)), (∀ q ∈ qs, q.withinCaps) →
      ∀ fuel, qs.length < fuel → ∃ replies : List Bytes,
        replies.map List.length = qs.map (Sent.recvBytes nEmbd) ∧
        handleConn nEmbd nLocal (fun q => some (compute q)) fuel
            (qs.flatMap (Sent.bytes toF16 nEmbd)) =
          (qs.map (Sent.held toF16 nEmbd), replies.flatten, [])) := by
  refine ⟨fun r done taken i j eps idx hsub hint wire => assign_sent hsub hint wire,
    fun q rest => ?_, fun compute qs hcaps fuel hfuel => ?_⟩
  · by_cases hcaps : q.withinCaps
    · have hok : readRequest nEmbd nLocal (q.bytes toF16 nEmbd ++ rest) =
          .ok (q.held toF16 nEmbd, rest) := (readRequest_sent q hshard hlocal rest).1 hcaps
      rw [hok]
      refine ⟨⟨fun _ => hcaps, fun _ => ⟨_, rfl⟩⟩, fun held left h => ?_⟩
      obtain ⟨rfl, rfl⟩ := Prod.mk.inj (Except.ok.inj h)
      exact ⟨rfl, length_answer q⟩
    · have herr : readRequest nEmbd nLocal (q.bytes toF16 nEmbd ++ rest) = .error .caps :=
        (readRequest_sent q hshard hlocal rest).2 hcaps
      rw [herr]
      exact ⟨⟨fun ⟨held, h⟩ => (nomatch h), fun h => absurd h hcaps⟩, fun held left h => (nomatch h)⟩
  · refine ⟨qs.map fun q => (q.held toF16 nEmbd).reply nEmbd (compute (q.held toF16 nEmbd)), ?_, ?_⟩
    · rw [List.map_map]
      exact List.map_congr_left fun q _ => length_answer q _
    · rw [handleConn_sent hshard hlocal compute qs hcaps hfuel, List.flatMap_def]

/-- A worker of eight experts, and a prompt whose every slot is one of them. -/
def octet : Endpoint := ⟨0, 8, 5, false⟩

def prompt (nTokens : ℕ) : Routing UInt32 Row :=
  ⟨8, nTokens, fun _ _ => 0, fun p => (p : ℤ) % 8, fun _ => 0⟩

theorem octet_covers (p : ℕ) (nTokens : ℕ) : octet.covers ((prompt nTokens).sel p) = true := by
  have hlo : (0 : ℤ) ≤ (p : ℤ) % 8 := by omega
  have hhi : (p : ℤ) % 8 < 8 := by omega
  simp [Endpoint.covers, octet, prompt, hlo, hhi]

/-- The whole prompt, asked of the worker at once. -/
def wholePrompt (wire : Wire) (nTokens : ℕ) (h : 0 < nTokens ∧ nTokens < 2 ^ 28) : Sent octet where
  wire := wire
  r := prompt nTokens
  idx := List.range (8 * nTokens)
  asks := by
    rw [ne_eq, List.range_eq_nil]
    omega
  covered := fun p _ => octet_covers p nTokens
  int := by
    rw [List.length_range]
    omega

theorem wholePrompt_withinCaps {nTokens : ℕ} (h : 0 < nTokens ∧ nTokens < 2 ^ 28) :
    (wholePrompt .v1 nTokens h).withinCaps ↔ 8 * nTokens ≤ 8192 := by
  have hlen : (wholePrompt .v1 nTokens h).idx.length = 8 * nTokens := List.length_range
  have hcaps : (wholePrompt .v1 nTokens h).withinCaps ↔
      ((wholePrompt .v1 nTokens h).idx.length : ℤ) ≤ 8192 := Iff.rfl
  rw [hcaps, hlen]
  omega

theorem assign_wholePrompt (wire : Wire) {nTokens : ℕ} (h : 0 < nTokens ∧ nTokens < 2 ^ 28) :
    (0, octet, (wholePrompt wire nTokens h).idx) ∈
      assign (prompt nTokens) (fun _ => false) 0 (fun _ => false) [octet] := by
  have hclaimed : claimed (prompt nTokens) (fun _ => false) (fun _ => false) octet =
      (wholePrompt wire nTokens h).idx := by
    apply List.filter_eq_self.mpr
    intro p _
    rw [octet_covers]
    rfl
  have hlive : octet.live = true := rfl
  rw [assign, if_pos hlive, hclaimed]
  dsimp only
  rw [if_neg (wholePrompt wire nTokens h).asks]
  exact List.mem_cons_self

theorem request_accepted_iff_caps_prompt :
    ∃ held, readRequest 2 8 ((wholePrompt .v1 3 (by decide)).bytes (fun _ => 0) 2 ++ [7]) =
      .ok (held, [7]) := by
  have hall := request_accepted_iff_caps (fun _ => 0) 2 8 octet (by decide) (by decide)
  have hcaps : (wholePrompt .v1 3 (by decide)).withinCaps :=
    (wholePrompt_withinCaps _).mpr (by decide)
  exact (hall.2.1 _ [7]).1.mpr hcaps

/-- 2048 tokens of eight experts each, asked of one live worker that has the
eight: the first wire counts 16384 tokens, and the worker closes. -/
theorem long_prompt_refused :
    (0, octet, (wholePrompt .v1 2048 (by decide)).idx) ∈
        assign (prompt 2048) (fun _ => false) 0 (fun _ => false) [octet] ∧
      ∀ rest, readRequest 2 8
        ((wholePrompt .v1 2048 (by decide)).bytes (fun _ => 0) 2 ++ rest) = .error .caps := by
  refine ⟨assign_wholePrompt .v1 (by decide), fun rest => ?_⟩
  have hcaps : ¬ (wholePrompt .v1 2048 (by decide)).withinCaps := by
    rw [wholePrompt_withinCaps]
    decide
  exact (readRequest_sent _ (by decide) (by decide) rest).2 hcaps

end KvasirNet.Moe
