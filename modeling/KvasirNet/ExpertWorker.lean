import KvasirNet.CheckedBuffers
import KvasirNet.MoeWire

/-! The expert worker on a connection, with every size and index that it computes from what it
reads. Scalars are the bits that travel; their arithmetic is the machine's. -/
namespace KvasirNet.ExpertWorker

open KvasirNet.Moe KvasirNet.Checked

/-- The machine's arithmetic on the bits of a `float`; `addMul y p x` is what `y += p * x` leaves,
whether the compiler contracts it or not. -/
structure Scalars where
  addMul : UInt32 → UInt32 → UInt32 → UInt32
  toF16 : UInt32 → UInt16
  ofF16 : UInt16 → UInt32

inductive Weights
  | up
  | gate
  | down
  deriving DecidableEq, Repr

/-- What is used of the backend: `ggml_mul_mat_id` of the layer's experts with so many columns for
each token and so many ids for each token, the activation, and whether a graph on the given hidden
rows and ids is allocated and computed. -/
structure Backend where
  nFf : ℕ
  mulMatId : Weights → (nCols nUsed nTokens : ℕ) → (ℕ → UInt32) → List ℤ → ℕ → UInt32
  swiglu : UInt32 → UInt32 → UInt32
  computes : (nUsed nTokens : ℕ) → (ℕ → UInt32) → List ℤ → Bool

/-- The graph of `compute_block`. -/
def Backend.graph (B : Backend) (nUsed nTokens : ℕ) (h : ℕ → UInt32) (ids : List ℤ) : ℕ → UInt32 :=
  let up := B.mulMatId .up 1 nUsed nTokens h ids
  let gate := B.mulMatId .gate 1 nUsed nTokens h ids
  let act := fun k => B.swiglu (gate k) (up k)
  B.mulMatId .down nUsed nUsed nTokens act ids

inductive Stop
  | close (d : Drop)
  | fault (f : Violation)
  deriving DecidableEq, Repr

section Model
variable (S : Scalars) (B : Backend) (nEmbd : ℕ) (nLocal : ℤ)

/-! ### The backend -/

/-- `compute_block` on tokens and ids from an offset on. An id outside the shard would index past
the expert tensors, and an id twice in a token is what the CUDA path asserts against. -/
def computeBlock (nUsed nTokens : ℕ) (cur : Vec UInt32) (curAt : ℕ) (sel : List ℤ) (selAt : ℕ) :
    Except Violation (Option (Vec UInt32)) :=
  if curAt + nEmbd * nTokens ≤ cur.size ∧ selAt + nUsed * nTokens ≤ sel.length then
    let ids := (sel.drop selAt).take (nUsed * nTokens)
    if allIndicesBelow ids nLocal then
      if noDuplicateExperts ids nUsed nTokens then do
        let n ← elems 4 [(nEmbd : ℤ), (nUsed : ℤ), (nTokens : ℤ)]
        let h := fun k => cur.get (curAt + k)
        pure (if B.computes nUsed nTokens h ids then some ⟨n, B.graph nUsed nTokens h ids⟩ else none)
      else .error .forbidden
    else .error .outside
  else .error .outside

/-- The loop of `compute_dispatch` from the token `t0` on. -/
def dispatchFrom {width : ℕ} (hwidth : 0 < width) (nUsed nTokens : ℕ) (cur : Vec UInt32)
    (sel : List ℤ) (t0 : ℕ) (out : Vec UInt32) : Except Violation (Option (Vec UInt32)) :=
  if _h : t0 < nTokens then
    (computeBlock B nEmbd nLocal nUsed (min width (nTokens - t0)) cur (t0 * nEmbd) sel
      (t0 * nUsed)).bind fun
      | none => .ok none
      | some block => (out.copy (t0 * nUsed * nEmbd) block 0 block.size).bind fun out =>
        -- the loop variable is an `int`
        if t0 + width < 2 ^ 31 then
          dispatchFrom hwidth nUsed nTokens cur sel (t0 + width) out
        else .error .overflow
  else .ok (some out)
termination_by nTokens - t0

def computeDispatch {width : ℕ} (hwidth : 0 < width) (nUsed nTokens : ℕ) (cur : Vec UInt32)
    (sel : List ℤ) : Except Violation (Option (Vec UInt32)) := do
  let n ← elems 4 [(nEmbd : ℤ), (nUsed : ℤ), (nTokens : ℤ)]
  dispatchFrom B nEmbd nLocal hwidth nUsed nTokens cur sel 0 ⟨n, fun _ => 0⟩

/-! ### One request -/

/-- The scalar at a place of what was received. -/
def word (wire : Wire) (bs : Bytes) (k : ℕ) : UInt32 :=
  match wire with
  | .v1 | .v2 => UInt32.ofNat (leValue ((bs.drop (4 * k)).take 4))
  | .v2f16 => S.ofF16 (UInt16.ofNat (leValue ((bs.drop (2 * k)).take 2)))

def gatherRow (rows : Vec UInt32) (rowIdx : List ℤ) (h : Vec UInt32) (i : ℕ) :
    Except Violation (Vec UInt32) := do
  let r ← item rowIdx i
  h.copy (i * nEmbd) rows (r * nEmbd) nEmbd

/-- A pair's weighted output, added to its row. -/
def addRow (probs e : Vec UInt32) (rowIdx : List ℤ) (out : Vec UInt32) (i : ℕ) :
    Except Violation (Vec UInt32) := do
  let r ← item rowIdx i
  let p ← probs.read i
  (List.range nEmbd).foldlM (fun out k => do
    let x ← e.read ((i * nEmbd + k : ℕ) : ℤ)
    out.modify (r * nEmbd + k) fun y => S.addMul y p x) out

def reduce {width : ℕ} (hwidth : 0 < width) (q : WorkerReq) :
    Except Violation (Option (Vec UInt32)) := do
  let nRowWords ← elems 4 [(nEmbd : ℤ), (q.nRows : ℤ)]
  let nProbs ← elems 4 [(q.nPairs : ℤ)]
  let nPairWords ← elems 4 [(nEmbd : ℤ), (q.nPairs : ℤ)]
  let rows : Vec UInt32 := ⟨nRowWords, word S q.wire q.rows⟩
  let probs : Vec UInt32 := ⟨nProbs, word S q.wire q.probs⟩
  let h ← (List.range q.nPairs).foldlM (gatherRow nEmbd rows q.rowIdx) ⟨nPairWords, fun _ => 0⟩
  match ← computeDispatch B nEmbd nLocal hwidth 1 q.nPairs h q.ids with
  | none => pure none
  | some e => do
    let out ← (List.range q.nPairs).foldlM (addRow S nEmbd probs e q.rowIdx)
      ⟨nRowWords, fun _ => 0⟩
    pure (some out)

/-- The first wire, whose rows are tokens with so many slots each. -/
def slots (q : WorkerReq) : ℕ := q.nPairs / q.nRows

def dispatch {width : ℕ} (hwidth : 0 < width) (q : WorkerReq) :
    Except Violation (Option (Vec UInt32)) := do
  let nWords ← elems 4 [(nEmbd : ℤ), (q.nRows : ℤ)]
  computeDispatch B nEmbd nLocal hwidth (slots q) q.nRows ⟨nWords, word S q.wire q.rows⟩ q.ids

/-- The scalars of the response, as they are sent. -/
def evaluate {width : ℕ} (hwidth : 0 < width) (q : WorkerReq) : Except Violation (Option (ℕ → ℕ)) :=
  match q.wire with
  | .v1 => do
    let out ← dispatch S B nEmbd nLocal hwidth q
    pure (out.map fun v k => (v.get k).toNat)
  | .v2 => do
    let out ← reduce S B nEmbd nLocal hwidth q
    pure (out.map fun v k => (v.get k).toNat)
  | .v2f16 => do
    let out ← reduce S B nEmbd nLocal hwidth q
    let _ ← elems 2 [(nEmbd : ℤ), (q.nRows : ℤ)]
    pure (out.map fun v k => (S.toF16 (v.get k)).toNat)

/-! ### The connection -/

/-- A buffer that is sized before it is received. -/
def alloc (width : ℕ) (dims : List ℤ) : Reader Stop ℕ := fun bs =>
  match elems width dims with
  | .ok n => .ok (n, bs)
  | .error f => .error (.fault f)

def recvReduce (wire : Wire) (nRows : ℤ) : Reader Stop WorkerReq := do
  let nPairs ← Reader.i32 (.close .short)
  if inRange nRows 1 maxReqRows && inRange nPairs 1 maxReqPairs then do
    let nRowWords ← alloc wire.width [(nEmbd : ℤ), nRows]
    let nProbs ← alloc wire.width [nPairs]
    let nIds ← alloc 4 [nPairs]
    let rows ← Reader.take (.close .short) (wire.width * nRowWords)
    let rowIdx ← Reader.many (Reader.i32 (.close .short)) nIds
    let ids ← Reader.many (Reader.i32 (.close .short)) nIds
    let probs ← Reader.take (.close .short) (wire.width * nProbs)
    if allIndicesBelow rowIdx nRows && allIndicesBelow ids nLocal then
      pure ⟨wire, nRows.toNat, nPairs.toNat, rows, rowIdx, ids, probs⟩
    else throw (.close .index)
  else throw (.close .caps)

def recvDispatch (nUsed nTokens : ℤ) : Reader Stop WorkerReq :=
  if inRange nUsed 1 maxReqExperts && inRange nTokens 1 maxReqTokens then do
    let nWords ← alloc 4 [(nEmbd : ℤ), nTokens]
    let nIds ← alloc 4 [nUsed, nTokens]
    let rows ← Reader.take (.close .short) (4 * nWords)
    let sel ← Reader.many (Reader.i32 (.close .short)) nIds
    if allIndicesBelow sel nLocal then
      if noDuplicateExperts sel nUsed.toNat nTokens.toNat then
        pure ⟨.v1, nTokens.toNat, nUsed.toNat * nTokens.toNat, rows, [], sel, []⟩
      else throw (.close .duplicate)
    else throw (.close .index)
  else throw (.close .caps)

def recvRequest : Reader Stop WorkerReq := do
  let first ← Reader.i32 (.close .short)
  let second ← Reader.i32 (.close .short)
  if first = -3 then recvReduce nEmbd nLocal .v2f16 second
  else if first = -2 then recvReduce nEmbd nLocal .v2 second
  else recvDispatch nEmbd nLocal first second

/-- `handle_conn`: the requests served, the bytes sent and what is unread when it ends; or what it
must not do. -/
def serve {width : ℕ} (hwidth : 0 < width) : ℕ → Bytes → Except Violation (List WorkerReq × Bytes × Bytes)
  | 0, bs => .ok ([], [], bs)
  | fuel + 1, bs =>
    match recvRequest nEmbd nLocal bs with
    | .error (.close _) => .ok ([], [], bs)
    | .error (.fault f) => .error f
    | .ok (q, rest) => do
      match ← evaluate S B nEmbd nLocal hwidth q with
      | none => pure ([q], [], rest)
      | some out => do
        let x ← serve hwidth fuel rest
        pure (q :: x.1, q.reply nEmbd out ++ x.2.1, x.2.2)

end Model

end KvasirNet.ExpertWorker
