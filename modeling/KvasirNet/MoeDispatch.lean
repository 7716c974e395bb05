import KvasirNet.ScatterSum
import Mathlib.Algebra.Module.Defs
import Mathlib.Algebra.BigOperators.Intervals

/-! The dispatch of a mixture-of-experts layer. A (token, slot) pair is computed
by the local slice when its expert is hot, else by the first live worker whose
range has the expert; what failed goes to the next round, and what nobody
answered is computed locally. Rows are exact: `FFN` maps a hidden row to an
element of a module over the router's weights. -/
namespace KvasirNet.Moe

variable {R H M : Type*} [Semiring R] [AddCommMonoid M] [Module R M]

/-- What the graph hands over: pair `p = t * nUsed + u` is slot `u` of token `t`. -/
structure Routing (R H : Type*) where
  nUsed : ℕ
  nTokens : ℕ
  cur : ℕ → H
  sel : ℕ → ℤ
  probs : ℕ → R

def Routing.nPairs (r : Routing R H) : ℕ := r.nUsed * r.nTokens

def Routing.token (r : Routing R H) (p : ℕ) : ℕ := p / r.nUsed

structure Endpoint where
  expertBegin : ℤ
  expertEnd : ℤ
  fd : ℤ
  dead : Bool
  deriving DecidableEq, Repr

def Endpoint.live (w : Endpoint) : Bool := !w.dead && decide (0 ≤ w.fd)

def Endpoint.covers (w : Endpoint) (e : ℤ) : Bool :=
  decide (w.expertBegin ≤ e) && decide (e < w.expertEnd)

def Endpoint.bury (w : Endpoint) : Endpoint := { w with dead := true, fd := -1 }

/-- The experts a local slice has tensors for. -/
structure Slice where
  nExpert : ℤ
  deriving DecidableEq, Repr

def Slice.holds (s : Slice) (e : ℤ) : Bool := decide (0 ≤ e) && decide (e < s.nExpert)

/-- `compute_experts` on one row: an id that the slice does not hold gives zero. -/
def Slice.compute (s : Slice) (ffn : ℤ → H → M) (e : ℤ) (row : H) : M :=
  if s.holds e then ffn e row else 0

/-- A worker that answers computes the experts of its range, whose local ids count
from the range's beginning. -/
def ServesRange (remote : Endpoint → ℤ → H → M) (ffn : ℤ → H → M) : Prop :=
  ∀ w e row, w.covers e = true → remote w (e - w.expertBegin) row = ffn e row

/-! ## The per-expert wire -/

structure SubReq (H : Type*) where
  idx : List ℕ
  rows : List H
  ids : List ℤ

/-- A hidden row for each pair; ids are relative to `base`, zero for the slice. -/
def fillSub (r : Routing R H) (base : ℤ) (idx : List ℕ) : SubReq H where
  idx := idx
  rows := idx.map fun p => r.cur (r.token p)
  ids := idx.map fun p => r.sel p - base

def SubReq.answer (f : ℤ → H → M) (q : SubReq H) : List M := List.zipWith f q.ids q.rows

def scatterSub (q : SubReq H) (rows : List M) (expertsOut : ℕ → M) : ℕ → M :=
  (q.idx.zip rows).foldl (fun out e => Function.update out e.1 e.2) expertsOut

/-- One request of the v1 wire, answered and scattered. -/
def serveDispatch (r : Routing R H) (base : ℤ) (f : ℤ → H → M) (idx : List ℕ) (out : ℕ → M) :
    ℕ → M :=
  let q := fillSub r base idx
  scatterSub q (q.answer f) out

/-! ## The reducing wire -/

structure ReduceReq (R H : Type*) where
  idx : List ℕ
  /-- Unique tokens in the order they are first seen. -/
  toks : List ℕ
  rows : List H
  rowIdx : List ℕ
  ids : List ℤ
  probs : List R

/-- The rows gathered so far; `tokSlot` is a token's place in them plus one. -/
structure Gather where
  toks : List ℕ
  tokSlot : ℕ → ℕ
  rowIdx : List ℕ

def Gather.add (g : Gather) (tok : ℕ) : Gather :=
  let g' := if g.tokSlot tok = 0 then
      { g with toks := g.toks ++ [tok], tokSlot := Function.update g.tokSlot tok (g.toks.length + 1) }
    else g
  { g' with rowIdx := g'.rowIdx ++ [g'.tokSlot tok - 1] }

def gather (toks : List ℕ) : Gather := toks.foldl Gather.add ⟨[], fun _ => 0, []⟩

def fillReduce (r : Routing R H) (base : ℤ) (idx : List ℕ) : ReduceReq R H :=
  let g := gather (idx.map r.token)
  { idx := idx, toks := g.toks, rows := g.toks.map r.cur, rowIdx := g.rowIdx
    ids := idx.map fun p => r.sel p - base, probs := idx.map r.probs }

/-- The weighted expert rows of a request, each with the row it is added to. -/
def ReduceReq.work (f : ℤ → H → M) (q : ReduceReq R H) : List (ℕ × M) :=
  (q.rowIdx.zip (q.ids.zip q.probs)).map fun e =>
    (e.1, (q.rows[e.1]?).elim 0 fun row => e.2.2 • f e.2.1 row)

/-- The answer: a weighted partial sum for each row. -/
def ReduceReq.answer (f : ℤ → H → M) (q : ReduceReq R H) : List M :=
  let out := scatterAdd (fun _ => 0) (q.work f)
  (List.range q.rows.length).map out

def accumulate (q : ReduceReq R H) (sums : List M) (reducedOut : ℕ → M) : ℕ → M :=
  scatterAdd reducedOut (q.toks.zip sums)

/-- One request of the v2 wire, answered and accumulated. -/
def serveReduce (r : Routing R H) (base : ℤ) (f : ℤ → H → M) (idx : List ℕ) (out : ℕ → M) :
    ℕ → M :=
  let q := fillReduce r base idx
  accumulate q (q.answer f) out

/-! ## The callback -/

/-- Which pairs are computed, how many are not, and the output. -/
structure Progress (α : Type*) where
  done : ℕ → Bool
  remaining : ℕ
  out : α

def Progress.markOne {α : Type*} (c : Progress α) (p : ℕ) : Progress α :=
  if c.done p then c
  else { c with done := Function.update c.done p true, remaining := c.remaining - 1 }

def Progress.mark {α : Type*} (c : Progress α) (idx : List ℕ) : Progress α :=
  idx.foldl Progress.markOne c

/-- What a callback meets: whether the slice computes when asked, and which
endpoint answers in which round. -/
structure Luck where
  hotComputes : Bool
  answers : ℕ → ℕ → Bool
  fallbackComputes : Bool

structure Here where
  haveSlice : Bool
  slice : Slice
  hotK : ℕ
  hot : ℤ → Bool

section Callback
variable {α : Type*} (r : Routing R H) (serve : ℤ → (ℤ → H → M) → List ℕ → α → α)
  (remote : Endpoint → ℤ → H → M) (ffn : ℤ → H → M)

def Progress.served (c : Progress α) (base : ℤ) (f : ℤ → H → M) (idx : List ℕ) : Progress α :=
  Progress.mark { c with out := serve base f idx c.out } idx

/-- The pairs that a worker is asked for: not done, nobody's yet, and its experts. -/
def claimed (done taken : ℕ → Bool) (w : Endpoint) : List ℕ :=
  (List.range r.nPairs).filter fun p => !done p && !taken p && w.covers (r.sel p)

/-- The requests of a round, each with the place of its endpoint. -/
def assign (done : ℕ → Bool) : ℕ → (ℕ → Bool) → List Endpoint → List (ℕ × Endpoint × List ℕ)
  | _, _, [] => []
  | i, taken, w :: ws =>
    if w.live then
      let idx := claimed r done taken w
      let rest := assign done (i + 1) (fun p => taken p || idx.contains p) ws
      if idx = [] then rest else (i, w, idx) :: rest
    else assign done (i + 1) taken ws

def settle (answers : ℕ → Bool) (x : Progress α × List Endpoint × Bool)
    (sub : ℕ × Endpoint × List ℕ) : Progress α × List Endpoint × Bool :=
  if answers sub.1 then
    (x.1.served serve sub.2.1.expertBegin (remote sub.2.1) sub.2.2, x.2.1, true)
  else (x.1, x.2.1.modify sub.1 Endpoint.bury, x.2.2)

def rounds (answers : ℕ → ℕ → Bool) : ℕ → ℕ → Progress α → List Endpoint → Progress α × List Endpoint
  | 0, _, c, eps => (c, eps)
  | fuel + 1, round, c, eps =>
    if c.remaining = 0 then (c, eps)
    else
      let subs := assign r c.done 0 (fun _ => false) eps
      if subs = [] then (c, eps)
      else
        let x := subs.foldl (settle serve remote (answers round)) (c, eps, false)
        if x.2.2 then rounds answers fuel (round + 1) x.1 x.2.1 else (x.1, x.2.1)

/-- The pairs whose expert is hot, computed here before anybody is asked. -/
def hotPass (here : Here) (computes : Bool) (c : Progress α) : Progress α :=
  if 0 < here.hotK ∧ here.haveSlice = true then
    let idx := (List.range r.nPairs).filter fun p => here.hot (r.sel p)
    if idx ≠ [] ∧ computes = true then c.served serve 0 (here.slice.compute ffn) idx else c
  else c

/-- What is left is computed here, or the callback fails. -/
def fallback (here : Here) (computes : Bool) (c : Progress α) : Bool × Progress α :=
  if c.remaining = 0 then (true, c)
  else if here.haveSlice = true ∧ computes = true then
    (true, c.served serve 0 (here.slice.compute ffn)
      ((List.range r.nPairs).filter fun p => !c.done p))
  else (false, c)

/-- The callback returns whether it succeeded, the output, and the endpoints as
it leaves them. A round that goes on has served a pair, so the number of pairs
is fuel enough. -/
def callback (here : Here) (luck : Luck) (eps : List Endpoint) (out : α) :
    Bool × Progress α × List Endpoint :=
  let c := hotPass r serve ffn here luck.hotComputes ⟨fun _ => false, r.nPairs, out⟩
  let x := rounds r serve remote luck.answers r.nPairs 0 c eps
  let y := fallback r serve ffn here luck.fallbackComputes x.1
  (y.1, y.2, x.2)

end Callback

/-- `map_dispatch_cb`: a row for each pair, over whatever `experts_out` held. -/
def mapDispatch (r : Routing R H) (remote : Endpoint → ℤ → H → M) (ffn : ℤ → H → M) (here : Here)
    (luck : Luck) (eps : List Endpoint) (expertsOut : ℕ → M) :
    Bool × Progress (ℕ → M) × List Endpoint :=
  callback r (serveDispatch r) remote ffn here luck eps expertsOut

/-- `map_reduce_cb`: a row for each token, cleared first. -/
def mapReduce (r : Routing R H) (remote : Endpoint → ℤ → H → M) (ffn : ℤ → H → M) (here : Here)
    (luck : Luck) (eps : List Endpoint) : Bool × Progress (ℕ → M) × List Endpoint :=
  callback r (serveReduce r) remote ffn here luck eps fun _ => 0

end KvasirNet.Moe
