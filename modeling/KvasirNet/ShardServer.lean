import KvasirNet.GgufModel
import KvasirNet.GgufWrite

/-! The expert shards that `shard-server.py` hands out: which bytes of a model file
a request means, the GGUF header that goes before them, and how they are streamed.
The path of a URL and the values of its query come apart in the standard library. -/
namespace KvasirNet.Shard
open Gguf

/-- A loaded `Model` and what its file holds when a request opens it. -/
structure Loaded where
  id : String
  digest : String
  model : Model
  file : Bytes

/-- The bytes of one tensor that belong to the experts of a request. -/
structure Part where
  tensor : Which
  start : ℤ
  bytes : ℤ
  perExpert : ℤ
  type : ℕ
  dims : List ℕ
  deriving DecidableEq, Repr

/-- A size as an integer. With a float `expert_count` a size is a float, but then
`struct.pack` refuses the count before any size is used. -/
def whole : Num → ℤ
  | .fin q => ⌊q⌋
  | _ => 0

def partOf (w : Which) (t : ModelSlice) (beg stop : ℤ) : Part where
  tensor := w
  start := t.offset + beg * whole t.perExpert
  bytes := (stop - beg) * whole t.perExpert
  perExpert := whole t.perExpert
  type := t.type
  dims := t.dims

section
variable (spell : Value → String)

def numeral : Value → String
  | .int n => toString n
  | .bool b => if b then "True" else "False"
  | v => spell v

/-- `plan`; an error is the text of the `KeyError`. -/
def plan (m : Model) (layer beg stop : ℤ) : Except String (List Part) :=
  if layer ∈ m.expertLayers then
    if 0 ≤ beg ∧ beg < stop ∧ Num.fin stop ≤ m.nExpert.amount then
      expertTensors.mapM fun w =>
        match lastAt m.slice (layer, w) with
        | some t => .ok (partOf w t beg stop)
        | none => .error w.tensor
    else .error ("experts [" ++ toString beg ++ ", " ++ toString stop ++ ") fall outside [0, " ++
      numeral spell m.nExpert ++ ")")
  else .error ("layer " ++ toString layer ++ " holds no routed experts")

end

/-! ## The header -/

def ggufAlignment : ℤ := 32

/-- What `struct.pack("<I", value)` makes of a value. -/
def packU32 : Value → Option Field
  | .int n => if 0 ≤ n ∧ n < 2 ^ 32 then some (.u32 n.toNat) else none
  | .bool b => some (.u32 b.toNat)
  | _ => none

/-- The names of the metadata and what is stored under them. -/
def entries (arch id digest : String) (layer beg stop nExpert nEmbd nFfExpert nLayer : Field) :
    List (String × Field) := [
  ("general.architecture", .str arch),
  ("general.alignment", .u32 32),
  ("kvasir.expert_shard.model", .str id),
  ("kvasir.expert_shard.layer", layer),
  ("kvasir.expert_shard.expert_begin", beg),
  ("kvasir.expert_shard.expert_end", stop),
  ("kvasir.expert_shard.n_expert_total", nExpert),
  ("kvasir.expert_shard.n_embd", nEmbd),
  ("kvasir.expert_shard.n_ff", nFfExpert),
  ("kvasir.expert_shard.source_digest", .str digest),
  (if arch = "step35" then "step35.embedding_length" else arch ++ ".embedding_length", nEmbd),
  (arch ++ ".block_count", nLayer),
  (arch ++ ".expert_count", nExpert)]

/-- `meta`; `none` where a value has no bytes. -/
def metadata (m : Loaded) (layer beg stop : ℤ) : Option (List (String × Field)) := do
  let arch ← match m.model.arch with
    | some (.str s) => some s
    | _ => none
  let layer ← packU32 (.int layer)
  let beg ← packU32 (.int beg)
  let stop ← packU32 (.int stop)
  let nExpert ← packU32 m.model.nExpert
  let nEmbd ← m.model.nEmbd.bind packU32
  let nFfExpert ← m.model.nFfExpert.bind packU32
  let nLayer ← m.model.nLayer.bind packU32
  some (entries arch m.id m.digest layer beg stop nExpert nEmbd nFfExpert nLayer)

/-- A part and its `data_offset`. -/
structure Placed where
  part : Part
  dataOffset : ℤ

def Placed.stop (p : Placed) : ℤ := alignUp (p.dataOffset + p.part.bytes) ggufAlignment

/-- Each part begins where the one before it ends, rounded up. -/
def place : ℤ → List Part → List Placed
  | _, [] => []
  | offset, p :: ps => ⟨p, offset⟩ :: place (Placed.stop ⟨p, offset⟩) ps

def tensorName (layer : ℤ) (w : Which) : String := "blk." ++ toString layer ++ "." ++ w.tensor ++ ".weight"

/-- A tensor info; the last dimension is the number of experts in the shard. -/
def infoOf (layer nLocal : ℤ) (p : Placed) : Option RawTensor :=
  let dims := p.part.dims.dropLast ++ [nLocal.toNat]
  if (∀ d ∈ dims, d < 2 ^ 64) ∧ p.dataOffset < 2 ^ 64 then
    some ⟨tensorName layer p.part.tensor, dims, p.part.type, p.dataOffset.toNat⟩
  else none

def zeros (n : ℤ) : Bytes := List.replicate n.toNat 0

/-- A header up to the start of its tensor data. -/
def padded (header : Bytes) : Bytes := header ++ zeros (-(header.length : ℤ) % ggufAlignment)

/-- What a handler sees raised: a `KeyError` with its text, or another exception. -/
inductive Raised
  | key (text : String)
  | other
  deriving DecidableEq, Repr

section
variable (spell : Value → String)

/-- `build_shard_gguf`. -/
def buildShardGguf (m : Loaded) (layer beg stop : ℤ) : Except Raised (Bytes × List Placed) :=
  match plan spell m.model layer beg stop with
  | .error text => .error (.key text)
  | .ok parts =>
    match metadata m layer beg stop, (place 0 parts).mapM (infoOf layer (stop - beg)) with
    | some entries, some infos => .ok (padded (headerBytes entries infos), place 0 parts)
    | _, _ => .error .other

end

/-! ## The data -/

/-- `while left`: what is read at `pos` and written, and whether the loop came to
its end; a read past the end of the file raises. -/
def copyChunks (file : Bytes) (pos left : ℕ) : Bytes × Bool :=
  if hleft : left = 0 then ([], true)
  else
    let chunk := (file.drop pos).take (min (2 ^ 20) left)
    if _hchunk : chunk = [] then ([], false)
    else
      let rest := copyChunks file (pos + chunk.length) (left - chunk.length)
      (chunk ++ rest.1, rest.2)
termination_by left
decreasing_by
  exact Nat.sub_lt (Nat.pos_of_ne_zero hleft) (List.length_pos_iff.mpr _hchunk)

/-- What the loop over the plan writes from `written` on, and where it ends. -/
def streamParts (file : Bytes) : ℤ → List Placed → Bytes × Option ℤ
  | written, [] => ([], some written)
  | written, p :: ps =>
    let gap := zeros (p.dataOffset - written)
    if 0 ≤ p.part.start ∧ p.part.start < 2 ^ 63 then
      let data := copyChunks file p.part.start.toNat p.part.bytes.toNat
      if data.2 then
        let rest := streamParts file (max written p.dataOffset + p.part.bytes) ps
        (gap ++ data.1 ++ rest.1, rest.2)
      else (gap ++ data.1, none)
    else (gap, none) -- `seek` raises

/-! ## The handler -/

inductive Body
  | error (text : String)
  | health (models : List String)
  | topology (id : String) (layout : Layout)

inductive Reply
  | json (status : ℕ) (body : Body)
  /-- Status 200 with the length it declares and what is written after the
  headers; `whole` tells that the handler came to its end. -/
  | shard (contentLength : ℤ) (digest : String) (written : Bytes) (whole : Bool)
  /-- An exception before anything is sent. -/
  | raised

structure Server where
  models : List (String × Loaded)
  token : String
  maxExperts : ℤ

/-- `query` gives what `parse_qs` has for a key. -/
structure Request where
  path : String
  token : String
  query : String → List String

def Request.first (req : Request) (key : String) : String := (req.query key).head?.getD ""

/-- `num`; the error is the text of the `KeyError`. -/
def Request.num (req : Request) (key : String) : Except String ℤ :=
  match pyInt (req.first key).toList with
  | some n => .ok n
  | none => .error (key ++ " must be an integer")

/-- `_authed`; `compare_digest` raises on text that is not ASCII. -/
def authed (s : Server) (req : Request) : Option Bool :=
  if req.token = "" then some false
  else if (req.token ++ s.token).toList.all fun c => decide (c.toNat < 128) then some (req.token == s.token)
  else none

/-- The text of a `KeyError` is the `repr` of its message. -/
def keyError (text : String) : Reply := .json 400 (.error ("'" ++ text ++ "'"))

section
variable (spell : Value → String)

/-- What a request to `/shard` asks for, or the reply that refuses it. -/
def Server.asked (s : Server) (req : Request) : Except Reply (Loaded × ℤ × ℤ × ℤ) :=
  match lastAt s.models (req.first "model") with
  | none => .error (.json 404 (.error "unknown model"))
  | some m =>
    match req.num "layer", req.num "expert_begin", req.num "expert_end" with
    | .error text, _, _ => .error (keyError text)
    | .ok _, .error text, _ => .error (keyError text)
    | .ok _, .ok _, .error text => .error (keyError text)
    | .ok layer, .ok beg, .ok stop =>
      if s.maxExperts < stop - beg then
        .error (.json 413 (.error ("at most " ++ toString s.maxExperts ++ " experts per request")))
      else
        match plan spell m.model layer beg stop with
        | .error text => .error (keyError text)
        | .ok _ => .ok (m, layer, beg, stop)

/-- The header, the data, and the padding of the last tensor. -/
def sendShard (m : Loaded) (layer beg stop : ℤ) : Reply :=
  match buildShardGguf spell m layer beg stop with
  | .error (.key text) => keyError text
  | .error .other => .raised
  | .ok (header, placed) =>
    let body := placed.foldl (fun _ p => p.stop) 0
    let data := streamParts m.file 0 placed
    let tail := match data.2 with
      | some written => zeros (body - written)
      | none => []
    .shard (header.length + body) m.digest (header ++ data.1 ++ tail) data.2.isSome

/-- `do_GET`. -/
def doGet (s : Server) (req : Request) : Reply :=
  if req.path = "/health" then
    .json 200 (.health ((s.models.map Prod.fst).dedup.mergeSort (· ≤ ·)))
  else
    match authed s req with
    | none => .raised
    | some false => .json 401 (.error "service token required")
    | some true =>
      if req.path = "/topology" then
        match lastAt s.models (req.first "model") with
        | none => .json 404 (.error "unknown model")
        | some m => .json 200 (.topology m.id m.model.layout)
      else if req.path = "/shard" then
        match s.asked spell req with
        | .error r => r
        | .ok (m, layer, beg, stop) => sendShard spell m layer beg stop
      else .json 404 (.error ("no such endpoint " ++ req.path))

end

end KvasirNet.Shard
