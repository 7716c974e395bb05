import KvasirNet.RingStage

/-! The snapshot of a sequence, as the coordinator of a ring keeps it: the states that the stages
sent, put together from their chunks, and the bytes that these are written to and read from. -/
namespace KvasirNet.Ring

/-- `remote_state_entry`. -/
structure StateEntry where
  layerBegin : Word 4
  layerEnd : Word 4
  totalSize : Word 8
  data : Bytes
  deriving DecidableEq, Repr

/-- The layers of an entry, as both sides check them. -/
def rangeOk (layerBegin layerEnd : Word 4) : Prop :=
  0 ≤ layerBegin.toInt ∧ layerBegin.toInt < layerEnd.toInt

instance (layerBegin layerEnd : Word 4) : Decidable (rangeOk layerBegin layerEnd) :=
  inferInstanceAs (Decidable (_ ∧ _))

def StateEntry.Complete (e : StateEntry) : Prop :=
  rangeOk e.layerBegin e.layerEnd ∧ e.data.length = e.totalSize.toNat

instance (e : StateEntry) : Decidable e.Complete := inferInstanceAs (Decidable (_ ∧ _))

/-! ### The bundle -/

def stateBundleHeaderBytes : ℕ := 16

def stateBundleEntryBytes : ℕ := 16

/-- `state_bundle_entry`, and its data. -/
def StateEntry.bytes (e : StateEntry) : Bytes :=
  wordBytes e.layerBegin ++ (wordBytes e.layerEnd ++ (wordBytes e.totalSize ++ e.data))

def entriesBytes (entries : List StateEntry) : Bytes := entries.flatMap StateEntry.bytes

/-- `count` of `state_bundle_header`. -/
def entryCount (entries : List StateEntry) : Word 4 := BitVec.ofNat 32 entries.length

/-- `encode_state_bundle`; a size fits 64 bits. -/
def encodeStateBundle (entries : List StateEntry) : Option Bytes :=
  if entries.length < 2 ^ 32 ∧ (∀ e ∈ entries, e.Complete) ∧
      stateBundleHeaderBytes + (entriesBytes entries).length < 2 ^ 64 then
    some (wordBytes (1 : Word 4) ++ (wordBytes (entryCount entries) ++
      (wordBytes (0 : Word 8) ++ entriesBytes entries)))
  else none

/-- The entries of a bundle, when there are so many and nothing behind them. -/
def readEntries : ℕ → Bytes → Option (List StateEntry)
  | 0, bs => if bs = [] then some [] else none
  | n + 1, bs =>
    if bs.length < stateBundleEntryBytes then none
    else
      let layerBegin : Word 4 := word 4 bs
      let layerEnd : Word 4 := word 4 (bs.drop 4)
      let size : Word 8 := word 8 (bs.drop 8)
      let rest := bs.drop stateBundleEntryBytes
      if ¬ rangeOk layerBegin layerEnd ∨ rest.length < size.toNat then none
      else (readEntries n (rest.drop size.toNat)).map
        (⟨layerBegin, layerEnd, size, rest.take size.toNat⟩ :: ·)

def decodeStateBundle (data : Bytes) : Option (List StateEntry) :=
  if data.length < stateBundleHeaderBytes ∨ word 4 data ≠ (1 : Word 4) ∨
      word 8 (data.drop 8) ≠ (0 : Word 8) then none
  else readEntries (word 4 (data.drop 4)).toNat (data.drop stateBundleHeaderBytes)

/-! ### The entries of a ring -/

/-- One stage's layers after the other's, from a layer on. -/
def Contiguous : Word 4 → List StateEntry → Prop
  | _, [] => True
  | layer, e :: es => e.layerBegin = layer ∧ Contiguous e.layerEnd es

/-- Where the next entry is to begin; the entries stand with the latest first. -/
def nextLayer (layer : Word 4) (entries : List StateEntry) : Word 4 :=
  (entries.head?.map StateEntry.layerEnd).getD layer

/-- What `collect_remote_state` makes of a chunk. -/
def takeChunk (layer : Word 4) (entries : List StateEntry) (payload : Bytes) :
    Option (List StateEntry) :=
  if payload.length < stateOpBytes then none
  else
    let wire := StateOp.read payload
    let chunk := payload.drop stateOpBytes
    if wire.version ≠ 1 ∨ wire.status = 0 ∨ ¬ rangeOk wire.layerBegin wire.layerEnd
        ∨ wire.totalSize.toNat < wire.offset.toNat
        ∨ wire.totalSize.toNat - wire.offset.toNat < chunk.length then none
    else if wire.offset = 0 ∧ wire.layerBegin ≠ nextLayer layer entries then
      none
    else
      match if wire.offset = 0 then ⟨wire.layerBegin, wire.layerEnd, wire.totalSize, []⟩ :: entries
        else entries with
      | [] => none
      | e :: es =>
        if e.layerBegin ≠ wire.layerBegin ∨ e.layerEnd ≠ wire.layerEnd
            ∨ e.totalSize ≠ wire.totalSize ∨ e.data.length ≠ wire.offset.toNat then none
        else some ({ e with data := e.data ++ chunk } :: es)

/-- A `STATE_DONE` names the last entry. -/
def doneOk (entries : List StateEntry) (payload : Bytes) : Prop :=
  payload.length = stateOpBytes ∧ ∃ e ∈ entries.head?,
    (StateOp.read payload).version = 1 ∧ (StateOp.read payload).status ≠ 0 ∧
      (StateOp.read payload).layerBegin = e.layerBegin ∧ (StateOp.read payload).layerEnd = e.layerEnd

instance (entries : List StateEntry) (payload : Bytes) : Decidable (doneOk entries payload) := by
  unfold doneOk
  cases entries <;> infer_instance

/-- The loop of `collect_remote_state` over the frames that come in, and what it leaves of them.
Without a frame left the connection is at its end. -/
def collect (layer : Word 4) (id : Word 8) : List StateEntry → List Frame →
    Option (List StateEntry) × List Frame
  | _, [] => (none, [])
  | entries, f :: fs =>
    if f.requestId ≠ id then (none, fs)
    else match f.kind with
      | .stateDone => (if doneOk entries f.payload then some entries.reverse else none, fs)
      | .stateChunk =>
        match takeChunk layer entries f.payload with
        | none => (none, fs)
        | some entries' => collect layer id entries' fs
      | _ => (none, fs)

end KvasirNet.Ring
