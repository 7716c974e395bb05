import KvasirNet.Pipeline
import KvasirNet.RingRelay

/-! `handle_forward_stage`: what a stage of the ring does with each frame. The engine is
a parameter; a stage keeps, besides its state, the calls it made of it. -/
namespace KvasirNet.Ring

open Pipeline

inductive FrameKind
  | hello
  | prefill
  | decode
  | token
  | reset
  | ack
  | embed
  | terminals
  | execute
  | executeResult
  | memory
  | stateGet
  | stateChunk
  | stateDone
  | stateSetBegin
  | stateSetChunk
  | stateSetCommit
  | stateAck
  deriving DecidableEq, Repr

structure Frame where
  kind : FrameKind
  requestId : Word 8
  sequenceId : Word 4
  position : Word 4
  payload : Bytes
  deriving DecidableEq

/-- `memory_op_wire`. -/
structure MemoryOp where
  version : Word 4
  op : Word 4
  seqIdSrc : Word 4
  seqIdDst : Word 4
  p0 : Word 4
  p1 : Word 4
  value : Word 4
  reserved : Word 4
  deriving DecidableEq

/-- `state_op_wire`. -/
structure StateOp where
  version : Word 4
  seqId : Word 4
  flags : Word 4
  layerBegin : Word 4
  layerEnd : Word 4
  status : Word 4
  totalSize : Word 8
  offset : Word 8
  deriving DecidableEq

def MemoryOp.bytes (o : MemoryOp) : Bytes :=
  wordBytes o.version ++ (wordBytes o.op ++ (wordBytes o.seqIdSrc ++ (wordBytes o.seqIdDst ++
    (wordBytes o.p0 ++ (wordBytes o.p1 ++ (wordBytes o.value ++ wordBytes o.reserved))))))

def MemoryOp.read (bs : Bytes) : MemoryOp where
  version := word 4 bs
  op := word 4 (bs.drop 4)
  seqIdSrc := word 4 (bs.drop 8)
  seqIdDst := word 4 (bs.drop 12)
  p0 := word 4 (bs.drop 16)
  p1 := word 4 (bs.drop 20)
  value := word 4 (bs.drop 24)
  reserved := word 4 (bs.drop 28)

def StateOp.bytes (o : StateOp) : Bytes :=
  wordBytes o.version ++ (wordBytes o.seqId ++ (wordBytes o.flags ++ (wordBytes o.layerBegin ++
    (wordBytes o.layerEnd ++ (wordBytes o.status ++ (wordBytes o.totalSize ++
      wordBytes o.offset))))))

def StateOp.read (bs : Bytes) : StateOp where
  version := word 4 bs
  seqId := word 4 (bs.drop 4)
  flags := word 4 (bs.drop 8)
  layerBegin := word 4 (bs.drop 12)
  layerEnd := word 4 (bs.drop 16)
  status := word 4 (bs.drop 20)
  totalSize := word 8 (bs.drop 24)
  offset := word 8 (bs.drop 32)

def memoryOpBytes : ℕ := 32

def stateOpBytes : ℕ := 40

@[simp]
theorem MemoryOp.length_bytes (o : MemoryOp) : o.bytes.length = memoryOpBytes := by
  simp [MemoryOp.bytes, memoryOpBytes]

@[simp]
theorem StateOp.length_bytes (o : StateOp) : o.bytes.length = stateOpBytes := by
  simp [StateOp.bytes, stateOpBytes]

theorem StateOp.read_append (o : StateOp) (rest : Bytes) : StateOp.read (o.bytes ++ rest) = o := by
  simp [StateOp.read, StateOp.bytes, List.drop_append]

@[simp]
theorem StateOp.read_bytes (o : StateOp) : StateOp.read o.bytes = o := by
  simpa using StateOp.read_append o []

@[simp]
theorem MemoryOp.read_bytes (o : MemoryOp) : MemoryOp.read o.bytes = o := by
  have hlast : word 4 (wordBytes o.reserved) = o.reserved := by
    simpa using word_append o.reserved []
  simp [MemoryOp.read, MemoryOp.bytes, List.drop_append, hlast]

/-! ### The engine -/

/-- The calls a stage makes of `stage_engine`, over the states `ε` of its context. A
call that fails gives nothing; restoring a state says whether it was done. -/
structure Engine (ε : Type) where
  firstLayer : Word 4
  lastLayer : Word 4
  reset : ε → ε
  applyMemory : ε → MemoryOp → Option ε
  getSequenceState : ε → Word 4 → Word 4 → Option Bytes
  setSequenceState : ε → Word 4 → Word 4 → Bytes → ε × Bool
  executeBoundary : ε → ExecuteBundle → Option (ε × BoundaryBundle)
  encodeBoundary : ε → BoundaryBundle → Word 4 → Option (ε × BoundaryBundle)
  collectTerminals : ε → Option BoundaryBundle
  decodeBoundary : ε → BoundaryBundle → Word 4 → Option (ε × BoundaryBundle)
  sampleArgmax : ε → Word 4

/-- A call of the engine, under the request it was made for. -/
inductive Call
  | reset (id : Word 8)
  | memory (id : Word 8) (op : MemoryOp)
  | capture (id : Word 8) (seqId flags : Word 4)
  | restore (id : Word 8) (seqId flags : Word 4) (data : Bytes)
  | execute (id : Word 8) (positions nSeqId seqIds : List (Word 4)) (output : Bytes)
  | embed (id : Word 8) (nTokens : Word 4)
  | decode (id : Word 8) (position : Word 4)
  | sample (id : Word 8)
  deriving DecidableEq

structure Stage (ε : Type) where
  engine : ε
  pendingState : StateOp
  pendingStateData : Bytes
  pendingStateTarget : Bool
  calls : List Call

/-! ### The frames -/

variable {ε : Type}

/-- Frames are sent unless one is longer than a frame may be. -/
def emit (s : Stage ε) (frames : List Frame) : Option (Stage ε × List Frame) :=
  if ∀ f ∈ frames, f.payload.length ≤ maxFrameBytes then some (s, frames) else none

def stateChunkBytes : ℕ := 4 * 1024 * 1024

/-- A sequence state cut into chunks, each with the offset it starts at. -/
def stateChunks : ℕ → Bytes → List (ℕ × Bytes)
  | _, [] => []
  | offset, b :: bs =>
    (offset, (b :: bs).take stateChunkBytes) ::
      stateChunks (offset + stateChunkBytes) ((b :: bs).drop stateChunkBytes)
  termination_by _ data => data.length
  decreasing_by
    simp only [List.length_drop, List.length_cons, stateChunkBytes]
    omega

/-- The frames of a sequence state, in `send_state_chunks` and in `restore_remote_state`. -/
def chunkFrames (kind : FrameKind) (id : Word 8) (base : StateOp) (data : Bytes) : List Frame :=
  (stateChunks 0 data).map fun chunk =>
    ⟨kind, id, 0, 0, StateOp.bytes { base with
      totalSize := BitVec.ofNat 64 data.length
      offset := BitVec.ofNat 64 chunk.1 } ++ chunk.2⟩

namespace Stage

variable (E : Engine ε) (isLast : Bool) (s : Stage ε) (f : Frame)

def onReset : Option (Stage ε × List Frame) :=
  emit { s with engine := E.reset s.engine, calls := s.calls ++ [.reset f.requestId] }
    [⟨if isLast then .ack else .reset, f.requestId, 0, f.position, []⟩]

def onMemory : Option (Stage ε × List Frame) :=
  if f.payload.length ≠ memoryOpBytes then none
  else do
    let op := MemoryOp.read f.payload
    let engine ← E.applyMemory s.engine op
    emit { s with engine := engine, calls := s.calls ++ [.memory f.requestId op] }
      [⟨if isLast then .ack else .memory, f.requestId, 0, f.position,
        if isLast then [] else op.bytes⟩]

def onStateGet : Option (Stage ε × List Frame) :=
  if f.payload.length ≠ stateOpBytes then none
  else
    let wire := StateOp.read f.payload
    if wire.version ≠ 1 ∨ wire.status ≠ 0 ∨ wire.totalSize ≠ 0 ∨ wire.offset ≠ 0
        ∨ wire.layerBegin ≠ 0 ∨ wire.layerEnd ≠ 0 then none
    else do
      let state ← E.getSequenceState s.engine wire.seqId wire.flags
      let base := { wire with layerBegin := E.firstLayer, layerEnd := E.lastLayer, status := 1 }
      emit { s with calls := s.calls ++ [.capture f.requestId wire.seqId wire.flags] }
        (chunkFrames .stateChunk f.requestId base state ++
          [if isLast then ⟨.stateDone, f.requestId, 0, 0, base.bytes⟩
           else ⟨.stateGet, f.requestId, 0, 0, f.payload⟩])

def onStateChunk : Option (Stage ε × List Frame) :=
  if f.payload.length < stateOpBytes then none
  else emit s [⟨.stateChunk, f.requestId, 0, 0, f.payload⟩]

def onStateSetBegin : Option (Stage ε × List Frame) :=
  if f.payload.length ≠ stateOpBytes then none
  else
    let wire := StateOp.read f.payload
    if wire.version ≠ 1 ∨ wire.offset ≠ 0 then none
    else emit { s with
        pendingState := wire
        pendingStateTarget := wire.layerBegin = E.firstLayer ∧ wire.layerEnd = E.lastLayer
        pendingStateData := [] }
      (if isLast then [] else [⟨.stateSetBegin, f.requestId, 0, 0, wire.bytes⟩])

def onStateSetChunk : Option (Stage ε × List Frame) :=
  if f.payload.length < stateOpBytes then none
  else
    let wire := StateOp.read f.payload
    let chunk := f.payload.drop stateOpBytes
    if wire.version ≠ 1 ∨ wire.totalSize ≠ s.pendingState.totalSize
        ∨ wire.layerBegin ≠ s.pendingState.layerBegin ∨ wire.layerEnd ≠ s.pendingState.layerEnd
        ∨ wire.totalSize.toNat < wire.offset.toNat
        ∨ wire.totalSize.toNat - wire.offset.toNat < chunk.length then none
    else if s.pendingStateTarget ∧ wire.offset.toNat ≠ s.pendingStateData.length then none
    else emit { s with
        pendingStateData :=
          if s.pendingStateTarget then s.pendingStateData ++ chunk else s.pendingStateData }
      (if isLast then [] else [⟨.stateSetChunk, f.requestId, 0, 0, f.payload⟩])

def onStateSetCommit : Option (Stage ε × List Frame) :=
  if f.payload.length ≠ stateOpBytes then none
  else
    let wire := StateOp.read f.payload
    if wire.version ≠ 1 ∨ wire.layerBegin ≠ s.pendingState.layerBegin
        ∨ wire.layerEnd ≠ s.pendingState.layerEnd
        ∨ wire.totalSize ≠ s.pendingState.totalSize then none
    else
      let kind := if isLast then FrameKind.stateAck else .stateSetCommit
      let cleared := { s with pendingStateTarget := false, pendingStateData := [] }
      if ¬ s.pendingStateTarget then emit cleared [⟨kind, f.requestId, 0, 0, wire.bytes⟩]
      else if s.pendingStateData.length ≠ wire.totalSize.toNat then
        emit cleared [⟨kind, f.requestId, 0, 0, { wire with status := 0, offset := 1 }.bytes⟩]
      else
        let (engine, done) :=
          E.setSequenceState s.engine wire.seqId wire.flags s.pendingStateData
        emit { cleared with
            engine := engine
            calls := s.calls ++ [.restore f.requestId wire.seqId wire.flags s.pendingStateData] }
          [⟨kind, f.requestId, 0, 0,
            { wire with status := if done then 1 else 0, offset := 1 }.bytes⟩]

def onExecute : Option (Stage ε × List Frame) :=
  match decodeExecuteBundle f.payload with
  | .error _ => none
  | .ok request => do
    let (engine, output) ← E.executeBoundary s.engine request
    let s' := { s with
      engine := engine
      calls := s.calls ++ [.execute f.requestId request.positions request.nSeqId request.seqIds
        request.output] }
    if isLast then
      let payload ← encodeBoundaryBundle output
      emit s' [⟨.executeResult, f.requestId, f.sequenceId, f.position, payload⟩]
    else
      let payload ← (encodeExecuteBundle request output).toOption
      emit s' [⟨.execute, f.requestId, f.sequenceId, f.position, payload⟩]

def onEmbed : Option (Stage ε × List Frame) :=
  match decodeBoundaryBundle f.payload with
  | .error _ => none
  | .ok input => do
    let (engine, output) ← E.encodeBoundary s.engine input f.sequenceId
    let s' := { s with engine := engine, calls := s.calls ++ [.embed f.requestId f.sequenceId] }
    if isLast then
      let terminals ← E.collectTerminals engine
      let payload ← encodeBoundaryBundle terminals
      emit s' [⟨.terminals, f.requestId, f.sequenceId, 0, payload⟩]
    else
      let payload ← encodeBoundaryBundle output
      emit s' [⟨.embed, f.requestId, f.sequenceId, 0, payload⟩]

def onDecode : Option (Stage ε × List Frame) :=
  match decodeBoundaryBundle f.payload with
  | .error _ => none
  | .ok input => do
    let (engine, output) ← E.decodeBoundary s.engine input f.position
    let s' := { s with engine := engine, calls := s.calls ++ [.decode f.requestId f.position] }
    if ¬ isLast then
      let payload ← encodeBoundaryBundle output
      emit s' [⟨f.kind, f.requestId, 0, f.position, payload⟩]
    else if f.kind = .prefill then emit s' [⟨.ack, f.requestId, 0, f.position, []⟩]
    else
      let token := E.sampleArgmax engine
      if token.toInt < 0 then none
      else
        emit { s' with calls := s'.calls ++ [.sample f.requestId] }
          [⟨.token, f.requestId, 0, f.position, wordBytes token⟩]

/-- One turn of the loop of `handle_forward_stage`. -/
def handle : Option (Stage ε × List Frame) :=
  match f.kind with
  | .reset => onReset E isLast s f
  | .memory => onMemory E isLast s f
  | .stateGet => onStateGet E isLast s f
  | .stateChunk => onStateChunk s f
  | .stateSetBegin => onStateSetBegin E isLast s f
  | .stateSetChunk => onStateSetChunk isLast s f
  | .stateSetCommit => onStateSetCommit E isLast s f
  | .execute => onExecute E isLast s f
  | .embed => onEmbed E isLast s f
  | .prefill => onDecode E isLast s f
  | .decode => onDecode E isLast s f
  | _ => none

end Stage

end KvasirNet.Ring
