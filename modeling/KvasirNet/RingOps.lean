import KvasirNet.Lockstep
import KvasirNet.RingStage

/-! The operations a ring is asked for, frame by frame: what is sent for each, what
passes from stage to stage, and what comes back. -/
namespace KvasirNet.Ring

open Pipeline

variable {ε : Type}

inductive Op
  | reset (id : Word 8)
  | memory (id : Word 8) (op : MemoryOp)
  | prefill (id : Word 8) (position : Word 4) (input : BoundaryBundle)
  | decode (id : Word 8) (position : Word 4) (input : BoundaryBundle)
  | execute (id : Word 8) (inv : Invocation) (input : BoundaryBundle)
  | embed (id : Word 8) (nTokens : Word 4) (input : BoundaryBundle)
  | stateGet (id : Word 8) (seqId flags : Word 4)
  | stateSet (id : Word 8) (seqId flags layerBegin layerEnd : Word 4) (data : Bytes)

namespace Op

def id : Op → Word 8
  | .reset id | .memory id _ | .prefill id _ _ | .decode id _ _ | .execute id _ _ | .embed id _ _
  | .stateGet id _ _ | .stateSet id _ _ _ _ _ => id

/-- The wire of a request for a sequence state. -/
def getWire (seqId flags : Word 4) : StateOp :=
  ⟨1, seqId, flags, 0, 0, 0, 0, 0⟩

def setWire (seqId flags layerBegin layerEnd : Word 4) (data : Bytes) : StateOp :=
  ⟨1, seqId, flags, layerBegin, layerEnd, 0, BitVec.ofNat 64 data.length, 0⟩

/-- What the issuer sends; nothing when the tensors are refused by its encoder. -/
def send : Op → Option (List Frame)
  | .reset id => some [⟨.reset, id, 0, 0, []⟩]
  | .memory id op => some [⟨.memory, id, 0, 0, op.bytes⟩]
  | .prefill id position input =>
    (encodeBoundaryBundle input).map fun payload => [⟨.prefill, id, 0, position, payload⟩]
  | .decode id position input =>
    (encodeBoundaryBundle input).map fun payload => [⟨.decode, id, 0, position, payload⟩]
  | .execute id inv input =>
    (inv.request input).toOption.map fun payload => [⟨.execute, id, 0, 0, payload⟩]
  | .embed id nTokens input =>
    (encodeBoundaryBundle input).map fun payload => [⟨.embed, id, nTokens, 0, payload⟩]
  | .stateGet id seqId flags => some [⟨.stateGet, id, 0, 0, (getWire seqId flags).bytes⟩]
  | .stateSet id seqId flags layerBegin layerEnd data =>
    let wire := setWire seqId flags layerBegin layerEnd data
    some (⟨.stateSetBegin, id, 0, 0, wire.bytes⟩ :: chunkFrames .stateSetChunk id wire data ++
      [⟨.stateSetCommit, id, 0, 0, wire.bytes⟩])

/-- The kind of the frame that completes the operation. -/
def reply : Op → FrameKind
  | .reset _ | .memory _ _ | .prefill _ _ _ => .ack
  | .decode _ _ _ => .token
  | .execute _ _ _ => .executeResult
  | .embed _ _ _ => .terminals
  | .stateGet _ _ _ => .stateDone
  | .stateSet _ _ _ _ _ _ => .stateAck

/-- The size of that frame's payload where the issuer checks it. -/
def replySize : Op → Option ℕ
  | .memory _ _ => some 0
  | .decode _ _ _ => some 4
  | .stateGet _ _ _ | .stateSet _ _ _ _ _ _ => some stateOpBytes
  | _ => none

/-- What the issuer makes of a frame that comes back. -/
def verdict (op : Op) (f : Frame) : Verdict :=
  if f.requestId ≠ op.id then .wrong
  else if f.kind = op.reply ∧ ∀ n ∈ op.replySize, f.payload.length = n then .done
  else match op with
    | .stateGet _ _ _ =>
      if f.kind = .stateChunk ∧ stateOpBytes ≤ f.payload.length then .more else .wrong
    | _ => .wrong

def task (op : Op) : Pipeline.Task Frame := ⟨op.send.getD [], op.verdict⟩

/-- The calls an operation makes of the engine of one stage. -/
def calls (E : Engine ε) (isLast : Bool) : Op → List Call
  | .reset id => [.reset id]
  | .memory id op => [.memory id op]
  | .prefill id position _ => [.decode id position]
  | .decode id position _ =>
    if isLast then [.decode id position, .sample id] else [.decode id position]
  | .execute id inv _ => [.execute id inv.pos inv.nSeqId inv.seqId.flatten inv.output]
  | .embed id nTokens _ => [.embed id nTokens]
  | .stateGet id seqId flags => [.capture id seqId flags]
  | .stateSet id seqId flags layerBegin layerEnd data =>
    if layerBegin = E.firstLayer ∧ layerEnd = E.lastLayer then [.restore id seqId flags data] else []

/-! ### Operations within the limits -/

def Passes (b : BoundaryBundle) : Prop := SoundBundle b ∧ (encodeBoundaryBundle b).isSome

/-- The issuer sends the operation within what the stages admit. -/
def Issued : Op → Prop
  | .prefill _ _ input | .decode _ _ input | .embed _ _ input => Passes input
  | .execute _ inv input => inv.InLimits ∧ SoundBundle input ∧ (inv.request input).toOption.isSome
  | .stateSet _ _ _ _ _ data => data.length < 2 ^ 64
  | _ => True

/-- The engine's calls for the operation succeed, and what it leaves for the next stage
fits a frame. -/
def Succeeds (E : Engine ε) : Op → Prop
  | .reset _ => True
  | .memory _ op => ∀ e, (E.applyMemory e op).isSome
  | .prefill _ position _ => ∀ e b, SoundBundle b →
      ∃ e' output, E.decodeBoundary e b position = some (e', output) ∧ Passes output
  | .decode _ position _ => ∀ e b, SoundBundle b →
      ∃ e' output, E.decodeBoundary e b position = some (e', output) ∧ Passes output ∧
        0 ≤ (E.sampleArgmax e').toInt
  | .execute _ inv input => ∀ e r, ExecuteBundle.SameAs r (inv.bundle input) →
      ∃ e' output, E.executeBoundary e r = some (e', output) ∧ SoundBundle output ∧ r.Fits output
  | .embed _ nTokens _ => ∀ e b, SoundBundle b →
      ∃ e' output terminals, E.encodeBoundary e b nTokens = some (e', output) ∧ Passes output ∧
        E.collectTerminals e' = some terminals ∧ Passes terminals
  | .stateGet _ seqId flags => ∀ e, ∃ data, E.getSequenceState e seqId flags = some data ∧
      data ≠ [] ∧ data.length < 2 ^ 64
  | .stateSet _ _ _ _ _ _ => True

/-- What one stage after another receives for the operation. -/
def Arrives : Op → List Frame → Prop
  | .reset id, fs => fs = [⟨.reset, id, 0, 0, []⟩]
  | .memory id op, fs => fs = [⟨.memory, id, 0, 0, op.bytes⟩]
  | .prefill id position _, fs => ∃ payload b, fs = [⟨.prefill, id, 0, position, payload⟩] ∧
      decodeBoundaryBundle payload = .ok b ∧ SoundBundle b
  | .decode id position _, fs => ∃ payload b, fs = [⟨.decode, id, 0, position, payload⟩] ∧
      decodeBoundaryBundle payload = .ok b ∧ SoundBundle b
  | .execute id inv input, fs => ∃ payload r, fs = [⟨.execute, id, 0, 0, payload⟩] ∧
      decodeExecuteBundle payload = .ok r ∧ r.Admitted ∧ r.SameAs (inv.bundle input)
  | .embed id nTokens _, fs => ∃ payload b, fs = [⟨.embed, id, nTokens, 0, payload⟩] ∧
      decodeBoundaryBundle payload = .ok b ∧ SoundBundle b
  | .stateGet id seqId flags, fs => ∃ chunks : List Frame,
      fs = chunks ++ [⟨.stateGet, id, 0, 0, (getWire seqId flags).bytes⟩] ∧
      ∀ c ∈ chunks, c.kind = .stateChunk ∧ c.requestId = id ∧ stateOpBytes ≤ c.payload.length ∧
        c.payload.length ≤ maxFrameBytes
  | .stateSet id seqId flags layerBegin layerEnd data, fs =>
      let wire := setWire seqId flags layerBegin layerEnd data
      ∃ status offset, fs = ⟨.stateSetBegin, id, 0, 0, wire.bytes⟩ ::
        chunkFrames .stateSetChunk id wire data ++
        [⟨.stateSetCommit, id, 0, 0, { wire with status := status, offset := offset }.bytes⟩]

end Op

/-! ### One stage -/

theorem emit_some {s : Stage ε} {frames : List Frame}
    (h : ∀ f ∈ frames, f.payload.length ≤ maxFrameBytes) : emit s frames = some (s, frames) :=
  if_pos h

variable {f : Frame}

theorem emit_single {s : Stage ε} (h : f.payload.length ≤ maxFrameBytes) :
    emit s [f] = some (s, [f]) :=
  emit_some fun g hg => by rwa [List.mem_singleton.mp hg]

theorem Op.verdict_done {op : Op} (hid : f.requestId = op.id)
    (hkind : f.kind = op.reply) (hsize : ∀ n ∈ op.replySize, f.payload.length = n) :
    op.verdict f = .done := by
  unfold Op.verdict
  rw [if_neg (not_not.mpr hid), if_pos ⟨hkind, hsize⟩]

theorem Op.verdict_more {id : Word 8} {seqId flags : Word 4} (hid : f.requestId = id)
    (hkind : f.kind = .stateChunk) (hsize : stateOpBytes ≤ f.payload.length) :
    (Op.stateGet id seqId flags).verdict f = .more := by
  have hsame : ¬ f.requestId ≠ (Op.stateGet id seqId flags).id := not_not.mpr hid
  have hreply : f.kind ≠ (Op.stateGet id seqId flags).reply := by simp [hkind, Op.reply]
  unfold Op.verdict
  rw [if_neg hsame, if_neg fun hdone => hreply hdone.1]
  exact if_pos ⟨hkind, hsize⟩

theorem Op.answers_single {op : Op} (hid : f.requestId = op.id)
    (hkind : f.kind = op.reply) (hsize : ∀ n ∈ op.replySize, f.payload.length = n) :
    op.task.Answers [f] :=
  ⟨[], f, rfl, fun _ hx => absurd hx List.not_mem_nil, Op.verdict_done hid hkind hsize⟩

theorem passes_encoded {b : BoundaryBundle} (h : Op.Passes b) :
    ∃ payload, encodeBoundaryBundle b = some payload ∧ payload.length ≤ maxFrameBytes ∧
      decodeBoundaryBundle payload = .ok b := by
  obtain ⟨payload, hpayload⟩ := Option.isSome_iff_exists.mp h.2
  obtain ⟨hread, -, hmax⟩ := decode_encoded h.1 (encodeBoundary_of_bundle hpayload)
  exact ⟨payload, hpayload, hmax, hread⟩

theorem stateOpBytes_le : stateOpBytes ≤ maxFrameBytes := by decide

theorem memoryOpBytes_le : memoryOpBytes ≤ maxFrameBytes := by decide

/-- What a stage makes of an operation: it sends on what the next stage should receive,
or completes the operation when it is the last. -/
def Op.Serves (op : Op) (E : Engine ε) (isLast : Bool) (s : Stage ε) (fs : List Frame) : Prop :=
  ∃ s' sent, readAll (Stage.handle E isLast) s fs = some (s', sent) ∧
    s'.calls = s.calls ++ op.calls E isLast ∧
    if isLast then op.task.Answers sent else op.Arrives sent

section
variable {E : Engine ε} {isLast : Bool} {s : Stage ε} {fs : List Frame}

theorem Op.serves_single {op : Op} {f : Frame} {s' : Stage ε} {g : Frame}
    (hstep : Stage.handle E isLast s f = some (s', [g]))
    (hcalls : s'.calls = s.calls ++ op.calls E isLast)
    (hlast : isLast → g.requestId = op.id ∧ g.kind = op.reply ∧
      ∀ n ∈ op.replySize, g.payload.length = n)
    (hnext : ¬ isLast → op.Arrives [g]) : op.Serves E isLast s [f] := by
  refine ⟨s', [g], readAll_single hstep, hcalls, ?_⟩
  split_ifs with h
  · obtain ⟨hid, hkind, hsize⟩ := hlast h
    exact Op.answers_single hid hkind hsize
  · exact hnext h

theorem serves_reset {id : Word 8} (h : (Op.reset id).Arrives fs) :
    (Op.reset id).Serves E isLast s fs := by
  obtain rfl : fs = _ := h
  have hstep : Stage.handle E isLast s ⟨.reset, id, 0, 0, []⟩ =
      some ({ s with engine := E.reset s.engine, calls := s.calls ++ [.reset id] },
        [⟨if isLast then .ack else .reset, id, 0, 0, []⟩]) := by
    simp only [Stage.handle, Stage.onReset]
    exact emit_single (Nat.zero_le _)
  refine Op.serves_single hstep rfl ?_ ?_
  · rintro rfl
    exact ⟨rfl, rfl, fun n hn => by simp [Op.replySize] at hn⟩
  · intro hmiddle
    simp [Op.Arrives, hmiddle]

theorem serves_memory {id : Word 8} {op : MemoryOp} (h : (Op.memory id op).Arrives fs)
    (hsucceeds : (Op.memory id op).Succeeds E) : (Op.memory id op).Serves E isLast s fs := by
  obtain rfl : fs = _ := h
  obtain ⟨e, he⟩ := Option.isSome_iff_exists.mp (hsucceeds s.engine)
  have hstep : Stage.handle E isLast s ⟨.memory, id, 0, 0, op.bytes⟩ =
      some ({ s with engine := e, calls := s.calls ++ [.memory id op] },
        [⟨if isLast then .ack else .memory, id, 0, 0, if isLast then [] else op.bytes⟩]) := by
    simp only [Stage.handle, Stage.onMemory, MemoryOp.length_bytes, MemoryOp.read_bytes, he,
      ne_eq, not_true_eq_false, if_false, Option.bind_eq_bind, Option.bind_some]
    apply emit_single
    split_ifs
    · simp
    · rw [MemoryOp.length_bytes]
      exact memoryOpBytes_le
  refine Op.serves_single hstep rfl ?_ ?_
  · rintro rfl
    refine ⟨rfl, rfl, fun n hn => ?_⟩
    simp only [Op.replySize, Option.mem_def, Option.some.injEq] at hn
    simp [← hn]
  · intro hmiddle
    simp [Op.Arrives, hmiddle]

variable {input : BoundaryBundle}

theorem serves_prefill {id : Word 8} {position : Word 4}
    (h : (Op.prefill id position input).Arrives fs)
    (hsucceeds : (Op.prefill id position input).Succeeds E) :
    (Op.prefill id position input).Serves E isLast s fs := by
  obtain ⟨payload, b, rfl, hread, hsound⟩ := h
  obtain ⟨e, output, hrun, hpasses⟩ := hsucceeds s.engine b hsound
  obtain ⟨next, hencode, hmax, hback⟩ := passes_encoded hpasses
  have hstep : Stage.handle E isLast s ⟨.prefill, id, 0, position, payload⟩ =
      some ({ s with engine := e, calls := s.calls ++ [.decode id position] },
        [if isLast then ⟨.ack, id, 0, position, []⟩
         else ⟨.prefill, id, 0, position, next⟩]) := by
    simp only [Stage.handle, Stage.onDecode, hread, hrun, hencode, Option.bind_eq_bind,
      Option.bind_some]
    cases isLast with
    | true =>
      simp only [not_true_eq_false, if_false, if_true]
      exact emit_single (Nat.zero_le _)
    | false => exact emit_single hmax
  refine Op.serves_single hstep rfl ?_ ?_
  · rintro rfl
    exact ⟨rfl, rfl, fun n hn => by simp [Op.replySize] at hn⟩
  · intro hmiddle
    rw [if_neg hmiddle]
    exact ⟨next, output, rfl, hback, hpasses.1⟩

theorem serves_decode {id : Word 8} {position : Word 4}
    (h : (Op.decode id position input).Arrives fs)
    (hsucceeds : (Op.decode id position input).Succeeds E) :
    (Op.decode id position input).Serves E isLast s fs := by
  obtain ⟨payload, b, rfl, hread, hsound⟩ := h
  obtain ⟨e, output, hrun, hpasses, htoken⟩ := hsucceeds s.engine b hsound
  obtain ⟨next, hencode, hmax, hback⟩ := passes_encoded hpasses
  have hstep : Stage.handle E isLast s ⟨.decode, id, 0, position, payload⟩ =
      some ({ s with
          engine := e
          calls := s.calls ++
            (if isLast then [.decode id position, .sample id] else [.decode id position]) },
        [if isLast then ⟨.token, id, 0, position, wordBytes (E.sampleArgmax e)⟩
         else ⟨.decode, id, 0, position, next⟩]) := by
    simp only [Stage.handle, Stage.onDecode, hread, hrun, hencode, Option.bind_eq_bind,
      Option.bind_some]
    cases isLast with
    | true =>
      have hsample : ¬ (E.sampleArgmax e).toInt < 0 := Int.not_lt.mpr htoken
      simp only [not_true_eq_false, if_false, reduceCtorEq, hsample, if_true, List.append_assoc]
      exact emit_single (by rw [length_wordBytes]; decide)
    | false => exact emit_single hmax
  refine Op.serves_single hstep rfl ?_ ?_
  · rintro rfl
    refine ⟨rfl, rfl, fun n hn => ?_⟩
    simp only [Op.replySize, Option.mem_def, Option.some.injEq] at hn
    rw [← hn]
    exact length_wordBytes _
  · intro hmiddle
    rw [if_neg hmiddle]
    exact ⟨next, output, rfl, hback, hpasses.1⟩

theorem serves_embed {id : Word 8} {nTokens : Word 4}
    (h : (Op.embed id nTokens input).Arrives fs)
    (hsucceeds : (Op.embed id nTokens input).Succeeds E) :
    (Op.embed id nTokens input).Serves E isLast s fs := by
  obtain ⟨payload, b, rfl, hread, hsound⟩ := h
  obtain ⟨e, output, terminals, hrun, hpasses, hcollect, hterminals⟩ := hsucceeds s.engine b hsound
  obtain ⟨next, hencode, hmax, hback⟩ := passes_encoded hpasses
  obtain ⟨last, hencodeLast, hmaxLast, -⟩ := passes_encoded hterminals
  have hstep : Stage.handle E isLast s ⟨.embed, id, nTokens, 0, payload⟩ =
      some ({ s with engine := e, calls := s.calls ++ [.embed id nTokens] },
        [if isLast then ⟨.terminals, id, nTokens, 0, last⟩
         else ⟨.embed, id, nTokens, 0, next⟩]) := by
    simp only [Stage.handle, Stage.onEmbed, hread, hrun, hencode, hcollect, hencodeLast,
      Option.bind_eq_bind, Option.bind_some]
    cases isLast with
    | true => exact emit_single hmaxLast
    | false => exact emit_single hmax
  refine Op.serves_single hstep rfl ?_ ?_
  · rintro rfl
    exact ⟨rfl, rfl, fun n hn => by simp [Op.replySize] at hn⟩
  · intro hmiddle
    rw [if_neg hmiddle]
    exact ⟨next, output, rfl, hback, hpasses.1⟩

theorem serves_execute {id : Word 8} {inv : Invocation}
    (h : (Op.execute id inv input).Arrives fs)
    (hsucceeds : (Op.execute id inv input).Succeeds E) :
    (Op.execute id inv input).Serves E isLast s fs := by
  obtain ⟨payload, r, rfl, hread, hadmitted, hsame⟩ := h
  obtain ⟨e, output, hrun, hsound, hfits⟩ := hsucceeds s.engine r hsame
  obtain ⟨last, hlast⟩ := Option.isSome_iff_exists.mp hfits.1
  obtain ⟨-, -, hmaxLast⟩ := decode_encoded hsound (encodeBoundary_of_bundle hlast)
  have hhop : ∃ next, encodeExecuteBundle r output = .ok next ∧ next.length ≤ maxFrameBytes ∧
      decodeExecuteBundle next = .ok (r.withTensors output) := by
    rcases encode_hop hadmitted hsound with ⟨-, hok⟩ | ⟨hnot, -⟩
    · exact hok
    · exact absurd hfits hnot
  obtain ⟨next, hnext, hmax, hback⟩ := hhop
  have hcalls : Call.execute id r.positions r.nSeqId r.seqIds r.output =
      .execute id inv.pos inv.nSeqId inv.seqId.flatten inv.output := by
    rw [hsame.positions, hsame.nSeqId, hsame.seqIds, hsame.output]
    rfl
  have hstep : Stage.handle E isLast s ⟨.execute, id, 0, 0, payload⟩ =
      some ({ s with
          engine := e
          calls := s.calls ++ [.execute id inv.pos inv.nSeqId inv.seqId.flatten inv.output] },
        [if isLast then ⟨.executeResult, id, 0, 0, last⟩ else ⟨.execute, id, 0, 0, next⟩]) := by
    simp only [Stage.handle, Stage.onExecute, hread, hrun, hlast, hnext, hcalls,
      Option.bind_eq_bind, Option.bind_some, Except.toOption]
    cases isLast with
    | true => exact emit_single hmaxLast
    | false => exact emit_single hmax
  refine Op.serves_single hstep rfl ?_ ?_
  · rintro rfl
    exact ⟨rfl, rfl, fun n hn => by simp [Op.replySize] at hn⟩
  · intro hmiddle
    rw [if_neg hmiddle]
    exact ⟨next, r.withTensors output, rfl, hback, hadmitted.withTensors hfits.total,
      hsame.withTensors hfits⟩

/-! ### Sequence states -/

theorem stateChunks_bounds (offset : ℕ) (data : Bytes) :
    ∀ chunk ∈ stateChunks offset data, 0 < chunk.2.length ∧ chunk.2.length ≤ stateChunkBytes := by
  induction offset, data using stateChunks.induct with
  | case1 offset => simp [stateChunks]
  | case2 offset b bs ih =>
    rw [stateChunks]
    intro chunk hchunk
    rcases List.mem_cons.mp hchunk with rfl | hchunk
    · have hpos : 0 < stateChunkBytes := by decide
      simp only [List.length_take, List.length_cons]
      omega
    · exact ih chunk hchunk

theorem chunkFrames_bounds (kind : FrameKind) (id : Word 8) (base : StateOp) (data : Bytes) :
    ∀ f ∈ chunkFrames kind id base data, f.kind = kind ∧ f.requestId = id ∧
      stateOpBytes ≤ f.payload.length ∧ f.payload.length ≤ maxFrameBytes := by
  intro f hf
  obtain ⟨chunk, hchunk, rfl⟩ := List.mem_map.mp hf
  have hmax := (stateChunks_bounds 0 data chunk hchunk).2
  have hroom : stateOpBytes + stateChunkBytes ≤ maxFrameBytes := by decide
  refine ⟨rfl, rfl, ?_, ?_⟩ <;> simp only [List.length_append, StateOp.length_bytes] <;> omega

theorem readAll_stateChunks {id : Word 8} {chunks : List Frame}
    (h : ∀ c ∈ chunks, c.kind = .stateChunk ∧ c.requestId = id ∧ stateOpBytes ≤ c.payload.length ∧
      c.payload.length ≤ maxFrameBytes) :
    readAll (Stage.handle E isLast) s chunks =
      some (s, chunks.map fun c => ⟨.stateChunk, id, 0, 0, c.payload⟩) := by
  induction chunks with
  | nil => rfl
  | cons c cs ih =>
    obtain ⟨hkind, hid, hmin, hmax⟩ := h c List.mem_cons_self
    have hstep : Stage.handle E isLast s c = some (s, [⟨.stateChunk, id, 0, 0, c.payload⟩]) := by
      simp only [Stage.handle, hkind, Stage.onStateChunk, if_neg (Nat.not_lt.mpr hmin), hid]
      exact emit_single hmax
    exact readAll_cons hstep (ih fun d hd => h d (List.mem_cons_of_mem c hd))

theorem serves_stateGet {id : Word 8} {seqId flags : Word 4}
    (h : (Op.stateGet id seqId flags).Arrives fs)
    (hsucceeds : (Op.stateGet id seqId flags).Succeeds E) :
    (Op.stateGet id seqId flags).Serves E isLast s fs := by
  obtain ⟨chunks, rfl, hchunks⟩ := h
  obtain ⟨data, hdata, -, -⟩ := hsucceeds s.engine
  set base : StateOp := { Op.getWire seqId flags with
    layerBegin := E.firstLayer, layerEnd := E.lastLayer, status := 1 } with hbase
  have hown := chunkFrames_bounds .stateChunk id base data
  have hstep : Stage.handle E isLast s ⟨.stateGet, id, 0, 0, (Op.getWire seqId flags).bytes⟩ =
      some ({ s with calls := s.calls ++ [.capture id seqId flags] },
        chunkFrames .stateChunk id base data ++
          [if isLast then ⟨.stateDone, id, 0, 0, base.bytes⟩
           else ⟨.stateGet, id, 0, 0, (Op.getWire seqId flags).bytes⟩]) := by
    simp only [Stage.handle, Stage.onStateGet, StateOp.length_bytes, StateOp.read_bytes]
    rw [if_neg (by simp), if_neg (by simp [Op.getWire])]
    show (E.getSequenceState s.engine seqId flags >>= _) = _
    rw [hdata]
    refine emit_some fun f hf => ?_
    rcases List.mem_append.mp hf with hf | hf
    · exact (hown f hf).2.2.2
    · rw [List.mem_singleton.mp hf]
      split_ifs <;> exact (StateOp.length_bytes _).trans_le stateOpBytes_le
  refine ⟨_, _, readAll_append (readAll_stateChunks hchunks) (readAll_single hstep), rfl, ?_⟩
  -- what came from the stages before, then this stage's own chunks
  set sent := chunks.map (fun c => (⟨.stateChunk, id, 0, 0, c.payload⟩ : Frame)) ++
    chunkFrames .stateChunk id base data with hsent
  have hall : ∀ c ∈ sent, c.kind = .stateChunk ∧ c.requestId = id ∧
      stateOpBytes ≤ c.payload.length ∧ c.payload.length ≤ maxFrameBytes := by
    intro c hc
    rcases List.mem_append.mp hc with hc | hc
    · obtain ⟨d, hd, rfl⟩ := List.mem_map.mp hc
      exact ⟨rfl, rfl, (hchunks d hd).2.2⟩
    · exact hown c hc
  rw [← List.append_assoc, ← hsent]
  split_ifs with hlast
  · refine ⟨sent, _, rfl, fun c hc => ?_, ?_⟩
    · obtain ⟨hkind, hid, hmin, -⟩ := hall c hc
      exact Op.verdict_more hid hkind hmin
    · refine Op.verdict_done rfl rfl fun n hn => ?_
      obtain rfl := Option.some.inj hn
      exact StateOp.length_bytes _
  · exact ⟨sent, rfl, hall⟩

/-- A stage that has begun on a sequence state takes all of its chunks, and keeps them
when it is the one meant. -/
theorem readAll_setChunks {id : Word 8} {wire : StateOp} {data : Bytes}
    (hversion : wire.version = 1) (htotal : wire.totalSize = BitVec.ofNat 64 data.length)
    (hlt : data.length < 2 ^ 64) (offset : ℕ) (left : Bytes) {taken : Bytes} {s : Stage ε}
    (hdata : data = taken ++ left) (hoffset : left ≠ [] → taken.length = offset)
    (hpending : s.pendingState = wire)
    (htaken : s.pendingStateData = if s.pendingStateTarget then taken else []) :
    let frames := (stateChunks offset left).map fun chunk =>
      (⟨.stateSetChunk, id, 0, 0, StateOp.bytes { wire with
        totalSize := BitVec.ofNat 64 data.length
        offset := BitVec.ofNat 64 chunk.1 } ++ chunk.2⟩ : Frame)
    readAll (Stage.handle E isLast) s frames =
      some ({ s with pendingStateData := if s.pendingStateTarget then data else [] },
        if isLast then [] else frames) := by
  induction offset, left using stateChunks.induct generalizing s taken with
  | case1 offset =>
    have hs : { s with pendingStateData := if s.pendingStateTarget then data else [] } = s := by
      rw [List.append_nil] at hdata
      rw [hdata, ← htaken]
    simp only [stateChunks, List.map_nil, readAll, ite_self, hs]
  | case2 offset b bs ih =>
    set left := b :: bs with hleft
    have hat : taken.length = offset := hoffset (List.cons_ne_nil b bs)
    set chunk := left.take stateChunkBytes with hchunk
    set here : StateOp := { wire with
      totalSize := BitVec.ofNat 64 data.length, offset := BitVec.ofNat 64 offset } with hhere
    have hsum : data.length = taken.length + left.length := by rw [hdata, List.length_append]
    have hpos : 0 < left.length := by rw [hleft, List.length_cons]; omega
    have hchunkle : chunk.length ≤ left.length := List.length_take_le' _ _
    have hsize : (BitVec.ofNat 64 data.length).toNat = data.length := Nat.mod_eq_of_lt hlt
    have hstart : (BitVec.ofNat 64 offset).toNat = offset := Nat.mod_eq_of_lt (by omega)
    have hread : StateOp.read (here.bytes ++ chunk) = here := StateOp.read_append here chunk
    have hdrop : (here.bytes ++ chunk).drop stateOpBytes = chunk :=
      List.drop_left' (StateOp.length_bytes here)
    have hmax : (here.bytes ++ chunk).length ≤ maxFrameBytes := by
      have hroom : stateOpBytes + stateChunkBytes ≤ maxFrameBytes := by decide
      have hlimit : chunk.length ≤ stateChunkBytes := List.length_take_le _ _
      rw [List.length_append, StateOp.length_bytes]
      omega
    have hstep : Stage.handle E isLast s ⟨.stateSetChunk, id, 0, 0, here.bytes ++ chunk⟩ =
        some ({ s with pendingStateData :=
            if s.pendingStateTarget then s.pendingStateData ++ chunk else s.pendingStateData },
          if isLast then [] else [⟨.stateSetChunk, id, 0, 0, here.bytes ++ chunk⟩]) := by
      have hlong : ¬ (here.bytes ++ chunk).length < stateOpBytes := by
        rw [List.length_append, StateOp.length_bytes]
        omega
      simp only [Stage.handle, Stage.onStateSetChunk, hread, hdrop, hpending]
      rw [if_neg hlong, if_neg, if_neg]
      · apply emit_some
        intro f hf
        split_ifs at hf
        · simp at hf
        · rw [List.mem_singleton.mp hf]
          exact hmax
      · rintro ⟨htarget, hne⟩
        apply hne
        rw [hhere, htaken, if_pos htarget, hstart, hat]
      · simp only [hhere, hversion, htotal, hsize, hstart, ne_eq, not_true_eq_false, false_or]
        omega
    have hdata' : data = taken ++ chunk ++ left.drop stateChunkBytes := by
      rw [hdata, List.append_assoc, hchunk, List.take_append_drop]
    have hoffset' : left.drop stateChunkBytes ≠ [] →
        (taken ++ chunk).length = offset + stateChunkBytes := by
      intro hmore
      have hlonger : stateChunkBytes < left.length := by
        by_contra hshort
        exact hmore (List.drop_eq_nil_of_le (Nat.not_lt.mp hshort))
      rw [List.length_append, hat, hchunk, List.length_take_of_le (Nat.le_of_lt hlonger)]
    have htaken' : (if s.pendingStateTarget then s.pendingStateData ++ chunk
        else s.pendingStateData) = if s.pendingStateTarget then taken ++ chunk else [] := by
      rw [htaken]
      split_ifs <;> rfl
    have hrest := ih (s := { s with pendingStateData :=
        if s.pendingStateTarget then s.pendingStateData ++ chunk else s.pendingStateData })
      hdata' hoffset' hpending htaken'
    have hsplit : stateChunks offset left =
        (offset, chunk) :: stateChunks (offset + stateChunkBytes) (left.drop stateChunkBytes) := by
      rw [hleft, stateChunks]
    simp only [hsplit, List.map_cons]
    have hall := readAll_cons hstep hrest
    rw [hall]
    cases isLast <;> rfl

/-- The stage once a sequence state was set, where its layers are the ones meant. -/
def Stage.restored (E : Engine ε) (s : Stage ε) (id : Word 8) (wire : StateOp) (data : Bytes) :
    Stage ε :=
  let cleared := { s with
    pendingState := wire, pendingStateData := [], pendingStateTarget := false }
  if wire.layerBegin = E.firstLayer ∧ wire.layerEnd = E.lastLayer then
    { cleared with
      engine := (E.setSequenceState s.engine wire.seqId wire.flags data).1
      calls := s.calls ++ [.restore id wire.seqId wire.flags data] }
  else cleared

def committed (E : Engine ε) (s : Stage ε) (wire : StateOp) (data : Bytes) (commit : StateOp) :
    StateOp :=
  if wire.layerBegin = E.firstLayer ∧ wire.layerEnd = E.lastLayer then
    { commit with
      status := if (E.setSequenceState s.engine wire.seqId wire.flags data).2 then 1 else 0
      offset := 1 }
  else commit

theorem readAll_stateSet (id : Word 8) {wire commit : StateOp} {data : Bytes}
    (hversion : wire.version = 1) (hstart : wire.offset = 0)
    (htotal : wire.totalSize = BitVec.ofNat 64 data.length) (hlt : data.length < 2 ^ 64)
    (hcommit : ∃ status offset, commit = { wire with status := status, offset := offset })
    (E : Engine ε) (isLast : Bool) (s : Stage ε) :
    readAll (Stage.handle E isLast) s
        (⟨.stateSetBegin, id, 0, 0, wire.bytes⟩ :: chunkFrames .stateSetChunk id wire data ++
          [⟨.stateSetCommit, id, 0, 0, commit.bytes⟩]) =
      some (s.restored E id wire data,
        if isLast then [⟨.stateAck, id, 0, 0, (committed E s wire data commit).bytes⟩]
        else ⟨.stateSetBegin, id, 0, 0, wire.bytes⟩ :: chunkFrames .stateSetChunk id wire data ++
          [⟨.stateSetCommit, id, 0, 0, (committed E s wire data commit).bytes⟩]) := by
  obtain ⟨status, offset, rfl⟩ := hcommit
  have hframe (o : StateOp) : o.bytes.length ≤ maxFrameBytes :=
    (StateOp.length_bytes o).trans_le stateOpBytes_le
  set target : Bool := decide (wire.layerBegin = E.firstLayer ∧ wire.layerEnd = E.lastLayer)
    with htarget
  -- the stage notes what is to come, and whether it is meant
  set begun : Stage ε := { s with
    pendingState := wire, pendingStateTarget := target, pendingStateData := [] } with hbegun
  have hbegin : Stage.handle E isLast s ⟨.stateSetBegin, id, 0, 0, wire.bytes⟩ =
      some (begun, if isLast then [] else [⟨.stateSetBegin, id, 0, 0, wire.bytes⟩]) := by
    simp only [Stage.handle, Stage.onStateSetBegin, StateOp.length_bytes, StateOp.read_bytes]
    rw [if_neg (by simp), if_neg (by simp [hversion, hstart])]
    apply emit_some
    intro f hf
    split_ifs at hf
    · simp at hf
    · rw [List.mem_singleton.mp hf]
      exact hframe wire
  -- it takes the chunks
  have hempty : begun.pendingStateData = if begun.pendingStateTarget then [] else [] := by
    rw [ite_self]
  have hchunks : readAll (Stage.handle E isLast) begun (chunkFrames .stateSetChunk id wire data) =
      some ({ begun with pendingStateData := if begun.pendingStateTarget then data else [] },
        if isLast then [] else chunkFrames .stateSetChunk id wire data) :=
    readAll_setChunks hversion htotal hlt 0 data (List.nil_append data).symm (fun _ => rfl) rfl
      hempty
  set filled : Stage ε := { begun with
    pendingStateData := if begun.pendingStateTarget then data else [] } with hfilled
  -- and sets the state when they are complete
  set commit : StateOp := { wire with status := status, offset := offset } with hcommit
  have hsize : (BitVec.ofNat 64 data.length).toNat = data.length := Nat.mod_eq_of_lt hlt
  have hend : Stage.handle E isLast filled ⟨.stateSetCommit, id, 0, 0, commit.bytes⟩ =
      some (s.restored E id wire data, [⟨if isLast then .stateAck else .stateSetCommit, id, 0, 0,
        (committed E s wire data commit).bytes⟩]) := by
    simp only [Stage.handle, Stage.onStateSetCommit, StateOp.length_bytes, StateOp.read_bytes]
    rw [if_neg (by simp), if_neg (by simp [hcommit, hfilled, hbegun, hversion])]
    by_cases hmeant : wire.layerBegin = E.firstLayer ∧ wire.layerEnd = E.lastLayer
    · have htrue : filled.pendingStateTarget = true := decide_eq_true hmeant
      have hdata : filled.pendingStateData = data := if_pos htrue
      have hlength : ¬ filled.pendingStateData.length ≠ commit.totalSize.toNat := by
        rw [hdata, hcommit, htotal, hsize]
        exact not_not.mpr rfl
      rw [if_neg (not_not.mpr htrue), if_neg hlength, hdata]
      simp only [Stage.restored, committed, if_pos hmeant]
      exact emit_single (hframe _)
    · have hfalse : ¬ filled.pendingStateTarget = true := by
        show ¬ target = true
        rw [htarget, decide_eq_true_eq]
        exact hmeant
      have hnone : filled.pendingStateData = [] := if_neg hfalse
      rw [if_pos hfalse]
      simp only [Stage.restored, committed, if_neg hmeant]
      exact emit_single (hframe _)
  rw [List.cons_append, readAll_cons hbegin (readAll_append hchunks (readAll_single hend))]
  cases isLast <;> rfl

theorem serves_stateSet {id : Word 8} {seqId flags layerBegin layerEnd : Word 4} {data : Bytes}
    (h : (Op.stateSet id seqId flags layerBegin layerEnd data).Arrives fs)
    (hissued : (Op.stateSet id seqId flags layerBegin layerEnd data).Issued) :
    (Op.stateSet id seqId flags layerBegin layerEnd data).Serves E isLast s fs := by
  obtain ⟨status, offset, rfl⟩ := h
  set wire := Op.setWire seqId flags layerBegin layerEnd data with hwire
  set commit : StateOp := { wire with status := status, offset := offset } with hcommit
  have hread := readAll_stateSet id (show wire.version = 1 from rfl) (show wire.offset = 0 from rfl)
    (show wire.totalSize = BitVec.ofNat 64 data.length from rfl) hissued
    (show ∃ status offset, commit = { wire with status := status, offset := offset } from
      ⟨status, offset, rfl⟩) E isLast s
  refine ⟨_, _, hread, ?_, ?_⟩
  · simp only [Stage.restored, Op.calls]
    show Stage.calls (if layerBegin = E.firstLayer ∧ layerEnd = E.lastLayer then _ else _) = _
    split_ifs
    · rfl
    · exact (List.append_nil _).symm
  · split_ifs with hlast
    · refine Op.answers_single rfl rfl fun n hn => ?_
      obtain rfl := Option.some.inj hn
      exact StateOp.length_bytes _
    · unfold committed
      by_cases hmeant : wire.layerBegin = E.firstLayer ∧ wire.layerEnd = E.lastLayer
      · rw [if_pos hmeant]
        exact ⟨_, _, rfl⟩
      · rw [if_neg hmeant]
        exact ⟨status, offset, rfl⟩

/-- Every stage serves every operation that was issued within the limits and that its
engine succeeds with. -/
theorem Op.serves {op : Op} (hissued : op.Issued) (hsucceeds : op.Succeeds E)
    (h : op.Arrives fs) : op.Serves E isLast s fs := by
  cases op with
  | reset id => exact serves_reset h
  | memory id op => exact serves_memory h hsucceeds
  | prefill id position input => exact serves_prefill h hsucceeds
  | decode id position input => exact serves_decode h hsucceeds
  | execute id inv input => exact serves_execute h hsucceeds
  | embed id nTokens input => exact serves_embed h hsucceeds
  | stateGet id seqId flags => exact serves_stateGet h hsucceeds
  | stateSet id seqId flags layerBegin layerEnd data => exact serves_stateSet h hissued

theorem Op.arrives_send {op : Op} (hissued : op.Issued) : op.Arrives op.task.frames := by
  cases op with
  | reset id => rfl
  | memory id op => rfl
  | prefill id position input =>
    obtain ⟨payload, hencode, -, hread⟩ := passes_encoded hissued
    exact ⟨payload, input, by simp [Op.task, Op.send, hencode], hread, hissued.1⟩
  | decode id position input =>
    obtain ⟨payload, hencode, -, hread⟩ := passes_encoded hissued
    exact ⟨payload, input, by simp [Op.task, Op.send, hencode], hread, hissued.1⟩
  | execute id inv input =>
    obtain ⟨hlimits, hsound, hsome⟩ := hissued
    cases hsend : inv.request input with
    | error f => simp [hsend, Except.toOption] at hsome
    | ok payload =>
      obtain ⟨hadmitted, hread, -, -, hboundary, -, -⟩ := request_spec hlimits hsound hsend
      exact ⟨payload, inv.bundle input, by simp [Op.task, Op.send, hsend, Except.toOption], hread,
        hadmitted, rfl, rfl, rfl, rfl, rfl, hboundary⟩
  | embed id nTokens input =>
    obtain ⟨payload, hencode, -, hread⟩ := passes_encoded hissued
    exact ⟨payload, input, by simp [Op.task, Op.send, hencode], hread, hissued.1⟩
  | stateGet id seqId flags => exact ⟨[], rfl, fun c hc => absurd hc List.not_mem_nil⟩
  | stateSet id seqId flags layerBegin layerEnd data => exact ⟨0, 0, rfl⟩

end

end KvasirNet.Ring
