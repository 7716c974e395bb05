import KvasirNet.RingBundle
import KvasirNet.RingOps

/-! The coordinator of a ring (`ring-executor.cpp`): its two edges, the callbacks that llama.cpp makes
of it, and all it sends and receives for them. What the operating system, the neighbours and the
context answer is given with each call. -/
namespace KvasirNet.RingExecutor
open KvasirNet.Ring

/-! ## Data -/

structure HelloPayload where
  nEmbd : Word 4
  layerBegin : Word 4
  layerEnd : Word 4
  adapterAbi : Word 4
  buildFingerprint : Word 8
  deriving DecidableEq

def helloBytes : ℕ := 24

def HelloPayload.bytes (h : HelloPayload) : Bytes :=
  wordBytes h.nEmbd ++ (wordBytes h.layerBegin ++ (wordBytes h.layerEnd ++
    (wordBytes h.adapterAbi ++ wordBytes h.buildFingerprint)))

def HelloPayload.read (bs : Bytes) : HelloPayload where
  nEmbd := word 4 bs
  layerBegin := word 4 (bs.drop 4)
  layerEnd := word 4 (bs.drop 8)
  adapterAbi := word 4 (bs.drop 12)
  buildFingerprint := word 8 (bs.drop 16)

def adapterAbi : Word 4 := 6

/-- The options and constants of a build; `dialPrev` says that there is an endpoint for it. -/
structure Options where
  acceptNext : Bool
  dialPrev : Bool
  layerBegin : Word 4
  layerEnd : Word 4
  nEmbd : Word 4
  buildFingerprint : Word 8

def rolePred : UInt8 := 0x50

/-- What comes of one `accept`: no socket, one that closes before its role byte, or one with it. -/
inductive Accepted
  | failed
  | silent
  | role (byte : UInt8)
  deriving DecidableEq

/-- The answers a call gets: whether the endpoints are reached and take the role byte, the accepted
sockets, whether frames go out, and the frames that come in before the connection ends. -/
structure Net where
  dialNext : Bool
  roleNext : Bool
  dialPrev : Bool
  rolePrev : Bool
  accepts : List Accepted
  sends : List Bool
  frames : List Frame

inductive Event
  | obtained (fd : ℕ)
  | sent (next prev : Option ℕ) (f : Frame)
  | received (next prev : Option ℕ) (f : Frame)
  | captured
  | returned (ok : Bool) (next prev : Option ℕ)
  deriving DecidableEq

/-- The sockets are numbered as they are obtained; none of them is closed by a call. The latest event
stands first. -/
structure Coordinator where
  listener : Bool
  prev : Option ℕ
  next : Option ℕ
  nextRequestId : Word 8
  cachedState : Bytes
  cachedStateSeqId : Word 4
  cachedStateFlags : Word 4
  cachedStateValid : Bool
  obtained : ℕ
  trace : List Event

def Coordinator.start (listener : Bool) : Coordinator :=
  ⟨listener, none, none, 1, [], BitVec.ofInt 32 (-1), 0, false, 0, []⟩

/-- A coordinator in a call, with what is left of the answers, and the frames that went out. -/
structure Session extends Coordinator where
  sends : List Bool
  frames : List Frame
  delivered : List Frame

abbrev Result := Bool × Session

namespace Session

variable (s : Session)

def note (e : Event) : Session := { s with trace := e :: s.trace }

/-- A socket that was obtained, before it is put anywhere. -/
def obtain : Session := { s.note (.obtained s.obtained) with obtained := s.obtained + 1 }

/-- `send_frame(next_fd, …)`. -/
def send (kind : FrameKind) (id : Word 8) (payload : Bytes) : Result :=
  let f : Frame := ⟨kind, id, 0, 0, payload⟩
  (s.sends.headD false,
    { s.note (.sent s.next s.prev f) with
      sends := s.sends.tail
      delivered := if s.sends.headD false then s.delivered ++ [f] else s.delivered })

/-- `recv_frame(prev_fd, …)`. -/
def recv : Option Frame × Session :=
  match s.frames with
  | [] => (none, s)
  | f :: fs => (some f, { s.note (.received s.next s.prev f) with frames := fs })

/-- `next_request_id++`. -/
def takeId : Session := { s with nextRequestId := s.nextRequestId + 1 }

end Session

/-- A step that follows when the one before it went well. -/
def Result.andThen (r : Result) (k : Session → Result) : Result :=
  if r.1 then k r.2 else r

/-! ## Connecting -/

section Connect
variable (o : Options) (net : Net)

def Options.accepts : ℕ := (if o.acceptNext then 1 else 0) + if o.dialPrev then 0 else 1

/-- The socket is assigned also when nothing was reached. -/
def dialNext (s : Session) : Result :=
  if o.acceptNext then (true, s)
  else if net.dialNext then (net.roleNext, { s.obtain with next := some s.obtained })
  else (false, { s with next := none })

def dialPrev (s : Session) : Result :=
  if o.dialPrev then
    if net.dialPrev then (net.rolePrev, { s.obtain with prev := some s.obtained })
    else (false, { s with prev := none })
  else (true, s)

/-- Every role byte but one makes the socket the next one's. -/
def accept : ℕ → List Accepted → Session → Result
  | 0, _, s => (true, s)
  | _ + 1, [], s => (false, s)
  | _ + 1, .failed :: _, s => (false, s)
  | _ + 1, .silent :: _, s => (false, s.obtain)
  | n + 1, .role byte :: rest, s =>
    if byte = rolePred then accept n rest { s.obtain with prev := some s.obtained }
    else accept n rest { s.obtain with next := some s.obtained }

def Options.hello : HelloPayload :=
  ⟨o.nEmbd, o.layerBegin, o.layerEnd, adapterAbi, o.buildFingerprint⟩

def Options.matches (f : Frame) : Bool :=
  f.kind = .hello ∧ f.payload.length = helloBytes ∧
    (HelloPayload.read f.payload).nEmbd = o.nEmbd ∧
    (HelloPayload.read f.payload).adapterAbi = adapterAbi ∧
    (HelloPayload.read f.payload).buildFingerprint = o.buildFingerprint

def exchangeHello (s : Session) : Result :=
  (s.send .hello 0 o.hello.bytes).andThen fun s =>
    match s.recv with
    | (none, s) => (false, s)
    | (some f, s) => (o.matches f, s)

/-- Both edges are there; the listener is not needed any more. -/
def finishRing (s : Session) : Result :=
  let s := { s with listener := false }
  if s.prev = none ∨ s.next = none then (false, s) else exchangeHello o s

def connectRing (s : Session) : Result :=
  if s.prev ≠ none ∧ s.next ≠ none then (true, s)
  else if 0 < o.accepts ∧ s.listener = false then (false, s)
  else
    (dialNext o net s).andThen fun s => (dialPrev o net s).andThen fun s =>
      (accept o.accepts net.accepts s).andThen fun s => finishRing o s

end Connect

/-! ## The callbacks -/

/-- The context an operation runs in: the outputs of its graph, and what it expects of the last
stage's. -/
structure Context where
  boundary : Option BoundaryBundle
  terminalCount : ℕ
  terminalDesc : ℕ → Option (Word 4 × Word 8 × (Fin 4 → Word 8))
  terminalSet : ℕ → Bytes → Bool

/-- The results of the last stage are put into the context, each when it has the expected form. -/
def Context.take (ctx : Context) (payload : Bytes) : Bool :=
  match decodeBoundary payload with
  | .error _ => false
  | .ok terminals =>
    decide (ctx.terminalCount = terminals.length) &&
      terminals.zipIdx.all fun t =>
        decide (ctx.terminalDesc t.2 = some (t.1.desc.type, t.1.desc.nbytes, t.1.desc.ne)) &&
          ctx.terminalSet t.2 (terminals.source t.1)

/-- `llama_linkcpp_state_invocation`; `output` is the capacity of the buffer, when there is one, and the
size of the input is a 64-bit number. -/
structure StateInvocation where
  version : Word 4
  op : Word 4
  seqId : Word 4
  flags : Word 4
  output : Option ℕ
  input : Option Bytes
  reserved : Word 4
  input_size : ∀ data ∈ input, data.length < 2 ^ 64

/-- A call; the invocation of a null pointer is none. -/
inductive Callback
  | execute (ctx : Context) (inv : Option Invocation)
  | memory (inv : Option MemoryOp)
  | state (inv : Option StateInvocation)

section Callbacks
variable (o : Options) (net : Net)

def execute (ctx : Context) (inv : Invocation) (s : Session) : Result :=
  if inv.version ≠ 1 then (false, s)
  else (connectRing o net s).andThen fun s =>
    match ctx.boundary.bind fun b => (inv.request b).toOption with
    | none => (false, s)
    | some payload =>
      let id := s.nextRequestId
      (s.takeId.send .execute id payload).andThen fun s =>
        match s.recv with
        | (none, s) => (false, s)
        | (some f, s) =>
          (decide (f.kind = .executeResult ∧ f.requestId = id) && ctx.take f.payload, s)

def memoryOk (op : MemoryOp) : Bool :=
  op.version = 1 ∧ op.reserved = 0 ∧ 1 ≤ op.op.toNat ∧ op.op.toNat ≤ 6

def memory (op : MemoryOp) (s : Session) : Result :=
  if memoryOk op = false then (false, s)
  else if s.next = none ∨ s.prev = none then (true, s)
  else
    let id := s.nextRequestId
    (s.takeId.send .memory id op.bytes).andThen fun s =>
      match s.recv with
      | (none, s) => (false, s)
      | (some f, s) => (decide (f.kind = .ack ∧ f.requestId = id ∧ f.payload = []), s)

/-- `LLAMA_STATE_SEQ_FLAGS_ON_DEVICE`. -/
def onDevice (flags : Word 4) : Bool := flags.getLsbD 1

/-- The frames that a loop has taken from those that came in. -/
def Session.took (s : Session) (left : List Frame) : Session :=
  { s with
    trace := ((s.frames.take (s.frames.length - left.length)).map
      (Event.received s.next s.prev)).reverse ++ s.trace
    frames := left }

def collectRemoteState (seqId flags : Word 4) (s : Session) : Result :=
  (connectRing o net s).andThen fun s =>
    if onDevice flags then (false, s)
    else
      let id := s.nextRequestId
      (s.takeId.send .stateGet id (Op.getWire seqId flags).bytes).andThen fun s =>
        match collect o.layerEnd id [] s.frames with
        | (none, left) => (false, s.took left)
        | (some entries, left) =>
          match encodeStateBundle entries with
          | none => (false, s.took left)
          | some data =>
            (true, { (s.took left).note .captured with
              cachedState := data
              cachedStateSeqId := seqId
              cachedStateFlags := flags
              cachedStateValid := true })

/-- An answer that the state of an entry was set. -/
def ackOk (e : StateEntry) (f : Frame) : Bool :=
  f.payload.length = stateOpBytes ∧ (StateOp.read f.payload).version = 1 ∧
    (StateOp.read f.payload).status ≠ 0 ∧ (StateOp.read f.payload).offset = 1 ∧
    (StateOp.read f.payload).layerBegin = e.layerBegin ∧
    (StateOp.read f.payload).layerEnd = e.layerEnd ∧
    (StateOp.read f.payload).totalSize = e.totalSize

/-- `send_frame` of one after the other. -/
def sendAll : List Frame → Session → Result
  | [], s => (true, s)
  | f :: fs, s => (s.send f.kind f.requestId f.payload).andThen (sendAll fs)

/-- The frames that set the state of an entry. -/
def setFrames (id : Word 8) (seqId flags : Word 4) (e : StateEntry) : List Frame :=
  let wire : StateOp := ⟨1, seqId, flags, e.layerBegin, e.layerEnd, 0, e.totalSize, 0⟩
  ⟨.stateSetBegin, id, 0, 0, wire.bytes⟩ :: chunkFrames .stateSetChunk id wire e.data ++
    [⟨.stateSetCommit, id, 0, 0, wire.bytes⟩]

def restoreEntries (seqId flags : Word 4) : List StateEntry → Session → Result
  | [], s => (true, s)
  | e :: es, s =>
    let id := s.nextRequestId
    (sendAll (setFrames id seqId flags e) s.takeId).andThen fun s =>
      match s.recv with
      | (none, s) => (false, s)
      | (some f, s) =>
        if f.kind = .stateAck ∧ f.requestId = id ∧ ackOk e f then restoreEntries seqId flags es s
        else (false, s)

instance decidableContiguous : (layer : Word 4) → (entries : List StateEntry) →
    Decidable (Contiguous layer entries)
  | _, [] => isTrue trivial
  | layer, e :: es =>
    have := decidableContiguous e.layerEnd es
    inferInstanceAs (Decidable (e.layerBegin = layer ∧ Contiguous e.layerEnd es))

def restoreRemoteState (seqId flags : Word 4) (data : Bytes) (s : Session) : Result :=
  match decodeStateBundle data with
  | none => (false, s)
  | some entries =>
    if entries = [] ∨ ¬ Contiguous o.layerEnd entries then (false, s)
    else (restoreEntries seqId flags entries s).andThen fun s =>
      (true, { s with cachedStateValid := false, cachedState := [] })

def StateInvocation.ok (inv : StateInvocation) : Bool :=
  inv.version = 1 ∧ inv.reserved = 0 ∧ 1 ≤ inv.op.toNat ∧ inv.op.toNat ≤ 3 ∧
    onDevice inv.flags = false

def Coordinator.cacheMatches (c : Coordinator) (inv : StateInvocation) : Bool :=
  c.cachedStateValid && decide (c.cachedStateSeqId = inv.seqId) &&
    decide (c.cachedStateFlags = inv.flags)

def getSize (inv : StateInvocation) (s : Session) : Result :=
  collectRemoteState o net inv.seqId inv.flags s

/-- The bytes that are given out are those of `cachedState` afterwards. -/
def getData (inv : StateInvocation) (s : Session) : Result :=
  Result.andThen (if s.cacheMatches inv then (true, s)
    else collectRemoteState o net inv.seqId inv.flags s) fun s =>
      (inv.output.any fun capacity => s.cachedState.length ≤ capacity, s)

def setData (inv : StateInvocation) (s : Session) : Result :=
  match inv.input with
  | none => (false, s)
  | some data =>
    if data = [] then (false, s)
    else (connectRing o net s).andThen (restoreRemoteState o inv.seqId inv.flags data)

def state (inv : StateInvocation) (s : Session) : Result :=
  if inv.ok = false then (false, s)
  else if inv.op = 1 then getSize o net inv s
  else if inv.op = 2 then getData o net inv s
  else setData o net inv s

def Callback.body : Callback → Session → Result
  | .execute _ none, s => (false, s)
  | .execute ctx (some inv), s => RingExecutor.execute o net ctx inv s
  | .memory none, s => (false, s)
  | .memory (some op), s => RingExecutor.memory op s
  | .state none, s => (false, s)
  | .state (some inv), s => RingExecutor.state o net inv s

def Coordinator.begin (c : Coordinator) (net : Net) : Session :=
  { c with sends := net.sends, frames := net.frames, delivered := [] }

def Coordinator.run (c : Coordinator) (f : Callback) : Result := f.body o net (c.begin net)

def Coordinator.call (c : Coordinator) (f : Callback) : Bool × Coordinator :=
  let r := c.run o net f
  (r.1, (r.2.note (.returned r.1 r.2.next r.2.prev)).toCoordinator)

end Callbacks

end KvasirNet.RingExecutor
