import KvasirNet.TableSum
import KvasirNet.ChunkFeed
import KvasirNet.WireHop

/-! The OUTER client: one connection, its frames and the callers behind it. The
handlers that subscribe to a request run synchronously; they keep a state of
their own, may unsubscribe and may throw, and are a parameter. Every effect a
caller or the peer can see is recorded in `log`, oldest first. -/
namespace KvasirNet.Wire

def maxFrame : ℕ := 64 * 1024 * 1024

inductive ClientError
  | wire (e : WireError)
  | helloMismatch
  | receiptConflict
  | unexpectedQueryResult
  | notOpen
  | oversized (size : ℕ)
  | refused (status : UInt8) (detail : String)
  | connectionClosed
  /-- An error the socket emitted. -/
  | socket
  /-- An error a handler threw. -/
  | callback
  | finishing
  | closed
  deriving DecidableEq, Repr

/-- The texts, with the parts of a template joined. A refusal is also trimmed. -/
def ClientError.message : ClientError → String
  | wire e => e.message
  | helloMismatch => "P4 hop hello acknowledgement mismatch"
  | receiptConflict => "P4 hop receipt conflicts with outstanding request"
  | unexpectedQueryResult => "unexpected P4 hop frame query_result"
  | notOpen => "P4 connection is not open"
  | oversized size => "P4 frame exceeds bound: " ++ toString size
  | refused status detail =>
    "P4 refused the request: " ++ (receiptName status).getD "undefined" ++ " " ++ detail
  | connectionClosed => "P4 connection closed"
  | socket => "socket error"
  | callback => "handler error"
  | finishing => "P4 connection is finishing"
  | closed => "P4 connection is closed"

inductive Message
  | event (m : EventMeta) (payload : Bytes)
  | error (e : ClientError) (correlationId : Option String)
  deriving DecidableEq, Repr

inductive Output
  /-- `_deliver` was entered; `via` is the attempt of the hop frame. -/
  | deliver (via : Option ℕ) (m : EventMeta) (payload : Bytes)
  | subscriptionCalled (correlationId : String) (handler : ℕ) (msg : Message)
  | waiterResolved (correlationId : String) (waiter : ℕ) (m : EventMeta) (payload : Bytes)
  | waiterRejected (correlationId : String) (waiter : ℕ) (e : ClientError)
  | listenerCalled (listener : ℕ) (msg : Message)
  | sent (frame : Bytes)
  | finishAcked
  | helloResolved
  | helloRejected (e : ClientError)
  /-- `_fail` was entered. -/
  | failed (e : ClientError)
  deriving DecidableEq, Repr

structure Reaction (σ : Type) where
  state : σ
  unsubscribed : List String
  throws : Bool

structure Handlers (σ : Type) where
  subscription : ℕ → Message → σ → Reaction σ
  listener : ℕ → Message → σ → Reaction σ

structure Pending where
  digest : Bytes
  correlationId : String
  deriving DecidableEq, Repr

structure OuterClient (σ : Type) where
  address : String
  channel : String
  connectionGeneration : ℕ
  deadlineMs : ℕ
  hop : Bool
  sequence : ℕ
  attempt : ℕ
  maxOutstanding : ℕ
  outstanding : Table ℕ Pending
  received : Table ℕ Bytes
  waiters : Table String ℕ
  subscriptions : Table String ℕ
  listeners : List ℕ
  /-- `this.socket` is set. -/
  socket : Bool
  closed : Bool
  finishing : Bool
  /-- `this._finishAck` is set. -/
  finishAck : Bool
  /-- `this._helloResolve` and `this._helloReject` are set. -/
  hello : Bool
  peerSenderId : Option String
  peerGeneration : Option ℕ
  /-- The state of the handlers. -/
  env : σ
  log : List Output

/-- What a method leaves behind, and what it throws. -/
abbrev Effect (σ : Type) := OuterClient σ × Option ClientError

namespace OuterClient

variable {σ : Type}

def create (address channel : String) (connectionGeneration maxOutstanding deadlineMs : ℕ)
    (hop : Bool) (env : σ) : OuterClient σ where
  address := address
  channel := channel
  connectionGeneration := connectionGeneration
  deadlineMs := deadlineMs
  hop := hop
  sequence := 0
  attempt := 1
  maxOutstanding := maxOutstanding
  outstanding := ∅
  received := ∅
  waiters := ∅
  subscriptions := ∅
  listeners := []
  socket := false
  closed := false
  finishing := false
  finishAck := false
  hello := false
  peerSenderId := none
  peerGeneration := none
  env := env
  log := []

def senderId (c : OuterClient σ) : String := c.address ++ "#" ++ c.channel

def outer (c : OuterClient σ) : OuterRoute := ⟨c.address, c.channel, c.connectionGeneration⟩

def record (c : OuterClient σ) (o : Output) : OuterClient σ := { c with log := c.log ++ [o] }

def react (c : OuterClient σ) (o : Output) (r : Reaction σ) : OuterClient σ :=
  { c with
    env := r.state
    subscriptions := r.unsubscribed.foldl (fun t id => t.erase id) c.subscriptions
    log := c.log ++ [o] }

/-- `_sendFrame`; the frame is encoded before it is called. -/
def sendFrame (c : OuterClient σ) : Except WireError Bytes → Effect σ
  | .error e => (c, some (.wire e))
  | .ok frame =>
    if c.socket then
      match u32 frame.length with
      | .error e => (c, some (.wire e))
      | .ok _ => (c.record (.sent frame), none)
    else (c, some .notOpen)

def close (c : OuterClient σ) : OuterClient σ := { c with closed := true, socket := false }

section
variable (H : Handlers σ)

def callListeners (msg : Message) : List ℕ → OuterClient σ → Effect σ
  | [], c => (c, none)
  | l :: ls, c =>
    let r := H.listener l msg c.env
    let c := c.react (.listenerCalled l msg) r
    if r.throws then (c, some .callback) else callListeners msg ls c

/-- `_fail`. Nothing rejects an outstanding send: `send` stores no `reject`. An
exception of a listener leaves the method. -/
def fail (c : OuterClient σ) (e : ClientError) : OuterClient σ :=
  let c := c.record (.failed e)
  if c.closed then c
  else
    let c := { c with
      closed := true
      waiters := ∅
      outstanding := ∅
      hello := false
      log := c.log ++ c.waiters.entries.map (fun w => .waiterRejected w.1 w.2 e) ++
        if c.hello then [.helloRejected e] else [] }
    (callListeners H (.error e none) c.listeners c).1

/-- `_deliver`: a subscription before a waiter, a waiter before the listeners. -/
def deliver (via : Option ℕ) (m : EventMeta) (payload : Bytes) (c : OuterClient σ) : Effect σ :=
  let c := c.record (.deliver via m payload)
  match c.subscriptions.lookup m.correlationId with
  | some h =>
    let r := H.subscription h (.event m payload) c.env
    (c.react (.subscriptionCalled m.correlationId h (.event m payload)) r,
      if r.throws then some .callback else none)
  | none =>
    match c.waiters.lookup m.correlationId with
    | some w =>
      ({ c with
          waiters := c.waiters.erase m.correlationId
          log := c.log ++ [.waiterResolved m.correlationId w m payload] }, none)
    | none => callListeners H (.event m payload) c.listeners c

def deliverFrame (via : Option ℕ) (frame : Bytes) (c : OuterClient σ) : Effect σ :=
  match decodeEvent frame with
  | .error e => (c, some (.wire e))
  | .ok (m, payload) => deliver H via m payload c

def refuse (pending : Pending) (e : ClientError) (c : OuterClient σ) : Effect σ :=
  match c.waiters.lookup pending.correlationId with
  | some w =>
    ({ c with
        waiters := c.waiters.erase pending.correlationId
        log := c.log ++ [.waiterRejected pending.correlationId w e] }, none)
  | none => callListeners H (.error e (some pending.correlationId)) c.listeners c

/-- `_onFrame` after `decodeHop`. -/
def onHop (c : OuterClient σ) : Hop → Effect σ
  | .helloAck acceptedGeneration senderId generation maxOutstanding _ =>
    if acceptedGeneration ≠ c.connectionGeneration then (c, some .helloMismatch)
    else
      ({ c with
          peerSenderId := some senderId
          peerGeneration := some generation
          maxOutstanding := min c.maxOutstanding maxOutstanding
          hello := false
          log := c.log ++ if c.hello then [.helloResolved] else [] }, none)
  | .receipt attempt digest status detail =>
    match c.outstanding.lookup attempt with
    | none => (c, some .receiptConflict)
    | some pending =>
      if pending.digest ≠ digest then (c, some .receiptConflict)
      else
        let c := { c with outstanding := c.outstanding.erase attempt }
        if status ≠ 1 then refuse H pending (.refused status detail) c
        else c.sendFrame (hopReceiptAck c.senderId c.connectionGeneration attempt digest)
  | .data attempt digest event =>
    match c.received.lookup attempt with
    | some seen =>
      if seen = digest then c.sendFrame (hopReceipt true attempt digest 1 "")
      else c.sendFrame (hopReceipt true attempt digest 3 "attempt digest differs")
    | none =>
      let c := { c with received := c.received.insert attempt digest }
      match c.sendFrame (hopReceipt true attempt digest 1 "") with
      | (c, some e) => (c, some e)
      | (c, none) => deliverFrame H (some attempt) event c
  | .receiptAck senderId generation attempt digest =>
    if c.peerSenderId = some senderId ∧ c.peerGeneration = some generation ∧
        c.received.lookup attempt = some digest then
      ({ c with received := c.received.erase attempt }, none)
    else (c, none)
  | .query _ _ attempt digest =>
    match c.received.lookup attempt with
    | none => c.sendFrame (hopReceipt false attempt digest 4 "receipt is not pinned")
    | some seen =>
      if seen = digest then c.sendFrame (hopReceipt false attempt digest 1 "")
      else c.sendFrame (hopReceipt false attempt digest 3 "attempt digest differs")
  | .queryResult .. => (c, some .unexpectedQueryResult)

/-- The `catch` of `_onData`. -/
def settle : Effect σ → OuterClient σ × Bool
  | (c, none) => (c, false)
  | (c, some e) => (c.fail H e, true)

def onFrame (sha256 : Bytes → Bytes) (c : OuterClient σ) (frame : Bytes) : Effect σ :=
  match decodeHop sha256 frame with
  | .error e => (c, some (.wire e))
  | .ok hop => c.onHop H hop

end
end OuterClient

/-! ### The rolling buffer -/

inductive Item
  /-- A FINISH acknowledgement, of length zero. -/
  | finish
  | frame (bytes : Bytes)

def nextFrame (buffer : Bytes) : Head UInt8 Item ℕ :=
  if buffer.length < 4 then .more
  else
    let size := leValue (buffer.take 4)
    if size = 0 then .item .finish (buffer.drop 4)
    else if size > maxFrame then .stuck size
    else if buffer.length < 4 + size then .more
    else .item (.frame ((buffer.drop 4).take size)) (buffer.drop (4 + size))

theorem nextFrame_stuck {b : Bytes} {size : ℕ} (h : nextFrame b = .stuck size) :
    4 ≤ b.length ∧ size = leValue (b.take 4) ∧ size ≠ 0 ∧ maxFrame < size := by
  simp only [nextFrame] at h
  split at h
  · cases h
  · split at h
    · cases h
    · split at h
      · cases h
        exact ⟨by omega, rfl, by assumption, by assumption⟩
      · split at h <;> cases h

theorem nextFrame_item {b rest : Bytes} {i : Item} (h : nextFrame b = .item i rest) :
    4 ≤ b.length ∧
      ((leValue (b.take 4) = 0 ∧ i = .finish ∧ rest = b.drop 4) ∨
        (leValue (b.take 4) ≠ 0 ∧ leValue (b.take 4) ≤ maxFrame ∧
          4 + leValue (b.take 4) ≤ b.length ∧
          i = .frame ((b.drop 4).take (leValue (b.take 4))) ∧
          rest = b.drop (4 + leValue (b.take 4)))) := by
  simp only [nextFrame] at h
  split at h
  · cases h
  · split at h
    · cases h
      exact ⟨by omega, .inl ⟨by assumption, rfl, rfl⟩⟩
    · split at h
      · cases h
      · split at h
        · cases h
        · cases h
          exact ⟨by omega, .inr ⟨by assumption, by omega, by omega, rfl, rfl⟩⟩

/-- Once the length is there, it stays; once the frame is there, so does it. -/
def framing : Framing UInt8 Item ℕ where
  next := nextFrame
  stuck_append := by
    intro b size h x
    obtain ⟨hlen, hsize, hzero, hbig⟩ := nextFrame_stuck h
    have hhead : (b ++ x).take 4 = b.take 4 := List.take_append_of_le_length hlen
    have hlong : ¬(b ++ x).length < 4 := by
      rw [List.length_append]
      omega
    simp only [nextFrame, if_neg hlong, hhead, ← hsize, if_neg hzero, if_pos hbig]
  item_append := by
    intro b i rest h x
    obtain ⟨hlen, hcase⟩ := nextFrame_item h
    have hhead : (b ++ x).take 4 = b.take 4 := List.take_append_of_le_length hlen
    have hlong : ¬(b ++ x).length < 4 := by
      rw [List.length_append]
      omega
    rcases hcase with ⟨hzero, rfl, rfl⟩ | ⟨hzero, hbound, hfull, rfl, rfl⟩
    · simp only [nextFrame, if_neg hlong, hhead, if_pos hzero, List.drop_append_of_le_length hlen]
    · have henough : ¬(b ++ x).length < 4 + leValue (b.take 4) := by
        rw [List.length_append]
        omega
      have hbody : ((b ++ x).drop 4).take (leValue (b.take 4)) =
          (b.drop 4).take (leValue (b.take 4)) := by
        rw [List.drop_append_of_le_length hlen]
        apply List.take_append_of_le_length
        rw [List.length_drop]
        omega
      simp only [nextFrame, if_neg hlong, hhead, if_neg hzero, if_neg (not_lt.mpr hbound),
        if_neg henough, hbody, List.drop_append_of_le_length hfull]
  item_shorter := by
    intro b i rest h
    obtain ⟨hlen, hcase⟩ := nextFrame_item h
    rcases hcase with ⟨_, _, rfl⟩ | ⟨_, _, _, _, rfl⟩
    · rw [List.length_drop]
      omega
    · rw [List.length_drop]
      omega

section
variable {σ : Type} (H : Handlers σ) (sha256 : Bytes → Bytes)

/-- One turn of the loop of `_onData`. -/
def onItem (c : OuterClient σ) : Item → OuterClient σ × Bool
  | .finish => if c.finishAck then ((c.record .finishAcked).close, false) else (c, false)
  | .frame bytes =>
    OuterClient.settle H
      (if c.hop then c.onFrame H sha256 bytes else c.deliverFrame H none bytes)

def consumer : Consumer (OuterClient σ) Item ℕ where
  act := onItem H sha256
  jam c size := c.fail H (.oversized size)

/-- A client with `this.buffer`. -/
structure Outer (σ : Type) where
  client : OuterClient σ
  buffer : Bytes

/-- `_onData`. -/
def Outer.onData (o : Outer σ) (chunk : Bytes) : Outer σ :=
  let d := drain framing (consumer H sha256) o.client (o.buffer ++ chunk)
  ⟨d.state, d.buffer⟩

/-! ### The callers -/

structure SendOptions where
  adapterKind : Option String
  eventClass : EventClass
  deadlineMs : Option ℕ
  correlationId : Option String

/-- `send` at time `now`: the client afterwards, and the event id or what was
thrown. -/
def OuterClient.send (c : OuterClient σ) (target : Endpoint) (contentType : String)
    (payload : Bytes) (options : SendOptions) (now : ℕ) : OuterClient σ × Except ClientError String :=
  if c.finishing then (c, .error .finishing)
  else if c.closed then (c, .error .closed)
  else
    let c := { c with sequence := c.sequence + 1 }
    let eventId := c.channel ++ ":" ++ toString c.sequence
    let event := encodeEvent
      { eventId, correlationId := options.correlationId.getD eventId, causationId := none,
        source := .outer c.outer, target, returnRoute := some c.outer,
        eventClass := some options.eventClass, sequence := c.sequence,
        deadlineUnixMs := some (now + options.deadlineMs.getD c.deadlineMs),
        adapterKind := options.adapterKind, contentType } (some payload)
    match event with
    | .error e => (c, .error (.wire e))
    | .ok event =>
      if c.hop then
        let attempt := c.attempt
        let c := { c with attempt := attempt + 1 }
        match hopData sha256 attempt event with
        | .error e => (c, .error (.wire e))
        | .ok (digest, frame) =>
          let pending := ⟨digest, options.correlationId.getD eventId⟩
          let c := { c with outstanding := c.outstanding.insert attempt pending }
          match c.sendFrame (.ok frame) with
          | (c, some e) => (c, .error e)
          | (c, none) => (c, .ok eventId)
      else
        match c.sendFrame (.ok event) with
        | (c, some e) => (c, .error e)
        | (c, none) => (c, .ok eventId)

/-- `exchange`; a send that throws leaves no waiter. -/
def OuterClient.exchange (c : OuterClient σ) (waiter : ℕ) (target : Endpoint) (contentType : String)
    (payload : Bytes) (options : SendOptions) (now : ℕ) : OuterClient σ :=
  match c.send sha256 target contentType payload options now with
  | (c, .error _) => c
  | (c, .ok eventId) => { c with waiters := c.waiters.insert (options.correlationId.getD eventId) waiter }

/-- `finish`. -/
def OuterClient.finish (c : OuterClient σ) : OuterClient σ :=
  if c.finishing then c
  else ({ c with finishing := true, finishAck := true }.sendFrame (.ok [])).1

/-- The socket's `connect` event. -/
def OuterClient.connected (c : OuterClient σ) : OuterClient σ :=
  let c := { c with socket := true }
  if c.hop then
    ({ c with hello := true }.sendFrame
      (hopHello c.senderId c.connectionGeneration c.maxOutstanding (64 * 1024 * 1024))).1
  else c

inductive ClientAction
  | connected
  | data (chunk : Bytes)
  | socketError
  | socketClosed
  | subscribe (correlationId : String) (handler : ℕ)
  | unsubscribe (correlationId : String)
  | listen (listener : ℕ)
  | unlisten (listener : ℕ)
  | send (target : Endpoint) (contentType : String) (payload : Bytes) (options : SendOptions)
      (now : ℕ)
  | exchange (waiter : ℕ) (target : Endpoint) (contentType : String) (payload : Bytes)
      (options : SendOptions) (now : ℕ)
  /-- The timer of an exchange. -/
  | expire (correlationId : String)
  | finish
  | close

def Outer.step (o : Outer σ) : ClientAction → Option (Outer σ)
  | .connected => some { o with client := o.client.connected }
  | .data chunk => some (o.onData H sha256 chunk)
  | .socketError => some { o with client := o.client.fail H .socket }
  | .socketClosed => some { o with client := o.client.fail H .connectionClosed }
  | .subscribe id h =>
    some { o with client := { o.client with subscriptions := o.client.subscriptions.insert id h } }
  | .unsubscribe id =>
    some { o with client := { o.client with subscriptions := o.client.subscriptions.erase id } }
  | .listen l =>
    some { o with client := { o.client with
      listeners := if l ∈ o.client.listeners then o.client.listeners else o.client.listeners ++ [l] } }
  | .unlisten l =>
    some { o with client := { o.client with listeners := o.client.listeners.filter (· ≠ l) } }
  | .send target contentType payload options now =>
    some { o with client := (o.client.send sha256 target contentType payload options now).1 }
  | .exchange w target contentType payload options now =>
    some { o with client := o.client.exchange sha256 w target contentType payload options now }
  | .expire id =>
    some { o with client := { o.client with waiters := o.client.waiters.erase id } }
  | .finish => some { o with client := o.client.finish }
  | .close => some { o with client := o.client.close }

end
end KvasirNet.Wire
