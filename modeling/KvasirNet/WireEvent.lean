import KvasirNet.DoubleNat
import KvasirNet.Utf8Text

/-! The P4E3 event codec of the OUTER client: `encodeEvent`, the `Cursor` and
`decodeEvent`. A JavaScript number read from eight bytes is the nearest double,
and a text read from bytes has its malformed parts replaced; both are kept. -/
namespace KvasirNet.Wire

inductive WireError
  | truncated
  | invalidOptionalFlag
  | invalidEndpointKind
  | invalidEventMagic
  | eventLengthMismatch
  | unsupportedEventVersion
  | trailingEnvelope
  | invalidHopMagic
  | unsupportedHopVersion
  | digestMismatch
  | invalidReceiptStatus
  | unexpectedHopKind (kind : UInt8)
  | trailingHop
  /-- The `RangeError` of a buffer write whose value does not fit. -/
  | outOfRange
  deriving DecidableEq, Repr

def WireError.message : WireError → String
  | truncated => "truncated P4 envelope"
  | invalidOptionalFlag => "invalid optional flag"
  | invalidEndpointKind => "invalid endpoint kind"
  | invalidEventMagic => "invalid P4 event magic"
  | eventLengthMismatch => "P4 event frame length mismatch"
  | unsupportedEventVersion => "unsupported P4 event version"
  | trailingEnvelope => "trailing P4 envelope bytes"
  | invalidHopMagic => "invalid P4 hop magic"
  | unsupportedHopVersion => "unsupported P4 hop version"
  | digestMismatch => "P4 hop data digest mismatch"
  | invalidReceiptStatus => "invalid P4 hop receipt status"
  | unexpectedHopKind kind => "unexpected P4 hop frame kind " ++ toString kind.toNat
  | trailingHop => "trailing P4 hop bytes"
  | outOfRange => "The value of \"value\" is out of range."

/-- `P4E3` in ASCII. -/
def eventMagic : Bytes := [0x50, 0x34, 0x45, 0x33]

def protocolVersion : ℕ := 3

inductive EventClass
  | control
  | data
  | output
  | telemetry
  deriving DecidableEq, Repr

def EventClass.code : EventClass → UInt8
  | control => 0
  | data => 1
  | output => 2
  | telemetry => 3

/-- `CLASS_NAME[code]`: past the table the name is undefined. -/
def className (code : UInt8) : Option EventClass :=
  [EventClass.control, .data, .output, .telemetry][code.toNat]?

structure OuterRoute where
  ingressAgent : String
  channel : String
  connectionGeneration : ℕ
  deriving DecidableEq, Repr

inductive Endpoint
  | agent (address : String)
  | node (agent node : String) (generation : ℕ)
  | outer (route : OuterRoute)
  deriving DecidableEq, Repr

/-- What `decodeEvent` returns beside the payload. `eventClass` is `none` where
the source has `undefined`. -/
structure EventMeta where
  eventId : String
  correlationId : String
  causationId : Option String
  source : Endpoint
  target : Endpoint
  returnRoute : Option OuterRoute
  eventClass : Option EventClass
  sequence : ℕ
  deadlineUnixMs : Option ℕ
  adapterKind : Option String
  contentType : String
  deriving DecidableEq, Repr

/-! ### Encoding -/

def uint (width value : ℕ) : Except WireError Bytes :=
  if value < 256 ^ width then .ok (leBytes width value) else .error .outOfRange

def u16 (value : ℕ) : Except WireError Bytes := uint 2 value

def u32 (value : ℕ) : Except WireError Bytes := uint 4 value

def u64 (value : ℕ) : Except WireError Bytes := uint 8 value

def text (value : String) : Except WireError Bytes := do
  let body := utf8 value
  let head ← u32 body.length
  return head ++ body

/-- The return route is an OUTER endpoint written without its kind byte. -/
def encodeOuterBody (route : OuterRoute) : Except WireError Bytes := do
  let ingressAgent ← text route.ingressAgent
  let channel ← text route.channel
  let generation ← u64 route.connectionGeneration
  return ingressAgent ++ channel ++ generation

def encodeEndpoint : Endpoint → Except WireError Bytes
  | .agent address => do
    let address ← text address
    return 0 :: address
  | .node agent node generation => do
    let agent ← text agent
    let node ← text node
    let generation ← u64 generation
    return 1 :: (agent ++ node ++ generation)
  | .outer route => do
    let body ← encodeOuterBody route
    return 2 :: body

def encodeOptional {α : Type} (write : α → Except WireError Bytes) :
    Option α → Except WireError Bytes
  | none => .ok [0]
  | some a => do
    let body ← write a
    return 1 :: body

/-- `CLASS[eventClass] ?? 0`. -/
def classByte (eventClass : Option EventClass) : UInt8 := (eventClass.map EventClass.code).getD 0

/-- The parts `encodeEvent` joins before the two lengths. A causation id is
never written; a deadline of zero and an empty adapter kind count as absent. -/
def encodeEnvelope (m : EventMeta) : Except WireError Bytes := do
  let version ← u16 protocolVersion
  let eventId ← text m.eventId
  let correlationId ← text m.correlationId
  let source ← encodeEndpoint m.source
  let target ← encodeEndpoint m.target
  let returnRoute ← encodeOptional encodeOuterBody m.returnRoute
  let sequence ← u64 m.sequence
  let deadline ← encodeOptional u64 (m.deadlineUnixMs.filter (· ≠ 0))
  let adapterKind ← encodeOptional text (m.adapterKind.filter (· ≠ ""))
  let contentType ← text m.contentType
  return version ++ eventId ++ correlationId ++ [0] ++ source ++ target ++ returnRoute ++
    [classByte m.eventClass] ++ sequence ++ deadline ++ adapterKind ++ contentType

def encodeEvent (m : EventMeta) (payload : Option Bytes) : Except WireError Bytes := do
  let envelope ← encodeEnvelope m
  let body := payload.getD []
  let envelopeLen ← u32 envelope.length
  let payloadLen ← u32 body.length
  return eventMagic ++ envelopeLen ++ payloadLen ++ envelope ++ body

/-! ### Decoding -/

/-- The unread bytes stand for the buffer and the offset. -/
abbrev Cursor := Reader WireError

namespace Cursor

def take (n : ℕ) : Cursor Bytes := Reader.take .truncated n

def byte : Cursor UInt8 := do
  let bs ← take 1
  return bs.headD 0

def uint (width : ℕ) : Cursor ℕ := do
  let bs ← take width
  return leValue bs

def u16 : Cursor ℕ := uint 2

def u32 : Cursor ℕ := uint 4

/-- `Number(readBigUInt64LE)`: the nearest double. -/
def u64 : Cursor ℕ := do
  let n ← uint 8
  return toNumber n

/-- `take(u32())`. -/
def block : Cursor Bytes := do
  let length ← u32
  take length

def text : Cursor String := do
  let body ← block
  return ofUtf8 body

def optional {α : Type} (read : Cursor α) : Cursor (Option α) := do
  let flag ← byte
  if flag ≠ 0 ∧ flag ≠ 1 then throw .invalidOptionalFlag
  else if flag = 1 then do
    let value ← read
    return some value
  else return none

def outerBody : Cursor OuterRoute := do
  let ingressAgent ← text
  let channel ← text
  let connectionGeneration ← u64
  return { ingressAgent, channel, connectionGeneration }

def endpoint : Cursor Endpoint := do
  let kind ← byte
  if kind = 0 then do
    let address ← text
    return .agent address
  else if kind = 1 then do
    let agent ← text
    let node ← text
    let generation ← u64
    return .node agent node generation
  else if kind = 2 then do
    let route ← outerBody
    return .outer route
  else throw .invalidEndpointKind

/-- The fields in the order the object literal reads them. -/
def envelope : Cursor EventMeta := do
  let version ← u16
  if version ≠ protocolVersion then throw .unsupportedEventVersion
  else do
    let eventId ← text
    let correlationId ← text
    let causationId ← optional text
    let source ← endpoint
    let target ← endpoint
    let returnRoute ← optional outerBody
    let code ← byte
    let sequence ← u64
    let deadlineUnixMs ← optional u64
    let adapterKind ← optional text
    let contentType ← text
    return { eventId, correlationId, causationId, source, target, returnRoute,
             eventClass := className code, sequence, deadlineUnixMs, adapterKind, contentType }

end Cursor

def decodeEvent (frame : Bytes) : Except WireError (EventMeta × Bytes) :=
  if frame.length < 12 ∨ frame.take 4 ≠ eventMagic then .error .invalidEventMagic
  else
    let envelopeLen := leValue ((frame.drop 4).take 4)
    let payloadLen := leValue ((frame.drop 8).take 4)
    if frame.length ≠ 12 + envelopeLen + payloadLen then .error .eventLengthMismatch
    else
      match Cursor.envelope ((frame.drop 12).take envelopeLen) with
      | .error e => .error e
      | .ok (m, rest) =>
        if rest ≠ [] then .error .trailingEnvelope
        else .ok (m, frame.drop (12 + envelopeLen))

def sampleMeta (eventClass : Option EventClass) : EventMeta where
  eventId := "e"
  correlationId := "c"
  causationId := none
  source := .agent "a"
  target := .agent "b"
  returnRoute := none
  eventClass := eventClass
  sequence := 1
  deadlineUnixMs := none
  adapterKind := none
  contentType := "t"

/-- Its frame, with the given class byte and no payload. -/
def sampleFrame (code : UInt8) : Bytes :=
  [0x50, 0x34, 0x45, 0x33, 42, 0, 0, 0, 0, 0, 0, 0,
   3, 0, 1, 0, 0, 0, 0x65, 1, 0, 0, 0, 0x63, 0,
   0, 1, 0, 0, 0, 0x61, 0, 1, 0, 0, 0, 0x62, 0, code,
   1, 0, 0, 0, 0, 0, 0, 0, 0, 0, 1, 0, 0, 0, 0x74]

end KvasirNet.Wire
