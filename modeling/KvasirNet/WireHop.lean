import KvasirNet.WireEvent

/-! The P4H1 hop frames: the encoders and `decodeHop`. The digest function is a
parameter. -/
namespace KvasirNet.Wire

/-- `P4H1` in ASCII. -/
def hopMagic : Bytes := [0x50, 0x34, 0x48, 0x31]

def hopVersion : ℕ := 1

inductive HopKind
  | hello
  | helloAck
  | data
  | receipt
  | receiptAck
  | query
  | queryResult
  deriving DecidableEq, Repr

def HopKind.code : HopKind → UInt8
  | hello => 1
  | helloAck => 2
  | data => 3
  | receipt => 4
  | receiptAck => 5
  | query => 6
  | queryResult => 7

/-- The `RECEIPT` table. -/
def receiptName : UInt8 → Option String
  | 1 => some "accepted_exact"
  | 2 => some "rejected"
  | 3 => some "conflict"
  | 4 => some "unknown"
  | _ => none

inductive Hop
  | helloAck (acceptedGeneration : ℕ) (senderId : String) (generation maxOutstanding : ℕ)
      (maxReceiptBytes : ℕ)
  | data (attempt : ℕ) (digest event : Bytes)
  | receipt (attempt : ℕ) (digest : Bytes) (status : UInt8) (detail : String)
  | queryResult (attempt : ℕ) (digest : Bytes) (status : UInt8) (detail : String)
  | receiptAck (senderId : String) (generation attempt : ℕ) (digest : Bytes)
  | query (senderId : String) (generation attempt : ℕ) (digest : Bytes)
  deriving DecidableEq, Repr

def hopHeader (kind : HopKind) : Bytes :=
  hopMagic ++ (leBytes 2 hopVersion ++ (leBytes 2 0 ++ [kind.code]))

def hopHello (senderId : String) (generation maxOutstanding maxReceiptBytes : ℕ) :
    Except WireError Bytes := do
  let senderId ← text senderId
  let generation ← u64 generation
  let maxOutstanding ← u32 maxOutstanding
  let maxReceiptBytes ← u64 maxReceiptBytes
  return hopHeader .hello ++ senderId ++ generation ++ maxOutstanding ++ maxReceiptBytes

/-- The digest and the frame of `hopData`. -/
def hopData (sha256 : Bytes → Bytes) (attempt : ℕ) (event : Bytes) :
    Except WireError (Bytes × Bytes) := do
  let digest := sha256 event
  let attempt ← u64 attempt
  let length ← u32 event.length
  return (digest, hopHeader .data ++ attempt ++ digest ++ length ++ event)

/-- `kind === 'receipt' ? HOP.receipt : HOP.queryResult`, with `isReceipt` for
the comparison. -/
def hopReceipt (isReceipt : Bool) (attempt : ℕ) (digest : Bytes) (status : UInt8)
    (detail : String) : Except WireError Bytes := do
  let attempt ← u64 attempt
  let detail ← text detail
  return hopHeader (if isReceipt then .receipt else .queryResult) ++ attempt ++ digest ++
    [status] ++ detail

def hopReceiptAck (senderId : String) (generation attempt : ℕ) (digest : Bytes) :
    Except WireError Bytes := do
  let senderId ← text senderId
  let generation ← u64 generation
  let attempt ← u64 attempt
  return hopHeader .receiptAck ++ senderId ++ generation ++ attempt ++ digest

namespace Cursor

def helloAckBody : Cursor Hop := do
  let acceptedGeneration ← u64
  let senderId ← text
  let generation ← u64
  let maxOutstanding ← u32
  let maxReceiptBytes ← u64
  return .helloAck acceptedGeneration senderId generation maxOutstanding maxReceiptBytes

def dataBody (sha256 : Bytes → Bytes) : Cursor Hop := do
  let attempt ← u64
  let digest ← take 32
  let event ← block
  if sha256 event ≠ digest then throw .digestMismatch
  else return .data attempt digest event

def receiptBody (isReceipt : Bool) : Cursor Hop := do
  let attempt ← u64
  let digest ← take 32
  let status ← byte
  let detail ← text
  if (receiptName status).isNone then throw .invalidReceiptStatus
  else return if isReceipt then .receipt attempt digest status detail
    else .queryResult attempt digest status detail

def ackBody (isAck : Bool) : Cursor Hop := do
  let senderId ← text
  let generation ← u64
  let attempt ← u64
  let digest ← take 32
  return if isAck then .receiptAck senderId generation attempt digest
    else .query senderId generation attempt digest

def hopBody (sha256 : Bytes → Bytes) (kind : UInt8) : Cursor Hop :=
  if kind = HopKind.helloAck.code then helloAckBody
  else if kind = HopKind.data.code then dataBody sha256
  else if kind = HopKind.receipt.code ∨ kind = HopKind.queryResult.code then
    receiptBody (kind = HopKind.receipt.code)
  else if kind = HopKind.receiptAck.code ∨ kind = HopKind.query.code then
    ackBody (kind = HopKind.receiptAck.code)
  else throw (.unexpectedHopKind kind)

end Cursor

def decodeHop (sha256 : Bytes → Bytes) (frame : Bytes) : Except WireError Hop :=
  if frame.length < 9 ∨ frame.take 4 ≠ hopMagic then .error .invalidHopMagic
  else if leValue ((frame.drop 4).take 2) ≠ hopVersion ∨ leValue ((frame.drop 6).take 2) ≠ 0 then
    .error .unsupportedHopVersion
  else
    match Cursor.hopBody sha256 (frame.getD 8 0) (frame.drop 9) with
    | .error e => .error e
    | .ok (value, rest) => if rest ≠ [] then .error .trailingHop else .ok value

end KvasirNet.Wire
