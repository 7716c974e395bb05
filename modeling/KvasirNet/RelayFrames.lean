import KvasirNet.ChunkFeed
import KvasirNet.SocketChunks
import KvasirNet.Utf8Text
import Mathlib.Data.List.Infix
import Mathlib.Data.List.Flatten

/-! The frames between the bridge and the relay clients: the bridge's `encodeFrame` and
`FrameDecoder`, and the hand-written clients of the phone and of the dial script. -/
namespace KvasirNet.Relay

/-! ### Frames -/

/-- The low `width` bytes of a number, most significant first. -/
def beBytes (width n : ℕ) : Bytes := (leBytes width n).reverse

def beValue (bs : Bytes) : ℕ := leValue bs.reverse

/-- The second byte of a frame and the longer forms of its length. -/
def lengthBytes (bit : UInt8) (n : ℕ) : Bytes :=
  if n < 126 then [bit ||| UInt8.ofNat n]
  else if n < 65536 then (bit ||| 126) :: beBytes 2 n
  else (bit ||| 127) :: beBytes 8 n

/-- Every byte against its byte of the mask; without a mask nothing changes. -/
def xorMask (mask payload : Bytes) : Bytes :=
  payload.mapIdx fun i b => b ^^^ mask.getD (i % 4) 0

def encodeFrame (opcode : UInt8) (payload : Bytes) : Bytes :=
  (0x80 ||| opcode) :: (lengthBytes 0 payload.length ++ payload)

/-- `wsSend` of both clients of the phone, with the mask it draws. -/
def wsSend (mask data : Bytes) : Bytes :=
  0x82 :: (lengthBytes 0x80 data.length ++ (mask ++ xorMask mask data))

/-- `ws_send_binary` of the dial script: a mask of zeros. -/
def wsSendBinary (payload : Bytes) : Bytes :=
  0x82 :: (lengthBytes 0x80 payload.length ++ ([0, 0, 0, 0] ++ payload))

/-- The answer to a ping: its length is one byte. -/
def pongFrame (mask payload : Bytes) : Bytes :=
  0x8A :: (0x80 ||| UInt8.ofNat payload.length) :: (mask ++ xorMask mask payload)

/-- How many bytes of length follow the second byte of a frame. -/
def lengthWidth (second : UInt8) : ℕ :=
  if second &&& 0x7f = 126 then 2 else if second &&& 0x7f = 127 then 8 else 0

def announced (second : UInt8) (ext : Bytes) : ℕ :=
  if lengthWidth second = 0 then (second &&& 0x7f).toNat else beValue ext

def maskWidth (second : UInt8) : ℕ := if second &&& 0x80 = 0 then 0 else 4

/-! ### The bridge's decoder -/

structure Frame where
  opcode : UInt8
  payload : Bytes
  deriving DecidableEq, Repr

structure CloseCode where
  code : ℕ
  reason : String
  deriving DecidableEq, Repr

def maxFrameBytes : ℕ := 16 * 1024 * 1024

/-- One turn of the loop of `FrameDecoder.push`. -/
def nextFrame (requireMask : Bool) : Bytes → Head UInt8 Frame CloseCode
  | first :: second :: body =>
    if body.length < lengthWidth second then .more
    else if maxFrameBytes < announced second (body.take (lengthWidth second)) then
      .stuck ⟨1009, "frame too large"⟩
    else if requireMask = true ∧ second &&& 0x80 = 0 then
      .stuck ⟨1002, "client frames must be masked"⟩
    else if body.length < lengthWidth second + maskWidth second then .more
    else if body.length < lengthWidth second + maskWidth second +
        announced second (body.take (lengthWidth second)) then .more
    else
      let length := announced second (body.take (lengthWidth second))
      let body := body.drop (lengthWidth second)
      let mask := body.take (maskWidth second)
      let body := body.drop (maskWidth second)
      .item ⟨first &&& 0x0f, xorMask mask (body.take length)⟩ (body.drop length)
  | _ => .more

/-- A frame taken apart: where its length, its mask and its payload stand. -/
structure Laid (requireMask : Bool) (first second : UInt8) (ext mask payload : Bytes) : Prop where
  lengthExt : ext.length = lengthWidth second
  small : announced second ext ≤ maxFrameBytes
  masked : ¬(requireMask = true ∧ second &&& 0x80 = 0)
  lengthMask : mask.length = maskWidth second
  lengthPayload : payload.length = announced second ext

variable {requireMask : Bool} {mask : Bytes}

theorem nextFrame_laid {first second : UInt8} {ext payload : Bytes}
    (h : Laid requireMask first second ext mask payload) (rest : Bytes) :
    nextFrame requireMask (first :: second :: (ext ++ (mask ++ (payload ++ rest)))) =
      .item ⟨first &&& 0x0f, xorMask mask payload⟩ rest := by
  have hext : (ext ++ (mask ++ (payload ++ rest))).take (lengthWidth second) = ext :=
    List.take_left' h.lengthExt
  have hafter : (ext ++ (mask ++ (payload ++ rest))).drop (lengthWidth second) =
      mask ++ (payload ++ rest) := List.drop_left' h.lengthExt
  have hlen : (ext ++ (mask ++ (payload ++ rest))).length =
      lengthWidth second + maskWidth second + announced second ext + rest.length := by
    simp only [List.length_append, h.lengthExt, h.lengthMask, h.lengthPayload]
    omega
  have hsmall : ¬ maxFrameBytes < announced second ext := Nat.not_lt.mpr h.small
  simp only [nextFrame, hext, hafter, hlen, if_neg hsmall, if_neg h.masked,
    List.take_left' h.lengthMask, List.drop_left' h.lengthMask, List.take_left' h.lengthPayload,
    List.drop_left' h.lengthPayload]
  rw [if_neg (by omega), if_neg (by omega), if_neg (by omega)]

variable {rest : Bytes}

theorem nextFrame_item {b : Bytes} {f : Frame}
    (h : nextFrame requireMask b = .item f rest) :
    ∃ first second ext mask payload, Laid requireMask first second ext mask payload ∧
      b = first :: second :: (ext ++ (mask ++ (payload ++ rest))) ∧
      f = ⟨first &&& 0x0f, xorMask mask payload⟩ := by
  match b, h with
  | [], h => cases h
  | [_], h => cases h
  | first :: second :: body, h =>
    simp only [nextFrame] at h
    split_ifs at h with hwidth hbig hmask hroom hfull
    obtain ⟨rfl, rfl⟩ := Head.item.inj h
    have hext : (body.take (lengthWidth second)).length = lengthWidth second :=
      List.length_take_of_le (by omega)
    refine ⟨first, second, body.take (lengthWidth second),
      (body.drop (lengthWidth second)).take (maskWidth second),
      ((body.drop (lengthWidth second)).drop (maskWidth second)).take
        (announced second (body.take (lengthWidth second))), ⟨hext, Nat.le_of_not_lt hbig, hmask, ?_, ?_⟩,
      ?_, rfl⟩
    · apply List.length_take_of_le
      rw [List.length_drop]
      omega
    · apply List.length_take_of_le
      rw [List.length_drop, List.length_drop]
      omega
    · rw [List.take_append_drop, List.take_append_drop, List.take_append_drop]

theorem nextFrame_stuck {b : Bytes} {e : CloseCode}
    (h : nextFrame requireMask b = .stuck e) (x : Bytes) :
    nextFrame requireMask (b ++ x) = .stuck e := by
  match b, h with
  | [], h => cases h
  | [_], h => cases h
  | first :: second :: body, h =>
    simp only [nextFrame] at h
    split_ifs at h with hwidth hbig hmask hroom hfull
    all_goals
      have hext : (body ++ x).take (lengthWidth second) = body.take (lengthWidth second) :=
        List.take_append_of_le_length (by omega)
      have hlong : ¬(body ++ x).length < lengthWidth second := by
        rw [List.length_append]
        omega
      rw [← h]
    · simp only [List.cons_append, nextFrame, hext, if_neg hlong, if_pos hbig]
    · simp only [List.cons_append, nextFrame, hext, if_neg hlong, if_neg hbig, if_pos hmask]

/-- The decoder as a division of its buffer: what follows a frame does not change it. -/
def framing (requireMask : Bool) : Framing UInt8 Frame CloseCode where
  next := nextFrame requireMask
  stuck_append h x := nextFrame_stuck h x
  item_append := by
    intro b f rest h x
    obtain ⟨first, second, ext, mask, payload, hlaid, rfl, rfl⟩ := nextFrame_item h
    have happend : first :: second :: (ext ++ (mask ++ (payload ++ rest))) ++ x =
        first :: second :: (ext ++ (mask ++ (payload ++ (rest ++ x)))) := by
      simp only [List.cons_append, List.append_assoc]
    rw [happend]
    exact nextFrame_laid hlaid _
  item_shorter := by
    intro b f rest h
    obtain ⟨first, second, ext, mask, payload, hlaid, rfl, rfl⟩ := nextFrame_item h
    simp only [List.length_cons, List.length_append]
    omega

/-- What the decoder has called: `onData`, `onPing` and `onClose`. -/
structure Called where
  data : List Bytes
  pings : List Bytes
  closed : List CloseCode
  deriving DecidableEq, Repr

def Called.none : Called := ⟨[], [], []⟩

/-- An empty payload is not handed on, and a pong needs no answer. -/
def decoder : Consumer Called Frame CloseCode where
  act s f :=
    if f.opcode = 2 ∨ f.opcode = 0 ∨ f.opcode = 1 then
      (if f.payload = [] then s else { s with data := s.data ++ [f.payload] }, false)
    else if f.opcode = 9 then ({ s with pings := s.pings ++ [f.payload] }, false)
    else if f.opcode = 8 then ({ s with closed := s.closed ++ [⟨1000, "peer closed"⟩] }, true)
    else (s, false)
  jam s e := { s with closed := s.closed ++ [e] }

/-! ### Lengths and masks -/

theorem length_beBytes (width n : ℕ) : (beBytes width n).length = width := by
  rw [beBytes, List.length_reverse, length_leBytes]

variable {n : ℕ}

theorem beValue_beBytes {width : ℕ} (h : n < 256 ^ width) : beValue (beBytes width n) = n := by
  rw [beBytes, beValue, List.reverse_reverse, leValue_leBytes h]

theorem xorMask_length (mask payload : Bytes) : (xorMask mask payload).length = payload.length :=
  List.length_mapIdx

theorem xorMask_xorMask (mask payload : Bytes) : xorMask mask (xorMask mask payload) = payload := by
  apply List.ext_getElem?
  intro i
  rw [xorMask, xorMask, List.getElem?_mapIdx, List.getElem?_mapIdx]
  cases payload[i]? with
  | none => rfl
  | some b =>
    simp only [Option.map_some, Option.some.injEq]
    rw [UInt8.xor_assoc, UInt8.xor_self, UInt8.xor_zero]

theorem xorMask_zero (hmask : ∀ i, mask.getD i 0 = 0) (payload : Bytes) :
    xorMask mask payload = payload := by
  apply List.ext_getElem?
  intro i
  rw [xorMask, List.getElem?_mapIdx]
  cases payload[i]? with
  | none => rfl
  | some b => rw [Option.map_some, hmask, UInt8.xor_zero]

theorem short_bits (n : Fin 126) :
    (UInt8.ofNat n &&& 0x7f).toNat = n.val ∧ UInt8.ofNat n &&& 0x80 = 0 ∧
      ((0x80 ||| UInt8.ofNat n) &&& 0x7f).toNat = n.val ∧ (0x80 ||| UInt8.ofNat n) &&& 0x80 = 0x80 := by
  revert n
  decide

theorem lengthBytes_spec {bit : UInt8} (hbit : bit = 0 ∨ bit = 0x80) (hn : n < 2 ^ 64) :
    ∃ second ext, lengthBytes bit n = second :: ext ∧ ext.length = lengthWidth second ∧
      announced second ext = n ∧ second &&& 0x80 = bit := by
  by_cases hshort : n < 126
  · have hbits := short_bits ⟨n, hshort⟩
    have hsecond : ((bit ||| UInt8.ofNat n) &&& 0x7f).toNat = n ∧
        (bit ||| UInt8.ofNat n) &&& 0x80 = bit := by
      rcases hbit with rfl | rfl
      · rw [UInt8.zero_or]
        exact ⟨hbits.1, hbits.2.1⟩
      · exact hbits.2.2
    have hwidth : lengthWidth (bit ||| UInt8.ofNat n) = 0 := by
      unfold lengthWidth
      rw [if_neg, if_neg]
      · intro h
        rw [h] at hsecond
        have : (127 : UInt8).toNat = 127 := rfl
        omega
      · intro h
        rw [h] at hsecond
        have : (126 : UInt8).toNat = 126 := rfl
        omega
    refine ⟨_, [], if_pos hshort, hwidth.symm, ?_, hsecond.2⟩
    rw [announced, if_pos hwidth]
    exact hsecond.1
  · by_cases hmedium : n < 65536
    · refine ⟨bit ||| 126, beBytes 2 n, by rw [lengthBytes, if_neg hshort, if_pos hmedium], ?_, ?_, ?_⟩
      · rw [length_beBytes]
        rcases hbit with rfl | rfl <;> decide
      · have hwidth : lengthWidth (bit ||| 126) ≠ 0 := by
          rcases hbit with rfl | rfl <;> decide
        rw [announced, if_neg hwidth]
        exact beValue_beBytes (by omega)
      · rcases hbit with rfl | rfl <;> decide
    · refine ⟨bit ||| 127, beBytes 8 n, by rw [lengthBytes, if_neg hshort, if_neg hmedium], ?_, ?_, ?_⟩
      · rw [length_beBytes]
        rcases hbit with rfl | rfl <;> decide
      · have hwidth : lengthWidth (bit ||| 127) ≠ 0 := by
          rcases hbit with rfl | rfl <;> decide
        rw [announced, if_neg hwidth]
        exact beValue_beBytes (by omega)
      · rcases hbit with rfl | rfl <;> decide

/-! ### What a client sends -/

/-- A frame under a mask, as all the clients build it. -/
def maskedFrame (first : UInt8) (mask payload : Bytes) : Bytes :=
  first :: (lengthBytes 0x80 payload.length ++ (mask ++ xorMask mask payload))

theorem wsSendBinary_eq (payload : Bytes) : wsSendBinary payload = wsSend [0, 0, 0, 0] payload := by
  have hzero : ∀ i, ([0, 0, 0, 0] : Bytes).getD i 0 = 0 := by
    intro i
    rcases i with _ | _ | _ | _ | i <;> rfl
  rw [wsSendBinary, wsSend, xorMask_zero hzero]

theorem pongFrame_eq {payload : Bytes} (h : payload.length ≤ 125) :
    pongFrame mask payload = maskedFrame 0x8A mask payload := by
  rw [pongFrame, maskedFrame, lengthBytes, if_pos (by omega)]
  rfl

theorem nextFrame_maskedFrame {first : UInt8} {payload : Bytes} (hmask : mask.length = 4)
    (hlen : payload.length ≤ maxFrameBytes) (rest : Bytes) :
    nextFrame true (maskedFrame first mask payload ++ rest) =
      .item ⟨first &&& 0x0f, payload⟩ rest := by
  have hbound : payload.length < 2 ^ 64 := by
    unfold maxFrameBytes at hlen
    omega
  obtain ⟨second, ext, hbytes, hext, hann, hbit⟩ := lengthBytes_spec (.inr rfl) hbound
  have hmasked : ¬ second &&& 0x80 = 0 := by
    rw [hbit]
    decide
  have hlaid : Laid true first second ext mask (xorMask mask payload) :=
    { lengthExt := hext
      small := by rw [hann]; exact hlen
      masked := fun h => hmasked h.2
      lengthMask := by rw [hmask, maskWidth, if_neg hmasked]
      lengthPayload := by rw [xorMask_length, hann] }
  have hnext := nextFrame_laid hlaid rest
  rw [xorMask_xorMask] at hnext
  rw [maskedFrame, hbytes]
  simpa only [List.cons_append, List.append_assoc] using hnext

/-- What goes up: a read of the local socket, from a phone or from the dial script, or the
answer to a ping. -/
inductive UpFrame
  | data (mask payload : Bytes)
  | dialed (payload : Bytes)
  | pong (mask payload : Bytes)

def UpFrame.bytes : UpFrame → Bytes
  | .data mask payload => wsSend mask payload
  | .dialed payload => wsSendBinary payload
  | .pong mask payload => pongFrame mask payload

/-- A read brings 1 to 65536 bytes; a mask is four bytes, and a ping's payload at most 125. -/
def UpFrame.Valid : UpFrame → Prop
  | .data mask payload => mask.length = 4 ∧ payload ≠ [] ∧ payload.length ≤ 65536
  | .dialed payload => payload ≠ [] ∧ payload.length ≤ 65536
  | .pong mask payload => mask.length = 4 ∧ payload.length ≤ 125

def UpFrame.reads : UpFrame → List Bytes
  | .data _ payload | .dialed payload => [payload]
  | .pong _ _ => []

def sendsBytes (sends : List UpFrame) : Bytes := sends.flatMap UpFrame.bytes

def sendsReads (sends : List UpFrame) : List Bytes := sends.flatMap UpFrame.reads

theorem drain_upFrame {f : UpFrame} (hf : f.Valid) (s : Called) (rest : Bytes) :
    drain (framing true) decoder s (f.bytes ++ rest) =
      drain (framing true) decoder { s with data := s.data ++ f.reads } rest := by
  have hmax : 65536 ≤ maxFrameBytes := by decide
  cases f with
  | data mask payload =>
    obtain ⟨hmask, hne, hlen⟩ := hf
    have hnext : (framing true).next (wsSend mask payload ++ rest) = .item ⟨2, payload⟩ rest :=
      nextFrame_maskedFrame hmask (Nat.le_trans hlen hmax) rest
    exact drain_item _ _ hnext (by simp [decoder, hne, UpFrame.reads])
  | dialed payload =>
    obtain ⟨hne, hlen⟩ := hf
    have hnext : (framing true).next (wsSend [0, 0, 0, 0] payload ++ rest) =
        .item ⟨2, payload⟩ rest := nextFrame_maskedFrame rfl (Nat.le_trans hlen hmax) rest
    rw [UpFrame.bytes, wsSendBinary_eq]
    exact drain_item _ _ hnext (by simp [decoder, hne, UpFrame.reads])
  | pong mask payload =>
    obtain ⟨hmask, hlen⟩ := hf
    have hnext : (framing true).next (maskedFrame 0x8A mask payload ++ rest) =
        .item ⟨10, payload⟩ rest :=
      nextFrame_maskedFrame hmask (Nat.le_trans hlen (Nat.le_trans (by omega) hmax)) rest
    rw [UpFrame.bytes, pongFrame_eq hlen]
    exact drain_item _ _ hnext (by simp [decoder, UpFrame.reads])

theorem drain_sends (sends : List UpFrame) (hvalid : ∀ f ∈ sends, f.Valid) (s : Called) :
    drain (framing true) decoder s (sendsBytes sends) =
      ⟨{ s with data := s.data ++ sendsReads sends }, [], false⟩ := by
  induction sends generalizing s with
  | nil =>
    have hmore : (framing true).next [] = .more := rfl
    simp [sendsBytes, sendsReads, drain_more _ _ hmore]
  | cons f sends ih =>
    rw [sendsBytes, List.flatMap_cons, drain_upFrame (hvalid f List.mem_cons_self)]
    have htail := ih (fun g hg => hvalid g (List.mem_cons_of_mem f hg))
      { s with data := s.data ++ f.reads }
    rw [sendsBytes] at htail
    rw [htail, sendsReads, sendsReads, List.flatMap_cons, List.append_assoc]

/-- Up: however the bytes are cut, the decoder hands on the reads, whole and in order, and
closes nothing. -/
theorem up_carried (sends : List UpFrame) (hvalid : ∀ f ∈ sends, f.Valid) (chunks : List Bytes)
    (hchunks : chunks.flatten = sendsBytes sends) :
    feed (framing true) decoder .none [] chunks = (⟨sendsReads sends, [], []⟩, []) := by
  have hdrain := drain_sends sends hvalid .none
  have hfeed := feed_of_open (framing true) decoder .none [] chunks rfl
    (by rw [List.nil_append, hchunks, hdrain])
  rw [hfeed, List.nil_append, hchunks, hdrain]
  rfl

/-! ### What a client reads -/

inductive Kind
  | deliver
  | close
  | answer
  | ignore
  deriving DecidableEq, Repr

/-- How `wsRecv` differs between the clients: the number of bytes it reads for a length (none
where that throws), and what it does with an opcode. -/
structure Client where
  narrow : ℕ → Option ℕ
  kind : UInt8 → Kind

/-- `len.toInt()` of a `Long`: the low 32 bits, and `ByteArray` throws on a negative size. -/
def toInt (length : ℕ) : Option ℕ := if length % 2 ^ 32 < 2 ^ 31 then some (length % 2 ^ 32) else none

/-- `ExpertRelayDial` and `RingRelay`. -/
def phone : Client where
  narrow := toInt
  kind opcode :=
    if opcode = 2 ∨ opcode = 0 then .deliver
    else if opcode = 8 then .close
    else if opcode = 9 then .answer
    else .ignore

/-- `expert-relay-dial.py`. -/
def dialScript : Client where
  narrow := some
  kind opcode :=
    if opcode = 8 then .close
    else if opcode = 9 then .answer
    else if opcode = 10 then .ignore
    else .deliver

/-- One frame from the socket (the phone takes the first two bytes one by one). -/
def readFrame (c : Client) (cs : Arrivals) : Option (Frame × Arrivals) := do
  let (head, cs) ← readExact 2 cs
  let (ext, cs) ← readExact (lengthWidth (head.getD 1 0)) cs
  let (mask, cs) ← readExact (maskWidth (head.getD 1 0)) cs
  let length ← c.narrow (announced (head.getD 1 0) ext)
  let (payload, cs) ← readExact length cs
  return (⟨head.getD 0 0 &&& 0x0f, xorMask mask payload⟩, cs)

/-- What a client does: a write to the local socket, or a pong with this payload. -/
inductive Local
  | write (bytes : Bytes)
  | pong (payload : Bytes)
  deriving DecidableEq, Repr

/-- `wsRecv` again and again until the stream ends, a close comes or something throws. -/
def pump (c : Client) : ℕ → Arrivals → List Local
  | 0, _ => []
  | fuel + 1, cs =>
    match readFrame c cs with
    | none => []
    | some (f, cs) =>
      match c.kind f.opcode with
      | .deliver => .write f.payload :: pump c fuel cs
      | .close => []
      | .answer => .pong f.payload :: pump c fuel cs
      | .ignore => pump c fuel cs

/-- Every frame is at least two bytes, so the number of bytes is fuel enough. -/
def pumpAll (c : Client) (cs : Arrivals) : List Local := pump c (cs.flatten.length + 1) cs

/-! ### The end of the 101 response -/

def blankLine : Bytes := [13, 10, 13, 10]

/-- The phone reads the head of the response byte by byte. -/
def readHttpHead : ℕ → Bytes → Arrivals → Arrivals
  | 0, _, cs => cs
  | fuel + 1, resp, cs =>
    if blankLine <:+ resp then cs
    else match readExact 1 cs with
      | none => cs
      | some (b, cs) => readHttpHead fuel (resp ++ b) cs

/-- The dial script reads chunks until the head is among what it has; the checks of the
response itself, which the bridge's passes, are left out. -/
def wsConnect : ℕ → Bytes → Arrivals → Option Arrivals
  | 0, _, _ => none
  | fuel + 1, resp, cs =>
    if blankLine <:+: resp then some cs
    else match recv 4096 cs with
      | none => none
      | some (chunk, cs) => wsConnect fuel (resp ++ chunk) cs

def phoneSession (cs : Arrivals) : List Local :=
  pumpAll phone (readHttpHead (cs.flatten.length + 1) [] cs)

def dialSession (cs : Arrivals) : List Local :=
  match wsConnect (cs.flatten.length + 1) [] cs with
  | none => []
  | some cs => pumpAll dialScript cs

/-- What the bridge sends: bytes of the other side, and control frames. -/
inductive DownFrame
  | data (payload : Bytes)
  | ping (payload : Bytes)
  | pong (payload : Bytes)
  deriving DecidableEq, Repr

def DownFrame.opcode : DownFrame → UInt8
  | .data _ => 2
  | .ping _ => 9
  | .pong _ => 10

def DownFrame.payload : DownFrame → Bytes
  | .data payload | .ping payload | .pong payload => payload

def DownFrame.bytes (f : DownFrame) : Bytes := encodeFrame f.opcode f.payload

/-- A length that the header can hold, and at most 125 bytes in a control frame. -/
def DownFrame.Valid : DownFrame → Prop
  | .data payload => payload.length < 2 ^ 64
  | .ping payload | .pong payload => payload.length ≤ 125

/-- What a client owes a frame: the bytes to the local socket, a pong to a ping. -/
def DownFrame.owed : DownFrame → List Local
  | .data payload => [.write payload]
  | .ping payload => [.pong payload]
  | .pong _ => []

def downBytes (frames : List DownFrame) : Bytes := frames.flatMap DownFrame.bytes

def downOwed (frames : List DownFrame) : List Local := frames.flatMap DownFrame.owed

/-- The head of the response: it ends at its first blank line, and is short. -/
structure IsHead (head : Bytes) : Prop where
  ends : blankLine <:+ head
  first : ∀ p, p <+: head → blankLine <:+ p → p = head
  short : head.length < 4096

variable {f : DownFrame}

theorem DownFrame.Valid.bound (h : f.Valid) : f.payload.length < 2 ^ 64 := by
  cases f with
  | data payload => exact h
  | ping payload | pong payload => exact Nat.lt_of_le_of_lt h (by decide)

theorem downFrame_bytes (h : f.Valid) :
    ∃ first second ext, f.bytes = [first, second] ++ (ext ++ f.payload) ∧
      first &&& 0x0f = f.opcode ∧ ext.length = lengthWidth second ∧
      announced second ext = f.payload.length ∧ maskWidth second = 0 := by
  obtain ⟨second, ext, hbytes, hext, hann, hbit⟩ := lengthBytes_spec (.inl rfl) h.bound
  refine ⟨0x80 ||| f.opcode, second, ext, ?_, ?_, hext, hann, ?_⟩
  · rw [DownFrame.bytes, encodeFrame, hbytes]
    rfl
  · cases f <;> simp only [DownFrame.opcode] <;> decide
  · rw [maskWidth, if_pos hbit]

variable {cs : Arrivals} {c : Client}

theorem readFrame_downFrame (hf : f.Valid)
    (hcs : cs.flatten = f.bytes ++ rest) :
    (c.narrow f.payload.length = none → readFrame c cs = none) ∧
    (c.narrow f.payload.length = some f.payload.length →
      ∃ cs', readFrame c cs = some (⟨f.opcode, f.payload⟩, cs') ∧ cs'.flatten = rest) ∧
    ∀ n, c.narrow f.payload.length = some n → ∀ g cs', readFrame c cs = some (g, cs') →
      g.opcode = f.opcode ∧ g.payload.length = n := by
  obtain ⟨first, second, ext, hbytes, hop, hext, hann, hmask⟩ := downFrame_bytes hf
  rw [hbytes, List.append_assoc, List.append_assoc] at hcs
  obtain ⟨cs₁, h₁, hcs₁⟩ := readExact_append hcs
  obtain ⟨cs₂, h₂, hcs₂⟩ := readExact_append hcs₁
  have h₁ : readExact 2 cs = some ([first, second], cs₁) := h₁
  have hnoMask : readExact 0 cs₂ = some ([], cs₂) := rfl
  rw [hext] at h₂
  have hread : readFrame c cs = (c.narrow f.payload.length).bind fun n =>
      (readExact n cs₂).bind fun r => some (⟨f.opcode, r.1⟩, r.2) := by
    have hone : ([first, second] : Bytes).getD 1 0 = second := rfl
    have hzero : ([first, second] : Bytes).getD 0 0 = first := rfl
    have hnone : ∀ payload, xorMask [] payload = payload := xorMask_zero fun i => rfl
    simp only [readFrame, h₁, Option.bind_eq_bind, Option.bind_some, hone, hzero, h₂, hmask, hnoMask,
      hann, hop, hnone, Option.pure_def]
  refine ⟨?_, ?_, ?_⟩
  · intro hnarrow
    rw [hread, hnarrow, Option.bind_none]
  · intro hnarrow
    obtain ⟨cs₃, h₃, hcs₃⟩ := readExact_append hcs₂
    refine ⟨cs₃, ?_, hcs₃⟩
    rw [hread, hnarrow, Option.bind_some, h₃, Option.bind_some]
  · intro n hnarrow g cs' hg
    rw [hread, hnarrow, Option.bind_some] at hg
    obtain ⟨r, hr, heq⟩ := Option.bind_eq_some_iff.mp hg
    obtain ⟨rfl, rfl⟩ := Prod.mk.inj (Option.some.inj heq)
    exact ⟨rfl, (readExact_eq_some hr).1⟩

/-- The opcodes that the bridge uses mean the same to both clients. -/
structure Client.Serves (c : Client) : Prop where
  data : c.kind 2 = .deliver
  ping : c.kind 9 = .answer
  pong : c.kind 10 = .ignore

theorem phone_serves : phone.Serves := ⟨rfl, rfl, rfl⟩

theorem dialScript_serves : dialScript.Serves := ⟨rfl, rfl, rfl⟩

theorem readFrame_nil (h : cs.flatten = []) : readFrame c cs = none := by
  have hread : readExact 2 cs = none := readLoop_of_lt _ _ (by rw [h]; exact Nat.zero_lt_two)
  rw [readFrame, hread]
  rfl

theorem pump_downFrame (hc : c.Serves) (hf : f.Valid)
    (hcs : cs.flatten = f.bytes ++ rest)
    (hnarrow : c.narrow f.payload.length = some f.payload.length) (fuel : ℕ) :
    ∃ cs', cs'.flatten = rest ∧ pump c (fuel + 1) cs = f.owed ++ pump c fuel cs' := by
  obtain ⟨cs', hread, hrest⟩ := (readFrame_downFrame hf hcs).2.1 hnarrow
  refine ⟨cs', hrest, ?_⟩
  cases f with
  | data payload =>
    rw [pump, hread]
    simp only [DownFrame.opcode, hc.data, DownFrame.owed, List.singleton_append, DownFrame.payload]
  | ping payload =>
    rw [pump, hread]
    simp only [DownFrame.opcode, hc.ping, DownFrame.owed, List.singleton_append, DownFrame.payload]
  | pong payload =>
    rw [pump, hread]
    simp only [DownFrame.opcode, hc.pong, DownFrame.owed, List.nil_append]

theorem downBytes_cons (f : DownFrame) (frames : List DownFrame) :
    downBytes (f :: frames) = f.bytes ++ downBytes frames := List.flatMap_cons

theorem downOwed_cons (f : DownFrame) (frames : List DownFrame) :
    downOwed (f :: frames) = f.owed ++ downOwed frames := List.flatMap_cons

theorem length_le_downBytes (frames : List DownFrame) : frames.length ≤ (downBytes frames).length := by
  induction frames with
  | nil => exact Nat.le_refl 0
  | cons f frames ih =>
    have hhead : 1 ≤ f.bytes.length := by
      rw [DownFrame.bytes, encodeFrame, List.length_cons]
      omega
    rw [downBytes_cons, List.length_append, List.length_cons]
    omega

theorem pump_carried (hc : c.Serves) (frames : List DownFrame)
    (hvalid : ∀ f ∈ frames, f.Valid)
    (hnarrow : ∀ f ∈ frames, c.narrow f.payload.length = some f.payload.length)
    (hcs : cs.flatten = downBytes frames) {fuel : ℕ} (hfuel : frames.length < fuel) :
    pump c fuel cs = downOwed frames := by
  induction frames generalizing cs fuel with
  | nil =>
    cases fuel with
    | zero => cases hfuel
    | succ fuel =>
      rw [pump, readFrame_nil hcs]
      rfl
  | cons f frames ih =>
    cases fuel with
    | zero => cases hfuel
    | succ fuel =>
      rw [downBytes_cons] at hcs
      obtain ⟨cs', hrest, hpump⟩ := pump_downFrame hc (hvalid f List.mem_cons_self) hcs
        (hnarrow f List.mem_cons_self) fuel
      rw [hpump, downOwed_cons, ih (fun g hg => hvalid g (List.mem_cons_of_mem f hg))
        (fun g hg => hnarrow g (List.mem_cons_of_mem f hg)) hrest (Nat.lt_of_succ_lt_succ hfuel)]

theorem pumpAll_carried (hc : c.Serves) (frames : List DownFrame)
    (hvalid : ∀ f ∈ frames, f.Valid)
    (hnarrow : ∀ f ∈ frames, c.narrow f.payload.length = some f.payload.length)
    (hcs : cs.flatten = downBytes frames) : pumpAll c cs = downOwed frames := by
  apply pump_carried hc frames hvalid hnarrow hcs
  have := length_le_downBytes frames
  rw [hcs]
  omega

theorem toInt_eq_some_iff : toInt n = some n ↔ n < 2 ^ 31 := by
  unfold toInt
  constructor
  · intro h
    obtain ⟨hlt, heq⟩ := Option.ite_none_right_eq_some.mp h
    have := Option.some.inj heq
    omega
  · intro h
    have hmod : n % 2 ^ 32 = n := Nat.mod_eq_of_lt (by omega)
    rw [hmod, if_pos h]

theorem pump_narrowed {payload : Bytes} (hlen : payload.length < 2 ^ 64)
    (hcs : cs.flatten = (DownFrame.data payload).bytes ++ rest)
    (hnarrow : toInt payload.length ≠ some payload.length) (fuel : ℕ) (tail : List Local) :
    pump phone fuel cs ≠ .write payload :: tail := by
  intro h
  cases fuel with
  | zero => cases h
  | succ fuel =>
    obtain ⟨-, -, hgot⟩ := readFrame_downFrame (c := phone) (f := .data payload) hlen hcs
    have hread := (readFrame_downFrame (c := phone) (f := .data payload) hlen hcs).1
    rw [pump] at h
    cases hr : readFrame phone cs with
    | none =>
      rw [hr] at h
      cases h
    | some r =>
      obtain ⟨g, cs'⟩ := r
      cases hn : phone.narrow (DownFrame.data payload).payload.length with
      | none =>
        rw [hread hn] at hr
        cases hr
      | some n =>
        obtain ⟨hop, hgl⟩ := hgot n hn g cs' hr
        have hop : g.opcode = 2 := hop
        simp only [hr, hop, phone_serves.data] at h
        obtain ⟨hw, -⟩ := List.cons.inj h
        have hsame : g.payload = payload := Local.write.inj hw
        rw [hsame] at hgl
        subst hgl
        exact hnarrow hn

theorem pump_phone_iff (frames : List DownFrame) (hvalid : ∀ f ∈ frames, f.Valid)
    (hcs : cs.flatten = downBytes frames) {fuel : ℕ} (hfuel : frames.length < fuel) :
    pump phone fuel cs = downOwed frames ↔ ∀ f ∈ frames, f.payload.length < 2 ^ 31 := by
  constructor
  · intro h
    induction frames generalizing cs fuel with
    | nil =>
      intro f hf
      cases hf
    | cons f frames ih =>
      cases fuel with
      | zero => cases hfuel
      | succ fuel =>
        rw [downBytes_cons] at hcs
        have hfv := hvalid f List.mem_cons_self
        have hone : f.payload.length < 2 ^ 31 := by
          by_contra hbig
          cases f with
          | data payload =>
            exact pump_narrowed hfv hcs (fun hn => hbig (toInt_eq_some_iff.mp hn)) _ _ h
          | ping payload | pong payload =>
            exact hbig (Nat.lt_of_le_of_lt hfv (by decide))
        obtain ⟨cs', hrest, hpump⟩ := pump_downFrame phone_serves hfv hcs
          (toInt_eq_some_iff.mpr hone) fuel
        rw [hpump, downOwed_cons] at h
        have htail := ih (fun g hg => hvalid g (List.mem_cons_of_mem f hg)) hrest
          (Nat.lt_of_succ_lt_succ hfuel) (List.append_cancel_left h)
        intro g hg
        rcases List.mem_cons.mp hg with rfl | hg
        · exact hone
        · exact htail g hg
  · intro h
    exact pump_carried phone_serves frames hvalid (fun f hf => toInt_eq_some_iff.mpr (h f hf)) hcs hfuel

/-! ### Handshakes -/

variable {head stream : Bytes}

theorem readHttpHead_spec (hhead : IsHead head) (fuel : ℕ) (resp todo : Bytes)
    (cs : Arrivals) (hresp : resp ++ todo = head) (hcs : cs.flatten = todo ++ stream)
    (hfuel : todo.length < fuel) : (readHttpHead fuel resp cs).flatten = stream := by
  induction fuel generalizing resp todo cs with
  | zero => cases hfuel
  | succ fuel ih =>
    rw [readHttpHead]
    split_ifs with hend
    · have hall := hhead.first resp ⟨todo, hresp⟩ hend
      have htodo : todo = [] := by
        rw [hall] at hresp
        exact List.self_eq_append_right.mp hresp.symm
      rw [hcs, htodo, List.nil_append]
    · cases todo with
      | nil =>
        rw [List.append_nil] at hresp
        exact absurd (hresp ▸ hhead.ends) hend
      | cons b todo =>
        have hone : cs.flatten = [b] ++ (todo ++ stream) := by rw [hcs]; rfl
        obtain ⟨cs', hread, hrest⟩ := readExact_append hone
        have hread : readExact 1 cs = some ([b], cs') := hread
        simp only [hread]
        apply ih (resp ++ [b]) todo cs' _ hrest (by simpa using hfuel)
        rw [List.append_assoc]
        exact hresp

theorem phoneSession_iff (hhead : IsHead head) (frames : List DownFrame)
    (hvalid : ∀ f ∈ frames, f.Valid) (cs : Arrivals) (hcs : cs.flatten = head ++ downBytes frames) :
    phoneSession cs = downOwed frames ↔ ∀ f ∈ frames, f.payload.length < 2 ^ 31 := by
  have hrest := readHttpHead_spec hhead (cs.flatten.length + 1) [] head cs rfl hcs (by
    rw [hcs, List.length_append]
    omega)
  apply pump_phone_iff frames hvalid hrest
  have := length_le_downBytes frames
  rw [hrest]
  omega

theorem infix_of_head (hhead : IsHead head) {resp todo : Bytes}
    (hresp : resp ++ todo = head) : blankLine <:+: resp ↔ todo = [] := by
  constructor
  · rintro ⟨before, after, hin⟩
    have hpre : before ++ blankLine <+: head := by
      refine ⟨after ++ todo, ?_⟩
      rw [← hresp, ← hin]
      simp only [List.append_assoc]
    have hall := hhead.first _ hpre ⟨before, rfl⟩
    have hlen : (after ++ todo).length = 0 := by
      have h := congrArg List.length hresp
      rw [← hin, ← hall] at h
      simp only [List.length_append] at h ⊢
      omega
    have hnil := List.length_eq_zero_iff.mp hlen
    exact (List.append_eq_nil_iff.mp hnil).2
  · rintro rfl
    rw [List.append_nil] at hresp
    rw [hresp]
    exact hhead.ends.isInfix

/-- Among the chunks, one ends where the head does. -/
def Boundary (cs : Arrivals) (todo : Bytes) : Prop := ∃ pre post, cs = pre ++ post ∧ pre.flatten = todo

theorem recv_boundary (n : ℕ) {pre : Arrivals} (post : Arrivals) (htodo : pre.flatten ≠ []) :
    ∃ got pre', recv n (pre ++ post) = some (got, pre' ++ post) ∧ got ++ pre'.flatten = pre.flatten := by
  induction pre with
  | nil => exact absurd rfl htodo
  | cons c pre ih =>
    cases c with
    | nil =>
      obtain ⟨got, pre', hrecv, hflat⟩ := ih htodo
      exact ⟨got, pre', hrecv, hflat⟩
    | cons b bs =>
      refine ⟨(b :: bs).take n, (b :: bs).drop n :: pre, rfl, ?_⟩
      rw [List.flatten_cons, List.flatten_cons, ← List.append_assoc, List.take_append_drop]

theorem wsConnect_spec (hhead : IsHead head) (fuel : ℕ) (resp todo : Bytes)
    (cs : Arrivals) (hresp : resp ++ todo = head) (hcs : cs.flatten = todo ++ stream)
    (hbound : Boundary cs todo) (hfuel : todo.length < fuel) :
    ∃ cs', wsConnect fuel resp cs = some cs' ∧ cs'.flatten = stream := by
  induction fuel generalizing resp todo cs with
  | zero => cases hfuel
  | succ fuel ih =>
    by_cases htodo : todo = []
    · refine ⟨cs, ?_, ?_⟩
      · rw [wsConnect, if_pos ((infix_of_head hhead hresp).mpr htodo)]
      · rw [hcs, htodo, List.nil_append]
    · rw [wsConnect, if_neg (fun h => htodo ((infix_of_head hhead hresp).mp h))]
      obtain ⟨pre, post, rfl, hpre⟩ := hbound
      obtain ⟨got, pre', hrecv, hflat⟩ := recv_boundary 4096 post (by rwa [hpre])
      obtain ⟨hall, -, hpos⟩ := recv_spec hrecv
      have hsplit : got ++ pre'.flatten = todo := hflat.trans hpre
      have hpos := hpos (by omega)
      simp only [hrecv]
      apply ih (resp ++ got) pre'.flatten
      · rw [List.append_assoc, hsplit, hresp]
      · rw [List.flatten_append, hpre] at hcs
        rw [List.flatten_append, List.append_cancel_left hcs]
      · exact ⟨pre', post, rfl, rfl⟩
      · rw [← hsplit, List.length_append] at hfuel
        omega

theorem boundary_recv {pre post : Arrivals} {got : Bytes}
    (h : recv n cs = some (got, pre ++ post)) (hpre : pre.flatten ≠ []) :
    Boundary cs (got ++ pre.flatten) := by
  induction cs with
  | nil => cases h
  | cons c cs ih =>
    cases c with
    | nil =>
      obtain ⟨before, after, rfl, hflat⟩ := ih h
      exact ⟨[] :: before, after, rfl, hflat⟩
    | cons b bs =>
      obtain ⟨rfl, hrest⟩ := Prod.mk.inj (Option.some.inj h)
      cases pre with
      | nil => exact absurd rfl hpre
      | cons p pre =>
        obtain ⟨rfl, rfl⟩ := List.cons.inj hrest
        refine ⟨(b :: bs) :: pre, post, rfl, ?_⟩
        rw [List.flatten_cons, List.flatten_cons, ← List.append_assoc, List.take_append_drop]

theorem boundary_whole {cs' : Arrivals} {got : Bytes} (h : recv n cs = some (got, cs'))
    (hlen : got.length < n) : Boundary cs got := by
  induction cs with
  | nil => cases h
  | cons c cs ih =>
    cases c with
    | nil =>
      obtain ⟨before, after, rfl, hflat⟩ := ih h
      exact ⟨[] :: before, after, rfl, hflat⟩
    | cons b bs =>
      obtain ⟨rfl, -⟩ := Prod.mk.inj (Option.some.inj h)
      refine ⟨[b :: bs], cs, rfl, ?_⟩
      rw [List.length_take] at hlen
      rw [List.flatten_singleton, List.take_of_length_le (by omega)]

theorem wsConnect_swallows (hhead : IsHead head) (fuel : ℕ) (resp todo : Bytes)
    (cs cs' : Arrivals) (hresp : resp ++ todo = head) (hcs : cs.flatten = todo ++ stream)
    (htodo : todo ≠ []) (hbound : ¬ Boundary cs todo) (h : wsConnect fuel resp cs = some cs') :
    cs'.flatten.length < stream.length := by
  induction fuel generalizing resp todo cs with
  | zero => cases h
  | succ fuel ih =>
    rw [wsConnect, if_neg (fun h => htodo ((infix_of_head hhead hresp).mp h))] at h
    cases hrecv : recv 4096 cs with
    | none =>
      rw [hrecv] at h
      cases h
    | some r =>
      obtain ⟨got, cs₁⟩ := r
      simp only [hrecv] at h
      obtain ⟨hall, hle, -⟩ := recv_spec hrecv
      have hflat : got ++ cs₁.flatten = todo ++ stream := hall.trans hcs
      rcases Nat.lt_trichotomy got.length todo.length with hlt | heq | hgt
      · -- the chunk lies in the head
        obtain ⟨todo', rfl⟩ := List.prefix_of_prefix_length_le ⟨_, hflat⟩
          (List.prefix_append todo stream) (Nat.le_of_lt hlt)
        have htodo' : todo' ≠ [] := by
          rintro rfl
          simp at hlt
        rw [List.append_assoc] at hflat
        refine ih (resp ++ got) todo' cs₁ (by rw [List.append_assoc, hresp])
          (List.append_cancel_left hflat) htodo' ?_ h
        rintro ⟨pre, post, rfl, rfl⟩
        exact hbound (boundary_recv hrecv htodo')
      · -- it ends with the head
        obtain ⟨rfl, -⟩ := List.append_inj hflat heq
        have hshort : got.length < 4096 := by
          have := hhead.short
          rw [← hresp, List.length_append] at this
          omega
        exact absurd (boundary_whole hrecv hshort) hbound
      · -- it goes on past the head
        obtain ⟨extra, rfl⟩ := List.prefix_of_prefix_length_le (List.prefix_append todo stream)
          ⟨_, hflat⟩ (Nat.le_of_lt hgt)
        have hextra : 0 < extra.length := by
          rw [List.length_append] at hgt
          omega
        rw [List.append_assoc] at hflat
        have hstream := List.append_cancel_left hflat
        have hin : blankLine <:+: resp ++ (todo ++ extra) := by
          rw [← List.append_assoc, hresp]
          exact hhead.ends.isInfix.trans (List.prefix_append head extra).isInfix
        cases fuel with
        | zero => cases h
        | succ fuel =>
          rw [wsConnect, if_pos hin] at h
          obtain rfl := Option.some.inj h
          rw [← hstream, List.length_append]
          omega

theorem readFrame_le {cs' : Arrivals} {f : Frame}
    (h : readFrame c cs = some (f, cs')) :
    f.payload.length + 2 + cs'.flatten.length ≤ cs.flatten.length := by
  obtain ⟨⟨head, cs₁⟩, h₁, h⟩ := Option.bind_eq_some_iff.mp h
  obtain ⟨⟨ext, cs₂⟩, h₂, h⟩ := Option.bind_eq_some_iff.mp h
  obtain ⟨⟨mask, cs₃⟩, h₃, h⟩ := Option.bind_eq_some_iff.mp h
  obtain ⟨length, -, h⟩ := Option.bind_eq_some_iff.mp h
  obtain ⟨⟨payload, cs₄⟩, h₄, h⟩ := Option.bind_eq_some_iff.mp h
  obtain ⟨rfl, rfl⟩ := Prod.mk.inj (Option.some.inj h)
  obtain ⟨hhead, e₁⟩ := readExact_eq_some h₁
  obtain ⟨-, e₂⟩ := readExact_eq_some h₂
  obtain ⟨-, e₃⟩ := readExact_eq_some h₃
  obtain ⟨-, e₄⟩ := readExact_eq_some h₄
  simp only [e₁, e₂, e₃, e₄, List.length_append, hhead, xorMask_length]
  omega

theorem pump_write_le {fuel : ℕ} {d : Bytes}
    (h : .write d ∈ pump c fuel cs) : d.length + 2 ≤ cs.flatten.length := by
  induction fuel generalizing cs with
  | zero => cases h
  | succ fuel ih =>
    rw [pump] at h
    cases hread : readFrame c cs with
    | none =>
      rw [hread] at h
      cases h
    | some r =>
      obtain ⟨f, cs'⟩ := r
      have hle := readFrame_le hread
      have hlater : .write d ∈ pump c fuel cs' → d.length + 2 ≤ cs.flatten.length := by
        intro h'
        have := ih h'
        omega
      simp only [hread] at h
      cases hkind : c.kind f.opcode with
      | deliver =>
        simp only [hkind] at h
        rcases List.mem_cons.mp h with heq | h'
        · rw [Local.write.inj heq]
          omega
        · exact hlater h'
      | close =>
        simp only [hkind] at h
        cases h
      | answer =>
        simp only [hkind] at h
        rcases List.mem_cons.mp h with heq | h'
        · cases heq
        · exact hlater h'
      | ignore =>
        simp only [hkind] at h
        exact hlater h

theorem length_cut (ns : List ℕ) (bs : Bytes) : (cut ns bs).length = ns.length + 1 := by
  induction ns generalizing bs with
  | nil => rfl
  | cons n ns ih => rw [cut, List.length_cons, ih, List.length_cons]

theorem flatten_take_cut (ns : List ℕ) (bs : Bytes) {i : ℕ} (hi : i ≤ ns.length) :
    ((cut ns bs).take i).flatten = bs.take (ns.take i).sum := by
  induction ns generalizing bs i with
  | nil =>
    obtain rfl : i = 0 := Nat.le_zero.mp hi
    rfl
  | cons n ns ih =>
    cases i with
    | zero => rfl
    | succ i =>
      rw [cut, List.take_succ_cons, List.flatten_cons, ih _ (Nat.le_of_succ_le_succ hi),
        List.take_succ_cons, List.sum_cons, List.take_add]

theorem boundary_of_sum {sizes : List ℕ} {i : ℕ}
    (hi : (sizes.take i).sum = head.length) : Boundary (cut sizes (head ++ stream)) head := by
  have hmin : sizes.take (min i sizes.length) = sizes.take i := by
    rcases Nat.le_total i sizes.length with h | h
    · rw [Nat.min_eq_left h]
    · rw [Nat.min_eq_right h, List.take_of_length_le h, List.take_length]
  refine ⟨_, _, (List.take_append_drop (min i sizes.length) _).symm, ?_⟩
  rw [flatten_take_cut _ _ (Nat.min_le_right i _), hmin, hi, List.take_left']
  rfl

theorem sum_of_boundary (hstream : stream ≠ []) {sizes : List ℕ}
    (h : Boundary (cut sizes (head ++ stream)) head) : ∃ i, (sizes.take i).sum = head.length := by
  have hpos : 0 < stream.length := List.length_pos_iff.mpr hstream
  obtain ⟨pre, post, hcut, hpre⟩ := h
  have hpre' : pre = (cut sizes (head ++ stream)).take pre.length := by
    rw [hcut, List.take_left']
    rfl
  by_cases hlen : pre.length ≤ sizes.length
  · refine ⟨pre.length, ?_⟩
    rw [hpre', flatten_take_cut _ _ hlen] at hpre
    have h := congrArg List.length hpre
    rw [List.length_take, List.length_append] at h
    omega
  · have hall : (cut sizes (head ++ stream)).length ≤ pre.length := by
      rw [length_cut]
      omega
    rw [List.take_of_length_le hall] at hpre'
    rw [hpre', flatten_cut] at hpre
    have h := congrArg List.length hpre
    rw [List.length_append] at h
    omega

theorem IsHead.ne_nil (hhead : IsHead head) : head ≠ [] := by
  rintro rfl
  have hlen := hhead.ends.length_le
  simp [blankLine] at hlen

theorem dialSession_iff (hhead : IsHead head) (sizes : List ℕ) :
    (∀ frames, (∀ f ∈ frames, f.Valid) →
      dialSession (cut sizes (head ++ downBytes frames)) = downOwed frames) ↔
    ∃ i, (sizes.take i).sum = head.length := by
  constructor
  · intro hserved
    by_contra hsum
    -- one byte of payload, so that nothing of the frame can be missing
    have hframe := hserved [.data [0]] (by
      intro f hf
      rw [List.mem_singleton.mp hf]
      exact Nat.lt_of_le_of_lt (Nat.le_refl 1) (by decide))
    have hstream : downBytes [.data [0]] ≠ [] := by decide
    have hbound : ¬ Boundary (cut sizes (head ++ downBytes [.data [0]])) head :=
      fun h => hsum (sum_of_boundary hstream h)
    unfold dialSession at hframe
    split at hframe
    · cases hframe
    · next cs' hconnect =>
      have hlt := wsConnect_swallows hhead _ [] head _ cs' rfl (flatten_cut _ _) hhead.ne_nil hbound
        hconnect
      have hwrite : .write [0] ∈ pumpAll dialScript cs' := by
        rw [hframe]
        exact List.mem_cons_self
      have hle := pump_write_le hwrite
      have hthree : (downBytes [.data [0]]).length = 3 := by decide
      have hone : ([0] : Bytes).length = 1 := rfl
      omega
  · rintro ⟨i, hi⟩ frames hvalid
    obtain ⟨cs', hconnect, hrest⟩ := wsConnect_spec hhead
      ((cut sizes (head ++ downBytes frames)).flatten.length + 1) [] head _ rfl (flatten_cut _ _)
      (boundary_of_sum hi) (by
        rw [flatten_cut, List.length_append]
        omega)
    rw [dialSession, hconnect]
    exact pumpAll_carried dialScript_serves frames hvalid (fun _ _ => rfl) hrest

/-- Up, every client's bytes arrive as they were read, with no more than they were. Down, the
phone serves a stream exactly when no frame is of 2^31 bytes or more, and the dial script
serves every stream exactly when a chunk ends with the head of the response. -/
theorem relay_bytes_carried {head : Bytes} (hhead : IsHead head) :
    (∀ sends, (∀ f ∈ sends, UpFrame.Valid f) → ∀ chunks, chunks.flatten = sendsBytes sends →
      feed (framing true) decoder .none [] chunks = (⟨sendsReads sends, [], []⟩, [])) ∧
    (∀ frames, (∀ f ∈ frames, f.Valid) → ∀ cs, cs.flatten = head ++ downBytes frames →
      (phoneSession cs = downOwed frames ↔ ∀ f ∈ frames, f.payload.length < 2 ^ 31)) ∧
    ∀ sizes, (∀ frames, (∀ f ∈ frames, f.Valid) →
        dialSession (cut sizes (head ++ downBytes frames)) = downOwed frames) ↔
      ∃ i, (sizes.take i).sum = head.length :=
  ⟨up_carried, phoneSession_iff hhead, dialSession_iff hhead⟩

def response : Bytes := utf8 ("HTTP/1.1 101 Switching Protocols\r\n" ++ "Upgrade: websocket\r\n" ++
  "Connection: Upgrade\r\n" ++ "Sec-WebSocket-Accept: s3pPLMBiTxaQ9kYGzzhZRbK+xOo=\r\n\r\n")

theorem isHead_response : IsHead response where
  ends := by decide +kernel
  first := by
    have htake : ∀ n ≤ response.length, blankLine <:+ response.take n → response.take n = response := by
      decide +kernel
    intro p hp hend
    have heq : p = response.take p.length := List.prefix_iff_eq_take.mp hp
    calc
      p = response.take p.length := heq
      _ = response := htake p.length hp.length_le (heq ▸ hend)
  short := by decide +kernel

theorem relay_bytes_carried_response :
    dialSession (cut [response.length] (response ++ downBytes [.data [7], .ping [1]])) =
      [.write [7], .pong [1]] := by
  have hserved := ((relay_bytes_carried isHead_response).2.2 [response.length]).mpr
    ⟨1, by simp only [List.take_succ_cons, List.take_zero, List.sum_singleton]⟩
  apply hserved [.data [7], .ping [1]]
  intro f hf
  rcases List.mem_cons.mp hf with rfl | hf
  · exact Nat.lt_of_le_of_lt (Nat.le_refl 1) (by decide)
  · rw [List.mem_singleton.mp hf]
    exact Nat.le_of_lt (by decide)

/-- The response and the first frame in one chunk: the dial script writes nothing of it. And
the phone reads 5 bytes where a header announces 2^32 + 5. -/
theorem relay_bytes_lost :
    (IsHead response ∧ dialSession [response ++ downBytes [.data [0]]] ≠ downOwed [.data [0]]) ∧
      toInt (2 ^ 32 + 5) = some 5 :=
  ⟨⟨isHead_response, by decide +kernel⟩, by decide⟩

end KvasirNet.Relay
