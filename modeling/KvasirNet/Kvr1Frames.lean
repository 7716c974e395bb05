import KvasirNet.RelayFrames

/-! KVR1, the frames that a node and the relay exchange: `encode` and `createParser` of the
protocol module, and the copy of both that the desktop keeps. -/
namespace KvasirNet.Kvr1
open Relay (beBytes beValue length_beBytes beValue_beBytes)

def magic : Bytes := [0x4b, 0x56, 0x52, 0x31]

def headerBytes : ℕ := 4 + 1 + 4 + 4

def maxPayload : ℕ := 4 * 1024 * 1024

structure Frame where
  type : ℕ
  stream : ℕ
  payload : Bytes
  deriving DecidableEq, Repr

/-! ### Writing -/

inductive Payload
  | absent
  | buffer (b : Bytes)
  | text (s : String)

/-- Why no frame is made: an error of the encoder, or a number that its field cannot hold. -/
inductive Refused
  | error (message : String)
  | range (value : ℕ)
  deriving DecidableEq, Repr

def layout (f : Frame) : Bytes :=
  magic ++ (beBytes 1 f.type ++ (beBytes 4 f.stream ++ (beBytes 4 f.payload.length ++ f.payload)))

/-- What both encoders do once they have the body. -/
def encodeBody (tooLarge : ℕ → String) (type stream : ℕ) (body : Bytes) : Except Refused Bytes :=
  if maxPayload < body.length then .error (.error (tooLarge body.length))
  -- `writeUInt8` and `writeUInt32BE` check their argument
  else if 256 ≤ type then .error (.range type)
  else if 2 ^ 32 ≤ stream then .error (.range stream)
  else .ok (layout ⟨type, stream, body⟩)

/-- The body that the protocol module makes of a payload. -/
def Payload.bytes : Payload → Bytes
  | .absent => []
  | .buffer b => b
  | .text s => utf8 s

def encode (type stream : ℕ) (payload : Payload) : Except Refused Bytes :=
  encodeBody (fun n => "frame payload " ++ toString n ++ " exceeds " ++ toString maxPayload)
    type stream payload.bytes

namespace Desktop

/-- A buffer is truthy even when it is empty, a text is not. -/
def truthy : Payload → Bool
  | .absent => false
  | .buffer _ => true
  | .text s => s != ""

def encode (type stream : ℕ) (payload : Payload) : Except Refused Bytes :=
  encodeBody (fun n => "frame payload " ++ toString n ++ " too large")
    type stream (if truthy payload then payload.bytes else [])

end Desktop

/-! ### Reading -/

inductive Lost
  | badMagic
  | oversized (length : ℕ)
  deriving DecidableEq, Repr

def lengthField (b : Bytes) : ℕ := beValue ((b.drop 9).take 4)

def nextFrame (b : Bytes) : Head UInt8 Frame Lost :=
  if b.length < headerBytes then .more
  else if b.take 4 ≠ magic then .stuck .badMagic
  else if maxPayload < lengthField b then .stuck (.oversized (lengthField b))
  else if b.length < headerBytes + lengthField b then .more
  else .item ⟨(b.getD 4 0).toNat, beValue ((b.drop 5).take 4), (b.drop headerBytes).take (lengthField b)⟩
    (b.drop (headerBytes + lengthField b))

theorem lengthField_append {b : Bytes} (h : headerBytes ≤ b.length) (x : Bytes) :
    lengthField (b ++ x) = lengthField b := by
  unfold headerBytes at h
  unfold lengthField
  rw [List.drop_append_of_le_length (by omega), List.take_append_of_le_length]
  rw [List.length_drop]
  omega

theorem nextFrame_append {b : Bytes} (h : headerBytes ≤ b.length) (x : Bytes) :
    nextFrame (b ++ x) =
      if b.take 4 ≠ magic then .stuck .badMagic
      else if maxPayload < lengthField b then .stuck (.oversized (lengthField b))
      else if (b ++ x).length < headerBytes + lengthField b then .more
      else .item ⟨(b.getD 4 0).toNat, beValue ((b.drop 5).take 4),
          ((b ++ x).drop headerBytes).take (lengthField b)⟩
        ((b ++ x).drop (headerBytes + lengthField b)) := by
  have hshort : ¬ (b ++ x).length < headerBytes := by
    rw [List.length_append]
    omega
  have hlong : 13 ≤ b.length := h
  have htype : (b ++ x).getD 4 0 = b.getD 4 0 := by
    rw [List.getD_eq_getElem?_getD, List.getD_eq_getElem?_getD, List.getElem?_append_left (by omega)]
  have hmagic : (b ++ x).take 4 = b.take 4 := List.take_append_of_le_length (by omega)
  have hstream : ((b ++ x).drop 5).take 4 = (b.drop 5).take 4 := by
    rw [List.drop_append_of_le_length (by omega), List.take_append_of_le_length]
    rw [List.length_drop]
    omega
  rw [nextFrame, if_neg hshort, lengthField_append h, htype, hmagic, hstream]

theorem headerBytes_le {b : Bytes} (h : nextFrame b ≠ .more) : headerBytes ≤ b.length := by
  by_contra hlt
  exact h (by rw [nextFrame, if_pos (Nat.lt_of_not_le hlt)])

theorem nextFrame_stuck {b : Bytes} {e : Lost} (h : nextFrame b = .stuck e) (x : Bytes) :
    nextFrame (b ++ x) = .stuck e := by
  have hheader : headerBytes ≤ b.length := headerBytes_le (by simp [h])
  have hself := nextFrame_append hheader []
  rw [List.append_nil, h] at hself
  rw [nextFrame_append hheader x, hself]
  split_ifs at hself ⊢ with hmagic hbig hmore
  · rfl
  · rfl

theorem nextFrame_item {b rest : Bytes} {f : Frame} (h : nextFrame b = .item f rest) :
    rest.length < b.length ∧ ∀ x, nextFrame (b ++ x) = .item f (rest ++ x) := by
  have hheader : headerBytes ≤ b.length := headerBytes_le (by simp [h])
  have hself := nextFrame_append hheader []
  rw [List.append_nil, h] at hself
  split_ifs at hself with hmagic hbig hmore
  obtain ⟨hf, hrest⟩ := Head.item.inj hself
  have hlong : headerBytes + lengthField b ≤ b.length := Nat.le_of_not_lt hmore
  constructor
  · rw [hrest, List.length_drop]
    unfold headerBytes at hheader ⊢
    omega
  · intro x
    have hmore' : ¬ (b ++ x).length < headerBytes + lengthField b := by
      rw [List.length_append]
      omega
    have hpayload : ((b ++ x).drop headerBytes).take (lengthField b) =
        (b.drop headerBytes).take (lengthField b) := by
      rw [List.drop_append_of_le_length hheader, List.take_append_of_le_length]
      rw [List.length_drop]
      omega
    rw [nextFrame_append hheader x, if_neg hmagic, if_neg hbig, if_neg hmore', hpayload, hf, hrest,
      List.drop_append_of_le_length hlong]

def framing : Framing UInt8 Frame Lost where
  next := nextFrame
  stuck_append h x := nextFrame_stuck h x
  item_append h x := (nextFrame_item h).2 x
  item_shorter h := (nextFrame_item h).1

structure Frame.Valid (f : Frame) : Prop where
  type : f.type < 256
  stream : f.stream < 2 ^ 32
  payload : f.payload.length ≤ maxPayload

theorem nextFrame_layout {f : Frame} (h : f.Valid) (rest : Bytes) :
    nextFrame (layout f ++ rest) = .item f rest := by
  obtain ⟨type, stream, payload⟩ := f
  obtain ⟨htype, hstream, hpayload⟩ := h
  have hfit : payload.length < 256 ^ 4 := Nat.lt_of_le_of_lt hpayload (by decide)
  obtain ⟨t, ht⟩ : ∃ t, beBytes 1 type = [t] := List.length_eq_one_iff.mp (length_beBytes 1 type)
  have htval : t.toNat = type := by
    have hval := beValue_beBytes (show type < 256 ^ 1 from htype)
    rw [ht] at hval
    simpa [beValue, leValue] using hval
  have hs4 := length_beBytes 4 stream
  have hl4 := length_beBytes 4 payload.length
  have hm4 : magic.length = 4 := rfl
  have hbytes : layout ⟨type, stream, payload⟩ ++ rest = magic ++ ([t] ++ (beBytes 4 stream ++
      (beBytes 4 payload.length ++ (payload ++ rest)))) := by
    simp only [layout, ht, List.append_assoc]
  generalize hb : layout ⟨type, stream, payload⟩ ++ rest = b at hbytes ⊢
  have hlen : b.length = headerBytes + payload.length + rest.length := by
    rw [hbytes]
    simp only [List.length_append, List.length_singleton, hs4, hl4, hm4, headerBytes]
    omega
  -- where each field begins
  have h5 : b.drop 5 = beBytes 4 stream ++ (beBytes 4 payload.length ++ (payload ++ rest)) := by
    rw [hbytes, ← List.append_assoc]
    exact List.drop_left' rfl
  have h9 : b.drop 9 = beBytes 4 payload.length ++ (payload ++ rest) := by
    rw [show (9 : ℕ) = 5 + 4 from rfl, ← List.drop_drop, h5]
    exact List.drop_left' hs4
  have h13 : b.drop headerBytes = payload ++ rest := by
    rw [show headerBytes = 9 + 4 from rfl, ← List.drop_drop, h9]
    exact List.drop_left' hl4
  have hlength : lengthField b = payload.length := by
    rw [lengthField, h9, List.take_left' hl4, beValue_beBytes hfit]
  have hmagic : b.take 4 = magic := by
    rw [hbytes]
    exact List.take_left' hm4
  have htypeAt : b.getD 4 0 = t := by
    rw [hbytes]
    rfl
  have hrest : b.drop (headerBytes + payload.length) = rest := by
    rw [← List.drop_drop, h13]
    exact List.drop_left' rfl
  have hstreamAt : beValue ((b.drop 5).take 4) = stream := by
    rw [h5, List.take_left' hs4]
    exact beValue_beBytes hstream
  rw [nextFrame, if_neg (by omega), if_neg (not_not.mpr hmagic), hlength,
    if_neg (Nat.not_lt.mpr hpayload), if_neg (by omega), htypeAt, htval, hstreamAt, h13,
    List.take_left' rfl, hrest]

/-! ### The parsers -/

inductive Call
  | frame (f : Frame)
  | error (message : String)
  deriving DecidableEq, Repr

/-- What both parsers do with a frame and with a framing that is lost. -/
def handing (message : Lost → String) : Consumer (List Call) Frame Lost where
  act calls f := (calls ++ [.frame f], false)
  jam calls e := calls ++ [.error (message e)]

def createParser : Consumer (List Call) Frame Lost :=
  handing fun
    | .badMagic => "framing lost: bad magic"
    | .oversized length =>
      "framing lost: payload " ++ toString length ++ " exceeds " ++ toString maxPayload

def Desktop.parser : Consumer (List Call) Frame Lost :=
  handing fun
    | .badMagic => "framing lost"
    | .oversized _ => "frame too large"

/-- The calls after some chunks, what is buffered, and whether the parser is broken. -/
def received (C : Consumer (List Call) Frame Lost) (cs : List Bytes) : Drained (List Call) UInt8 :=
  cs.foldl (Drained.push framing C) ⟨[], [], false⟩

section Parsing
variable {message : Lost → String} {cs : List Bytes}

theorem nextFrame_nil : nextFrame [] = .more := rfl

theorem received_eq (C : Consumer (List Call) Frame Lost) (cs : List Bytes) :
    (received C cs).state = (drain framing C [] cs.flatten).state ∧
      (received C cs).stopped = (drain framing C [] cs.flatten).stopped ∧
      ((drain framing C [] cs.flatten).stopped = false →
        (received C cs).buffer = (drain framing C [] cs.flatten).buffer) :=
  pushes_eq framing C [] [] cs nextFrame_nil

theorem drain_layouts (fs : List Frame) (hfs : ∀ f ∈ fs, f.Valid) (calls : List Call) (rest : Bytes) :
    drain framing (handing message) calls ((fs.map layout).flatten ++ rest) =
      drain framing (handing message) (calls ++ fs.map .frame) rest := by
  induction fs generalizing calls with
  | nil => rw [List.map_nil, List.map_nil, List.flatten_nil, List.nil_append, List.append_nil]
  | cons f fs ih =>
    have hnext : framing.next (layout f ++ ((fs.map layout).flatten ++ rest)) =
        .item f ((fs.map layout).flatten ++ rest) :=
      nextFrame_layout (hfs f List.mem_cons_self) _
    have hact : (handing message).act calls f = (calls ++ [.frame f], false) := rfl
    rw [List.map_cons, List.flatten_cons, List.append_assoc, drain_item framing _ hnext hact,
      ih fun g hg => hfs g (List.mem_cons_of_mem f hg), List.map_cons, List.append_assoc]
    rfl

theorem drain_shape (calls : List Call) (b : Bytes) :
    ∃ (fs : List Frame) (tail : List Call), (drain framing (handing message) calls b).state =
        calls ++ (fs.map Call.frame ++ tail) ∧
      (tail = [] ∧ (drain framing (handing message) calls b).stopped = false ∨
        ∃ e, tail = [.error e] ∧ (drain framing (handing message) calls b).stopped = true) := by
  induction calls, b using drain_induction framing (handing message) with
  | more calls b hnext =>
    rw [drain_more framing _ hnext]
    exact ⟨[], [], (List.append_nil calls).symm, Or.inl ⟨rfl, rfl⟩⟩
  | stuck calls b e hnext =>
    rw [drain_stuck framing _ hnext]
    exact ⟨[], [.error (message e)], rfl, Or.inr ⟨message e, rfl, rfl⟩⟩
  | stop calls b f rest calls' hnext hact =>
    -- a frame never stops the loop
    exact absurd (congrArg Prod.snd hact) Bool.false_ne_true
  | item calls b f rest calls' hnext hact ih =>
    rw [drain_item framing _ hnext hact]
    obtain ⟨fs, tail, hstate, htail⟩ := ih
    obtain rfl : calls ++ [.frame f] = calls' := congrArg Prod.fst hact
    refine ⟨f :: fs, tail, ?_, htail⟩
    rw [hstate, List.map_cons, List.append_assoc]
    rfl

/-- A frame, or the mark of an error whatever its text. -/
def Call.plain : Call → Option Frame
  | .frame f => some f
  | .error _ => none

theorem received_alike (message' : Lost → String) (cs : List Bytes) :
    (received (handing message) cs).Alike
      (fun calls calls' => calls'.map Call.plain = calls.map Call.plain)
      (received (handing message') cs) := by
  apply pushes_alike
  · intro calls calls' f h
    refine ⟨?_, rfl⟩
    show (calls' ++ [Call.frame f]).map Call.plain = (calls ++ [Call.frame f]).map Call.plain
    rw [List.map_append, List.map_append, h]
  · intro calls calls' e h
    show (calls' ++ [Call.error _]).map Call.plain = (calls ++ [Call.error _]).map Call.plain
    rw [List.map_append, List.map_append, h]
    rfl
  · exact ⟨rfl, rfl, rfl⟩

end Parsing

/-! ### Round trips -/

structure Message where
  type : ℕ
  stream : ℕ
  payload : Payload

def Message.frame (m : Message) : Frame := ⟨m.type, m.stream, m.payload.bytes⟩

def Message.encode (m : Message) : Except Refused Bytes := Kvr1.encode m.type m.stream m.payload

theorem encode_ok {m : Message} (h : m.frame.Valid) : m.encode = .ok (layout m.frame) := by
  obtain ⟨htype, hstream, hpayload⟩ := h
  have hbody : ¬ maxPayload < m.payload.bytes.length := Nat.not_lt.mpr hpayload
  have htype' : ¬ 256 ≤ m.type := Nat.not_le.mpr htype
  have hstream' : ¬ 2 ^ 32 ≤ m.stream := Nat.not_le.mpr hstream
  rw [Message.encode, encode, encodeBody, if_neg hbody, if_neg htype', if_neg hstream']
  rfl

theorem mapM_encode {ms : List Message} (h : ∀ m ∈ ms, m.frame.Valid) :
    ms.mapM Message.encode = .ok ((ms.map Message.frame).map layout) := by
  induction ms with
  | nil => rfl
  | cons m ms ih =>
    rw [List.mapM_cons, encode_ok (h m List.mem_cons_self),
      ih fun n hn => h n (List.mem_cons_of_mem m hn)]
    rfl

theorem desktop_body (p : Payload) : (if Desktop.truthy p then p.bytes else []) = p.bytes := by
  cases p with
  | absent => rfl
  | buffer b => rfl
  | text s =>
    by_cases hs : s = ""
    · subst hs
      rfl
    · have htruthy : Desktop.truthy (.text s) = true := bne_iff_ne.mpr hs
      rw [if_pos htruthy]

theorem encodeBody_toOption (tooLarge tooLarge' : ℕ → String) (type stream : ℕ) (body : Bytes) :
    (encodeBody tooLarge type stream body).toOption =
      (encodeBody tooLarge' type stream body).toOption := by
  unfold encodeBody
  split_ifs
  · rfl
  · rfl
  · rfl
  · rfl

/-- KVR1 frames come back as they were sent however the bytes are cut; what the parser calls is a
matter of the bytes alone, and its one error is its last call; the desktop's copy writes the same
bytes and calls the same callbacks. -/
theorem kvr1_round_trip :
    (∀ ms : List Message, (∀ m ∈ ms, m.frame.Valid) →
      ∃ parts, ms.mapM Message.encode = .ok parts ∧ ∀ cs : List Bytes, cs.flatten = parts.flatten →
        received createParser cs = ⟨ms.map fun m => .frame m.frame, [], false⟩) ∧
    (∀ cs cs' : List Bytes, cs.flatten = cs'.flatten →
      (received createParser cs).state = (received createParser cs').state) ∧
    (∀ cs : List Bytes, ∃ (fs : List Frame) (tail : List Call), (received createParser cs).state = fs.map Call.frame ++ tail ∧
      (tail = [] ∨ ∃ e, tail = [.error e] ∧
        ∀ more, received createParser (cs ++ more) = received createParser cs)) ∧
    (∀ type stream payload, (Desktop.encode type stream payload).toOption =
      (encode type stream payload).toOption) ∧
    ∀ cs : List Bytes,
      (received Desktop.parser cs).state.map Call.plain =
        (received createParser cs).state.map Call.plain ∧
      (received Desktop.parser cs).buffer = (received createParser cs).buffer ∧
      (received Desktop.parser cs).stopped = (received createParser cs).stopped := by
  refine ⟨?_, ?_, ?_, ?_, ?_⟩
  · intro ms hms
    refine ⟨_, mapM_encode hms, ?_⟩
    intro cs hcs
    obtain ⟨hstate, hstopped, hbuffer⟩ := received_eq createParser cs
    have hvalid : ∀ f ∈ ms.map Message.frame, f.Valid := by
      intro f hf
      obtain ⟨m, hm, rfl⟩ := List.mem_map.mp hf
      exact hms m hm
    have hdrain : drain framing createParser [] cs.flatten =
        ⟨(ms.map Message.frame).map Call.frame, [], false⟩ := by
      rw [hcs, ← List.append_nil ((ms.map Message.frame).map layout).flatten]
      exact (drain_layouts _ hvalid [] []).trans (drain_more framing _ nextFrame_nil)
    rw [hdrain] at hstate hstopped hbuffer
    rw [List.map_map] at hstate
    have heta : received createParser cs = ⟨(received createParser cs).state,
      (received createParser cs).buffer, (received createParser cs).stopped⟩ := rfl
    rw [heta, hstate, hstopped, hbuffer rfl]
    rfl
  · intro cs cs' h
    rw [(received_eq createParser cs).1, (received_eq createParser cs').1, h]
  · intro cs
    obtain ⟨hstate, hstopped, -⟩ := received_eq createParser cs
    obtain ⟨fs, tail, hshape, htail⟩ := drain_shape [] cs.flatten
    refine ⟨fs, tail, hstate.trans hshape, ?_⟩
    rcases htail with ⟨hnil, -⟩ | ⟨e, herror, hstop⟩
    · exact Or.inl hnil
    · refine Or.inr ⟨e, herror, ?_⟩
      intro more
      have hall : received createParser (cs ++ more) =
          more.foldl (Drained.push framing createParser) (received createParser cs) :=
        List.foldl_append
      rw [hall]
      exact pushes_stopped framing createParser (hstopped.trans hstop) more
  · intro type stream payload
    rw [Desktop.encode, desktop_body]
    exact encodeBody_toOption _ _ _ _ _
  · intro cs
    obtain ⟨hstate, hbuffer, hstopped⟩ := received_alike _ cs
    exact ⟨hstate, hbuffer.symm, hstopped.symm⟩

/-- A data frame in three pieces, cut inside its header and inside its payload. -/
theorem kvr1_round_trip_cut : received createParser
      [[0x4b, 0x56, 0x52], [0x31, 4, 0, 0, 0, 7, 0, 0, 0, 2, 0x68], [0x69]] =
    ⟨[.frame ⟨4, 7, [0x68, 0x69]⟩], [], false⟩ := by
  have hvalid : ∀ m ∈ [Message.mk 4 7 (.buffer [0x68, 0x69])], m.frame.Valid := by
    intro m hm
    obtain rfl := List.mem_singleton.mp hm
    exact ⟨by decide, by decide, by decide⟩
  obtain ⟨parts, hparts, hall⟩ := kvr1_round_trip.1 _ hvalid
  rw [mapM_encode hvalid] at hparts
  obtain rfl := Except.ok.inj hparts
  exact hall _ (by decide)

end KvasirNet.Kvr1
