import KvasirNet.RelayFrames

/-! The callbacks of the bridge's `FrameDecoder`, in the order in which it makes them. What comes
after the first `onClose` depends on the chunks; everything before it only on the bytes. -/
namespace KvasirNet.Relay

inductive Callback
  | data (payload : Bytes)
  | ping (payload : Bytes)
  | close (code : CloseCode)
  deriving DecidableEq, Repr

/-- What the decoder does with a frame: an empty payload is not handed on, and a pong needs no
answer. -/
def callbacks (f : Frame) : List Callback :=
  if f.opcode = 2 ∨ f.opcode = 0 ∨ f.opcode = 1 then
    if f.payload = [] then [] else [.data f.payload]
  else if f.opcode = 9 then [.ping f.payload]
  else if f.opcode = 8 then [.close ⟨1000, "peer closed"⟩]
  else []

/-- The loop of `FrameDecoder.push`, with the callbacks made so far. -/
def tracer : Consumer (List Callback) Frame CloseCode where
  act done f := (done ++ callbacks f, f.opcode = 8)
  jam done e := done ++ [.close e]

/-- The callbacks of a decoder that is given these chunks. -/
def heard (requireMask : Bool) (chunks : List Bytes) : List Callback :=
  (feed (framing requireMask) tracer [] [] chunks).1

def Callback.payload? : Callback → Option Bytes
  | .data payload => some payload
  | _ => Option.none

def Callback.ping? : Callback → Option Bytes
  | .ping payload => some payload
  | _ => Option.none

def Callback.close? : Callback → Option CloseCode
  | .close code => some code
  | _ => Option.none

def Called.of (done : List Callback) : Called :=
  ⟨done.filterMap Callback.payload?, done.filterMap Callback.ping?, done.filterMap Callback.close?⟩

def Callback.isClose (c : Callback) : Bool := c.close?.isSome

/-- The callbacks up to and including the first `onClose`. -/
def untilClose : List Callback → List Callback
  | [] => []
  | c :: cs => if c.isClose then [c] else c :: untilClose cs

/-- `closeFrame`. -/
def closeFrame (code : ℕ) (reason : String) : Bytes := encodeFrame 8 (beBytes 2 code ++ utf8 reason)

/-- A frame of a client: its first byte, its mask and its payload. -/
structure ClientFrame where
  first : UInt8
  mask : Bytes
  payload : Bytes
  deriving DecidableEq, Repr

def ClientFrame.bytes (f : ClientFrame) : Bytes := maskedFrame f.first f.mask f.payload

def ClientFrame.Valid (f : ClientFrame) : Prop :=
  f.mask.length = 4 ∧ f.payload.length ≤ maxFrameBytes

instance (f : ClientFrame) : Decidable f.Valid := inferInstanceAs (Decidable (_ ∧ _))

def ClientFrame.frame (f : ClientFrame) : Frame := ⟨f.first &&& 0x0f, f.payload⟩

def framesBytes (frames : List ClientFrame) : Bytes := frames.flatMap ClientFrame.bytes

/-- The callbacks that the frames are to be answered with. -/
def framesCallbacks (frames : List ClientFrame) : List Callback :=
  frames.flatMap fun f => callbacks f.frame

/-! ### The first close -/

variable {xs : List Callback}

theorem untilClose_append_of_open {ys : List Callback} (h : ∀ c ∈ xs, c.isClose = false) :
    untilClose (xs ++ ys) = xs ++ untilClose ys := by
  induction xs with
  | nil => rfl
  | cons c cs ih =>
    have hc : ¬ c.isClose = true := by
      rw [h c List.mem_cons_self]
      exact Bool.false_ne_true
    rw [List.cons_append, untilClose, if_neg hc, ih fun c' hc' => h c' (List.mem_cons_of_mem c hc')]
    rfl

theorem untilClose_append_of_closed (h : ∃ c ∈ xs, c.isClose = true)
    (ys : List Callback) : untilClose (xs ++ ys) = untilClose xs := by
  induction xs with
  | nil =>
    obtain ⟨c, hc, -⟩ := h
    cases hc
  | cons c cs ih =>
    rw [List.cons_append, untilClose, untilClose]
    by_cases hclose : c.isClose = true
    · rw [if_pos hclose, if_pos hclose]
    · rw [if_neg hclose, if_neg hclose, ih]
      obtain ⟨c', hc', hclose'⟩ := h
      rcases List.mem_cons.mp hc' with rfl | hmem
      · exact absurd hclose' hclose
      · exact ⟨c', hmem, hclose'⟩

theorem untilClose_of_open (h : ∀ c ∈ xs, c.isClose = false) :
    untilClose xs = xs := by
  have hnil : untilClose (xs ++ []) = xs ++ untilClose [] := untilClose_append_of_open h
  rwa [List.append_nil, untilClose, List.append_nil] at hnil

theorem open_of_untilClose (h : ∀ c ∈ untilClose xs, c.isClose = false) :
    untilClose xs = xs := by
  induction xs with
  | nil => rfl
  | cons c cs ih =>
    rw [untilClose] at h ⊢
    by_cases hclose : c.isClose = true
    · rw [if_pos hclose] at h
      rw [h c (List.mem_singleton.mpr rfl)] at hclose
      cases hclose
    · rw [if_neg hclose] at h ⊢
      rw [ih fun c' hc' => h c' (List.mem_cons_of_mem c hc')]

/-! ### The decoder -/

theorem callbacks_close {f : Frame} (h : f.opcode = 8) :
    callbacks f = [.close ⟨1000, "peer closed"⟩] := by
  have hdata : ¬ (f.opcode = 2 ∨ f.opcode = 0 ∨ f.opcode = 1) := by
    rw [h]
    decide
  have hping : ¬ f.opcode = 9 := by
    rw [h]
    decide
  rw [callbacks, if_neg hdata, if_neg hping, if_pos h]

theorem callbacks_open {f : Frame} (h : f.opcode ≠ 8) : ∀ c ∈ callbacks f, c.isClose = false := by
  intro c hc
  rw [callbacks, if_neg h] at hc
  split_ifs at hc
  · cases hc
  · rw [List.mem_singleton.mp hc]
    rfl
  · rw [List.mem_singleton.mp hc]
    rfl
  · cases hc

variable {requireMask : Bool}

theorem drain_closed (done : List Callback) (b : Bytes)
    (h : (drain (framing requireMask) tracer done b).stopped = true) :
    ∃ c ∈ (drain (framing requireMask) tracer done b).state, c.isClose = true := by
  induction done, b using drain_induction (framing requireMask) tracer with
  | more done b hnext =>
    rw [drain_more _ _ hnext] at h
    cases h
  | stuck done b e hnext =>
    rw [drain_stuck _ _ hnext]
    have hlast : Callback.close e ∈ [Callback.close e] := List.mem_singleton.mpr rfl
    exact ⟨_, List.mem_append_right done hlast, rfl⟩
  | stop done b f rest done' hnext hact =>
    rw [drain_stop _ _ hnext hact]
    obtain ⟨rfl, hclose⟩ := Prod.mk.inj hact
    rw [callbacks_close (of_decide_eq_true hclose)]
    exact ⟨_, List.mem_append_right done (List.mem_singleton.mpr rfl), rfl⟩
  | item done b f rest done' hnext hact ih =>
    rw [drain_item _ _ hnext hact] at h ⊢
    exact ih h

theorem feed_extends (done : List Callback) (b : Bytes) (chunks : List Bytes) :
    done <+: (feed (framing requireMask) tracer done b chunks).1 :=
  feed_invariant (framing requireMask) tracer (I := fun s => done <+: s)
    (fun _ f h => h.trans (List.prefix_append _ (callbacks f)))
    (fun _ e h => h.trans (List.prefix_append _ [Callback.close e])) done b chunks (List.prefix_refl done)

theorem untilClose_heard (requireMask : Bool) (chunks : List Bytes) :
    untilClose (heard requireMask chunks) =
      untilClose (drain (framing requireMask) tracer [] chunks.flatten).state := by
  have hsettled : ∀ (done : List Callback) (b : Bytes),
      (drain (framing requireMask) tracer done b).stopped = true → ∀ b' cs,
      untilClose (feed (framing requireMask) tracer
        (drain (framing requireMask) tracer done b).state b' cs).1 =
      untilClose (drain (framing requireMask) tracer done b).state := by
    intro done b hstop b' cs
    have hmonotone : (drain (framing requireMask) tracer done b).state <+:
        (feed (framing requireMask) tracer (drain (framing requireMask) tracer done b).state b' cs).1 :=
      feed_extends _ b' cs
    obtain ⟨more, hmore⟩ := hmonotone
    rw [← hmore]
    exact untilClose_append_of_closed (drain_closed done b hstop) more
  have hobserve := feed_observe (framing requireMask) tracer untilClose hsettled [] [] chunks rfl
  rwa [List.nil_append] at hobserve

/-! ### The frames of a client -/

theorem nextFrame_client {f : ClientFrame} (hf : f.Valid) (rest : Bytes) :
    nextFrame requireMask (f.bytes ++ rest) = .item f.frame rest := by
  obtain ⟨hmask, hlen⟩ := hf
  have hbound : f.payload.length < 2 ^ 64 := by
    unfold maxFrameBytes at hlen
    omega
  obtain ⟨second, ext, hbytes, hext, hann, hbit⟩ := lengthBytes_spec (.inr rfl) hbound
  have hmasked : ¬ second &&& 0x80 = 0 := by
    rw [hbit]
    decide
  have hlaid : Laid requireMask f.first second ext f.mask (xorMask f.mask f.payload) :=
    { lengthExt := hext
      small := by rw [hann]; exact hlen
      masked := fun h => hmasked h.2
      lengthMask := by rw [hmask, maskWidth, if_neg hmasked]
      lengthPayload := by rw [xorMask_length, hann] }
  have hnext := nextFrame_laid hlaid rest
  rw [xorMask_xorMask] at hnext
  rw [ClientFrame.bytes, ClientFrame.frame, maskedFrame, hbytes]
  simpa only [List.cons_append, List.append_assoc] using hnext

theorem drain_frames (frames : List ClientFrame) (hvalid : ∀ f ∈ frames, f.Valid)
    (done : List Callback) (hdone : ∀ c ∈ done, c.isClose = false) :
    untilClose (drain (framing requireMask) tracer done (framesBytes frames)).state =
      untilClose (done ++ framesCallbacks frames) := by
  induction frames generalizing done with
  | nil =>
    have hmore : (framing requireMask).next [] = .more := rfl
    rw [framesBytes, List.flatMap_nil, drain_more _ _ hmore, framesCallbacks, List.flatMap_nil,
      List.append_nil]
  | cons f frames ih =>
    have hnext : (framing requireMask).next (framesBytes (f :: frames)) =
        .item f.frame (framesBytes frames) :=
      nextFrame_client (hvalid f List.mem_cons_self) (framesBytes frames)
    have hall : done ++ framesCallbacks (f :: frames) =
        (done ++ callbacks f.frame) ++ framesCallbacks frames := by
      rw [framesCallbacks, List.flatMap_cons, List.append_assoc]
      rfl
    rw [hall]
    by_cases hclose : f.frame.opcode = 8
    · -- a close stops the loop, and what follows it is not looked at
      have hact : tracer.act done f.frame = (done ++ callbacks f.frame, true) :=
        Prod.ext rfl (decide_eq_true hclose)
      rw [drain_stop _ _ hnext hact]
      have hclosed : ∃ c ∈ done ++ callbacks f.frame, c.isClose = true := by
        rw [callbacks_close hclose]
        exact ⟨_, List.mem_append_right done (List.mem_singleton.mpr rfl), rfl⟩
      exact (untilClose_append_of_closed hclosed _).symm
    · have hact : tracer.act done f.frame = (done ++ callbacks f.frame, false) :=
        Prod.ext rfl (decide_eq_false hclose)
      rw [drain_item _ _ hnext hact]
      refine ih (fun g hg => hvalid g (List.mem_cons_of_mem f hg)) _ fun c hc => ?_
      rcases List.mem_append.mp hc with hc | hc
      · exact hdone c hc
      · exact callbacks_open hclose c hc

/-! ### The frames of the server -/

theorem nextFrame_encodeFrame {opcode : UInt8} (hopcode : opcode < 16) {payload : Bytes}
    (hlen : payload.length ≤ maxFrameBytes) (rest : Bytes) :
    nextFrame false (encodeFrame opcode payload ++ rest) = .item ⟨opcode, payload⟩ rest := by
  have hbound : payload.length < 2 ^ 64 := by
    unfold maxFrameBytes at hlen
    omega
  have hnibble : ∀ n : Fin 16, (0x80 ||| UInt8.ofNat n) &&& 0x0f = UInt8.ofNat n := by decide
  have hsame : (0x80 ||| opcode) &&& 0x0f = opcode := by
    have hat := hnibble ⟨opcode.toNat, hopcode⟩
    rwa [UInt8.ofNat_toNat] at hat
  obtain ⟨second, ext, hbytes, hext, hann, hbit⟩ := lengthBytes_spec (.inl rfl) hbound
  have hlaid : Laid false (0x80 ||| opcode) second ext [] payload :=
    { lengthExt := hext
      small := by rw [hann]; exact hlen
      masked := fun h => Bool.false_ne_true h.1
      lengthMask := by rw [maskWidth, if_pos hbit]; rfl
      lengthPayload := by rw [hann] }
  have hnext := nextFrame_laid hlaid rest
  rw [xorMask_zero (fun _ => rfl), hsame, List.nil_append] at hnext
  rw [encodeFrame, hbytes]
  simpa only [List.cons_append, List.append_assoc] using hnext

theorem nextFrame_closeFrame (code : ℕ) {reason : String}
    (hlen : (utf8 reason).length + 2 ≤ maxFrameBytes) (rest : Bytes) :
    nextFrame false (closeFrame code reason ++ rest) =
      .item ⟨8, beBytes 2 code ++ utf8 reason⟩ rest := by
  refine nextFrame_encodeFrame (by decide) ?_ rest
  rw [List.length_append, length_beBytes, Nat.add_comm]
  exact hlen

theorem nextFrame_tooLarge (opcode : UInt8) {payload : Bytes} (hlen : maxFrameBytes < payload.length)
    (hbound : payload.length < 2 ^ 64) (requireMask : Bool) (rest : Bytes) :
    nextFrame requireMask (encodeFrame opcode payload ++ rest) =
      .stuck ⟨1009, "frame too large"⟩ := by
  obtain ⟨second, ext, hbytes, hext, hann, -⟩ := lengthBytes_spec (.inl rfl) hbound
  have hcut : (ext ++ payload ++ rest).take (lengthWidth second) = ext := by
    rw [List.append_assoc]
    exact List.take_left' hext
  have hroom : ¬ (ext ++ payload ++ rest).length < lengthWidth second := by
    rw [List.length_append, List.length_append, hext]
    omega
  have hbig : maxFrameBytes < announced second ext := by
    rw [hann]
    exact hlen
  rw [encodeFrame, hbytes]
  simp only [List.cons_append, nextFrame, hcut, if_neg hroom, if_pos hbig]

/-! ### The two traces -/

theorem called_act (done : List Callback) (f : Frame) :
    Called.of (tracer.act done f).1 = (decoder.act (Called.of done) f).1 ∧
      (tracer.act done f).2 = (decoder.act (Called.of done) f).2 := by
  have hsplit : Called.of (done ++ callbacks f) = (decoder.act (Called.of done) f).1 := by
    simp only [Called.of, List.filterMap_append, callbacks, decoder]
    split_ifs <;> simp [Callback.payload?, Callback.ping?, Callback.close?]
  refine ⟨hsplit, ?_⟩
  by_cases hclose : f.opcode = 8
  · simp [tracer, decoder, hclose]
  · simp only [tracer, decoder, hclose, decide_false, if_false]
    split_ifs <;> rfl

theorem called_of_heard (requireMask : Bool) (chunks : List Bytes) :
    Called.of (heard requireMask chunks) =
      (feed (framing requireMask) decoder .none [] chunks).1 := by
  have hjam : ∀ (done : List Callback) (e : CloseCode),
      Called.of (tracer.jam done e) = decoder.jam (Called.of done) e := by
    intro done e
    simp [Called.of, tracer, decoder, List.filterMap_append, Callback.payload?, Callback.ping?,
      Callback.close?]
  have hfeed (done : List Callback) (b : Bytes) :
      Called.of (feed (framing requireMask) tracer done b chunks).1 =
      (feed (framing requireMask) decoder (Called.of done) b chunks).1 := by
    induction chunks generalizing done b with
    | nil => rfl
    | cons c cs ih =>
      have halike : Drained.Alike (fun done called => Called.of done = called)
          (drain (framing requireMask) tracer done (b ++ c))
          (drain (framing requireMask) decoder (Called.of done) (b ++ c)) :=
        drain_alike (framing requireMask) (fun done _ f h => h ▸ called_act done f)
          (fun done _ e h => h ▸ hjam done e) done (Called.of done) (b ++ c) rfl
      rw [feed, feed, ih, halike.state, halike.buffer]
  exact hfeed [] []

/-! ### What the decoder is for -/

/-- Up to the first close, the frames of a client are answered as they were sent, however their bytes
are cut, and all of them when there is no close; the server's own frames decode to themselves; and
of any bytes the cuts are not seen up to the first close. -/
theorem relay_callbacks :
    (∀ (requireMask : Bool) (frames : List ClientFrame) (chunks : List Bytes),
      (∀ f ∈ frames, f.Valid) → chunks.flatten = framesBytes frames →
      untilClose (heard requireMask chunks) = untilClose (framesCallbacks frames) ∧
        ((∀ f ∈ frames, f.frame.opcode ≠ 8) → heard requireMask chunks = framesCallbacks frames)) ∧
    (∀ (opcode : UInt8) (payload rest : Bytes), opcode < 16 → payload.length ≤ maxFrameBytes →
      nextFrame false (encodeFrame opcode payload ++ rest) = .item ⟨opcode, payload⟩ rest) ∧
    ∀ (requireMask : Bool) (chunks chunks' : List Bytes), chunks.flatten = chunks'.flatten →
      untilClose (heard requireMask chunks) = untilClose (heard requireMask chunks') := by
  refine ⟨fun requireMask frames chunks hvalid hchunks => ?_, fun opcode payload rest hopcode hlen =>
    nextFrame_encodeFrame hopcode hlen rest, fun requireMask chunks chunks' hsame => ?_⟩
  · have huntil : untilClose (heard requireMask chunks) = untilClose (framesCallbacks frames) := by
      rw [untilClose_heard, hchunks, drain_frames frames hvalid [] fun c hc => absurd hc List.not_mem_nil,
        List.nil_append]
    refine ⟨huntil, fun hopen => ?_⟩
    have hno : ∀ c ∈ framesCallbacks frames, c.isClose = false := by
      intro c hc
      obtain ⟨f, hf, hc⟩ := List.mem_flatMap.mp hc
      exact callbacks_open (hopen f hf) c hc
    rw [untilClose_of_open hno] at huntil
    rw [← huntil]
    exact (open_of_untilClose (huntil ▸ hno)).symm
  · rw [untilClose_heard, untilClose_heard, hsame]

/-- A data frame, a ping and a close, cut within the second header. -/
def threeFrames : List ClientFrame :=
  [⟨0x82, [1, 2, 3, 4], [7, 8]⟩, ⟨0x89, [0, 0, 0, 0], [5]⟩, ⟨0x88, [9, 9, 9, 9], []⟩]

theorem relay_callbacks_three :
    untilClose (heard true [(framesBytes threeFrames).take 9, (framesBytes threeFrames).drop 9]) =
      [.data [7, 8], .ping [5], .close ⟨1000, "peer closed"⟩] :=
  (relay_callbacks.1 true threeFrames
    [(framesBytes threeFrames).take 9, (framesBytes threeFrames).drop 9] (by decide) (by decide)).1

def ClientFrame.isData (f : ClientFrame) : Bool :=
  f.frame.opcode = 2 ∨ f.frame.opcode = 0 ∨ f.frame.opcode = 1

/-- A data frame in the same chunk behind a close is not handed on, nor is an empty payload. -/
theorem data_after_close :
    ¬ ∀ (frames : List ClientFrame) (chunks : List Bytes), (∀ f ∈ frames, f.Valid) →
      chunks.flatten = framesBytes frames →
      (heard true chunks).filterMap Callback.payload? =
        (frames.filter ClientFrame.isData).map ClientFrame.payload := by
  intro h
  have hdata := h [⟨0x88, [9, 9, 9, 9], []⟩, ⟨0x82, [1, 2, 3, 4], [7, 8]⟩]
    [framesBytes [⟨0x88, [9, 9, 9, 9], []⟩, ⟨0x82, [1, 2, 3, 4], [7, 8]⟩]] (by decide) (by decide)
  exact absurd hdata (by decide)

end KvasirNet.Relay
