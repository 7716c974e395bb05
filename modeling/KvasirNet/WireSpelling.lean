import KvasirNet.WireEvent

/-! The bytes of an event frame, field by field and before any of them is
interpreted. `decodeEvent` accepts exactly the frames spelled this way, and
`encodeEvent` returns exactly the spelling of its fields. -/
namespace KvasirNet.Wire

open Reader

structure RawRoute where
  ingressAgent : Block
  channel : Block
  connectionGeneration : UInt64
  deriving DecidableEq

def RawRoute.bytes (r : RawRoute) : Bytes :=
  r.ingressAgent.bytes ++ (r.channel.bytes ++ u64Bytes r.connectionGeneration)

inductive RawEndpoint
  | agent (address : Block)
  | node (home name : Block) (generation : UInt64)
  | outer (route : RawRoute)
  deriving DecidableEq

def RawEndpoint.bytes : RawEndpoint → Bytes
  | agent address => 0 :: address.bytes
  | node home name generation => 1 :: (home.bytes ++ (name.bytes ++ u64Bytes generation))
  | outer route => 2 :: route.bytes

structure RawEnvelope where
  eventId : Block
  correlationId : Block
  causationId : Option Block
  source : RawEndpoint
  target : RawEndpoint
  returnRoute : Option RawRoute
  code : UInt8
  sequence : UInt64
  deadlineUnixMs : Option UInt64
  adapterKind : Option Block
  contentType : Block
  deriving DecidableEq

def RawEnvelope.bytes (r : RawEnvelope) : Bytes :=
  leBytes 2 protocolVersion ++ (r.eventId.bytes ++ (r.correlationId.bytes ++
    (optionBytes Block.bytes r.causationId ++ (r.source.bytes ++ (r.target.bytes ++
      (optionBytes RawRoute.bytes r.returnRoute ++ ([r.code] ++ (u64Bytes r.sequence ++
        (optionBytes u64Bytes r.deadlineUnixMs ++ (optionBytes Block.bytes r.adapterKind ++
          r.contentType.bytes))))))))))

/-- A frame whose two lengths are the lengths of its parts. -/
structure RawEvent where
  envelope : RawEnvelope
  payload : Bytes
  envelope_short : envelope.bytes.length < 2 ^ 32
  payload_short : payload.length < 2 ^ 32

def RawEvent.bytes (r : RawEvent) : Bytes :=
  eventMagic ++ (leBytes 4 r.envelope.bytes.length ++ (leBytes 4 r.payload.length ++
    (r.envelope.bytes ++ r.payload)))

/-! ### What the reader makes of a spelling -/

def textValue (b : Block) : String := ofUtf8 b.body

def numberValue (n : UInt64) : ℕ := toNumber n.toNat

def RawRoute.value (r : RawRoute) : OuterRoute :=
  ⟨textValue r.ingressAgent, textValue r.channel, numberValue r.connectionGeneration⟩

def RawEndpoint.value : RawEndpoint → Endpoint
  | agent address => .agent (textValue address)
  | node home name generation => .node (textValue home) (textValue name) (numberValue generation)
  | outer route => .outer route.value

def RawEnvelope.value (r : RawEnvelope) : EventMeta where
  eventId := textValue r.eventId
  correlationId := textValue r.correlationId
  causationId := r.causationId.map textValue
  source := r.source.value
  target := r.target.value
  returnRoute := r.returnRoute.map RawRoute.value
  eventClass := className r.code
  sequence := numberValue r.sequence
  deadlineUnixMs := r.deadlineUnixMs.map numberValue
  adapterKind := r.adapterKind.map textValue
  contentType := textValue r.contentType

theorem take_reads (n : ℕ) :
    Reads (Cursor.take n) (fun xs : { xs : Bytes // xs.length = n } => xs.1) (fun xs => xs.1) where
  accepts xs rest := by
    obtain ⟨xs, rfl⟩ := xs
    exact take_append _ xs rest
  exact bs a rest h := by
    obtain ⟨hbs, hlen⟩ := take_eq_ok h
    exact ⟨⟨a, hlen⟩, hbs, rfl⟩

theorem byte_reads : Reads Cursor.byte (fun b : UInt8 => [b]) id where
  accepts b rest := (take_reads 1).bind_accepts _ ⟨[b], rfl⟩ rest
  exact bs a rest h := by
    obtain ⟨⟨raw, hlen⟩, mid, rfl, hpure⟩ := (take_reads 1).bind_exact h
    obtain ⟨rfl, rfl⟩ := pure_eq_ok hpure
    obtain ⟨b, rfl⟩ := List.length_eq_one_iff.mp hlen
    exact ⟨b, rfl, rfl⟩

theorem uint_reads (width : ℕ) : Reads (Cursor.uint width)
    (fun n : { n : ℕ // n < 256 ^ width } => leBytes width n.1) (fun n => n.1) where
  accepts n rest := by
    rw [Cursor.uint, (take_reads width).bind_accepts _ ⟨leBytes width n.1, length_leBytes _ _⟩ rest,
      pure_apply, leValue_leBytes n.2]
  exact bs a rest h := by
    obtain ⟨⟨raw, rfl⟩, mid, rfl, hpure⟩ := (take_reads width).bind_exact h
    obtain ⟨rfl, rfl⟩ := pure_eq_ok hpure
    exact ⟨⟨leValue raw, leValue_lt raw⟩, by simp only [leBytes_leValue], rfl⟩

theorem u16_reads : Reads Cursor.u16 (fun n : { n : ℕ // n < 256 ^ 2 } => leBytes 2 n.1)
    (fun n => n.1) := uint_reads 2

theorem u32_reads : Reads Cursor.u32 (fun n : { n : ℕ // n < 256 ^ 4 } => leBytes 4 n.1)
    (fun n => n.1) := uint_reads 4

theorem u64_reads : Reads Cursor.u64 u64Bytes numberValue where
  accepts n rest := (uint_reads 8).bind_accepts _ ⟨n.toNat, n.toNat_lt⟩ rest
  exact bs a rest h := by
    obtain ⟨⟨n, hn⟩, mid, rfl, hpure⟩ := (uint_reads 8).bind_exact h
    obtain ⟨rfl, rfl⟩ := pure_eq_ok hpure
    have hval : (UInt64.ofNat n).toNat = n := by
      rw [UInt64.toNat_ofNat']
      exact Nat.mod_eq_of_lt hn
    exact ⟨UInt64.ofNat n, by simp only [u64Bytes, hval], by rw [numberValue, hval]⟩

theorem block_reads : Reads Cursor.block Block.bytes Block.body where
  accepts b rest := by
    rw [Block.bytes, List.append_assoc, Cursor.block,
      u32_reads.bind_accepts _ ⟨b.body.length, b.short⟩ _]
    exact (take_reads _).accepts ⟨b.body, rfl⟩ rest
  exact bs a rest h := by
    obtain ⟨⟨n, hn⟩, mid, rfl, hbody⟩ := u32_reads.bind_exact h
    obtain ⟨⟨body, rfl⟩, rfl, rfl⟩ := (take_reads n).exact _ _ _ hbody
    exact ⟨⟨a, hn⟩, by simp [Block.bytes], rfl⟩

theorem text_reads : Reads Cursor.text Block.bytes textValue where
  accepts b rest := block_reads.bind_accepts _ b rest
  exact bs a rest h := by
    obtain ⟨b, mid, rfl, hpure⟩ := block_reads.bind_exact h
    obtain ⟨rfl, rfl⟩ := pure_eq_ok hpure
    exact ⟨b, rfl, rfl⟩

theorem optional_reads {α ρ : Type} {read : Cursor α} {write : ρ → Bytes} {value : ρ → α}
    (hr : Reads read write value) :
    Reads (Cursor.optional read) (optionBytes write) (Option.map value) where
  accepts raw rest := by
    cases raw with
    | none => exact byte_reads.bind_accepts _ 0 rest
    | some raw =>
      calc
        Cursor.optional read (1 :: write raw ++ rest)
            = (read >>= fun value => pure (some value)) (write raw ++ rest) :=
          byte_reads.bind_accepts _ 1 (write raw ++ rest)
        _ = .ok (some (value raw), rest) := hr.bind_accepts _ raw rest
  exact bs a rest h := by
    obtain ⟨flag, mid, rfl, hflag⟩ := byte_reads.bind_exact h
    simp only [id] at hflag
    split at hflag
    · cases hflag
    · split at hflag
      · -- the flag is set and the value follows
        rename_i hset
        obtain ⟨raw, rest', rfl, hpure⟩ := hr.bind_exact hflag
        obtain ⟨rfl, rfl⟩ := pure_eq_ok hpure
        exact ⟨some raw, by rw [hset]; rfl, rfl⟩
      · rename_i hvalid hunset
        have hzero : flag = 0 := by
          by_contra hne
          exact hvalid ⟨hne, hunset⟩
        obtain ⟨rfl, rfl⟩ := pure_eq_ok hflag
        exact ⟨none, by rw [hzero]; rfl, rfl⟩

theorem outerBody_reads : Reads Cursor.outerBody RawRoute.bytes RawRoute.value where
  accepts r rest := by
    simp only [Cursor.outerBody, RawRoute.bytes, List.append_assoc]
    rw [text_reads.bind_accepts, text_reads.bind_accepts, u64_reads.bind_accepts]
    rfl
  exact bs a rest h := by
    obtain ⟨ingress, _, rfl, h₁⟩ := text_reads.bind_exact h
    obtain ⟨channel, _, rfl, h₂⟩ := text_reads.bind_exact h₁
    obtain ⟨generation, _, rfl, h₃⟩ := u64_reads.bind_exact h₂
    obtain ⟨rfl, rfl⟩ := pure_eq_ok h₃
    exact ⟨⟨ingress, channel, generation⟩, by simp [RawRoute.bytes], rfl⟩

theorem endpoint_reads : Reads Cursor.endpoint RawEndpoint.bytes RawEndpoint.value where
  accepts r rest := by
    cases r with
    | agent address =>
      calc
        Cursor.endpoint (0 :: address.bytes ++ rest)
            = (Cursor.text >>= fun a => pure (Endpoint.agent a)) (address.bytes ++ rest) :=
          byte_reads.bind_accepts _ 0 _
        _ = .ok (.agent (textValue address), rest) := text_reads.bind_accepts _ _ _
    | node home name generation =>
      refine (byte_reads.bind_accepts _ 1
        (home.bytes ++ (name.bytes ++ u64Bytes generation) ++ rest)).trans ?_
      simp only [id, List.append_assoc, reduceIte, show (1 : UInt8) ≠ 0 by decide]
      rw [text_reads.bind_accepts, text_reads.bind_accepts, u64_reads.bind_accepts]
      rfl
    | outer route =>
      calc
        Cursor.endpoint (2 :: route.bytes ++ rest)
            = (Cursor.outerBody >>= fun r => pure (Endpoint.outer r)) (route.bytes ++ rest) :=
          byte_reads.bind_accepts _ 2 _
        _ = .ok (.outer route.value, rest) := outerBody_reads.bind_accepts _ _ _
  exact bs a rest h := by
    obtain ⟨kind, mid, rfl, hkind⟩ := byte_reads.bind_exact h
    simp only [id] at hkind
    split at hkind
    · rename_i hzero
      obtain ⟨address, _, rfl, hpure⟩ := text_reads.bind_exact hkind
      obtain ⟨rfl, rfl⟩ := pure_eq_ok hpure
      exact ⟨.agent address, by rw [hzero]; rfl, rfl⟩
    · split at hkind
      · rename_i hone
        obtain ⟨home, _, rfl, h₁⟩ := text_reads.bind_exact hkind
        obtain ⟨name, _, rfl, h₂⟩ := text_reads.bind_exact h₁
        obtain ⟨generation, _, rfl, h₃⟩ := u64_reads.bind_exact h₂
        obtain ⟨rfl, rfl⟩ := pure_eq_ok h₃
        exact ⟨.node home name generation, by rw [hone]; simp [RawEndpoint.bytes], rfl⟩
      · split at hkind
        · rename_i htwo
          obtain ⟨route, _, rfl, hpure⟩ := outerBody_reads.bind_exact hkind
          obtain ⟨rfl, rfl⟩ := pure_eq_ok hpure
          exact ⟨.outer route, by rw [htwo]; rfl, rfl⟩
        · cases hkind

theorem envelope_reads : Reads Cursor.envelope RawEnvelope.bytes RawEnvelope.value where
  accepts r rest := by
    simp only [RawEnvelope.bytes, List.append_assoc]
    rw [Cursor.envelope, u16_reads.bind_accepts _ ⟨protocolVersion, by decide⟩ _, if_neg (by decide),
      text_reads.bind_accepts, text_reads.bind_accepts, (optional_reads text_reads).bind_accepts,
      endpoint_reads.bind_accepts, endpoint_reads.bind_accepts,
      (optional_reads outerBody_reads).bind_accepts, byte_reads.bind_accepts,
      u64_reads.bind_accepts, (optional_reads u64_reads).bind_accepts,
      (optional_reads text_reads).bind_accepts, text_reads.bind_accepts]
    rfl
  exact bs a rest h := by
    obtain ⟨⟨version, _⟩, _, rfl, h₁⟩ := u16_reads.bind_exact h
    split at h₁
    · cases h₁
    · rename_i hversion
      have hversion : version = protocolVersion := not_not.mp hversion
      subst hversion
      obtain ⟨eventId, _, rfl, h₂⟩ := text_reads.bind_exact h₁
      obtain ⟨correlationId, _, rfl, h₃⟩ := text_reads.bind_exact h₂
      obtain ⟨causationId, _, rfl, h₄⟩ := (optional_reads text_reads).bind_exact h₃
      obtain ⟨source, _, rfl, h₅⟩ := endpoint_reads.bind_exact h₄
      obtain ⟨target, _, rfl, h₆⟩ := endpoint_reads.bind_exact h₅
      obtain ⟨returnRoute, _, rfl, h₇⟩ := (optional_reads outerBody_reads).bind_exact h₆
      obtain ⟨code, _, rfl, h₈⟩ := byte_reads.bind_exact h₇
      obtain ⟨sequence, _, rfl, h₉⟩ := u64_reads.bind_exact h₈
      obtain ⟨deadline, _, rfl, h₁₀⟩ := (optional_reads u64_reads).bind_exact h₉
      obtain ⟨adapterKind, _, rfl, h₁₁⟩ := (optional_reads text_reads).bind_exact h₁₀
      obtain ⟨contentType, _, rfl, h₁₂⟩ := text_reads.bind_exact h₁₁
      obtain ⟨rfl, rfl⟩ := pure_eq_ok h₁₂
      refine ⟨⟨eventId, correlationId, causationId, source, target, returnRoute, code, sequence,
        deadline, adapterKind, contentType⟩, ?_, rfl⟩
      simp only [RawEnvelope.bytes, List.append_assoc]

theorem decodeEvent_bytes (r : RawEvent) :
    decodeEvent r.bytes = .ok (r.envelope.value, r.payload) := by
  have hread := envelope_reads.accepts r.envelope []
  rw [List.append_nil] at hread
  have hlength : r.bytes.length = 12 + r.envelope.bytes.length + r.payload.length := by
    simp only [RawEvent.bytes, List.length_append, length_leBytes]
    simp only [eventMagic, List.length_cons, List.length_nil]
    omega
  have hmagic : r.bytes.take 4 = eventMagic := by
    simp [RawEvent.bytes, eventMagic]
  have hdrop4 : r.bytes.drop 4 = leBytes 4 r.envelope.bytes.length ++
      (leBytes 4 r.payload.length ++ (r.envelope.bytes ++ r.payload)) := rfl
  have hdrop8 : r.bytes.drop 8 = leBytes 4 r.payload.length ++
      (r.envelope.bytes ++ r.payload) := by
    rw [show r.bytes.drop 8 = (r.bytes.drop 4).drop 4 by rw [List.drop_drop], hdrop4]
    exact List.drop_left' (length_leBytes 4 _)
  have hdrop12 : r.bytes.drop 12 = r.envelope.bytes ++ r.payload := by
    rw [show r.bytes.drop 12 = (r.bytes.drop 8).drop 4 by rw [List.drop_drop], hdrop8]
    exact List.drop_left' (length_leBytes 4 _)
  have henv : leValue ((r.bytes.drop 4).take 4) = r.envelope.bytes.length := by
    rw [hdrop4, List.take_left' (length_leBytes 4 _)]
    exact leValue_leBytes r.envelope_short
  have hpay : leValue ((r.bytes.drop 8).take 4) = r.payload.length := by
    rw [hdrop8, List.take_left' (length_leBytes 4 _)]
    exact leValue_leBytes r.payload_short
  have hrest : r.bytes.drop (12 + r.envelope.bytes.length) = r.payload := by
    rw [← List.drop_drop, hdrop12, List.drop_left]
  have hbig : ¬(r.bytes.length < 12 ∨ r.bytes.take 4 ≠ eventMagic) := by
    rintro (hshort | hne)
    · omega
    · exact hne hmagic
  rw [decodeEvent, if_neg hbig]
  simp only [henv, hpay, hlength, ne_eq, not_true_eq_false, if_false, hdrop12, List.take_left,
    hread, hrest]

theorem decodeEvent_eq_ok {frame : Bytes} {m : EventMeta} {payload : Bytes}
    (h : decodeEvent frame = .ok (m, payload)) :
    ∃ r : RawEvent, frame = r.bytes ∧ m = r.envelope.value ∧ payload = r.payload := by
  simp only [decodeEvent] at h
  split at h
  · cases h
  · rename_i hmagic
    obtain ⟨hlong, hmagic⟩ := not_or.mp hmagic
    have hmagic : frame.take 4 = eventMagic := not_not.mp hmagic
    split at h
    · cases h
    · rename_i hlength
      have hlength := not_not.mp hlength
      split at h
      · cases h
      · rename_i m' rest hread
        split at h
        · cases h
        · rename_i hrest
          have hrest : rest = [] := not_not.mp hrest
          obtain ⟨rfl, rfl⟩ := Prod.mk.inj (Except.ok.inj h)
          obtain ⟨raw, hraw, hm⟩ := envelope_reads.exact _ _ _ hread
          rw [hrest, List.append_nil] at hraw
          -- the two length words, read back as bytes
          obtain ⟨henv, henvLt⟩ := leBytes_leValue_window (show 4 + 4 ≤ frame.length by omega)
          obtain ⟨hpay, hpayLt⟩ := leBytes_leValue_window (show 8 + 4 ≤ frame.length by omega)
          have hrawLen : raw.bytes.length = leValue ((frame.drop 4).take 4) := by
            rw [← hraw, List.length_take, List.length_drop]
            omega
          have hpayLen : (frame.drop (12 + leValue ((frame.drop 4).take 4))).length =
              leValue ((frame.drop 8).take 4) := by
            rw [List.length_drop]
            omega
          refine ⟨⟨raw, _, by rw [hrawLen]; exact henvLt, by rw [hpayLen]; exact hpayLt⟩, ?_, hm, rfl⟩
          calc
            frame = frame.take 4 ++ frame.drop 4 := (List.take_append_drop 4 frame).symm
            _ = eventMagic ++ ((frame.drop 4).take 4 ++ ((frame.drop 8).take 4 ++
                ((frame.drop 12).take (leValue ((frame.drop 4).take 4)) ++
                  frame.drop (12 + leValue ((frame.drop 4).take 4))))) := by
              rw [hmagic, ← drop_eq_window_append, ← drop_eq_window_append frame 8 4,
                ← drop_eq_window_append frame 4 4]
            _ = _ := by
              simp only [RawEvent.bytes]
              rw [hrawLen, hpayLen, henv, hpay, hraw]

/-! ### Which spelling the encoder writes -/

def RawRoute.Spells (r : RawRoute) (route : OuterRoute) : Prop :=
  r.ingressAgent.body = utf8 route.ingressAgent ∧ r.channel.body = utf8 route.channel ∧
    r.connectionGeneration.toNat = route.connectionGeneration

def RawEndpoint.Spells : RawEndpoint → Endpoint → Prop
  | agent address, .agent address' => address.body = utf8 address'
  | node home name generation, .node home' name' generation' =>
    home.body = utf8 home' ∧ name.body = utf8 name' ∧ generation.toNat = generation'
  | outer route, .outer route' => route.Spells route'
  | _, _ => False

structure RawEnvelope.Spells (r : RawEnvelope) (m : EventMeta) : Prop where
  eventId : r.eventId.body = utf8 m.eventId
  correlationId : r.correlationId.body = utf8 m.correlationId
  causationId : r.causationId = none
  source : r.source.Spells m.source
  target : r.target.Spells m.target
  returnRoute : Option.Rel RawRoute.Spells r.returnRoute m.returnRoute
  code : r.code = classByte m.eventClass
  sequence : r.sequence.toNat = m.sequence
  deadlineUnixMs : Option.Rel (fun n v => n.toNat = v) r.deadlineUnixMs
    (m.deadlineUnixMs.filter (· ≠ 0))
  adapterKind : Option.Rel (fun b s => b.body = utf8 s) r.adapterKind
    (m.adapterKind.filter (· ≠ ""))
  contentType : r.contentType.body = utf8 m.contentType

theorem uint_eq_ok {width value : ℕ} {bs : Bytes} :
    uint width value = .ok bs ↔ value < 256 ^ width ∧ bs = leBytes width value := by
  unfold uint
  split
  · rename_i hlt
    simp [hlt, eq_comm]
  · rename_i hlt
    simp [hlt]

theorem u64_writes : Writes u64 u64Bytes (fun n v => n.toNat = v) := by
  intro v bs
  rw [u64, uint_eq_ok]
  constructor
  · rintro ⟨hlt, rfl⟩
    have hval : (UInt64.ofNat v).toNat = v := by
      rw [UInt64.toNat_ofNat']
      exact Nat.mod_eq_of_lt hlt
    exact ⟨UInt64.ofNat v, hval, by rw [u64Bytes, hval]⟩
  · rintro ⟨n, rfl, rfl⟩
    exact ⟨n.toNat_lt, rfl⟩

theorem text_writes : Writes text Block.bytes (fun b s => b.body = utf8 s) := by
  intro s bs
  constructor
  · intro h
    obtain ⟨head, hhead, hpure⟩ := except_bind_eq_ok.mp h
    obtain ⟨hlt, rfl⟩ := uint_eq_ok.mp hhead
    obtain rfl := Except.ok.inj hpure
    exact ⟨⟨utf8 s, hlt⟩, rfl, rfl⟩
  · rintro ⟨b, hb, rfl⟩
    have hhead : u32 (utf8 s).length = .ok (leBytes 4 (utf8 s).length) := by
      apply uint_eq_ok.mpr
      exact ⟨hb ▸ b.short, rfl⟩
    refine except_bind_eq_ok.mpr ⟨_, hhead, ?_⟩
    rw [Block.bytes, hb]
    rfl

theorem optional_writes {α ρ : Type} {enc : α → Except WireError Bytes} {write : ρ → Bytes}
    {spells : ρ → α → Prop} (hw : Writes enc write spells) :
    Writes (encodeOptional enc) (optionBytes write) (Option.Rel spells) := by
  intro a bs
  cases a with
  | none =>
    constructor
    · intro h
      obtain rfl := Except.ok.inj h
      exact ⟨none, .none, rfl⟩
    · rintro ⟨raw, ⟨⟩, rfl⟩
      rfl
  | some a =>
    constructor
    · intro h
      obtain ⟨body, hbody, hpure⟩ := except_bind_eq_ok.mp h
      obtain ⟨raw, hraw, rfl⟩ := (hw a body).mp hbody
      obtain rfl := Except.ok.inj hpure
      exact ⟨some raw, .some hraw, rfl⟩
    · rintro ⟨_, ⟨hraw⟩, rfl⟩
      exact except_bind_eq_ok.mpr ⟨_, (hw a _).mpr ⟨_, hraw, rfl⟩, rfl⟩

theorem outerBody_writes : Writes encodeOuterBody RawRoute.bytes RawRoute.Spells := by
  intro route bs
  constructor
  · intro h
    obtain ⟨_, hingress, h₁⟩ := except_bind_eq_ok.mp h
    obtain ⟨ingress, hi, rfl⟩ := (text_writes _ _).mp hingress
    obtain ⟨_, hchannel, h₂⟩ := except_bind_eq_ok.mp h₁
    obtain ⟨channel, hc, rfl⟩ := (text_writes _ _).mp hchannel
    obtain ⟨_, hgeneration, h₃⟩ := except_bind_eq_ok.mp h₂
    obtain ⟨generation, hg, rfl⟩ := (u64_writes _ _).mp hgeneration
    obtain rfl := Except.ok.inj h₃
    exact ⟨⟨ingress, channel, generation⟩, ⟨hi, hc, hg⟩, List.append_assoc _ _ _⟩
  · rintro ⟨r, ⟨hi, hc, hg⟩, rfl⟩
    have hingress := (text_writes _ _).mpr ⟨_, hi, rfl⟩
    have hchannel := (text_writes _ _).mpr ⟨_, hc, rfl⟩
    have hgeneration := (u64_writes _ _).mpr ⟨_, hg, rfl⟩
    simp only [encodeOuterBody, hingress, hchannel, hgeneration, RawRoute.bytes,
      ← List.append_assoc]
    rfl

theorem endpoint_writes : Writes encodeEndpoint RawEndpoint.bytes RawEndpoint.Spells := by
  intro e bs
  constructor
  · intro h
    cases e with
    | agent address =>
      obtain ⟨_, haddress, hpure⟩ := except_bind_eq_ok.mp h
      obtain ⟨raw, hraw, rfl⟩ := (text_writes _ _).mp haddress
      obtain rfl := Except.ok.inj hpure
      exact ⟨.agent raw, hraw, rfl⟩
    | node home name generation =>
      obtain ⟨_, hhome, h₁⟩ := except_bind_eq_ok.mp h
      obtain ⟨rawHome, hh, rfl⟩ := (text_writes _ _).mp hhome
      obtain ⟨_, hname, h₂⟩ := except_bind_eq_ok.mp h₁
      obtain ⟨rawName, hn, rfl⟩ := (text_writes _ _).mp hname
      obtain ⟨_, hgeneration, h₃⟩ := except_bind_eq_ok.mp h₂
      obtain ⟨rawGeneration, hg, rfl⟩ := (u64_writes _ _).mp hgeneration
      obtain rfl := Except.ok.inj h₃
      exact ⟨.node rawHome rawName rawGeneration, ⟨hh, hn, hg⟩, by simp [RawEndpoint.bytes]⟩
    | outer route =>
      obtain ⟨_, hroute, hpure⟩ := except_bind_eq_ok.mp h
      obtain ⟨raw, hraw, rfl⟩ := (outerBody_writes _ _).mp hroute
      obtain rfl := Except.ok.inj hpure
      exact ⟨.outer raw, hraw, rfl⟩
  · rintro ⟨r, hspells, rfl⟩
    -- the two sides name the same kind, or nothing is spelled
    cases r with
    | agent raw => cases e with
      | agent address =>
        exact except_bind_eq_ok.mpr ⟨_, (text_writes _ _).mpr ⟨raw, hspells, rfl⟩, rfl⟩
      | node _ _ _ => exact hspells.elim
      | outer _ => exact hspells.elim
    | node rawHome rawName rawGeneration => cases e with
      | agent _ => exact hspells.elim
      | node home name generation =>
        obtain ⟨hh, hn, hg⟩ := hspells
        have hhome := (text_writes _ _).mpr ⟨_, hh, rfl⟩
        have hname := (text_writes _ _).mpr ⟨_, hn, rfl⟩
        have hgeneration := (u64_writes _ _).mpr ⟨_, hg, rfl⟩
        simp only [encodeEndpoint, hhome, hname, hgeneration, RawEndpoint.bytes,
          ← List.append_assoc]
        rfl
      | outer _ => exact hspells.elim
    | outer raw => cases e with
      | agent _ => exact hspells.elim
      | node _ _ _ => exact hspells.elim
      | outer route =>
        exact except_bind_eq_ok.mpr ⟨_, (outerBody_writes _ _).mpr ⟨raw, hspells, rfl⟩, rfl⟩

theorem u16_protocolVersion : u16 protocolVersion = .ok (leBytes 2 protocolVersion) := rfl

theorem envelope_writes : Writes encodeEnvelope RawEnvelope.bytes RawEnvelope.Spells := by
  intro m bs
  constructor
  · intro h
    rw [encodeEnvelope, u16_protocolVersion] at h
    obtain ⟨_, hversion, h₁⟩ := except_bind_eq_ok.mp h
    obtain rfl := Except.ok.inj hversion
    obtain ⟨_, heventId, h₂⟩ := except_bind_eq_ok.mp h₁
    obtain ⟨eventId, he, rfl⟩ := (text_writes _ _).mp heventId
    obtain ⟨_, hcorrelationId, h₃⟩ := except_bind_eq_ok.mp h₂
    obtain ⟨correlationId, hc, rfl⟩ := (text_writes _ _).mp hcorrelationId
    obtain ⟨_, hsource, h₄⟩ := except_bind_eq_ok.mp h₃
    obtain ⟨source, hs, rfl⟩ := (endpoint_writes _ _).mp hsource
    obtain ⟨_, htarget, h₅⟩ := except_bind_eq_ok.mp h₄
    obtain ⟨target, ht, rfl⟩ := (endpoint_writes _ _).mp htarget
    obtain ⟨_, hroute, h₆⟩ := except_bind_eq_ok.mp h₅
    obtain ⟨route, hr, rfl⟩ := (optional_writes outerBody_writes _ _).mp hroute
    obtain ⟨_, hsequence, h₇⟩ := except_bind_eq_ok.mp h₆
    obtain ⟨sequence, hq, rfl⟩ := (u64_writes _ _).mp hsequence
    obtain ⟨_, hdeadline, h₈⟩ := except_bind_eq_ok.mp h₇
    obtain ⟨deadline, hd, rfl⟩ := (optional_writes u64_writes _ _).mp hdeadline
    obtain ⟨_, hadapter, h₉⟩ := except_bind_eq_ok.mp h₈
    obtain ⟨adapter, ha, rfl⟩ := (optional_writes text_writes _ _).mp hadapter
    obtain ⟨_, hcontent, h₁₀⟩ := except_bind_eq_ok.mp h₉
    obtain ⟨content, hct, rfl⟩ := (text_writes _ _).mp hcontent
    obtain rfl := Except.ok.inj h₁₀
    refine ⟨⟨eventId, correlationId, none, source, target, route, classByte m.eventClass, sequence,
      deadline, adapter, content⟩, ⟨he, hc, rfl, hs, ht, hr, rfl, hq, hd, ha, hct⟩, ?_⟩
    simp only [RawEnvelope.bytes, optionBytes, List.append_assoc]
  · rintro ⟨r, hs, rfl⟩
    have heventId := (text_writes _ _).mpr ⟨_, hs.eventId, rfl⟩
    have hcorrelationId := (text_writes _ _).mpr ⟨_, hs.correlationId, rfl⟩
    have hsource := (endpoint_writes _ _).mpr ⟨_, hs.source, rfl⟩
    have htarget := (endpoint_writes _ _).mpr ⟨_, hs.target, rfl⟩
    have hroute := (optional_writes outerBody_writes _ _).mpr ⟨_, hs.returnRoute, rfl⟩
    have hsequence := (u64_writes _ _).mpr ⟨_, hs.sequence, rfl⟩
    have hdeadline := (optional_writes u64_writes _ _).mpr ⟨_, hs.deadlineUnixMs, rfl⟩
    have hadapter := (optional_writes text_writes _ _).mpr ⟨_, hs.adapterKind, rfl⟩
    have hcontent := (text_writes _ _).mpr ⟨_, hs.contentType, rfl⟩
    simp only [encodeEnvelope, u16_protocolVersion, heventId, hcorrelationId, hsource, htarget,
      hroute, hsequence, hdeadline, hadapter, hcontent, RawEnvelope.bytes, hs.causationId, hs.code,
      optionBytes, ← List.append_assoc]
    rfl

theorem encodeEvent_eq_ok {m : EventMeta} {payload : Option Bytes} {b : Bytes} :
    encodeEvent m payload = .ok b ↔
      ∃ r : RawEvent, r.envelope.Spells m ∧ r.payload = payload.getD [] ∧ b = r.bytes := by
  constructor
  · intro h
    obtain ⟨_, henvelope, h₁⟩ := except_bind_eq_ok.mp h
    obtain ⟨envelope, hs, rfl⟩ := (envelope_writes _ _).mp henvelope
    obtain ⟨_, henvLen, h₂⟩ := except_bind_eq_ok.mp h₁
    obtain ⟨henvLt, rfl⟩ := uint_eq_ok.mp henvLen
    obtain ⟨_, hpayLen, h₃⟩ := except_bind_eq_ok.mp h₂
    obtain ⟨hpayLt, rfl⟩ := uint_eq_ok.mp hpayLen
    obtain rfl := Except.ok.inj h₃
    exact ⟨⟨envelope, payload.getD [], henvLt, hpayLt⟩, hs, rfl,
      by simp only [RawEvent.bytes, List.append_assoc]⟩
  · rintro ⟨r, hs, hp, rfl⟩
    have henvelope := (envelope_writes m _).mpr ⟨r.envelope, hs, rfl⟩
    have henvLen : u32 r.envelope.bytes.length = .ok (leBytes 4 r.envelope.bytes.length) :=
      uint_eq_ok.mpr ⟨r.envelope_short, rfl⟩
    have hpayLen : u32 r.payload.length = .ok (leBytes 4 r.payload.length) :=
      uint_eq_ok.mpr ⟨r.payload_short, rfl⟩
    simp only [encodeEvent, henvelope, ← hp, RawEvent.bytes, ← List.append_assoc]
    refine except_bind_eq_ok.mpr ⟨_, rfl, ?_⟩
    refine except_bind_eq_ok.mpr ⟨_, henvLen, ?_⟩
    exact except_bind_eq_ok.mpr ⟨_, hpayLen, rfl⟩

/-! ### One frame, one spelling -/

theorem route_prefixFree : PrefixFree RawRoute.bytes := by
  intro a b r s h
  simp only [RawRoute.bytes, List.append_assoc] at h
  obtain ⟨hingress, h₁⟩ := block_prefixFree _ _ _ _ h
  obtain ⟨hchannel, h₂⟩ := block_prefixFree _ _ _ _ h₁
  obtain ⟨hgeneration, htail⟩ := u64Bytes_prefixFree _ _ _ _ h₂
  obtain ⟨_, _, _⟩ := a
  simp only at hingress hchannel hgeneration
  subst hingress hchannel hgeneration
  exact ⟨rfl, htail⟩

theorem endpoint_prefixFree : PrefixFree RawEndpoint.bytes := by
  intro a b r s h
  cases a with
  | agent x => cases b with
    | agent y =>
      obtain ⟨rfl, htail⟩ := block_prefixFree x y r s (by simpa [RawEndpoint.bytes] using h)
      exact ⟨rfl, htail⟩
    | node _ _ _ => simp [RawEndpoint.bytes] at h
    | outer _ => simp [RawEndpoint.bytes] at h
  | node home name generation => cases b with
    | agent _ => simp [RawEndpoint.bytes] at h
    | node home' name' generation' =>
      simp only [RawEndpoint.bytes, List.cons_append, List.append_assoc, List.cons.injEq,
        true_and] at h
      obtain ⟨rfl, h₁⟩ := block_prefixFree _ _ _ _ h
      obtain ⟨rfl, h₂⟩ := block_prefixFree _ _ _ _ h₁
      obtain ⟨rfl, htail⟩ := u64Bytes_prefixFree _ _ _ _ h₂
      exact ⟨rfl, htail⟩
    | outer _ => simp [RawEndpoint.bytes] at h
  | outer x => cases b with
    | agent _ => simp [RawEndpoint.bytes] at h
    | node _ _ _ => simp [RawEndpoint.bytes] at h
    | outer y =>
      obtain ⟨rfl, htail⟩ := route_prefixFree x y r s (by simpa [RawEndpoint.bytes] using h)
      exact ⟨rfl, htail⟩

theorem envelope_prefixFree : PrefixFree RawEnvelope.bytes := by
  intro a b r s h
  simp only [RawEnvelope.bytes, List.append_assoc] at h
  have h₁ := List.append_cancel_left h
  obtain ⟨heventId, h₂⟩ := block_prefixFree _ _ _ _ h₁
  obtain ⟨hcorrelationId, h₃⟩ := block_prefixFree _ _ _ _ h₂
  obtain ⟨hcausationId, h₄⟩ := option_prefixFree block_prefixFree _ _ _ _ h₃
  obtain ⟨hsource, h₅⟩ := endpoint_prefixFree _ _ _ _ h₄
  obtain ⟨htarget, h₆⟩ := endpoint_prefixFree _ _ _ _ h₅
  obtain ⟨hroute, h₇⟩ := option_prefixFree route_prefixFree _ _ _ _ h₆
  obtain ⟨hcode, h₈⟩ := List.cons.inj h₇
  obtain ⟨hsequence, h₉⟩ := u64Bytes_prefixFree _ _ _ _ h₈
  obtain ⟨hdeadline, h₁₀⟩ := option_prefixFree u64Bytes_prefixFree _ _ _ _ h₉
  obtain ⟨hadapter, h₁₁⟩ := option_prefixFree block_prefixFree _ _ _ _ h₁₀
  obtain ⟨hcontent, htail⟩ := block_prefixFree _ _ _ _ h₁₁
  refine ⟨?_, htail⟩
  obtain ⟨_, _, _, _, _, _, _, _, _, _, _⟩ := a
  simp only at *
  subst heventId hcorrelationId hcausationId hsource htarget hroute hcode hsequence hdeadline
    hadapter hcontent
  rfl

theorem RawEvent.bytes_injective : Function.Injective RawEvent.bytes := by
  intro a b h
  simp only [RawEvent.bytes] at h
  have h₁ := List.append_cancel_left h
  obtain ⟨_, h₂⟩ := List.append_inj h₁ (by simp)
  obtain ⟨_, h₃⟩ := List.append_inj h₂ (by simp)
  obtain ⟨henvelope, hpayload⟩ := envelope_prefixFree _ _ _ _ h₃
  obtain ⟨_, _, _, _⟩ := a
  simp only at henvelope hpayload
  subst henvelope hpayload
  rfl

end KvasirNet.Wire
