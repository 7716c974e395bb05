import KvasirNet.WireSpelling
import KvasirNet.WireHop

/-! Which accepted frames are the ones the encoder would write. Decoding loses
the class byte above 3, the low bits of a large number, a deadline of zero, an
empty adapter kind and malformed text; a frame without these comes back byte
for byte. -/
namespace KvasirNet.Wire

open Reader

/-! ### Events -/

def RawRoute.Canonical (r : RawRoute) : Prop :=
  IsUtf8 r.ingressAgent.body ∧ IsUtf8 r.channel.body ∧ Representable r.connectionGeneration.toNat

def RawEndpoint.Canonical : RawEndpoint → Prop
  | agent address => IsUtf8 address.body
  | node home name generation =>
    IsUtf8 home.body ∧ IsUtf8 name.body ∧ Representable generation.toNat
  | outer route => route.Canonical

structure RawEnvelope.Canonical (r : RawEnvelope) : Prop where
  eventId : IsUtf8 r.eventId.body
  correlationId : IsUtf8 r.correlationId.body
  source : r.source.Canonical
  target : r.target.Canonical
  returnRoute : ∀ route ∈ r.returnRoute, route.Canonical
  code : r.code ≤ 3
  sequence : Representable r.sequence.toNat
  deadlineUnixMs : ∀ n ∈ r.deadlineUnixMs, n ≠ 0 ∧ Representable n.toNat
  adapterKind : ∀ b ∈ r.adapterKind, b.body ≠ [] ∧ IsUtf8 b.body
  contentType : IsUtf8 r.contentType.body

/-- The fields of the frame, as they stand in its bytes, are all ones the
encoder writes. -/
def CanonicalEvent (frame : Bytes) : Prop :=
  ∃ r : RawEvent, frame = r.bytes ∧ r.envelope.Canonical

theorem text_canonical (b : Block) : b.body = utf8 (textValue b) ↔ IsUtf8 b.body := by
  rw [isUtf8_iff, textValue, eq_comm]

theorem number_canonical (n : UInt64) : n.toNat = numberValue n ↔ Representable n.toNat := by
  rw [numberValue, eq_comm]
  exact toNumber_eq_self_iff n.toNat

theorem route_canonical (r : RawRoute) : r.Spells r.value ↔ r.Canonical := by
  simp only [RawRoute.Spells, RawRoute.value, RawRoute.Canonical, text_canonical, number_canonical]

theorem endpoint_canonical (r : RawEndpoint) : r.Spells r.value ↔ r.Canonical := by
  cases r with
  | agent address => exact text_canonical address
  | node home name generation =>
    simp only [RawEndpoint.Spells, RawEndpoint.value, RawEndpoint.Canonical, text_canonical,
      number_canonical]
  | outer route => exact route_canonical route

theorem option_canonical {α ρ : Type} {spells : ρ → α → Prop} {value : ρ → α} {P : ρ → Prop}
    (h : ∀ r, spells r (value r) ↔ P r) (a : Option ρ) :
    Option.Rel spells a (a.map value) ↔ ∀ r ∈ a, P r := by
  cases a with
  | none => exact ⟨by simp, fun _ => .none⟩
  | some r =>
    constructor
    · rintro ⟨hr⟩ r' hr'
      obtain rfl := Option.some.inj hr'
      exact (h r).mp hr
    · intro hr
      exact .some ((h r).mpr (hr r rfl))

theorem option_filter_canonical {α ρ : Type} (spells : ρ → α → Prop) (value : ρ → α)
    (p : α → Bool) {P : ρ → Prop} (h : ∀ r, (p (value r) = true ∧ spells r (value r)) ↔ P r)
    (a : Option ρ) : Option.Rel spells a ((a.map value).filter p) ↔ ∀ r ∈ a, P r := by
  cases a with
  | none => exact ⟨by simp, fun _ => .none⟩
  | some r =>
    rw [Option.map_some]
    constructor
    · intro hrel r' hr'
      obtain rfl := Option.some.inj hr'
      apply (h r).mp
      cases hp : p (value r) with
      | true =>
        rw [Option.filter_some_pos hp] at hrel
        cases hrel with
        | some hs => exact ⟨rfl, hs⟩
      | false =>
        rw [Option.filter_some_neg (by simp [hp])] at hrel
        cases hrel
    · intro hr
      obtain ⟨hp, hs⟩ := (h r).mpr (hr r rfl)
      rw [Option.filter_some_pos hp]
      exact .some hs

theorem classByte_className (code : UInt8) : code = classByte (className code) ↔ code ≤ 3 := by
  constructor
  · intro h
    by_contra hlarge
    have hnone : className code = none := by
      apply List.getElem?_eq_none
      have hgt : 3 < code.toNat := by simpa [UInt8.le_iff_toNat_le] using hlarge
      simp only [List.length_cons, List.length_nil]
      omega
    rw [hnone] at h
    exact hlarge (by rw [h]; decide)
  · intro h
    have hlt : code.toNat < 4 := by
      have hle : code.toNat ≤ 3 := by simpa [UInt8.le_iff_toNat_le] using h
      omega
    have hcode : code = UInt8.ofNat code.toNat := by simp
    rw [hcode]
    generalize code.toNat = n at hlt
    obtain rfl | rfl | rfl | rfl : n = 0 ∨ n = 1 ∨ n = 2 ∨ n = 3 := by omega
    all_goals rfl

theorem deadline_canonical (n : UInt64) :
    (decide (numberValue n ≠ 0) = true ∧ n.toNat = numberValue n) ↔
      n ≠ 0 ∧ Representable n.toNat := by
  rw [number_canonical, decide_eq_true_iff]
  constructor
  · rintro ⟨hne, hrep⟩
    refine ⟨?_, hrep⟩
    rintro rfl
    exact hne (by decide)
  · rintro ⟨hne, hrep⟩
    refine ⟨?_, hrep⟩
    rw [← (number_canonical n).mpr hrep]
    intro hzero
    exact hne (UInt64.toNat_inj.mp hzero)

theorem adapterKind_canonical (b : Block) :
    (decide (textValue b ≠ "") = true ∧ b.body = utf8 (textValue b)) ↔
      b.body ≠ [] ∧ IsUtf8 b.body := by
  rw [text_canonical, decide_eq_true_iff]
  constructor
  · rintro ⟨hne, htext⟩
    refine ⟨?_, htext⟩
    intro hnil
    exact hne (by rw [textValue, hnil]; rfl)
  · rintro ⟨hne, htext⟩
    refine ⟨?_, htext⟩
    intro hempty
    apply hne
    rw [(text_canonical b).mpr htext, hempty]
    rfl

theorem envelope_canonical (r : RawEnvelope) :
    r.Spells r.value ↔ r.causationId = none ∧ r.Canonical := by
  have hroute := option_canonical route_canonical r.returnRoute
  have hdeadline := option_filter_canonical (fun n v => n.toNat = v) numberValue
    (fun v => decide (v ≠ 0)) deadline_canonical r.deadlineUnixMs
  have hadapter := option_filter_canonical (fun b s => b.body = utf8 s) textValue
    (fun s => decide (s ≠ "")) adapterKind_canonical r.adapterKind
  constructor
  · intro h
    exact ⟨h.causationId, (text_canonical _).mp h.eventId, (text_canonical _).mp h.correlationId,
      (endpoint_canonical _).mp h.source, (endpoint_canonical _).mp h.target,
      hroute.mp h.returnRoute, (classByte_className _).mp h.code,
      (number_canonical _).mp h.sequence, hdeadline.mp h.deadlineUnixMs,
      hadapter.mp h.adapterKind, (text_canonical _).mp h.contentType⟩
  · rintro ⟨hcausation, h⟩
    exact ⟨(text_canonical _).mpr h.eventId, (text_canonical _).mpr h.correlationId, hcausation,
      (endpoint_canonical _).mpr h.source, (endpoint_canonical _).mpr h.target,
      hroute.mpr h.returnRoute, (classByte_className _).mpr h.code,
      (number_canonical _).mpr h.sequence, hdeadline.mpr h.deadlineUnixMs,
      hadapter.mpr h.adapterKind, (text_canonical _).mpr h.contentType⟩

theorem encodeEvent_decodeEvent {frame : Bytes} {m : EventMeta} {payload : Bytes}
    (h : decodeEvent frame = .ok (m, payload)) (hcausation : m.causationId = none) :
    encodeEvent m (some payload) = .ok frame ↔ CanonicalEvent frame := by
  obtain ⟨r, rfl, rfl, rfl⟩ := decodeEvent_eq_ok h
  have hnone : r.envelope.causationId = none := by
    simpa [RawEnvelope.value] using hcausation
  rw [encodeEvent_eq_ok]
  constructor
  · rintro ⟨r', hspells, _, hbytes⟩
    obtain rfl := RawEvent.bytes_injective hbytes
    exact ⟨r, rfl, ((envelope_canonical _).mp hspells).2⟩
  · rintro ⟨r', hbytes, hcanonical⟩
    obtain rfl := RawEvent.bytes_injective hbytes
    exact ⟨r, (envelope_canonical _).mpr ⟨hnone, hcanonical⟩, rfl, rfl⟩

/-! ### Hop frames -/

abbrev Digest := { d : Bytes // d.length = 32 }

/-- The frames `decodeHop` accepts that the client also writes. -/
inductive RawHop
  | data (attempt : UInt64) (digest : Digest) (event : Block)
  | receipt (isReceipt : Bool) (attempt : UInt64) (digest : Digest) (status : UInt8)
      (detail : Block)
  | receiptAck (senderId : Block) (generation attempt : UInt64) (digest : Digest)

def RawHop.kind : RawHop → HopKind
  | data .. => .data
  | receipt isReceipt .. => if isReceipt then .receipt else .queryResult
  | receiptAck .. => .receiptAck

def RawHop.body : RawHop → Bytes
  | data attempt digest event => u64Bytes attempt ++ (digest.1 ++ event.bytes)
  | receipt _ attempt digest status detail =>
    u64Bytes attempt ++ (digest.1 ++ ([status] ++ detail.bytes))
  | receiptAck senderId generation attempt digest =>
    senderId.bytes ++ (u64Bytes generation ++ (u64Bytes attempt ++ digest.1))

def RawHop.bytes (r : RawHop) : Bytes := hopHeader r.kind ++ r.body

def RawHop.value : RawHop → Hop
  | data attempt digest event => .data (numberValue attempt) digest.1 event.body
  | receipt true attempt digest status detail =>
    .receipt (numberValue attempt) digest.1 status (textValue detail)
  | receipt false attempt digest status detail =>
    .queryResult (numberValue attempt) digest.1 status (textValue detail)
  | receiptAck senderId generation attempt digest =>
    .receiptAck (textValue senderId) (numberValue generation) (numberValue attempt) digest.1

def RawHop.Canonical : RawHop → Prop
  | data attempt _ _ => Representable attempt.toNat
  | receipt _ attempt _ _ detail => Representable attempt.toNat ∧ IsUtf8 detail.body
  | receiptAck senderId generation attempt _ =>
    IsUtf8 senderId.body ∧ Representable generation.toNat ∧ Representable attempt.toNat

def CanonicalHop (frame : Bytes) : Prop := ∃ r : RawHop, frame = r.bytes ∧ r.Canonical

/-- The encoder that belongs to a decoded frame; the client never writes a
hello acknowledgement or a query. -/
def reencodeHop (sha256 : Bytes → Bytes) : Hop → Option (Except WireError Bytes)
  | .data attempt _ event => some ((hopData sha256 attempt event).map Prod.snd)
  | .receipt attempt digest status detail => some (hopReceipt true attempt digest status detail)
  | .queryResult attempt digest status detail =>
    some (hopReceipt false attempt digest status detail)
  | .receiptAck senderId generation attempt digest =>
    some (hopReceiptAck senderId generation attempt digest)
  | .helloAck .. => none
  | .query .. => none

theorem hopKind_code_injective : Function.Injective HopKind.code := by
  intro a b h
  cases a <;> cases b <;> first | rfl | cases h

theorem hopHeader_append_inj {a b : HopKind} {r s : Bytes} (h : hopHeader a ++ r = hopHeader b ++ s) :
    a = b ∧ r = s := by
  simp only [hopHeader, List.append_assoc] at h
  have htail := List.append_cancel_left (List.append_cancel_left (List.append_cancel_left h))
  obtain ⟨hcode, hrest⟩ := List.cons.inj htail
  exact ⟨hopKind_code_injective hcode, hrest⟩

theorem digest_prefixFree : PrefixFree (fun d : Digest => d.1) := by
  intro a b r s h
  obtain ⟨hhead, htail⟩ := List.append_inj h (by rw [a.2, b.2])
  exact ⟨Subtype.ext hhead, htail⟩

theorem RawHop.bytes_injective : Function.Injective RawHop.bytes := by
  intro a b h
  obtain ⟨hkind, hbody⟩ := hopHeader_append_inj h
  -- the kind byte fixes the shape of the body
  cases a with
  | data attempt digest event => cases b with
    | data attempt' digest' event' =>
      obtain ⟨rfl, h₁⟩ := u64Bytes_prefixFree _ _ _ _ hbody
      obtain ⟨rfl, h₂⟩ := digest_prefixFree _ _ _ _ h₁
      obtain ⟨rfl, _⟩ := block_prefixFree _ _ [] [] (by simpa using h₂)
      rfl
    | receipt isReceipt _ _ _ _ => cases isReceipt <;> cases hkind
    | receiptAck _ _ _ _ => cases hkind
  | receipt isReceipt attempt digest status detail => cases b with
    | data _ _ _ => cases isReceipt <;> cases hkind
    | receipt isReceipt' attempt' digest' status' detail' =>
      have hsame : isReceipt = isReceipt' := by
        cases isReceipt <;> cases isReceipt' <;> first | rfl | cases hkind
      subst hsame
      obtain ⟨rfl, h₁⟩ := u64Bytes_prefixFree _ _ _ _ hbody
      obtain ⟨rfl, h₂⟩ := digest_prefixFree _ _ _ _ h₁
      obtain ⟨rfl, h₃⟩ := List.cons.inj h₂
      obtain ⟨rfl, _⟩ := block_prefixFree detail detail' [] [] (by simpa using h₃)
      rfl
    | receiptAck _ _ _ _ => cases isReceipt <;> cases hkind
  | receiptAck senderId generation attempt digest => cases b with
    | data _ _ _ => cases hkind
    | receipt isReceipt _ _ _ _ => cases isReceipt <;> cases hkind
    | receiptAck senderId' generation' attempt' digest' =>
      obtain ⟨rfl, h₁⟩ := block_prefixFree _ _ _ _ hbody
      obtain ⟨rfl, h₂⟩ := u64Bytes_prefixFree _ _ _ _ h₁
      obtain ⟨rfl, h₃⟩ := u64Bytes_prefixFree _ _ _ _ h₂
      obtain rfl := Subtype.ext h₃
      rfl

variable {sha256 : Bytes → Bytes} {bs : Bytes} {v : Hop}

theorem dataBody_exact {rest : Bytes}
    (h : Cursor.dataBody sha256 bs = .ok (v, rest)) :
    ∃ attempt digest event, bs = (RawHop.data attempt digest event).body ++ rest ∧
      v = (RawHop.data attempt digest event).value ∧ sha256 event.body = digest.1 := by
  obtain ⟨attempt, _, rfl, h₁⟩ := u64_reads.bind_exact h
  obtain ⟨digest, _, rfl, h₂⟩ := (take_reads 32).bind_exact h₁
  obtain ⟨event, _, rfl, h₃⟩ := block_reads.bind_exact h₂
  split at h₃
  · cases h₃
  · rename_i hdigest
    obtain ⟨rfl, rfl⟩ := pure_eq_ok h₃
    exact ⟨attempt, digest, event, by simp [RawHop.body], rfl, not_not.mp hdigest⟩

theorem receiptBody_exact {isReceipt : Bool} {rest : Bytes}
    (h : Cursor.receiptBody isReceipt bs = .ok (v, rest)) :
    ∃ attempt digest status detail,
      bs = (RawHop.receipt isReceipt attempt digest status detail).body ++ rest ∧
        v = (RawHop.receipt isReceipt attempt digest status detail).value := by
  obtain ⟨attempt, _, rfl, h₁⟩ := u64_reads.bind_exact h
  obtain ⟨digest, _, rfl, h₂⟩ := (take_reads 32).bind_exact h₁
  obtain ⟨status, _, rfl, h₃⟩ := byte_reads.bind_exact h₂
  obtain ⟨detail, _, rfl, h₄⟩ := text_reads.bind_exact h₃
  split at h₄
  · cases h₄
  · obtain ⟨rfl, rfl⟩ := pure_eq_ok h₄
    refine ⟨attempt, digest, status, detail, by simp [RawHop.body], ?_⟩
    cases isReceipt <;> rfl

theorem ackBody_exact {rest : Bytes} (h : Cursor.ackBody true bs = .ok (v, rest)) :
    ∃ senderId generation attempt digest,
      bs = (RawHop.receiptAck senderId generation attempt digest).body ++ rest ∧
        v = (RawHop.receiptAck senderId generation attempt digest).value := by
  obtain ⟨senderId, _, rfl, h₁⟩ := text_reads.bind_exact h
  obtain ⟨generation, _, rfl, h₂⟩ := u64_reads.bind_exact h₁
  obtain ⟨attempt, _, rfl, h₃⟩ := u64_reads.bind_exact h₂
  obtain ⟨digest, _, rfl, h₄⟩ := (take_reads 32).bind_exact h₃
  obtain ⟨rfl, rfl⟩ := pure_eq_ok h₄
  exact ⟨senderId, generation, attempt, digest, by simp [RawHop.body], rfl⟩

theorem decodeHop_eq_ok {frame : Bytes}
    (h : decodeHop sha256 frame = .ok v) :
    ∃ code body, frame = hopMagic ++ (leBytes 2 hopVersion ++ (leBytes 2 0 ++ ([code] ++ body))) ∧
      Cursor.hopBody sha256 code body = .ok (v, []) := by
  simp only [decodeHop] at h
  split at h
  · cases h
  · rename_i hmagic
    obtain ⟨hlong, hmagic⟩ := not_or.mp hmagic
    have hmagic : frame.take 4 = hopMagic := not_not.mp hmagic
    split at h
    · cases h
    · rename_i hversion
      obtain ⟨hversion, hreserved⟩ := not_or.mp hversion
      have hversion : leValue ((frame.drop 4).take 2) = hopVersion := not_not.mp hversion
      have hreserved : leValue ((frame.drop 6).take 2) = 0 := not_not.mp hreserved
      split at h
      · cases h
      · rename_i v' rest hbody
        split at h
        · cases h
        · rename_i hrest
          have hrest : rest = [] := not_not.mp hrest
          obtain rfl := Except.ok.inj h
          obtain ⟨hword, _⟩ := leBytes_leValue_window (show 4 + 2 ≤ frame.length by omega)
          obtain ⟨hzero, _⟩ := leBytes_leValue_window (show 6 + 2 ≤ frame.length by omega)
          rw [hversion] at hword
          rw [hreserved] at hzero
          have hkind : (frame.drop 8).take 1 = [frame.getD 8 0] := by
            have hlt : 8 < frame.length := by omega
            rw [List.drop_eq_getElem_cons hlt, List.getD_eq_getElem?_getD,
              List.getElem?_eq_getElem hlt]
            rfl
          refine ⟨frame.getD 8 0, frame.drop 9, ?_, by rw [hbody, hrest]⟩
          calc
            frame = frame.take 4 ++ frame.drop 4 := (List.take_append_drop 4 frame).symm
            _ = hopMagic ++ ((frame.drop 4).take 2 ++ ((frame.drop 6).take 2 ++
                ((frame.drop 8).take 1 ++ frame.drop 9))) := by
              rw [hmagic, ← drop_eq_window_append frame 8 1, ← drop_eq_window_append frame 6 2,
                ← drop_eq_window_append frame 4 2]
            _ = _ := by rw [← hword, ← hzero, hkind]

theorem decodeHop_spelled {frame : Bytes}
    {e : Except WireError Bytes} (h : decodeHop sha256 frame = .ok v)
    (he : reencodeHop sha256 v = some e) :
    ∃ r : RawHop, frame = r.bytes ∧ v = r.value ∧
      ∀ attempt digest event, r = .data attempt digest event → sha256 event.body = digest.1 := by
  obtain ⟨code, body, rfl, hbody⟩ := decodeHop_eq_ok h
  simp only [Cursor.hopBody] at hbody
  split at hbody
  · -- a hello acknowledgement has no encoder
    obtain ⟨_, _, _, h₁⟩ := u64_reads.bind_exact hbody
    obtain ⟨_, _, _, h₂⟩ := text_reads.bind_exact h₁
    obtain ⟨_, _, _, h₃⟩ := u64_reads.bind_exact h₂
    obtain ⟨_, _, _, h₄⟩ := u32_reads.bind_exact h₃
    obtain ⟨_, _, _, h₅⟩ := u64_reads.bind_exact h₄
    obtain ⟨_, rfl⟩ := pure_eq_ok h₅
    cases he
  · split at hbody
    · rename_i hcode
      obtain ⟨attempt, digest, event, rfl, rfl, hdigest⟩ := dataBody_exact hbody
      refine ⟨.data attempt digest event, ?_, rfl, ?_⟩
      · rw [hcode, List.append_nil, RawHop.bytes, hopHeader]
        simp [RawHop.kind]
      · rintro _ _ _ ⟨⟩
        exact hdigest
    · split at hbody
      · rename_i hcode
        obtain ⟨attempt, digest, status, detail, rfl, rfl⟩ := receiptBody_exact hbody
        refine ⟨.receipt _ attempt digest status detail, ?_, rfl, by rintro _ _ _ ⟨⟩⟩
        rw [List.append_nil, RawHop.bytes, hopHeader]
        rcases hcode with rfl | rfl
        · simp [RawHop.kind]
        · simp [RawHop.kind, HopKind.code]
      · split at hbody
        · rename_i hcode
          rcases hcode with rfl | rfl
          · obtain ⟨senderId, generation, attempt, digest, rfl, rfl⟩ := ackBody_exact hbody
            refine ⟨.receiptAck senderId generation attempt digest, ?_, rfl, by rintro _ _ _ ⟨⟩⟩
            rw [List.append_nil, RawHop.bytes, hopHeader]
            simp [RawHop.kind]
          · -- nor has a query
            obtain ⟨_, _, _, h₁⟩ := text_reads.bind_exact hbody
            obtain ⟨_, _, _, h₂⟩ := u64_reads.bind_exact h₁
            obtain ⟨_, _, _, h₃⟩ := u64_reads.bind_exact h₂
            obtain ⟨_, _, _, h₄⟩ := (take_reads 32).bind_exact h₃
            obtain ⟨_, rfl⟩ := pure_eq_ok h₄
            cases he
        · cases hbody

variable {digest : Digest}

theorem hopData_eq_ok {value : ℕ} {event : Block}
    (hdigest : sha256 event.body = digest.1) :
    (hopData sha256 value event.body).map Prod.snd = .ok bs ↔
      ∃ n : UInt64, n.toNat = value ∧ bs = (RawHop.data n digest event).bytes := by
  have hlength : u32 event.body.length = .ok (leBytes 4 event.body.length) :=
    uint_eq_ok.mpr ⟨event.short, rfl⟩
  cases hvalue : u64 value with
  | error e =>
    simp only [hopData, hvalue, bind, Except.bind, Except.map, reduceCtorEq, false_iff]
    rintro ⟨n, hn, _⟩
    have hok := (u64_writes value _).mpr ⟨n, hn, rfl⟩
    rw [hvalue] at hok
    cases hok
  | ok word =>
    obtain ⟨n, hn, rfl⟩ := (u64_writes _ _).mp hvalue
    have hframe : (hopData sha256 value event.body).map Prod.snd =
        .ok (RawHop.data n digest event).bytes := by
      simp only [hopData, hvalue, hlength, hdigest, bind, Except.bind, Except.map, pure,
        Except.pure, RawHop.bytes, RawHop.kind, RawHop.body, Block.bytes, List.append_assoc]
    rw [hframe]
    constructor
    · intro h
      exact ⟨n, hn, (Except.ok.inj h).symm⟩
    · rintro ⟨n', hn', rfl⟩
      rw [UInt64.toNat_inj.mp (hn'.trans hn.symm)]

theorem hopReceipt_eq_ok {isReceipt : Bool} {value : ℕ} {status : UInt8}
    {detail : String} :
    hopReceipt isReceipt value digest.1 status detail = .ok bs ↔
      ∃ n b, n.toNat = value ∧ b.body = utf8 detail ∧
        bs = (RawHop.receipt isReceipt n digest status b).bytes := by
  constructor
  · intro h
    obtain ⟨_, hattempt, h₁⟩ := except_bind_eq_ok.mp h
    obtain ⟨n, hn, rfl⟩ := (u64_writes _ _).mp hattempt
    obtain ⟨_, hdetail, h₂⟩ := except_bind_eq_ok.mp h₁
    obtain ⟨b, hb, rfl⟩ := (text_writes _ _).mp hdetail
    obtain rfl := Except.ok.inj h₂
    exact ⟨n, b, hn, hb, by simp [RawHop.bytes, RawHop.kind, RawHop.body]⟩
  · rintro ⟨n, b, hn, hb, rfl⟩
    have hattempt := (u64_writes _ _).mpr ⟨n, hn, rfl⟩
    have hdetail := (text_writes _ _).mpr ⟨b, hb, rfl⟩
    simp only [hopReceipt, hattempt, hdetail, RawHop.bytes, RawHop.kind, RawHop.body,
      ← List.append_assoc]
    rfl

theorem hopReceiptAck_eq_ok {senderId : String} {generation attempt : ℕ}
    :
    hopReceiptAck senderId generation attempt digest.1 = .ok bs ↔
      ∃ b g n, b.body = utf8 senderId ∧ g.toNat = generation ∧ n.toNat = attempt ∧
        bs = (RawHop.receiptAck b g n digest).bytes := by
  constructor
  · intro h
    obtain ⟨_, hsender, h₁⟩ := except_bind_eq_ok.mp h
    obtain ⟨b, hb, rfl⟩ := (text_writes _ _).mp hsender
    obtain ⟨_, hgeneration, h₂⟩ := except_bind_eq_ok.mp h₁
    obtain ⟨g, hg, rfl⟩ := (u64_writes _ _).mp hgeneration
    obtain ⟨_, hattempt, h₃⟩ := except_bind_eq_ok.mp h₂
    obtain ⟨n, hn, rfl⟩ := (u64_writes _ _).mp hattempt
    obtain rfl := Except.ok.inj h₃
    exact ⟨b, g, n, hb, hg, hn, by simp [RawHop.bytes, RawHop.kind, RawHop.body]⟩
  · rintro ⟨b, g, n, hb, hg, hn, rfl⟩
    have hsender := (text_writes _ _).mpr ⟨b, hb, rfl⟩
    have hgeneration := (u64_writes _ _).mpr ⟨g, hg, rfl⟩
    have hattempt := (u64_writes _ _).mpr ⟨n, hn, rfl⟩
    simp only [hopReceiptAck, hsender, hgeneration, hattempt, RawHop.bytes, RawHop.kind,
      RawHop.body, ← List.append_assoc]
    rfl

theorem reencodeHop_eq_ok {r : RawHop} {e : Except WireError Bytes}
    (hdigest : ∀ attempt digest event, r = .data attempt digest event →
      sha256 event.body = digest.1)
    (he : reencodeHop sha256 r.value = some e) : e = .ok r.bytes ↔ r.Canonical := by
  cases r with
  | data attempt digest event =>
    obtain rfl := Option.some.inj he
    rw [hopData_eq_ok (hdigest attempt digest event rfl)]
    constructor
    · rintro ⟨n, hn, hbytes⟩
      injection RawHop.bytes_injective hbytes with hattempt
      subst hattempt
      exact (number_canonical _).mp hn
    · intro h
      exact ⟨attempt, (number_canonical _).mpr h, rfl⟩
  | receipt isReceipt attempt digest status detail =>
    have he : hopReceipt isReceipt (numberValue attempt) digest.1 status (textValue detail) = e := by
      cases isReceipt <;> exact Option.some.inj he
    rw [← he, hopReceipt_eq_ok]
    constructor
    · rintro ⟨n, b, hn, hb, hbytes⟩
      injection RawHop.bytes_injective hbytes with _ hattempt _ _ hdetail
      subst hattempt hdetail
      exact ⟨(number_canonical _).mp hn, (text_canonical _).mp hb⟩
    · rintro ⟨hn, hb⟩
      exact ⟨attempt, detail, (number_canonical _).mpr hn, (text_canonical _).mpr hb, rfl⟩
  | receiptAck senderId generation attempt digest =>
    obtain rfl := Option.some.inj he
    rw [hopReceiptAck_eq_ok]
    constructor
    · rintro ⟨b, g, n, hb, hg, hn, hbytes⟩
      injection RawHop.bytes_injective hbytes with hsender hgeneration hattempt
      subst hsender hgeneration hattempt
      exact ⟨(text_canonical _).mp hb, (number_canonical _).mp hg, (number_canonical _).mp hn⟩
    · rintro ⟨hb, hg, hn⟩
      exact ⟨senderId, generation, attempt, (text_canonical _).mpr hb, (number_canonical _).mpr hg,
        (number_canonical _).mpr hn, rfl⟩

/-- Every accepted frame comes back from its encoder exactly when it is
canonical: an event without a causation id, and each hop frame that has an
encoder. -/
theorem reencode_iff_canonical (sha256 : Bytes → Bytes) :
    (∀ frame m payload, decodeEvent frame = .ok (m, payload) → m.causationId = none →
      (encodeEvent m (some payload) = .ok frame ↔ CanonicalEvent frame)) ∧
    ∀ frame v e, decodeHop sha256 frame = .ok v → reencodeHop sha256 v = some e →
      (e = .ok frame ↔ CanonicalHop frame) := by
  constructor
  · intro frame m payload h hcausation
    exact encodeEvent_decodeEvent h hcausation
  · intro frame v e h he
    obtain ⟨r, rfl, rfl, hdigest⟩ := decodeHop_spelled h he
    rw [reencodeHop_eq_ok hdigest he]
    constructor
    · intro hcanonical
      exact ⟨r, rfl, hcanonical⟩
    · rintro ⟨r', hbytes, hcanonical⟩
      rwa [RawHop.bytes_injective hbytes]

/-- The frame with class byte 1 comes back, so it is canonical. -/
theorem reencode_class_one :
    decodeEvent (sampleFrame 1) = .ok (sampleMeta (some .data), []) ∧ CanonicalEvent (sampleFrame 1) := by
  have hdecode : decodeEvent (sampleFrame 1) = .ok (sampleMeta (some .data), []) := by decide +kernel
  refine ⟨hdecode, ?_⟩
  apply ((reencode_iff_canonical id).1 _ _ _ hdecode rfl).mp
  decide +kernel

/-- Class byte 7 is accepted as no class at all, and written back as 0. -/
theorem reencode_class_seven :
    decodeEvent (sampleFrame 7) = .ok (sampleMeta none, []) ∧ (sampleMeta none).causationId = none ∧
      encodeEvent (sampleMeta none) (some []) = .ok (sampleFrame 0) ∧
      encodeEvent (sampleMeta none) (some []) ≠ .ok (sampleFrame 7) := by
  decide +kernel

end KvasirNet.Wire
