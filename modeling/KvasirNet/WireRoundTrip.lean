import KvasirNet.WireSpelling

/-! An event written by `encodeEvent` is read back by `decodeEvent` field by
field, as long as the lengths fit the frame's 32-bit words. -/
namespace KvasirNet.Wire

def Endpoint.InRange : Endpoint → Prop
  | agent _ => True
  | node _ _ generation => generation < 2 ^ 53
  | outer route => route.connectionGeneration < 2 ^ 53

/-- The numbers are exact doubles, the class has a name, and an optional that
is present does not count as absent. -/
structure EventMeta.InRange (m : EventMeta) : Prop where
  source : m.source.InRange
  target : m.target.InRange
  returnRoute : ∀ route ∈ m.returnRoute, route.connectionGeneration < 2 ^ 53
  eventClass : m.eventClass.isSome
  sequence : m.sequence < 2 ^ 53
  deadlineUnixMs : ∀ d ∈ m.deadlineUnixMs, d ≠ 0 ∧ d < 2 ^ 53
  adapterKind : ∀ a ∈ m.adapterKind, a ≠ ""

/-! ### The length of an envelope -/

def textLength (s : String) : ℕ := 4 + (utf8 s).length

def OuterRoute.wireLength (route : OuterRoute) : ℕ :=
  textLength route.ingressAgent + textLength route.channel + 8

def Endpoint.wireLength : Endpoint → ℕ
  | agent address => 1 + textLength address
  | node home name _ => 1 + textLength home + textLength name + 8
  | outer route => 1 + route.wireLength

def EventMeta.envelopeLength (m : EventMeta) : ℕ :=
  2 + textLength m.eventId + textLength m.correlationId + 1 + m.source.wireLength +
    m.target.wireLength + (1 + m.returnRoute.elim 0 OuterRoute.wireLength) + 1 + 8 +
    (1 + m.deadlineUnixMs.elim 0 fun _ => 8) + (1 + m.adapterKind.elim 0 textLength) +
    textLength m.contentType

/-! ### Each part is spelled, and read back as it was -/

theorem text_spelled {s : String} (h : textLength s < 2 ^ 32) :
    ∃ b : Block, b.body = utf8 s ∧ b.bytes.length = textLength s := by
  have hshort : (utf8 s).length < 2 ^ 32 := by
    unfold textLength at h
    omega
  refine ⟨⟨utf8 s, hshort⟩, rfl, ?_⟩
  simp [Block.bytes, textLength]

theorem number_spelled {v : ℕ} (h : v < 2 ^ 53) : ∃ n : UInt64, n.toNat = v := by
  refine ⟨UInt64.ofNat v, ?_⟩
  rw [UInt64.toNat_ofNat']
  apply Nat.mod_eq_of_lt
  omega

theorem textValue_of_spells {b : Block} {s : String} (h : b.body = utf8 s) : textValue b = s := by
  rw [textValue, h, ofUtf8_utf8]

theorem numberValue_of_spells {n : UInt64} {v : ℕ} (h : n.toNat = v) (hv : v < 2 ^ 53) :
    numberValue n = v := by
  rw [numberValue, h, toNumber_of_lt hv]

theorem route_spelled {route : OuterRoute} (hr : route.connectionGeneration < 2 ^ 53)
    (h : route.wireLength < 2 ^ 32) :
    ∃ r : RawRoute, r.Spells route ∧ r.bytes.length = route.wireLength := by
  unfold OuterRoute.wireLength at h
  obtain ⟨ingress, hi, hil⟩ := text_spelled (s := route.ingressAgent) (by omega)
  obtain ⟨channel, hc, hcl⟩ := text_spelled (s := route.channel) (by omega)
  obtain ⟨generation, hg⟩ := number_spelled hr
  refine ⟨⟨ingress, channel, generation⟩, ⟨hi, hc, hg⟩, ?_⟩
  simp only [RawRoute.bytes, List.length_append, hil, hcl, u64Bytes, length_leBytes,
    OuterRoute.wireLength]
  omega

theorem route_value_of_spells {r : RawRoute} {route : OuterRoute} (h : r.Spells route)
    (hr : route.connectionGeneration < 2 ^ 53) : r.value = route := by
  obtain ⟨hi, hc, hg⟩ := h
  rw [RawRoute.value, textValue_of_spells hi, textValue_of_spells hc, numberValue_of_spells hg hr]

theorem endpoint_spelled {e : Endpoint} (he : e.InRange) (h : e.wireLength < 2 ^ 32) :
    ∃ r : RawEndpoint, r.Spells e ∧ r.bytes.length = e.wireLength := by
  cases e with
  | agent address =>
    simp only [Endpoint.wireLength] at h
    obtain ⟨raw, hraw, hlen⟩ := text_spelled (s := address) (by omega)
    exact ⟨.agent raw, hraw, by simp [RawEndpoint.bytes, hlen, Endpoint.wireLength]; omega⟩
  | node home name generation =>
    simp only [Endpoint.wireLength] at h
    obtain ⟨rawHome, hh, hhl⟩ := text_spelled (s := home) (by omega)
    obtain ⟨rawName, hn, hnl⟩ := text_spelled (s := name) (by omega)
    obtain ⟨rawGeneration, hg⟩ := number_spelled he
    refine ⟨.node rawHome rawName rawGeneration, ⟨hh, hn, hg⟩, ?_⟩
    simp only [RawEndpoint.bytes, List.length_cons, List.length_append, hhl, hnl, u64Bytes,
      length_leBytes, Endpoint.wireLength]
    omega
  | outer route =>
    simp only [Endpoint.wireLength] at h
    obtain ⟨raw, hraw, hlen⟩ := route_spelled he (by omega)
    exact ⟨.outer raw, hraw, by simp [RawEndpoint.bytes, hlen, Endpoint.wireLength]; omega⟩

theorem endpoint_value_of_spells {r : RawEndpoint} {e : Endpoint} (h : r.Spells e)
    (he : e.InRange) : r.value = e := by
  cases r with
  | agent raw => cases e with
    | agent address => rw [RawEndpoint.value, textValue_of_spells h]
    | node _ _ _ => exact h.elim
    | outer _ => exact h.elim
  | node rawHome rawName rawGeneration => cases e with
    | agent _ => exact h.elim
    | node home name generation =>
      obtain ⟨hh, hn, hg⟩ := h
      rw [RawEndpoint.value, textValue_of_spells hh, textValue_of_spells hn,
        numberValue_of_spells hg he]
    | outer _ => exact h.elim
  | outer raw => cases e with
    | agent _ => exact h.elim
    | node _ _ _ => exact h.elim
    | outer route => rw [RawEndpoint.value, route_value_of_spells h he]

theorem option_spelled {α ρ : Type} (write : ρ → Bytes) (spells : ρ → α → Prop) (len : α → ℕ)
    (a : Option α) (h : ∀ x ∈ a, ∃ raw, spells raw x ∧ (write raw).length = len x) :
    ∃ raw, Option.Rel spells raw a ∧ (optionBytes write raw).length = 1 + a.elim 0 len := by
  cases a with
  | none => exact ⟨none, .none, rfl⟩
  | some x =>
    obtain ⟨raw, hraw, hlen⟩ := h x rfl
    refine ⟨some raw, .some hraw, ?_⟩
    simp only [optionBytes, List.length_cons, hlen, Option.elim]
    omega

theorem option_value_of_spells {α ρ : Type} {spells : ρ → α → Prop} {value : ρ → α}
    {raw : Option ρ} {a : Option α} (h : Option.Rel spells raw a)
    (hv : ∀ r x, x ∈ a → spells r x → value r = x) : raw.map value = a := by
  cases h with
  | none => rfl
  | some hs => rw [Option.map_some, hv _ _ rfl hs]

theorem className_classByte {c : Option EventClass} (h : c.isSome) : className (classByte c) = c := by
  obtain ⟨c, rfl⟩ := Option.isSome_iff_exists.mp h
  cases c <;> rfl

theorem filter_deadline {m : EventMeta} (h : m.InRange) :
    m.deadlineUnixMs.filter (· ≠ 0) = m.deadlineUnixMs := by
  cases hd : m.deadlineUnixMs with
  | none => rfl
  | some d => simp [Option.filter, (h.deadlineUnixMs d hd).1]

theorem filter_adapterKind {m : EventMeta} (h : m.InRange) :
    m.adapterKind.filter (· ≠ "") = m.adapterKind := by
  cases ha : m.adapterKind with
  | none => rfl
  | some a => simp [Option.filter, h.adapterKind a ha]

theorem envelope_spelled {m : EventMeta} (hm : m.InRange) (h : m.envelopeLength < 2 ^ 32) :
    ∃ r : RawEnvelope, r.Spells m ∧ r.bytes.length = m.envelopeLength := by
  unfold EventMeta.envelopeLength at h
  obtain ⟨eventId, he, hel⟩ := text_spelled (s := m.eventId) (by omega)
  obtain ⟨correlationId, hc, hcl⟩ := text_spelled (s := m.correlationId) (by omega)
  obtain ⟨source, hs, hsl⟩ := endpoint_spelled hm.source (by omega)
  obtain ⟨target, ht, htl⟩ := endpoint_spelled hm.target (by omega)
  obtain ⟨route, hr, hrl⟩ := option_spelled RawRoute.bytes RawRoute.Spells
    OuterRoute.wireLength m.returnRoute (by
      intro x hx
      apply route_spelled (hm.returnRoute x hx)
      rw [show m.returnRoute = some x from hx, Option.elim] at h
      omega)
  obtain ⟨sequence, hq⟩ := number_spelled hm.sequence
  obtain ⟨deadline, hd, hdl⟩ := option_spelled u64Bytes (fun n v => n.toNat = v)
    (fun _ => 8) m.deadlineUnixMs (by
      intro x hx
      obtain ⟨n, hn⟩ := number_spelled (hm.deadlineUnixMs x hx).2
      exact ⟨n, hn, length_leBytes 8 _⟩)
  obtain ⟨adapter, ha, hal⟩ := option_spelled Block.bytes (fun b s => b.body = utf8 s)
    textLength m.adapterKind (by
      intro x hx
      apply text_spelled
      rw [show m.adapterKind = some x from hx, Option.elim] at h
      omega)
  obtain ⟨content, hct, hctl⟩ := text_spelled (s := m.contentType) (by omega)
  refine ⟨⟨eventId, correlationId, none, source, target, route, classByte m.eventClass, sequence,
    deadline, adapter, content⟩, ⟨he, hc, rfl, hs, ht, hr, rfl, hq, ?_, ?_, hct⟩, ?_⟩
  · rw [filter_deadline hm]
    exact hd
  · rw [filter_adapterKind hm]
    exact ha
  · have hnone : (optionBytes Block.bytes none).length = 1 := rfl
    have hsequence : (u64Bytes sequence).length = 8 := length_leBytes 8 _
    simp only [RawEnvelope.bytes, List.length_append, length_leBytes, hel, hcl, hnone, hsl, htl,
      hrl, hsequence, hdl, hal, hctl, List.length_singleton, EventMeta.envelopeLength]
    omega

theorem envelope_value_of_spells {r : RawEnvelope} {m : EventMeta} (h : r.Spells m)
    (hm : m.InRange) : r.value = { m with causationId := none } := by
  have hdeadline := h.deadlineUnixMs
  have hadapter := h.adapterKind
  rw [filter_deadline hm] at hdeadline
  rw [filter_adapterKind hm] at hadapter
  have hroute : r.returnRoute.map RawRoute.value = m.returnRoute := by
    apply option_value_of_spells h.returnRoute
    intro raw x hx hraw
    exact route_value_of_spells hraw (hm.returnRoute x hx)
  have hdeadline : r.deadlineUnixMs.map numberValue = m.deadlineUnixMs := by
    apply option_value_of_spells hdeadline
    intro raw x hx hraw
    exact numberValue_of_spells hraw (hm.deadlineUnixMs x hx).2
  have hadapter : r.adapterKind.map textValue = m.adapterKind := by
    apply option_value_of_spells hadapter
    intro raw x _ hraw
    exact textValue_of_spells hraw
  simp only [RawEnvelope.value, textValue_of_spells h.eventId, textValue_of_spells h.correlationId,
    h.causationId, Option.map_none, endpoint_value_of_spells h.source hm.source,
    endpoint_value_of_spells h.target hm.target, hroute, h.code, className_classByte hm.eventClass,
    numberValue_of_spells h.sequence hm.sequence, hdeadline, hadapter,
    textValue_of_spells h.contentType]

/-- What is encoded comes back, without its causation id. -/
theorem decodeEvent_encodeEvent (m : EventMeta) (payload : Option Bytes) (hm : m.InRange)
    (henvelope : m.envelopeLength < 2 ^ 32) (hpayload : (payload.getD []).length < 2 ^ 32) :
    ∃ frame, encodeEvent m payload = .ok frame ∧
      decodeEvent frame = .ok ({ m with causationId := none }, payload.getD []) := by
  obtain ⟨raw, hspells, hlength⟩ := envelope_spelled hm henvelope
  let r : RawEvent := ⟨raw, payload.getD [], by rw [hlength]; exact henvelope, hpayload⟩
  refine ⟨r.bytes, encodeEvent_eq_ok.mpr ⟨r, hspells, rfl, rfl⟩, ?_⟩
  rw [decodeEvent_bytes r, envelope_value_of_spells hspells hm]

theorem sampleMeta_inRange : (sampleMeta (some .control)).InRange where
  source := trivial
  target := trivial
  returnRoute := by simp [sampleMeta]
  eventClass := rfl
  sequence := by decide
  deadlineUnixMs := by simp [sampleMeta]
  adapterKind := by simp [sampleMeta]

theorem decodeEvent_encodeEvent_small :
    (sampleMeta (some .control)).InRange ∧ (sampleMeta (some .control)).envelopeLength < 2 ^ 32 ∧
      ∃ frame, encodeEvent (sampleMeta (some .control)) (some [1, 2]) = .ok frame ∧
        decodeEvent frame = .ok ((sampleMeta (some .control)), [1, 2]) := by
  have hlength : (sampleMeta (some .control)).envelopeLength < 2 ^ 32 := by decide
  exact ⟨sampleMeta_inRange, hlength,
    decodeEvent_encodeEvent (sampleMeta (some .control)) (some [1, 2]) sampleMeta_inRange hlength (by decide)⟩

/-- A payload of `2^32` bytes does not fit the length word, and nothing is
encoded. -/
theorem encodeEvent_long_payload : (sampleMeta (some .control)).InRange ∧
    ¬∃ frame, encodeEvent (sampleMeta (some .control)) (some (List.replicate (2 ^ 32) 0)) = .ok frame ∧
      decodeEvent frame = .ok ((sampleMeta (some .control)), List.replicate (2 ^ 32) 0) := by
  refine ⟨sampleMeta_inRange, ?_⟩
  rintro ⟨frame, hencode, _⟩
  obtain ⟨r, _, hpayload, _⟩ := encodeEvent_eq_ok.mp hencode
  have hshort := r.payload_short
  rw [hpayload, Option.getD_some, List.length_replicate] at hshort
  exact lt_irrefl _ hshort

end KvasirNet.Wire
