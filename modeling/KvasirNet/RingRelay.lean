import KvasirNet.RingExecute
import KvasirNet.RingVerdicts
import Mathlib.Algebra.Order.BigOperators.Group.List
import Mathlib.Algebra.Order.Ring.Nat
import Mathlib.Algebra.Group.Action.Defs

/-! An execute request on its way through the stages: every stage reads what the
coordinator wrote, whatever number of stages wrote it again in between. -/
namespace KvasirNet.Ring

/-- A bundle whose tensors the readers let through. -/
def SoundBundle (b : BoundaryBundle) : Prop :=
  ∀ (i : ℕ) (t : BoundaryTensor), b[i]? = some t → t.Crosses (some maxFrameBytes) i

variable {payload : Bytes}

theorem decode_encoded {b : BoundaryBundle} (hb : SoundBundle b)
    (h : encodeBoundary b = some payload) :
    decodeBoundaryBundle payload = .ok b ∧ payload.length = bundleTotal b ∧
      payload.length ≤ maxFrameBytes := by
  obtain ⟨-, -, htotal, hbytes⟩ := encodeBoundary_eq_some h
  have hlen : payload.length = bundleTotal b := by rw [hbytes, length_bundleBytes]
  exact ⟨((written_returns h).mpr hb).1, hlen, hlen ▸ htotal⟩

/-! ### One hop -/

/-- The request with the tensors of another stage. -/
def ExecuteBundle.withTensors (r : ExecuteBundle) (tensors : BoundaryBundle) : ExecuteBundle :=
  { r with
    tensors := tensors
    header := { r.header with boundaryBytes := BitVec.ofNat 32 (bundleTotal tensors) } }

/-- The size of the request around some tensors. -/
def ExecuteBundle.sizeWith (r : ExecuteBundle) (tensors : BoundaryBundle) : ℕ :=
  executeHeaderBytes + r.positions.length * 4 + r.nSeqId.length * 4 + r.seqIds.length * 4
    + r.output.length + bundleTotal tensors

/-- A frame has room for the request around these tensors. -/
def ExecuteBundle.Fits (r : ExecuteBundle) (tensors : BoundaryBundle) : Prop :=
  (encodeBoundaryBundle tensors).isSome ∧ r.sizeWith tensors ≤ maxFrameBytes

instance (r : ExecuteBundle) (tensors : BoundaryBundle) : Decidable (r.Fits tensors) :=
  inferInstanceAs (Decidable (_ ∧ _))

variable {tensors : BoundaryBundle} {r : ExecuteBundle}

theorem ExecuteBundle.Admitted.withTensors (hr : r.Admitted)
    (htotal : bundleTotal tensors ≤ maxFrameBytes) :
    (r.withTensors tensors).Admitted := by
  have hsize : (BitVec.ofNat 32 (bundleTotal tensors)).toNat = bundleTotal tensors := by
    rw [BitVec.toNat_ofNat]
    unfold maxFrameBytes at htotal
    omega
  obtain ⟨hversion, hreserved, h0, hmax, hpos0, hpos, hle, hids, -⟩ := hr.header
  have hheader : (r.withTensors tensors).header.admitted :=
    ⟨hversion, hreserved, h0, hmax, hpos0, hpos, hle, hids, by
      show (BitVec.ofNat 32 (bundleTotal tensors)).toNat ≤ maxFrameBytes
      rwa [hsize]⟩
  exact ⟨hheader, hr.positions, hr.nSeqId, hr.seqIds, hr.output, hr.counts, hr.total⟩

theorem ExecuteBundle.Fits.total
    (h : r.Fits tensors) : bundleTotal tensors ≤ maxFrameBytes := by
  have hroom := h.2
  unfold ExecuteBundle.sizeWith at hroom
  omega

/-- What a stage writes is what the next one reads: the same request around the new
tensors. Where it does not fit a frame it is refused, and no sum leaves 64 bits. -/
theorem encode_hop (hr : r.Admitted)
    (hsound : SoundBundle tensors) :
    (r.Fits tensors ∧ ∃ payload, encodeExecuteBundle r tensors = .ok payload ∧
      payload.length ≤ maxFrameBytes ∧
      decodeExecuteBundle payload = .ok (r.withTensors tensors)) ∨
    (¬ r.Fits tensors ∧ encodeExecuteBundle r tensors = .error .refused) := by
  cases hencode : encodeBoundaryBundle tensors with
  | none =>
    right
    refine ⟨fun hfits => by simp [ExecuteBundle.Fits, hencode] at hfits, ?_⟩
    simp only [encodeExecuteBundle, hencode]
  | some boundary =>
    obtain ⟨hback, hlen, hmax⟩ := decode_encoded hsound (encodeBoundary_of_bundle hencode)
    have htotal : bundleTotal tensors ≤ maxFrameBytes := hlen ▸ hmax
    have hlt := ExecuteHeader.expected_lt hr.header
    have hwrap : r.sizeWith tensors < 2 ^ 64 := by
      have hp := hr.positions
      have hn := hr.nSeqId
      have hs := hr.seqIds
      have ho := hr.output
      unfold ExecuteHeader.expected at hlt
      unfold ExecuteBundle.sizeWith
      unfold maxFrameBytes at htotal
      rw [hp, hn, hs, ho]
      obtain ⟨-, -, -, htokens, -, hpos, -, hids, -⟩ := hr.header
      have hmul : r.header.nTokens.toNat * r.header.nPos.toNat ≤ 65536 * 4 :=
        Nat.mul_le_mul htokens hpos
      unfold maxParallelSequences at hids
      unfold executeHeaderBytes
      omega
    have hunfold : encodeExecuteBundle r tensors =
        if 2 ^ 64 ≤ r.sizeWith tensors then .error .wraps
        else if maxFrameBytes < r.sizeWith tensors then .error .refused
        else .ok ((r.withTensors tensors).header.bytes
          ++ executeBody r.positions r.nSeqId r.seqIds r.output boundary) := by
      simp only [encodeExecuteBundle, hencode, hlen, hr.positions, hr.nSeqId, hr.seqIds, hr.output,
        ExecuteBundle.sizeWith, ne_eq, not_true_eq_false, or_false]
      rfl
    rw [hunfold, if_neg (Nat.not_le.mpr hwrap)]
    by_cases hroom : r.sizeWith tensors ≤ maxFrameBytes
    · left
      refine ⟨⟨by simp [hencode], hroom⟩, _, if_neg (Nat.not_lt.mpr hroom), ?_, ?_⟩
      · rw [List.length_append, ExecuteHeader.length_bytes, length_executeBody, hlen]
        unfold ExecuteBundle.sizeWith at hroom
        omega
      · refine decodeExecuteBundle_bytes (hr.withTensors htotal) ?_ hback
        show (BitVec.ofNat 32 (bundleTotal tensors)).toNat = boundary.length
        rw [BitVec.toNat_ofNat, hlen]
        unfold maxFrameBytes at htotal
        omega
    · right
      exact ⟨fun hfits => hroom hfits.2, if_pos (Nat.lt_of_not_le hroom)⟩

/-! ### The chain -/

/-- What a stage makes of a request: `execute_boundary`, which fails or leaves its
boundary tensors. -/
abbrev Executor := ExecuteBundle → Option BoundaryBundle

/-- What each stage reads from the frame it receives, until a stage sends none on. -/
def relay : List Executor → Bytes → List (Except Fault ExecuteBundle)
  | [], _ => []
  | e :: es, payload =>
    match decodeExecuteBundle payload with
    | .error f => [.error f]
    | .ok request => .ok request :: match e request with
      | none => []
      | some output => match encodeExecuteBundle request output with
        | .error _ => []
        | .ok next => relay es next

/-- The requests of the stages, with nothing spelled in between. -/
def hops : List Executor → ExecuteBundle → List ExecuteBundle
  | [], _ => []
  | e :: es, request => request :: match e request with
    | none => []
    | some output => if request.Fits output then hops es (request.withTensors output) else []

variable {engines : List Executor}

theorem relay_eq_hops
    (hr : r.Admitted) (hread : decodeExecuteBundle payload = .ok r)
    (hengines : ∀ e ∈ engines, ∀ r output, e r = some output → SoundBundle output) :
    relay engines payload = (hops engines r).map .ok := by
  induction engines generalizing r payload with
  | nil => rfl
  | cons e es ih =>
    simp only [relay, hread, hops, List.map_cons]
    congr 1
    cases hrun : e r with
    | none => rfl
    | some output =>
      have hsound := hengines e List.mem_cons_self r output hrun
      rcases encode_hop hr hsound with ⟨hfits, next, hnext, -, hdecode⟩ | ⟨hfits, hrefused⟩
      · simp only [hnext, hfits, if_true]
        exact ih (hr.withTensors hfits.total) hdecode fun e he => hengines e (List.mem_cons_of_mem _ he)
      · simp only [hrefused, hfits, if_false, List.map_nil]

/-- What the stages share with the first of them. -/
structure ExecuteBundle.SameAs (r s : ExecuteBundle) : Prop where
  header : { r.header with boundaryBytes := 0 } = { s.header with boundaryBytes := 0 }
  positions : r.positions = s.positions
  nSeqId : r.nSeqId = s.nSeqId
  seqIds : r.seqIds = s.seqIds
  output : r.output = s.output
  boundary : r.header.boundaryBytes.toNat = bundleTotal r.tensors

theorem ExecuteBundle.SameAs.withTensors {s : ExecuteBundle} (hr : r.SameAs s)
    (hfits : r.Fits tensors) : (r.withTensors tensors).SameAs s := by
  refine ⟨hr.header, hr.positions, hr.nSeqId, hr.seqIds, hr.output, ?_⟩
  have htotal := hfits.total
  show (BitVec.ofNat 32 (bundleTotal tensors)).toNat = bundleTotal tensors
  rw [BitVec.toNat_ofNat]
  unfold maxFrameBytes at htotal
  omega

theorem hops_keep {P : ExecuteBundle → Prop}
    (hstep : ∀ r tensors, P r → r.Fits tensors → P (r.withTensors tensors))
    (hr : P r) : ∀ x ∈ hops engines r, P x := by
  induction engines generalizing r with
  | nil => exact fun x hx => absurd hx List.not_mem_nil
  | cons e es ih =>
    intro x hx
    rcases List.mem_cons.mp hx with rfl | hx
    · exact hr
    cases hrun : e r with
    | none => simp [hrun] at hx
    | some output =>
      simp only [hrun] at hx
      split_ifs at hx with hfits
      · exact ih (hstep r output hr hfits) x hx
      · exact absurd hx List.not_mem_nil

theorem length_hops {s : ExecuteBundle} (hr : r.SameAs s)
    (h : ∀ e ∈ engines, ∀ r : ExecuteBundle, r.SameAs s →
      ∃ output, e r = some output ∧ r.Fits output) :
    (hops engines r).length = engines.length := by
  induction engines generalizing r with
  | nil => rfl
  | cons e es ih =>
    obtain ⟨output, hrun, hfits⟩ := h e List.mem_cons_self r hr
    simp only [hops, hrun, hfits, if_true, List.length_cons]
    rw [ih (hr.withTensors hfits) fun e he => h e (List.mem_cons_of_mem _ he)]

/-! ### What the coordinator sends -/

structure Invocation.InLimits (inv : Invocation) : Prop where
  tokens : 1 ≤ inv.nTokens.toNat ∧ inv.nTokens.toNat ≤ 65536
  pos : 1 ≤ inv.nPos.toNat ∧ inv.nPos.toNat ≤ 4
  counts : ∀ n ∈ inv.nSeqId, n.toInt ≤ maxParallelSequences

/-- The request of an invocation as the first stage should have it. -/
def Invocation.bundle (inv : Invocation) (tensors : BoundaryBundle) : ExecuteBundle where
  header := { inv.header [] with boundaryBytes := BitVec.ofNat 32 (bundleTotal tensors) }
  positions := inv.pos
  nSeqId := inv.nSeqId
  seqIds := inv.seqId.flatten
  output := inv.output
  tensors := tensors

/-- What is sent is the request as the first stage should have it, in a frame it
admits; the sum of the sizes is exact. -/
theorem request_spec {inv : Invocation}
    (hlimits : inv.InLimits) (hsound : SoundBundle tensors)
    (hsend : inv.request tensors = .ok payload) :
    (inv.bundle tensors).Admitted ∧ decodeExecuteBundle payload = .ok (inv.bundle tensors) ∧
      inv.seqId.map List.length = inv.nSeqId.map BitVec.toNat ∧
      (inv.bundle tensors).header.totalSeqIds.toNat = seqIdSum inv.nSeqId ∧
      (inv.bundle tensors).header.boundaryBytes.toNat = bundleTotal tensors ∧
      payload.length = (inv.bundle tensors).sizeWith tensors ∧
      payload.length ≤ maxFrameBytes := by
  unfold Invocation.request at hsend
  cases hencode : encodeBoundary tensors with
  | none => simp [hencode] at hsend
  | some boundary =>
    simp only [hencode] at hsend
    split_ifs at hsend with hversion hcounts hwrap hlarge
    obtain ⟨hback, hlen, hmax⟩ := decode_encoded hsound hencode
    have hpositive : ∀ n ∈ inv.nSeqId, 0 < n.toInt := fun n hn => by
      by_contra hbad
      exact hcounts ⟨n, hn, Int.not_lt.mp hbad⟩
    have hnat : ∀ n ∈ inv.nSeqId, n.toInt.toNat = n.toNat := fun n hn => by
      have h0 := hpositive n hn
      have hlt : n.toNat < 2 ^ 32 := n.isLt
      rw [BitVec.toInt_eq_toNat_cond] at h0 ⊢
      split_ifs at h0 ⊢ <;> omega
    have hlists : inv.seqId.map List.length = inv.nSeqId.map BitVec.toNat := by
      rw [inv.seqId_lengths]
      exact List.map_congr_left hnat
    have hflat : inv.seqId.flatten.length = seqIdSum inv.nSeqId := by
      rw [List.length_flatten, hlists]
      rfl
    have hbig : maxFrameBytes = 67108864 := rfl
    have hheader : executeHeaderBytes = 40 := rfl
    have hids : (BitVec.ofNat 32 (seqIdSum inv.nSeqId)).toNat = seqIdSum inv.nSeqId := by
      rw [BitVec.toNat_ofNat]
      omega
    have hboundary : (BitVec.ofNat 32 (bundleTotal tensors)).toNat = bundleTotal tensors := by
      rw [BitVec.toNat_ofNat]
      omega
    -- between one and 256 ids for each token
    have hbounds : inv.nSeqId.length ≤ seqIdSum inv.nSeqId ∧
        seqIdSum inv.nSeqId ≤ inv.nSeqId.length * maxParallelSequences := by
      have heach : ∀ n ∈ inv.nSeqId.map BitVec.toNat, 1 ≤ n ∧ n ≤ maxParallelSequences := by
        intro n hn
        obtain ⟨x, hx, rfl⟩ := List.mem_map.mp hn
        have h0 := hpositive x hx
        have h1 := hlimits.counts x hx
        have h2 := hnat x hx
        omega
      have hlow := List.card_nsmul_le_sum _ 1 fun n hn => (heach n hn).1
      have hhigh := List.sum_le_card_nsmul _ maxParallelSequences fun n hn => (heach n hn).2
      simp only [List.length_map, smul_eq_mul, Nat.mul_one] at hlow hhigh
      exact ⟨hlow, hhigh⟩
    rw [inv.nSeqId_length] at hbounds
    have hadmitted : (inv.bundle tensors).header.admitted :=
      ⟨rfl, rfl, by have := hlimits.tokens.1; show inv.nTokens.toNat ≠ 0; omega,
        hlimits.tokens.2, by have := hlimits.pos.1; show inv.nPos.toNat ≠ 0; omega,
        hlimits.pos.2, by show _ ≤ (BitVec.ofNat 32 _).toNat; rw [hids]; exact hbounds.1,
        by show (BitVec.ofNat 32 _).toNat ≤ _; rw [hids]; exact hbounds.2,
        by show (BitVec.ofNat 32 _).toNat ≤ _; rw [hboundary]; omega⟩
    have hall : (inv.bundle tensors).Admitted :=
      ⟨hadmitted, inv.pos_length, inv.nSeqId_length, hflat.trans hids.symm, inv.output_length,
        fun n hn => ⟨hpositive n hn, hlimits.counts n hn⟩, hids.symm⟩
    have hpayload : payload = (inv.bundle tensors).header.bytes
        ++ executeBody inv.pos inv.nSeqId inv.seqId.flatten inv.output boundary := by
      rw [← Except.ok.inj hsend, ← show inv.header boundary = (inv.bundle tensors).header by
        simp only [Invocation.bundle, Invocation.header, hlen]]
    have hsize : payload.length = (inv.bundle tensors).sizeWith tensors := by
      rw [hpayload, List.length_append, ExecuteHeader.length_bytes, length_executeBody, hlen]
      show _ = executeHeaderBytes + inv.pos.length * 4 + inv.nSeqId.length * 4
        + inv.seqId.flatten.length * 4 + inv.output.length + bundleTotal tensors
      omega
    refine ⟨hall, ?_, hlists, hids, hboundary, hsize, ?_⟩
    · rw [hpayload]
      exact decodeExecuteBundle_bytes hall (hboundary.trans hlen.symm) hback
    · have h1 := inv.pos_length
      have h2 := inv.nSeqId_length
      have h3 := inv.output_length
      have h4 : payload.length = executeHeaderBytes + inv.pos.length * 4 + inv.nSeqId.length * 4
        + inv.seqId.flatten.length * 4 + inv.output.length + bundleTotal tensors := hsize
      omega

/-- Every stage that receives a frame reads the coordinator's request from it: only the
boundary tensors and their size differ from stage to stage. No sum on the way leaves 64
bits, and none is cut to 32. -/
theorem execute_reaches {inv : Invocation} {tensors : BoundaryBundle} {payload : Bytes}
    {engines : List Executor} (hlimits : inv.InLimits) (hsound : SoundBundle tensors)
    (hengines : ∀ e ∈ engines, ∀ r output, e r = some output → SoundBundle output)
    (hsend : inv.request tensors = .ok payload) :
    relay engines payload = (hops engines (inv.bundle tensors)).map .ok ∧
    (∀ r ∈ hops engines (inv.bundle tensors), r.SameAs (inv.bundle tensors) ∧
      r.batch.sequences = inv.seqId ∧
      ∀ output, SoundBundle output → encodeExecuteBundle r output ≠ .error .wraps) ∧
    (inv.bundle tensors).header.totalSeqIds.toNat = seqIdSum inv.nSeqId ∧
    payload.length = (inv.bundle tensors).sizeWith tensors ∧
    payload.length ≤ maxFrameBytes ∧
    ((∀ e ∈ engines, ∀ r : ExecuteBundle, r.SameAs (inv.bundle tensors) →
        ∃ output, e r = some output ∧ r.Fits output) →
      (relay engines payload).length = engines.length) := by
  obtain ⟨hadmitted, hread, hlists, hids, hboundary, hsize, hmax⟩ :=
    request_spec hlimits hsound hsend
  have hrelay := relay_eq_hops hadmitted hread hengines
  have hsame : (inv.bundle tensors).SameAs (inv.bundle tensors) :=
    ⟨rfl, rfl, rfl, rfl, rfl, hboundary⟩
  refine ⟨hrelay, fun r hr => ?_, hids, hsize, hmax, fun hall => ?_⟩
  · have hkept : r.Admitted ∧ r.SameAs (inv.bundle tensors) :=
      hops_keep (fun _ _ hx hfits => ⟨hx.1.withTensors hfits.total, hx.2.withTensors hfits⟩)
        (P := fun x => x.Admitted ∧ x.SameAs (inv.bundle tensors)) ⟨hadmitted, hsame⟩ r hr
    obtain ⟨hradmitted, hrs⟩ := hkept
    refine ⟨hrs, ?_, fun output hout hwraps => ?_⟩
    · have hids : r.seqIds = [] ++ inv.seqId.flatten := hrs.seqIds
      have hcounts : r.nSeqId = inv.nSeqId := hrs.nSeqId
      simp only [Batch.sequences, ExecuteBundle.batch, hids, hcounts]
      exact zipWith_seqPtrs hlists []
    · rcases encode_hop hradmitted hout with ⟨-, next, hnext, -⟩ | ⟨-, hrefused⟩
      · cases hnext.symm.trans hwraps
      · cases hrefused.symm.trans hwraps
  · rw [hrelay, List.length_map]
    exact length_hops hsame hall

/-! ### Two requests -/

def emptyTensor : BoundaryBundle :=
  [⟨{ type := 0, nDims := 1, ne := fun _ => 0, nb := fun _ => 0, nbytes := 0, viewOffset := 0,
      aliasOf := -1, flags := 0, name := .empty }, []⟩]

/-- Tokens at position 0 of sequence 0, each with one position. -/
def plainInvocation (n : ℕ) (h : n < 2 ^ 32) : Invocation where
  version := 1
  flags := 0
  nTokens := BitVec.ofNat 32 n
  nSeqTokens := 1
  nSeqs := 1
  nSeqsUnq := 1
  nPos := 1
  pos := List.replicate n 0
  nSeqId := List.replicate n 1
  seqId := List.replicate n [0]
  output := List.replicate n 0
  pos_length := by simp; omega
  nSeqId_length := by simp; omega
  seqId_lengths := by
    rw [List.map_replicate, List.map_replicate]
    rfl
  output_length := by simp; omega

theorem emptyTensor_sound : SoundBundle emptyTensor := by
  intro i t hi
  match i, hi with
  | 0, hi => cases hi; exact ⟨by decide, by decide, by decide⟩

theorem emptyTensor_encoded : encodeBoundary emptyTensor = some (bundleBytes emptyTensor) := by
  rw [encodeBoundary, if_neg (by decide), if_neg (by decide)]

theorem plainInvocation_request {n : ℕ} (h : n < 2 ^ 32) (hroom : 13 * n + 212 ≤ maxFrameBytes) :
    (plainInvocation n h).request emptyTensor =
      .ok (((plainInvocation n h).header (bundleBytes emptyTensor)).bytes
        ++ executeBody (List.replicate n 0) (List.replicate n 1) (List.replicate n [0]).flatten
          (List.replicate n 0) (bundleBytes emptyTensor)) := by
  have hsum : seqIdSum (plainInvocation n h).nSeqId = n := by
    simp [seqIdSum, plainInvocation]
  have htokens : (plainInvocation n h).nTokens.toNat = n := Nat.mod_eq_of_lt h
  have hpos : (plainInvocation n h).nPos.toNat = 1 := rfl
  have hlen : (bundleBytes emptyTensor).length = 172 := by
    rw [length_bundleBytes]
    rfl
  have hcounts : ¬ ∃ x ∈ (plainInvocation n h).nSeqId, x.toInt ≤ 0 := by
    rintro ⟨x, hx, hbad⟩
    rw [show (plainInvocation n h).nSeqId = List.replicate n 1 from rfl] at hx
    rw [List.eq_of_mem_replicate hx] at hbad
    exact absurd hbad (by decide)
  have hversion : ¬ (plainInvocation n h).version ≠ 1 := not_not.mpr rfl
  simp only [Invocation.request, emptyTensor_encoded, hsum, htokens, hpos, hlen, executeHeaderBytes]
  unfold maxFrameBytes at hroom ⊢
  rw [if_neg hversion, if_neg hcounts, if_neg (by omega), if_neg (by omega)]
  rfl

/-- One token reaches a stage whose engine returns a tensor of its own. -/
theorem execute_reaches_plain : ∃ payload,
    (plainInvocation 1 (by decide)).request emptyTensor = .ok payload ∧
    relay [fun _ => some emptyTensor] payload =
      (hops [fun _ => some emptyTensor] ((plainInvocation 1 (by decide)).bundle emptyTensor)).map .ok := by
  have hsend := plainInvocation_request (n := 1) (by decide) (by decide)
  refine ⟨_, hsend, (execute_reaches ⟨by decide, by decide, ?_⟩ emptyTensor_sound ?_ hsend).1⟩
  · intro n hn
    rw [List.mem_singleton.mp hn]
    decide
  · intro e he r output houtput
    rw [List.mem_singleton.mp he] at houtput
    exact Option.some.inj houtput ▸ emptyTensor_sound

theorem decodeExecuteBundle_refuses
    (h : ¬ (ExecuteHeader.read payload).admitted) :
    decodeExecuteBundle payload = .error .refused := by
  unfold decodeExecuteBundle
  split_ifs
  · rfl
  · exact if_pos h

/-- A token more than a stage admits is sent all the same, and refused. -/
theorem oversized_request_refused : ∃ payload,
    (plainInvocation 65537 (by decide)).request emptyTensor = .ok payload ∧
    decodeExecuteBundle payload = .error .refused := by
  refine ⟨_, plainInvocation_request (n := 65537) (by decide) (by decide), ?_⟩
  apply decodeExecuteBundle_refuses
  rw [ExecuteHeader.read_append]
  intro hadmitted
  have hmax : 65537 ≤ 65536 := hadmitted.2.2.2.1
  omega

end KvasirNet.Ring
