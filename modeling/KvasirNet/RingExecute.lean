import KvasirNet.RingVerdicts

/-! The execute request of the ring: written by the coordinator from an invocation,
and read, run and written again by every stage on its way. -/
namespace KvasirNet.Ring

/-- `llama_max_parallel_sequences()`. -/
def maxParallelSequences : ℕ := 256

structure ExecuteHeader where
  version : Word 4
  flags : Word 4
  nTokens : Word 4
  nSeqTokens : Word 4
  nSeqs : Word 4
  nSeqsUnq : Word 4
  nPos : Word 4
  totalSeqIds : Word 4
  boundaryBytes : Word 4
  reserved : Word 4
  deriving DecidableEq

structure ExecuteBundle where
  header : ExecuteHeader
  positions : List (Word 4)
  nSeqId : List (Word 4)
  seqIds : List (Word 4)
  output : Bytes
  tensors : BoundaryBundle

def executeHeaderBytes : ℕ := 40

def ExecuteHeader.bytes (h : ExecuteHeader) : Bytes :=
  wordBytes h.version ++ (wordBytes h.flags ++ (wordBytes h.nTokens ++ (wordBytes h.nSeqTokens ++
    (wordBytes h.nSeqs ++ (wordBytes h.nSeqsUnq ++ (wordBytes h.nPos ++
      (wordBytes h.totalSeqIds ++ (wordBytes h.boundaryBytes ++ wordBytes h.reserved))))))))

def ExecuteHeader.read (bs : Bytes) : ExecuteHeader where
  version := word 4 bs
  flags := word 4 (bs.drop 4)
  nTokens := word 4 (bs.drop 8)
  nSeqTokens := word 4 (bs.drop 12)
  nSeqs := word 4 (bs.drop 16)
  nSeqsUnq := word 4 (bs.drop 20)
  nPos := word 4 (bs.drop 24)
  totalSeqIds := word 4 (bs.drop 28)
  boundaryBytes := word 4 (bs.drop 32)
  reserved := word 4 (bs.drop 36)

theorem ExecuteHeader.length_bytes (h : ExecuteHeader) : h.bytes.length = executeHeaderBytes := by
  simp [ExecuteHeader.bytes, executeHeaderBytes]

theorem ExecuteHeader.read_append (h : ExecuteHeader) (rest : Bytes) :
    ExecuteHeader.read (h.bytes ++ rest) = h := by
  simp [ExecuteHeader.read, ExecuteHeader.bytes, List.drop_append]

/-! ### The coordinator -/

/-- `llama_linkcpp_stage_invocation`: the arrays have the lengths its counts give, and
each token has as many sequence ids as its count says. -/
structure Invocation where
  version : Word 4
  flags : Word 4
  nTokens : Word 4
  nSeqTokens : Word 4
  nSeqs : Word 4
  nSeqsUnq : Word 4
  nPos : Word 4
  pos : List (Word 4)
  nSeqId : List (Word 4)
  seqId : List (List (Word 4))
  output : Bytes
  pos_length : pos.length = nTokens.toNat * nPos.toNat
  nSeqId_length : nSeqId.length = nTokens.toNat
  seqId_lengths : seqId.map List.length = nSeqId.map fun n => n.toInt.toNat
  output_length : output.length = nTokens.toNat

/-- The counts of all tokens, each added as an unsigned number. -/
def seqIdSum (counts : List (Word 4)) : ℕ := (counts.map BitVec.toNat).sum

def executeBody (positions nSeqId seqIds : List (Word 4)) (output boundary : Bytes) : Bytes :=
  wordsBytes positions ++ (wordsBytes nSeqId ++ (wordsBytes seqIds ++ (output ++ boundary)))

def Invocation.header (inv : Invocation) (boundary : Bytes) : ExecuteHeader where
  version := 1
  flags := inv.flags
  nTokens := inv.nTokens
  nSeqTokens := inv.nSeqTokens
  nSeqs := inv.nSeqs
  nSeqsUnq := inv.nSeqsUnq
  nPos := inv.nPos
  totalSeqIds := BitVec.ofNat 32 (seqIdSum inv.nSeqId)
  boundaryBytes := BitVec.ofNat 32 boundary.length
  reserved := 0

/-- `execute` up to the frame that is sent. The size is a sum of 64-bit products; one
that leaves 64 bits makes a buffer too small for what is copied into it. -/
def Invocation.request (inv : Invocation) (tensors : BoundaryBundle) : Except Fault Bytes :=
  if inv.version ≠ 1 then .error .refused
  else match encodeBoundary tensors with
    | none => .error .refused
    | some boundary =>
      if ∃ n ∈ inv.nSeqId, n.toInt ≤ 0 then .error .refused
      else
        let total := executeHeaderBytes + inv.nTokens.toNat * inv.nPos.toNat * 4
          + inv.nTokens.toNat * 4 + seqIdSum inv.nSeqId * 4 + inv.nTokens.toNat + boundary.length
        if 2 ^ 64 ≤ total then .error .wraps
        else if maxFrameBytes < total then .error .refused
        else .ok ((inv.header boundary).bytes
          ++ executeBody inv.pos inv.nSeqId inv.seqId.flatten inv.output boundary)

/-! ### A stage -/

def ExecuteHeader.admitted (h : ExecuteHeader) : Prop :=
  h.version = 1 ∧ h.reserved = 0 ∧ h.nTokens.toNat ≠ 0 ∧ h.nTokens.toNat ≤ 65536 ∧
    h.nPos.toNat ≠ 0 ∧ h.nPos.toNat ≤ 4 ∧ h.nTokens.toNat ≤ h.totalSeqIds.toNat ∧
    h.totalSeqIds.toNat ≤ h.nTokens.toNat * maxParallelSequences ∧
    h.boundaryBytes.toNat ≤ maxFrameBytes

instance (h : ExecuteHeader) : Decidable h.admitted :=
  inferInstanceAs (Decidable (_ ∧ _))

def ExecuteHeader.expected (h : ExecuteHeader) : ℕ :=
  executeHeaderBytes + h.nTokens.toNat * h.nPos.toNat * 4 + h.nTokens.toNat * 4
    + h.totalSeqIds.toNat * 4 + h.nTokens.toNat + h.boundaryBytes.toNat

def decodeExecuteBundle (payload : Bytes) : Except Fault ExecuteBundle :=
  if payload.length < executeHeaderBytes then .error .refused
  else
    let h := ExecuteHeader.read payload
    if ¬ h.admitted then .error .refused
    else if 2 ^ 64 ≤ h.expected then .error .wraps
    else if h.expected ≠ payload.length then .error .refused
    else
      let atPositions := payload.drop executeHeaderBytes
      let atCounts := atPositions.drop (4 * (h.nTokens.toNat * h.nPos.toNat))
      let atSeqIds := atCounts.drop (4 * h.nTokens.toNat)
      let atOutput := atSeqIds.drop (4 * h.totalSeqIds.toNat)
      let nSeqId := words 4 h.nTokens.toNat atCounts
      if ∃ n ∈ nSeqId, n.toInt ≤ 0 ∨ maxParallelSequences < n.toInt then .error .refused
      else if seqIdSum nSeqId ≠ h.totalSeqIds.toNat then .error .refused
      else do
        let tensors ← decodeBoundaryBundle (atOutput.drop h.nTokens.toNat)
        pure {
          header := h
          positions := words 4 (h.nTokens.toNat * h.nPos.toNat) atPositions
          nSeqId := nSeqId
          seqIds := words 4 h.totalSeqIds.toNat atSeqIds
          output := atOutput.take h.nTokens.toNat
          tensors := tensors }

/-- The request again, around the tensors of this stage. -/
def encodeExecuteBundle (request : ExecuteBundle) (tensors : BoundaryBundle) : Except Fault Bytes :=
  match encodeBoundaryBundle tensors with
  | none => .error .refused
  | some boundary =>
    let h := { request.header with boundaryBytes := BitVec.ofNat 32 boundary.length }
    let total := executeHeaderBytes + request.positions.length * 4 + request.nSeqId.length * 4
      + request.seqIds.length * 4 + request.output.length + boundary.length
    if 2 ^ 64 ≤ total then .error .wraps
    else if maxFrameBytes < total ∨ request.positions.length ≠ h.nTokens.toNat * h.nPos.toNat
        ∨ request.nSeqId.length ≠ h.nTokens.toNat ∨ request.seqIds.length ≠ h.totalSeqIds.toNat
        ∨ request.output.length ≠ h.nTokens.toNat then .error .refused
    else .ok (h.bytes
      ++ executeBody request.positions request.nSeqId request.seqIds request.output boundary)

/-- Where each token's sequence ids start, as the loop of `execute_boundary` adds the
counts up. -/
def seqPtrs : ℕ → List (Word 4) → List ℕ
  | _, [] => []
  | offset, n :: counts => offset :: seqPtrs (offset + n.toNat) counts

structure Batch where
  pos : List (Word 4)
  nSeqId : List (Word 4)
  seqIds : List (Word 4)
  seqPtr : List ℕ
  logits : Bytes

def ExecuteBundle.batch (request : ExecuteBundle) : Batch where
  pos := request.positions
  nSeqId := request.nSeqId
  seqIds := request.seqIds
  seqPtr := seqPtrs 0 request.nSeqId
  logits := request.output

/-- The ids the engine reads for each token: as many as the token's count, from its
pointer on. -/
def Batch.sequences (b : Batch) : List (List (Word 4)) :=
  List.zipWith (fun ptr n => (b.seqIds.drop ptr).take n.toNat) b.seqPtr b.nSeqId

theorem zipWith_seqPtrs {lists : List (List (Word 4))} {counts : List (Word 4)}
    (h : lists.map List.length = counts.map BitVec.toNat) (before : List (Word 4)) :
    List.zipWith (fun ptr n => ((before ++ lists.flatten).drop ptr).take n.toNat)
      (seqPtrs before.length counts) counts = lists := by
  induction counts generalizing lists before with
  | nil =>
    have hnil : lists = [] := by simpa using h
    rw [hnil]
    rfl
  | cons n counts ih =>
    cases lists with
    | nil => simp at h
    | cons ids lists =>
      obtain ⟨hids, hrest⟩ := List.cons.inj h
      have hids : ids.length = n.toNat := hids
      have hnext := ih hrest (before ++ ids)
      have hlen : (before ++ ids).length = before.length + n.toNat := by
        rw [List.length_append, hids]
      rw [hlen] at hnext
      have hflat : before ++ (ids :: lists).flatten = before ++ ids ++ lists.flatten := by
        rw [List.flatten_cons, List.append_assoc]
      have hfirst : ((before ++ ids ++ lists.flatten).drop before.length).take n.toNat = ids := by
        rw [List.append_assoc, List.drop_left, ← hids, List.take_left]
      simp only [seqPtrs, List.zipWith_cons_cons, hflat, hfirst, hnext]

/-! ### There and back -/

/-- A request whose header says what its lists are, and that a stage admits. -/
structure ExecuteBundle.Admitted (r : ExecuteBundle) : Prop where
  header : r.header.admitted
  positions : r.positions.length = r.header.nTokens.toNat * r.header.nPos.toNat
  nSeqId : r.nSeqId.length = r.header.nTokens.toNat
  seqIds : r.seqIds.length = r.header.totalSeqIds.toNat
  output : r.output.length = r.header.nTokens.toNat
  counts : ∀ n ∈ r.nSeqId, 0 < n.toInt ∧ n.toInt ≤ maxParallelSequences
  total : seqIdSum r.nSeqId = r.header.totalSeqIds.toNat

theorem length_executeBody (positions nSeqId seqIds : List (Word 4)) (output boundary : Bytes) :
    (executeBody positions nSeqId seqIds output boundary).length =
      4 * positions.length + 4 * nSeqId.length + 4 * seqIds.length + output.length
        + boundary.length := by
  simp only [executeBody, List.length_append, length_wordsBytes]
  omega

theorem ExecuteHeader.expected_lt {h : ExecuteHeader} (hh : h.admitted) : h.expected < 2 ^ 64 := by
  obtain ⟨-, -, -, htokens, -, hpos, -, hids, hboundary⟩ := hh
  have hmul : h.nTokens.toNat * h.nPos.toNat ≤ 65536 * 4 := Nat.mul_le_mul htokens hpos
  unfold maxParallelSequences at hids
  unfold maxFrameBytes at hboundary
  unfold ExecuteHeader.expected executeHeaderBytes
  omega

theorem decodeExecuteBundle_bytes {r : ExecuteBundle} {boundary : Bytes} (hr : r.Admitted)
    (hsize : r.header.boundaryBytes.toNat = boundary.length)
    (hboundary : decodeBoundaryBundle boundary = .ok r.tensors) :
    decodeExecuteBundle (r.header.bytes
      ++ executeBody r.positions r.nSeqId r.seqIds r.output boundary) = .ok r := by
  have hheader := r.header.length_bytes
  have hread := r.header.read_append (executeBody r.positions r.nSeqId r.seqIds r.output boundary)
  have hlt := ExecuteHeader.expected_lt hr.header
  have hlen : r.header.expected =
      (r.header.bytes ++ executeBody r.positions r.nSeqId r.seqIds r.output boundary).length := by
    rw [List.length_append, hheader, length_executeBody, hr.positions, hr.nSeqId, hr.seqIds,
      hr.output, ← hsize, ExecuteHeader.expected]
    omega
  -- the five lists stand one behind the other
  have hbody : (r.header.bytes ++ executeBody r.positions r.nSeqId r.seqIds r.output boundary).drop
      executeHeaderBytes = executeBody r.positions r.nSeqId r.seqIds r.output boundary :=
    List.drop_left' hheader
  have hcounts : (executeBody r.positions r.nSeqId r.seqIds r.output boundary).drop
      (4 * (r.header.nTokens.toNat * r.header.nPos.toNat)) =
        wordsBytes r.nSeqId ++ (wordsBytes r.seqIds ++ (r.output ++ boundary)) :=
    List.drop_left' (by rw [length_wordsBytes, hr.positions])
  have hids : (wordsBytes r.nSeqId ++ (wordsBytes r.seqIds ++ (r.output ++ boundary))).drop
      (4 * r.header.nTokens.toNat) = wordsBytes r.seqIds ++ (r.output ++ boundary) :=
    List.drop_left' (by rw [length_wordsBytes, hr.nSeqId])
  have houtput : (wordsBytes r.seqIds ++ (r.output ++ boundary)).drop
      (4 * r.header.totalSeqIds.toNat) = r.output ++ boundary :=
    List.drop_left' (by rw [length_wordsBytes, hr.seqIds])
  have hpos : words 4 (r.header.nTokens.toNat * r.header.nPos.toNat)
      (executeBody r.positions r.nSeqId r.seqIds r.output boundary) = r.positions := by
    rw [← hr.positions]
    exact words_append _ _
  have hn : words 4 r.header.nTokens.toNat
      (wordsBytes r.nSeqId ++ (wordsBytes r.seqIds ++ (r.output ++ boundary))) = r.nSeqId := by
    rw [← hr.nSeqId]
    exact words_append _ _
  have hs : words 4 r.header.totalSeqIds.toNat (wordsBytes r.seqIds ++ (r.output ++ boundary)) =
      r.seqIds := by
    rw [← hr.seqIds]
    exact words_append _ _
  have hgood : ¬ ∃ n ∈ r.nSeqId, n.toInt ≤ 0 ∨ (maxParallelSequences : ℤ) < n.toInt := by
    rintro ⟨n, hn, hbad⟩
    have := hr.counts n hn
    omega
  have hfits : ¬ (r.header.bytes
      ++ executeBody r.positions r.nSeqId r.seqIds r.output boundary).length
        < executeHeaderBytes := by
    rw [List.length_append, hheader]
    omega
  simp only [decodeExecuteBundle, hread, hbody, hcounts, hids, houtput, hpos, hn, hs]
  rw [if_neg hfits, if_neg (not_not.mpr hr.header), if_neg (Nat.not_le.mpr hlt),
    if_neg (not_not.mpr hlen), if_neg hgood, if_neg (not_not.mpr hr.total),
    List.drop_left' hr.output, List.take_left' hr.output, hboundary]
  rfl

end KvasirNet.Ring
