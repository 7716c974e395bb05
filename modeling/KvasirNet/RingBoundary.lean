import KvasirNet.ByteWords
import Mathlib.Data.List.TakeWhile
import Mathlib.Tactic.SplitIfs

/-! The boundary bundles of the ring: descriptors with their tensor data, spelled
by the node and by the ring executor and read back by both. -/
namespace KvasirNet.Ring

def maxFrameBytes : ℕ := 64 * 1024 * 1024

def maxBoundaryTensors : ℕ := 1024

/-- A tensor descriptor. `ν` is how it holds the name: a C string in
`llama_linkcpp_tensor_desc`, 64 bytes of anything in `boundary_desc_wire`. -/
structure Desc (ν : Type) where
  type : Word 4
  nDims : Word 4
  ne : Fin 4 → Word 8
  nb : Fin 4 → Word 8
  nbytes : Word 8
  viewOffset : Word 8
  aliasOf : Word 4
  flags : Word 4
  name : ν

/-- What `char name[64]` holds once it is terminated. -/
structure CName where
  chars : Bytes
  noZero : ∀ c ∈ chars, c ≠ 0
  short : chars.length < 64
  deriving DecidableEq

def CName.empty : CName := ⟨[], fun _ hc => absurd hc List.not_mem_nil, by decide⟩

namespace Desc

variable {ν μ : Type}

def withName (d : Desc ν) (name : μ) : Desc μ := { d with name := name }

def isAlias (d : Desc ν) : Bool := 0 ≤ d.aliasOf.toInt

def target (d : Desc ν) : ℕ := d.aliasOf.toInt.toNat

/-- The bytes of data that follow the descriptor on the wire. -/
def dataBytes (d : Desc ν) : ℕ := if d.isAlias then 0 else d.nbytes.toNat

end Desc

structure BoundaryTensor where
  desc : Desc CName
  data : Bytes

abbrev BoundaryBundle := List BoundaryTensor

/-! ### The packed structures -/

def descBytes : ℕ := 160

def Desc.bytes (d : Desc Bytes) : Bytes :=
  wordBytes d.type ++ (wordBytes d.nDims ++ (fourBytes d.ne ++ (fourBytes d.nb ++
    (wordBytes d.nbytes ++ (wordBytes d.viewOffset ++ (wordBytes d.aliasOf ++
      (wordBytes d.flags ++ d.name)))))))

/-- `memcpy(&wire, ...)`, from the front of the bytes. -/
def Desc.read (bs : Bytes) : Desc Bytes where
  type := word 4 bs
  nDims := word 4 (bs.drop 4)
  ne := four 8 (bs.drop 8)
  nb := four 8 (bs.drop 40)
  nbytes := word 8 (bs.drop 72)
  viewOffset := word 8 (bs.drop 80)
  aliasOf := word 4 (bs.drop 88)
  flags := word 4 (bs.drop 92)
  name := (bs.drop 96).take 64

theorem Desc.length_bytes {d : Desc Bytes} (h : d.name.length = 64) : d.bytes.length = descBytes := by
  simp [Desc.bytes, descBytes, h]

theorem Desc.read_append {d : Desc Bytes} (h : d.name.length = 64) (rest : Bytes) :
    Desc.read (d.bytes ++ rest) = d := by
  obtain ⟨type, nDims, ne, nb, nbytes, viewOffset, aliasOf, flags, name⟩ := d
  have hname : (name ++ rest).take 64 = name := List.take_left' h
  simp [Desc.read, Desc.bytes, List.drop_append, hname]

/-- The C string at the front of a field; `none` when no byte of it is zero, and a
reader runs past its end. -/
def cString (field : Bytes) : Option CName :=
  let chars := field.takeWhile (· ≠ 0)
  if h : chars.length < 64 then
    some ⟨chars, fun _ hc => by simpa using List.mem_takeWhile_imp hc, h⟩
  else none

/-- `snprintf` into a field of zeros. -/
def CName.field (name : CName) : Bytes := name.chars ++ List.replicate (64 - name.chars.length) 0

theorem CName.length_field (name : CName) : name.field.length = 64 := by
  have := name.short
  simp only [field, List.length_append, List.length_replicate]
  omega

theorem cString_field (name : CName) : cString name.field = some name := by
  have hshort := name.short
  have hpos : 64 - name.chars.length = 64 - name.chars.length - 1 + 1 := by omega
  have hchars : name.field.takeWhile (· ≠ 0) = name.chars := by
    rw [CName.field, hpos, List.replicate_succ, List.takeWhile_append_of_pos]
    · simp
    · intro c hc
      simpa using name.noZero c hc
  simp only [cString, hchars, hshort, dite_true]

/-! ### Writing -/

def BoundaryTensor.bytes (t : BoundaryTensor) : Bytes :=
  (t.desc.withName t.desc.name.field).bytes ++ t.data

/-- Magic, version and reserved byte, the count, and the reserved word. -/
def bundleHeader (count : ℕ) : Bytes := [76, 75, 66, 51, 3, 0] ++ leBytes 2 count ++ [0, 0, 0, 0]

def bundleBytes (b : BoundaryBundle) : Bytes := bundleHeader b.length ++ b.flatMap BoundaryTensor.bytes

def bundleTotal (b : BoundaryBundle) : ℕ := 12 + (b.map fun t => descBytes + t.data.length).sum

/-- What the node checks of a tensor it sends. -/
def BoundaryTensor.sendable (t : BoundaryTensor) : Prop :=
  t.data.length = t.desc.dataBytes ∧ 1 ≤ t.desc.nDims.toInt ∧ t.desc.nDims.toInt ≤ 4

instance (t : BoundaryTensor) : Decidable t.sendable :=
  inferInstanceAs (Decidable (_ ∧ _))

def encodeBoundaryBundle (b : BoundaryBundle) : Option Bytes :=
  if b = [] ∨ maxBoundaryTensors < b.length then none
  else if (∃ t ∈ b, ¬ t.sendable) ∨ maxFrameBytes < bundleTotal b then none
  else some (bundleBytes b)

def encodeBoundary (b : BoundaryBundle) : Option Bytes :=
  if b = [] ∨ maxBoundaryTensors < b.length then none
  else if maxFrameBytes < bundleTotal b then none
  else some (bundleBytes b)

/-! ### Reading -/

/-- How a reader ends without a bundle: it refuses the payload, it adds past the
end of 64-bit arithmetic, or it reads past the end of a name. -/
inductive Fault
  | refused
  | wraps
  | overreads
  deriving DecidableEq, Repr

/-- The checks both readers make of the descriptor at index `i`. -/
def Desc.credible {ν : Type} (d : Desc ν) (i : ℕ) : Prop :=
  1 ≤ d.nDims.toInt ∧ d.nDims.toInt ≤ 4 ∧ d.flags = 0 ∧ d.aliasOf.toInt < i

/-- The node also bounds the size a descriptor names, of an alias too. -/
def Desc.within {ν : Type} (limit : Option ℕ) (d : Desc ν) : Prop :=
  ∀ m ∈ limit, d.nbytes.toNat ≤ m

instance {ν : Type} (d : Desc ν) (i : ℕ) : Decidable (d.credible i) :=
  inferInstanceAs (Decidable (_ ∧ _))

instance {ν : Type} (limit : Option ℕ) (d : Desc ν) : Decidable (d.within limit) :=
  inferInstanceAs (Decidable (∀ m ∈ limit, _))

/-- One turn of the loop: the tensor at `offset` and where the next one starts. A
vector is shorter than 2^63 bytes, so only the sum with the tensor's own size can
leave 64 bits; what it wraps to is below the payload's size and passes the check. -/
def readTensor (limit : Option ℕ) (payload : Bytes) (i offset : ℕ) :
    Except Fault (BoundaryTensor × ℕ) :=
  if payload.length < offset + descBytes then .error .refused
  else
    let wire := Desc.read (payload.drop offset)
    let start := offset + descBytes
    if ¬ (wire.credible i ∧ wire.within limit) then .error .refused
    else if 2 ^ 64 ≤ start + wire.dataBytes then .error .wraps
    else if payload.length < start + wire.dataBytes then .error .refused
    else match cString wire.name with
      | none => .error .overreads
      | some name =>
        .ok (⟨wire.withName name, (payload.drop start).take wire.dataBytes⟩, start + wire.dataBytes)

/-- The tensors from index `i` on; they must fill the payload. -/
def readTensors (limit : Option ℕ) (payload : Bytes) : ℕ → ℕ → ℕ → Except Fault BoundaryBundle
  | 0, _, offset => if offset = payload.length then .ok [] else .error .refused
  | n + 1, i, offset => do
    let (t, next) ← readTensor limit payload i offset
    let rest ← readTensors limit payload n (i + 1) next
    pure (t :: rest)

def readHeader (payload : Bytes) : Option ℕ :=
  let count := leValue ((payload.drop 6).take 2)
  if payload.length < 12 ∨ payload.take 6 ≠ [76, 75, 66, 51, 3, 0]
      ∨ (payload.drop 8).take 4 ≠ [0, 0, 0, 0] ∨ count = 0 ∨ maxBoundaryTensors < count then none
  else some count

def decodeBundle (limit : Option ℕ) (payload : Bytes) : Except Fault BoundaryBundle :=
  match readHeader payload with
  | none => .error .refused
  | some count => readTensors limit payload count 0 12

def decodeBoundaryBundle : Bytes → Except Fault BoundaryBundle := decodeBundle (some maxFrameBytes)

def decodeBoundary : Bytes → Except Fault BoundaryBundle := decodeBundle none

/-- The bytes a tensor is set from, in `set_boundary` and in the loop over the
terminals: an alias borrows those of the tensor it points to. -/
def BoundaryBundle.source (b : BoundaryBundle) (t : BoundaryTensor) : Bytes :=
  if t.desc.isAlias then ((b[t.desc.target]?).map BoundaryTensor.data).getD [] else t.data

/-! ### One tensor there and back -/

theorem BoundaryTensor.length_bytes (t : BoundaryTensor) :
    t.bytes.length = descBytes + t.data.length := by
  have hfield : (t.desc.withName t.desc.name.field).name.length = 64 := CName.length_field _
  rw [BoundaryTensor.bytes, List.length_append, Desc.length_bytes hfield]

theorem length_bundleBytes (b : BoundaryBundle) : (bundleBytes b).length = bundleTotal b := by
  simp [bundleBytes, bundleHeader, bundleTotal, List.length_flatMap, BoundaryTensor.length_bytes]
  omega

/-- What a tensor must be at index `i` for a reader to give it back. -/
structure BoundaryTensor.Crosses (limit : Option ℕ) (i : ℕ) (t : BoundaryTensor) : Prop where
  credible : t.desc.credible i
  within : t.desc.within limit
  data : t.data.length = t.desc.dataBytes

variable {limit : Option ℕ} {payload : Bytes} {offset : ℕ}

theorem readTensor_bytes {rest : Bytes} {i : ℕ}
    {t : BoundaryTensor} (ht : t.Crosses limit i) (hat : payload.drop offset = t.bytes ++ rest)
    (hsmall : payload.length < 2 ^ 64) :
    readTensor limit payload i offset = .ok (t, offset + t.bytes.length) := by
  have hlen : t.bytes.length ≤ payload.length - offset := by
    have := congrArg List.length hat
    simp only [List.length_drop, List.length_append] at this
    omega
  have hsize := t.length_bytes
  rw [ht.data] at hsize
  have hpos : 0 < descBytes := by decide
  have hread : Desc.read (payload.drop offset) = t.desc.withName t.desc.name.field := by
    rw [hat, BoundaryTensor.bytes, List.append_assoc]
    exact Desc.read_append (CName.length_field _) _
  have hdata : (payload.drop (offset + descBytes)).take t.desc.dataBytes = t.data := by
    rw [← List.drop_drop, hat, BoundaryTensor.bytes, List.append_assoc,
      List.drop_left' (Desc.length_bytes (CName.length_field _)), List.take_left' ht.data]
  have hok : (Desc.read (payload.drop offset)).credible i
      ∧ (Desc.read (payload.drop offset)).within limit := by
    rw [hread]
    exact ⟨ht.credible, ht.within⟩
  have hbytes : (Desc.read (payload.drop offset)).dataBytes = t.desc.dataBytes := by rw [hread]; rfl
  have hname : cString (Desc.read (payload.drop offset)).name = some t.desc.name := by
    rw [hread]
    exact cString_field _
  have hback : (Desc.read (payload.drop offset)).withName t.desc.name = t.desc := by
    rw [hread]
    rfl
  simp only [readTensor, hok, hbytes, hname, hback, hdata, hsize]
  rw [if_neg (by omega), if_neg (by simp), if_neg (by omega), if_neg (by omega), Nat.add_assoc]

theorem readTensor_eq_ok {i next : ℕ}
    {t : BoundaryTensor} (h : readTensor limit payload i offset = .ok (t, next)) :
    t.Crosses limit i ∧ next = offset + descBytes + t.desc.dataBytes := by
  unfold readTensor at h
  dsimp only at h
  split_ifs at h with hshort hbad hwrap hpast
  split at h
  · cases h
  · obtain ⟨rfl, rfl⟩ := Prod.mk.inj (Except.ok.inj h)
    refine ⟨⟨hbad.1, hbad.2, ?_⟩, rfl⟩
    have hfits : (Desc.read (payload.drop offset)).dataBytes
        ≤ (payload.drop (offset + descBytes)).length := by
      rw [List.length_drop]
      omega
    exact List.length_take_of_le hfits

/-! ### Bundles there and back -/

variable {b : BoundaryBundle}

theorem readTensors_bytes (hsmall : payload.length < 2 ^ 64)
    {i : ℕ}
    (hb : ∀ (k : ℕ) (t : BoundaryTensor), b[k]? = some t → t.Crosses limit (i + k))
    (hat : payload.drop offset = b.flatMap BoundaryTensor.bytes) (hle : offset ≤ payload.length) :
    readTensors limit payload b.length i offset = .ok b := by
  induction b generalizing i offset with
  | nil =>
    have hend : payload.length ≤ offset := List.drop_eq_nil_iff.mp hat
    have heq : offset = payload.length := by omega
    simp only [List.length_nil, readTensors, heq, if_true]
  | cons t b ih =>
    have hlen : payload.length - offset = t.bytes.length + (b.flatMap BoundaryTensor.bytes).length := by
      rw [← List.length_drop, hat, List.flatMap_cons, List.length_append]
    have hfirst := readTensor_bytes (hb 0 t rfl) hat hsmall
    have htail : ∀ (k : ℕ) (s : BoundaryTensor), b[k]? = some s → s.Crosses limit (i + 1 + k) := by
      intro k s hs
      have hcross := hb (k + 1) s hs
      rwa [← Nat.add_assoc, Nat.add_right_comm] at hcross
    have hnext : payload.drop (offset + t.bytes.length) = b.flatMap BoundaryTensor.bytes := by
      rw [← List.drop_drop, hat, List.flatMap_cons, List.drop_left]
    have hrest := ih htail hnext (by omega)
    simp only [List.length_cons, readTensors]
    rw [Nat.add_zero] at hfirst
    rw [hfirst]
    show (readTensors limit payload b.length (i + 1) _ >>= _) = _
    rw [hrest]
    rfl

theorem readTensors_eq_ok {n i : ℕ}
    (h : readTensors limit payload n i offset = .ok b) :
    b.length = n ∧ ∀ (k : ℕ) (t : BoundaryTensor), b[k]? = some t → t.Crosses limit (i + k) := by
  induction n generalizing i offset b with
  | zero =>
    simp only [readTensors] at h
    split_ifs at h
    cases h
    exact ⟨rfl, fun k t hk => by simp at hk⟩
  | succ n ih =>
    obtain ⟨⟨t, next⟩, hfirst, h⟩ := except_bind_eq_ok.mp h
    obtain ⟨rest, hrest, h⟩ := except_bind_eq_ok.mp h
    cases h
    obtain ⟨hlen, hall⟩ := ih hrest
    refine ⟨congrArg Nat.succ hlen, fun k s hk => ?_⟩
    cases k with
    | zero =>
      cases hk
      exact (readTensor_eq_ok hfirst).1
    | succ k =>
      have hcross := hall k s hk
      rwa [Nat.add_right_comm] at hcross

theorem readHeader_bundleHeader {count : ℕ} (hpos : 0 < count) (hmax : count ≤ maxBoundaryTensors)
    (rest : Bytes) : readHeader (bundleHeader count ++ rest) = some count := by
  have hlt : count < 256 ^ 2 := by
    unfold maxBoundaryTensors at hmax
    omega
  have hcount : leValue (leBytes 2 count) = count := leValue_leBytes hlt
  have htake : (leBytes 2 count ++ ([0, 0, 0, 0] ++ rest)).take 2 = leBytes 2 count :=
    List.take_left' (length_leBytes 2 count)
  have hdrop : (leBytes 2 count ++ ([0, 0, 0, 0] ++ rest)).drop 2 = [0, 0, 0, 0] ++ rest :=
    List.drop_left' (length_leBytes 2 count)
  simp only [readHeader, bundleHeader, List.append_assoc]
  have hsix : ([76, 75, 66, 51, 3, 0] ++ (leBytes 2 count ++ ([0, 0, 0, 0] ++ rest))).drop 6
      = leBytes 2 count ++ ([0, 0, 0, 0] ++ rest) := rfl
  have height : ([76, 75, 66, 51, 3, 0] ++ (leBytes 2 count ++ ([0, 0, 0, 0] ++ rest))).drop 8
      = [0, 0, 0, 0] ++ rest := by
    rw [show (8 : ℕ) = 6 + 2 from rfl, ← List.drop_drop, hsix, hdrop]
  rw [hsix, htake, hcount, height, if_neg]
  simp
  omega

theorem decodeBundle_bytes (hne : b ≠ [])
    (hmax : b.length ≤ maxBoundaryTensors) (htotal : bundleTotal b ≤ maxFrameBytes)
    (hb : ∀ (i : ℕ) (t : BoundaryTensor), b[i]? = some t → t.Crosses limit i) :
    decodeBundle limit (bundleBytes b) = .ok b := by
  have hsmall : (bundleBytes b).length < 2 ^ 64 := by
    rw [length_bundleBytes]
    unfold maxFrameBytes at htotal
    omega
  have hheader : (bundleHeader b.length).length = 12 := by simp [bundleHeader]
  have hread := readHeader_bundleHeader (List.length_pos_of_ne_nil hne) hmax
    (b.flatMap BoundaryTensor.bytes)
  rw [decodeBundle, bundleBytes, hread]
  apply readTensors_bytes hsmall
  · intro k t hk
    simpa using hb k t hk
  · exact List.drop_left' hheader
  · rw [← hheader, bundleBytes, List.length_append]
    omega

theorem decodeBundle_eq_ok
    (h : decodeBundle limit payload = .ok b) :
    b ≠ [] ∧ b.length ≤ maxBoundaryTensors ∧ ∀ (i : ℕ) (t : BoundaryTensor), b[i]? = some t → t.Crosses limit i := by
  unfold decodeBundle at h
  split at h
  · cases h
  · rename_i count hheader
    obtain ⟨hlen, hall⟩ := readTensors_eq_ok h
    simp only [readHeader] at hheader
    split_ifs at hheader with hbad
    obtain rfl := Option.some.inj hheader
    simp only [not_or, Nat.not_lt] at hbad
    refine ⟨?_, by omega, fun i t hi => by simpa using hall i t hi⟩
    rintro rfl
    exact hbad.2.2.2.1 hlen.symm

end KvasirNet.Ring
