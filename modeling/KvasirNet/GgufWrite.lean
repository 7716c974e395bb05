import KvasirNet.GgufFormat

/-! Writing a GGUF header, as the shard server does: strings, 32-bit and 64-bit
metadata, then the tensor directory. What is written is read back. -/
namespace KvasirNet.Gguf

/-- A metadata value that `_kv` has a writer for. -/
inductive Field
  | str (s : String)
  | u32 (n : ℕ)
  | u64 (n : ℕ)
  deriving DecidableEq, Repr

def Field.type : Field → ℕ
  | str _ => 8
  | u32 _ => 4
  | u64 _ => 10

def Field.value : Field → Value
  | str s => .str s
  | u32 n => .int n
  | u64 n => .int n

/-- `_gstr`. -/
def gstr (text : String) : Bytes := leBytes 8 (utf8 text).length ++ utf8 text

def Field.bytes : Field → Bytes
  | str s => gstr s
  | u32 n => leBytes 4 n
  | u64 n => leBytes 8 n

/-- `_kv`. -/
def kv (e : String × Field) : Bytes := gstr e.1 ++ (leBytes 4 e.2.type ++ e.2.bytes)

def info (t : RawTensor) : Bytes :=
  gstr t.name ++ (leBytes 4 t.dims.length ++ (t.dims.flatMap (leBytes 8) ++
    (leBytes 4 t.type ++ leBytes 8 t.offset)))

def headerBytes (entries : List (String × Field)) (infos : List RawTensor) : Bytes :=
  magic ++ (leBytes 4 3 ++ (leBytes 8 infos.length ++ (leBytes 8 entries.length ++
    (entries.flatMap kv ++ infos.flatMap info))))

/-! ## Reading back -/

/-- An integer that is written in eight bytes and held as it is. -/
def Integers.Holds (k : Integers) (n : ℕ) : Prop := n < 256 ^ 8 ∧ k.u64 n = .ok n

/-- A field that fits its type and whose 64-bit parts the reader holds. -/
def Field.Fits (k : Integers) : Field → Prop
  | str s => k.Holds (utf8 s).length
  | u32 n => n < 256 ^ 4
  | u64 n => k.Holds n

structure RawTensor.Fits (k : Integers) (t : RawTensor) : Prop where
  name : k.Holds (utf8 t.name).length
  nDims : t.dims.length < 256 ^ 4
  dims : ∀ d ∈ t.dims, k.Holds d
  type : t.type < 256 ^ 4
  offset : k.Holds t.offset

section
variable {k : Integers}

theorem take_leBytes (width n : ℕ) (rest : Bytes) :
    Reader.take Fault.short width (leBytes width n ++ rest) = .ok (leBytes width n, rest) := by
  have htake := Reader.take_append Fault.short (leBytes width n) rest
  rwa [length_leBytes] at htake

theorem uint_append {width n : ℕ} (h : n < 256 ^ width) (rest : Bytes) :
    uint width (leBytes width n ++ rest) = .ok (n, rest) := by
  rw [uint, Reader.bind_of_ok (take_leBytes width n rest), Reader.pure_apply, leValue_leBytes h]

theorem u64_append {n : ℕ} (h : k.Holds n) (rest : Bytes) :
    u64 k (leBytes 8 n ++ rest) = .ok (n, rest) := by
  rw [u64, Reader.bind_of_ok (uint_append h.1 rest), h.2]
  rfl

theorem str_append {s : String} (h : k.Holds (utf8 s).length) (rest : Bytes) :
    str k (gstr s ++ rest) = .ok (s, rest) := by
  rw [str, gstr, List.append_assoc, Reader.bind_of_ok (u64_append h _),
    Reader.bind_of_ok (Reader.take_append _ _ _), Reader.pure_apply, ofUtf8_utf8]

theorem value_append {f : Field} (h : f.Fits k) (fuel : ℕ) (rest : Bytes) :
    value k fuel f.type (f.bytes ++ rest) = .ok (f.value, rest) := by
  have hscalar : value k fuel f.type = scalar k f.type := by
    have hne : f.type ≠ 9 := by cases f <;> simp [Field.type]
    cases fuel with
    | zero => rw [value, if_neg hne]
    | succ fuel => rw [value, if_neg hne]
  rw [hscalar]
  cases f with
  | str s => exact Reader.bind_of_ok (str_append h rest)
  | u32 n => exact Reader.bind_of_ok (uint_append h rest)
  | u64 n => exact Reader.bind_of_ok (u64_append h rest)

theorem entry_append {e : String × Field} (hkey : k.Holds (utf8 e.1).length) (h : e.2.Fits k)
    (fuel : ℕ) (rest : Bytes) : entry k fuel (kv e ++ rest) = .ok ((e.1, e.2.value), rest) := by
  have htype : e.2.type < 256 ^ 4 := by
    cases e.2 with
    | str _ | u32 _ | u64 _ => simp [Field.type]
  rw [entry, kv, List.append_assoc, List.append_assoc, Reader.bind_of_ok (str_append hkey _),
    Reader.bind_of_ok (uint_append htype _), Reader.bind_of_ok (value_append h fuel rest),
    Reader.pure_apply]

theorem tensor_append {t : RawTensor} (h : t.Fits k) (rest : Bytes) :
    tensor k (info t ++ rest) = .ok (t, rest) := by
  have hdims : ∀ rest, Reader.many (u64 k) t.dims.length (t.dims.flatMap (leBytes 8) ++ rest) =
      .ok (t.dims, rest) := by
    intro rest
    have hone : ∀ d ∈ t.dims, ∀ rest, u64 k (leBytes 8 d ++ rest) = .ok (id d, rest) := by
      intro d hd rest
      exact u64_append (h.dims d hd) rest
    have hmany := Reader.many_append hone rest
    rwa [List.map_id] at hmany
  simp only [tensor, info, List.append_assoc]
  rw [Reader.bind_of_ok (str_append h.name _), Reader.bind_of_ok (uint_append h.nDims _),
    Reader.bind_of_ok (hdims _), Reader.bind_of_ok (uint_append h.type _),
    Reader.bind_of_ok (u64_append h.offset _), Reader.pure_apply]

theorem readHeader_headerBytes {entries : List (String × Field)} {infos : List RawTensor}
    (hentries : ∀ e ∈ entries, k.Holds (utf8 e.1).length ∧ e.2.Fits k)
    (hinfos : ∀ t ∈ infos, t.Fits k) (hcount : k.Holds entries.length)
    (htensors : k.Holds infos.length) (rest : Bytes) :
    readHeader k (headerBytes entries infos ++ rest) =
      .ok ⟨3, entries.map fun e => (e.1, e.2.value), infos, (headerBytes entries infos).length⟩ := by
  have hmeta : ∀ fuel rest, Reader.many (entry k fuel) entries.length (entries.flatMap kv ++ rest) =
      .ok (entries.map fun e => (e.1, e.2.value), rest) := by
    intro fuel rest
    apply Reader.many_append
    intro e he rest
    exact entry_append (hentries e he).1 (hentries e he).2 fuel rest
  have hdir : ∀ rest, Reader.many (tensor k) infos.length (infos.flatMap info ++ rest) =
      .ok (infos, rest) := by
    intro rest
    have hone : ∀ t ∈ infos, ∀ rest, tensor k (info t ++ rest) = .ok (id t, rest) := by
      intro t ht rest
      exact tensor_append (hinfos t ht) rest
    have hmany := Reader.many_append hone rest
    rwa [List.map_id] at hmany
  have hread : ∀ fuel, directory k fuel (headerBytes entries infos ++ rest) =
      .ok ((3, entries.map fun e => (e.1, e.2.value), infos), rest) := by
    intro fuel
    have hmagic : ∀ rest, Reader.take Fault.short 4 (magic ++ rest) = .ok (magic, rest) := fun _ => rfl
    simp only [directory, headerBytes, List.append_assoc]
    rw [Reader.bind_of_ok (hmagic _), if_pos rfl,
      Reader.bind_of_ok (uint_append (by decide) _), Reader.bind_of_ok (u64_append htensors _),
      Reader.bind_of_ok (u64_append hcount _), Reader.bind_of_ok (hmeta fuel _),
      Reader.bind_of_ok (hdir _), Reader.pure_apply]
  rw [readHeader, hread]
  dsimp only
  rw [List.length_append, Nat.add_sub_cancel]

end

end KvasirNet.Gguf
