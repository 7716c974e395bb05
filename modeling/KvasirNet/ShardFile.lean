import KvasirNet.GgufAgreement
import KvasirNet.ShardServer

/-! A served shard, read back: its header parses, its tensors lie apart at aligned
offsets, and their data are the experts that were asked for. -/
namespace KvasirNet.Shard
open Gguf

/-! ## Alignment -/

theorem alignUp_32 (n : ℤ) :
    n ≤ alignUp n ggufAlignment ∧ alignUp n ggufAlignment < n + 32 ∧ 32 ∣ alignUp n ggufAlignment := by
  have hdiv : alignUp n ggufAlignment = -(-n / 32) * 32 := by
    rw [alignUp, ggufAlignment, Int.fdiv_eq_ediv_of_nonneg _ (by decide)]
  rw [hdiv]
  omega

theorem length_zeros {n : ℤ} (h : 0 ≤ n) : ((zeros n).length : ℤ) = n := by
  rw [zeros, List.length_replicate, Int.toNat_of_nonneg h]

theorem length_padded (header : Bytes) :
    ((padded header).length : ℤ) = alignUp header.length ggufAlignment := by
  have hpad : 0 ≤ -(header.length : ℤ) % ggufAlignment := Int.emod_nonneg _ (by decide)
  rw [padded, List.length_append, Nat.cast_add, length_zeros hpad, alignUp, ggufAlignment,
    Int.fdiv_eq_ediv_of_nonneg _ (by decide)]
  omega

/-! ## Reading the file -/

theorem copyChunks_eq (file : Bytes) (pos left : ℕ) (h : pos + left ≤ file.length) :
    copyChunks file pos left = ((file.drop pos).take left, true) := by
  induction left using Nat.strongRecOn generalizing pos with
  | ind left ih =>
    rw [copyChunks]
    by_cases hleft : left = 0
    · rw [dif_pos hleft, hleft, List.take_zero]
    · have hlen : ((file.drop pos).take (min (2 ^ 20) left)).length = min (2 ^ 20) left := by
        rw [List.length_take, List.length_drop]
        omega
      have hne : (file.drop pos).take (min (2 ^ 20) left) ≠ [] := by
        apply List.length_pos_iff.mp
        omega
      rw [dif_neg hleft]
      dsimp only
      rw [dif_neg hne, hlen, ih _ (by omega) _ (by omega), ← List.drop_drop, ← List.take_add]
      congr 2
      omega

/-! ## Placing and streaming -/

theorem place_part (offset : ℤ) (parts : List Part) : (place offset parts).map Placed.part = parts := by
  induction parts generalizing offset with
  | nil => rfl
  | cons p ps ih => rw [place, List.map_cons, ih]

variable {parts : List Part}

theorem place_apart (hbytes : ∀ p ∈ parts, 0 ≤ p.bytes) {offset : ℤ}
    (haligned : 32 ∣ offset) :
    (∀ p ∈ place offset parts, offset ≤ p.dataOffset ∧ 32 ∣ p.dataOffset) ∧
    (place offset parts).Pairwise fun p q => p.dataOffset + p.part.bytes ≤ q.dataOffset := by
  induction parts generalizing offset with
  | nil => exact ⟨fun p hp => absurd hp List.not_mem_nil, List.Pairwise.nil⟩
  | cons p ps ih =>
    obtain ⟨hge, -, hdvd⟩ := alignUp_32 (offset + p.bytes)
    have hp : 0 ≤ p.bytes := hbytes p List.mem_cons_self
    obtain ⟨hrest, hpair⟩ := ih (fun q hq => hbytes q (List.mem_cons_of_mem p hq)) hdvd
    constructor
    · intro q hq
      rcases List.mem_cons.mp hq with rfl | hq
      · exact ⟨le_rfl, haligned⟩
      · have hafter := (hrest q hq).1
        exact ⟨by omega, (hrest q hq).2⟩
    · apply List.pairwise_cons.mpr
      refine ⟨fun q hq => ?_, hpair⟩
      exact hge.trans (hrest q hq).1

structure Part.Stored (file : Bytes) (p : Part) : Prop where
  start : 0 ≤ p.start
  bytes : 0 ≤ p.bytes
  inside : p.start + p.bytes ≤ file.length

/-- The bytes of the file that a part stands for. -/
def Part.data (file : Bytes) (p : Part) : Bytes := (file.drop p.start.toNat).take p.bytes.toNat

theorem Part.Stored.length_data {file : Bytes} {p : Part} (h : p.Stored file) :
    ((p.data file).length : ℤ) = p.bytes := by
  have hstart := h.start
  have hbytes := h.bytes
  have hinside := h.inside
  rw [Part.data, List.length_take, List.length_drop]
  omega

theorem drop_append_of_length {α : Type*} {xs : List α} {n : ℕ} (h : xs.length = n) (k : ℕ) (ys : List α) :
    (xs ++ ys).drop (n + k) = ys.drop k := by
  rw [← h, List.drop_append, List.drop_eq_nil_of_le (by omega), List.nil_append]
  congr 1
  omega

theorem streamParts_place {file : Bytes} (hfile : (file.length : ℤ) < 2 ^ 63)
    (hstored : ∀ p ∈ parts, p.Stored file) {written offset : ℤ} (hwritten : written ≤ offset) :
    ∃ out last, streamParts file written (place offset parts) = (out, some last) ∧
      written + out.length = last ∧
      (∀ body, written ≤ body → last ≤ (place offset parts).foldl (fun _ p => p.stop) body) ∧
      ∀ p ∈ place offset parts, ∀ tail,
        ((out ++ tail).drop (p.dataOffset - written).toNat).take p.part.bytes.toNat = p.part.data file := by
  induction parts generalizing written offset with
  | nil =>
    refine ⟨[], written, rfl, by simp, fun body h => h, fun p hp => absurd hp List.not_mem_nil⟩
  | cons p ps ih =>
    have hp := hstored p List.mem_cons_self
    have hps : ∀ q ∈ ps, q.Stored file := fun q hq => hstored q (List.mem_cons_of_mem p hq)
    have hpbytes := hp.bytes
    have hge : offset + p.bytes ≤ Placed.stop ⟨p, offset⟩ := (alignUp_32 (offset + p.bytes)).1
    obtain ⟨out, last, hrun, hlast, hbody, hdata⟩ := ih hps hge
    have hcopy : copyChunks file p.start.toNat p.bytes.toNat = (p.data file, true) := by
      apply copyChunks_eq
      have hstart := hp.start
      have hinside := hp.inside
      omega
    have hseek : 0 ≤ p.start ∧ p.start < 2 ^ 63 := by
      have hinside := hp.inside
      exact ⟨hp.start, by omega⟩
    have hgap : ((zeros (offset - written)).length : ℤ) = offset - written := length_zeros (by omega)
    have hlen := hp.length_data
    refine ⟨zeros (offset - written) ++ p.data file ++ out, last, ?_, ?_, ?_, ?_⟩
    · rw [place, streamParts]
      dsimp only
      rw [if_pos hseek, hcopy, if_pos rfl, max_eq_right hwritten, hrun]
    · rw [List.length_append, List.length_append]
      push_cast
      omega
    · intro body _
      exact hbody _ hge
    · intro q hq tail
      rcases List.mem_cons.mp hq with rfl | hq
      · have hzero : (offset - written).toNat = (zeros (offset - written)).length := by omega
        dsimp only
        rw [hzero, List.append_assoc, List.append_assoc, List.drop_left]
        apply List.take_left'
        omega
      · -- what comes before the later parts is the gap and this part
        have hafter := (place_apart (fun r hr => (hps r hr).bytes)
          (alignUp_32 (offset + p.bytes)).2.2).1 q hq
        have hfront : (zeros (offset - written) ++ p.data file).length = (offset + p.bytes - written).toNat := by
          rw [List.length_append]
          omega
        have hsplit : (q.dataOffset - written).toNat =
            (offset + p.bytes - written).toNat + (q.dataOffset - (offset + p.bytes)).toNat := by
          have hge' : offset + p.bytes ≤ q.dataOffset := hge.trans hafter.1
          omega
        rw [List.append_assoc, hsplit, drop_append_of_length hfront]
        exact hdata q hq tail

/-! ## Experts -/

def expertBytes (file : Bytes) (t : ModelSlice) (e : ℤ) : Bytes :=
  (file.drop (t.offset + e * whole t.perExpert).toNat).take (whole t.perExpert).toNat

/-- The bytes of the experts from `beg` to `stop`. -/
def expertsBytes (file : Bytes) (t : ModelSlice) (beg stop : ℤ) : Bytes :=
  (List.range (stop - beg).toNat).flatMap fun (i : ℕ) => expertBytes file t (beg + i)

/-- Windows that follow one another from `a` to `b`. -/
def Tiles : ℤ → List (ℤ × ℤ) → ℤ → Prop
  | a, [], b => a = b
  | a, w :: ws, b => w.1 = a ∧ w.1 < w.2 ∧ Tiles w.2 ws b

theorem Tiles.le {a b : ℤ} {ws : List (ℤ × ℤ)} (h : Tiles a ws b) : a ≤ b := by
  induction ws generalizing a with
  | nil => exact le_of_eq h
  | cons w ws ih =>
    obtain ⟨rfl, hlt, hrest⟩ := h
    exact hlt.le.trans (ih hrest)

theorem expertsBytes_append (file : Bytes) (t : ModelSlice) {a b c : ℤ} (hab : a ≤ b) (hbc : b ≤ c) :
    expertsBytes file t a b ++ expertsBytes file t b c = expertsBytes file t a c := by
  have hcount : (c - a).toNat = (b - a).toNat + (c - b).toNat := by omega
  rw [expertsBytes, expertsBytes, expertsBytes, hcount, List.range_add, List.flatMap_append,
    List.flatMap_map]
  congr 2
  funext i
  congr 1
  omega

theorem flatMap_tiles (file : Bytes) (t : ModelSlice) {a b : ℤ} {ws : List (ℤ × ℤ)} (h : Tiles a ws b) :
    (ws.flatMap fun w => expertsBytes file t w.1 w.2) = expertsBytes file t a b := by
  induction ws generalizing a with
  | nil =>
    have hsame : a = b := h
    rw [List.flatMap_nil, hsame, expertsBytes, sub_self]
    rfl
  | cons w ws ih =>
    obtain ⟨rfl, hlt, hrest⟩ := h
    rw [List.flatMap_cons, ih hrest]
    exact expertsBytes_append file t hlt.le hrest.le

variable {t : ModelSlice}

theorem expertsBytes_eq (file : Bytes) {per : ℕ} (hper : whole t.perExpert = per)
    (hoffset : 0 ≤ t.offset) {beg : ℤ} (hbeg : 0 ≤ beg) (stop : ℤ) :
    expertsBytes file t beg stop =
      (file.drop (t.offset + beg * per).toNat).take ((stop - beg).toNat * per) := by
  rw [expertsBytes]
  generalize (stop - beg).toNat = n
  have hplace : ∀ e : ℕ, (t.offset + (beg + e) * per).toNat = (t.offset + beg * per).toNat + e * per := by
    intro e
    have hfirst : 0 ≤ beg * (per : ℤ) := mul_nonneg hbeg (Int.natCast_nonneg per)
    have hmore : (beg + e) * (per : ℤ) = beg * per + ((e * per : ℕ) : ℤ) := by
      push_cast
      ring
    rw [hmore]
    omega
  induction n with
  | zero => simp
  | succ n ih =>
    rw [List.range_succ, List.flatMap_append, ih, List.flatMap_singleton, expertBytes, hper, hplace,
      Int.toNat_natCast, ← List.drop_drop, ← List.take_add, ← Nat.succ_mul]

/-! ## A loaded model -/

/-- What a model keeps of a tensor with `n` experts of `per` bytes. -/
structure Divided (m : Model) (t : ModelSlice) (n per : ℕ) : Prop where
  count : m.nExpert.amount = .fin n
  small : n < 2 ^ 32
  pos : 0 < n
  offset : 0 ≤ t.offset
  perExpert : t.perExpert = .ofNat per
  last : t.dims.getLast? = some n
  bytes : ∀ name offset, modelTensorBytes ⟨name, t.dims, t.type, offset⟩ = some (n * per)
  nDims : t.dims.length < 256 ^ 4
  dims : ∀ d ∈ t.dims, d < 256 ^ 8
  type : t.type < 256 ^ 4

variable {m : Model}

theorem Divided.whole_eq {n per : ℕ} (h : Divided m t n per) :
    whole t.perExpert = per := by
  rw [h.perExpert, Num.ofNat, whole]
  exact Int.floor_natCast per

theorem packed_count {v : Value} (hpack : (packU32 v).isSome = true) (htruthy : v.pyTruthy = true)
    {last total : ℕ} {size : Num} (hequals : equalsNat last v = true)
    (hsize : perExpert total v = some size) :
    v.amount = .fin last ∧ last < 2 ^ 32 ∧ 0 < last ∧ ∃ per, size = .ofNat per ∧ total = last * per := by
  cases v with
  | int n =>
    have hn : n = last := by simpa [equalsNat] using hequals
    subst hn
    have hne : last ≠ 0 := by simpa [Value.pyTruthy] using htruthy
    have hlt : last < 2 ^ 32 := by
      unfold packU32 at hpack
      dsimp only at hpack
      split_ifs at hpack with hfit
      · exact_mod_cast hfit.2
      · cases hpack
    rw [perExpert_int] at hsize
    split_ifs at hsize with hmod
    refine ⟨by simp [Value.amount], hlt, Nat.pos_of_ne_zero hne, total / last,
      (Option.some.inj hsize).symm, ?_⟩
    exact (Nat.mul_div_cancel' (Nat.dvd_of_mod_eq_zero hmod)).symm
  | bool b =>
    cases b with
    | false => cases htruthy
    | true =>
      have hlast : last = 1 := by
        have hone : 1 = last := by simpa [equalsNat] using hequals
        exact hone.symm
      subst hlast
      refine ⟨by simp [Value.amount], by decide, by decide, total, ?_, (Nat.one_mul total).symm⟩
      exact (Option.some.inj hsize).symm
  | float x => cases hpack
  | str s => cases hpack
  | list xs => cases hpack

theorem modelTensorBytes_congr {t u : RawTensor} (hdims : t.dims = u.dims) (htype : t.type = u.type) :
    modelTensorBytes t = modelTensorBytes u := by
  rw [modelTensorBytes, modelTensorBytes, hdims, htype]

theorem summarise_eq_some {m' : Model} (h : summarise m = some m') :
    m'.arch = m.arch ∧ m'.nExpert = m.nExpert ∧ m'.slice = m.slice ∧
      ∀ layer ∈ m'.expertLayers, isComplete m'.slice layer = true := by
  unfold summarise at h
  obtain ⟨first, -, h⟩ := Option.bind_eq_some_iff.mp h
  cases h
  refine ⟨rfl, rfl, rfl, fun layer hlayer => ?_⟩
  exact (List.mem_filter.mp (List.mem_mergeSort.mp hlayer)).2

theorem modelDataStart_nonneg {h : Header} {ds : ℤ} (hds : h.modelDataStart = some ds) : 0 ≤ ds := by
  unfold Header.modelDataStart at hds
  obtain ⟨a, -, hds⟩ := Option.bind_eq_some_iff.mp hds
  split_ifs at hds with hzero hseek
  rw [← Option.some.inj hds]
  exact (alignUp_bounds (Int.natCast_nonneg _) hzero).1

theorem loadModel_divided {spell : Value → String} {file : Bytes}
    (hload : loadModel spell file = some m) (hpack : (packU32 m.nExpert).isSome = true) :
    (∀ layer ∈ m.expertLayers, isComplete m.slice layer = true) ∧
    ∀ key t, lastAt m.slice key = some t → ∃ n per, Divided m t n per := by
  unfold loadModel at hload
  cases hread : readHeader unbounded file with
  | error e =>
    rw [hread] at hload
    cases hload
  | ok h =>
    rw [hread] at hload
    dsimp only at hload
    unfold modelOf at hload
    obtain ⟨ds, hds, hload⟩ := Option.bind_eq_some_iff.mp hload
    obtain ⟨v, -, hload⟩ := Option.bind_eq_some_iff.mp hload
    split_ifs at hload with htruthy
    obtain ⟨slice, hslice, hload⟩ := Option.bind_eq_some_iff.mp hload
    obtain ⟨-, hcount, hkept, hcomplete⟩ := summarise_eq_some hload
    dsimp only at hcount hkept
    refine ⟨hcomplete, fun key t ht => ?_⟩
    rw [hkept] at ht
    rw [hcount] at hpack
    obtain ⟨e, he, hone⟩ := mem_of_mapM hslice (lastAt_mem ht)
    have hraw := readHeader_sized hread e.1 (mem_experts.mp he).1
    unfold modelTensor at hone
    obtain ⟨layer, -, hone⟩ := Option.bind_eq_some_iff.mp hone
    obtain ⟨last, hlast, hone⟩ := Option.bind_eq_some_iff.mp hone
    split_ifs at hone with hequals
    obtain ⟨total, htotal, hone⟩ := Option.bind_eq_some_iff.mp hone
    obtain ⟨size, hsize, hone⟩ := Option.bind_eq_some_iff.mp hone
    obtain ⟨-, rfl⟩ := Prod.mk.inj (Option.some.inj hone)
    obtain ⟨hamount, hsmall, hpos, per, rfl, rfl⟩ := packed_count hpack htruthy hequals hsize
    refine ⟨last, per, {
      count := by rw [hcount, hamount]
      small := hsmall
      pos := hpos
      offset := add_nonneg (modelDataStart_nonneg hds) (Int.natCast_nonneg _)
      perExpert := rfl
      last := hlast
      bytes := fun name offset => (modelTensorBytes_congr rfl rfl).trans htotal
      nDims := hraw.nDims
      dims := hraw.dims
      type := hraw.type }⟩

/-! ## What a shard says of itself -/

theorem length_utf8_append (a b : String) : (utf8 (a ++ b)).length = (utf8 a).length + (utf8 b).length := by
  simp [utf8]

theorem append_ne {arch suffix key : String} (h : ¬ suffix.toList <:+ key.toList) : arch ++ suffix ≠ key := by
  intro heq
  apply h
  rw [← heq, String.toList_append]
  exact List.suffix_append _ _

theorem packU32_fits {v : Value} {f : Field} (h : packU32 v = some f) (k : Integers) : f.Fits k := by
  cases v with
  | int n =>
    unfold packU32 at h
    dsimp only at h
    split_ifs at h with hfit
    obtain rfl := Option.some.inj h
    have hlt : n.toNat < 2 ^ 32 := by omega
    exact hlt
  | bool b =>
    obtain rfl := Option.some.inj h
    cases b with
    | false => exact (by decide : 0 < 256 ^ 4)
    | true => exact (by decide : 1 < 256 ^ 4)
  | float x => cases h
  | str s => cases h
  | list xs => cases h

theorem packU32_int {n : ℤ} (h0 : 0 ≤ n) (h : n < 2 ^ 32) : packU32 (.int n) = some (.u32 n.toNat) := by
  unfold packU32
  dsimp only
  rw [if_pos ⟨h0, h⟩]

/-- A model of which the shard header can tell: what goes into 32 bits is there
and fits, the architecture is text, and an expert is whole blocks. -/
structure Describable (m : Loaded) (layer : ℤ) : Prop where
  held : layer ∈ m.model.expertLayers
  low : 0 ≤ layer
  high : layer < 2 ^ 32
  arch : ∃ s, m.model.arch = some (.str s) ∧ (utf8 s).length < 2 ^ 63
  id : (utf8 m.id).length < 2 ^ 63
  digest : (utf8 m.digest).length < 2 ^ 63
  nExpert : (packU32 m.model.nExpert).isSome = true
  nEmbd : (m.model.nEmbd.bind packU32).isSome = true
  nFfExpert : (m.model.nFfExpert.bind packU32).isSome = true
  nLayer : (m.model.nLayer.bind packU32).isSome = true
  blocks : ∀ w t, lastAt m.model.slice (layer, w) = some t →
    (modelTensorBytes ⟨"", t.dims.dropLast, t.type, 0⟩).isSome = true
  size : m.file.length ≤ 2 ^ 63 - 32

theorem unbounded_holds {n : ℕ} (h : n < 2 ^ 64) : unbounded.Holds n := ⟨h, rfl⟩

theorem embedding_key (arch : String) :
    (if arch = "step35" then "step35.embedding_length" else arch ++ ".embedding_length") =
      arch ++ ".embedding_length" := by
  split_ifs with h
  · rw [h]
    rfl
  · rfl

theorem entries_fit {arch id digest : String} (harch : (utf8 arch).length < 2 ^ 63)
    (hid : (utf8 id).length < 2 ^ 63) (hdigest : (utf8 digest).length < 2 ^ 63)
    {layer beg stop nExpert nEmbd nFf nLayer : Field}
    (hfields : ∀ f ∈ [layer, beg, stop, nExpert, nEmbd, nFf, nLayer], f.Fits unbounded) :
    ∀ e ∈ entries arch id digest layer beg stop nExpert nEmbd nFf nLayer,
      unbounded.Holds (utf8 e.1).length ∧ e.2.Fits unbounded := by
  have hkey : ∀ {key : String}, (utf8 key).length < 100 → unbounded.Holds (utf8 key).length :=
    fun h => unbounded_holds (by omega)
  have hprefixed : ∀ {suffix : String}, (utf8 suffix).length < 100 →
      unbounded.Holds (utf8 (arch ++ suffix)).length := by
    intro suffix h
    rw [length_utf8_append]
    exact unbounded_holds (by omega)
  have htext : ∀ {s : String}, (utf8 s).length < 2 ^ 63 → (Field.str s).Fits unbounded :=
    fun h => unbounded_holds (by omega)
  simp only [List.forall_mem_cons] at hfields
  obtain ⟨hlayer, hbeg, hstop, hnExpert, hnEmbd, hnFf, hnLayer, -⟩ := hfields
  simp only [entries, embedding_key, List.forall_mem_cons]
  refine ⟨⟨hkey (by decide), htext harch⟩, ⟨hkey (by decide), (by decide : 32 < 256 ^ 4)⟩,
    ⟨hkey (by decide), htext hid⟩, ⟨hkey (by decide), hlayer⟩,
    ⟨hkey (by decide), hbeg⟩, ⟨hkey (by decide), hstop⟩,
    ⟨hkey (by decide), hnExpert⟩, ⟨hkey (by decide), hnEmbd⟩,
    ⟨hkey (by decide), hnFf⟩, ⟨hkey (by decide), htext hdigest⟩,
    ⟨hprefixed (by decide), hnEmbd⟩, ⟨hprefixed (by decide), hnLayer⟩,
    ⟨hprefixed (by decide), hnExpert⟩, fun _ h => absurd h List.not_mem_nil⟩

theorem entries_alignment (arch id digest : String) (layer beg stop nExpert nEmbd nFf nLayer : Field)
    (infos : List RawTensor) (headerEnd : ℕ) :
    Header.get ⟨3, (entries arch id digest layer beg stop nExpert nEmbd nFf nLayer).map fun e =>
      (e.1, e.2.value), infos, headerEnd⟩ "general.alignment" = some (.int 32) := by
  have hcount : (arch ++ ".expert_count" == "general.alignment") = false :=
    beq_eq_false_iff_ne.mpr (append_ne (by decide))
  have hblocks : (arch ++ ".block_count" == "general.alignment") = false :=
    beq_eq_false_iff_ne.mpr (append_ne (by decide))
  have hembd : (arch ++ ".embedding_length" == "general.alignment") = false :=
    beq_eq_false_iff_ne.mpr (append_ne (by decide))
  simp only [entries, embedding_key, Header.get, List.map_cons, List.map_nil, List.reverse_cons,
    List.reverse_nil, List.nil_append, List.cons_append]
  rw [List.find?_cons_of_neg (by simp [hcount]), List.find?_cons_of_neg (by simp [hblocks]),
    List.find?_cons_of_neg (by simp [hembd])]
  rfl

variable {layer : ℤ}

theorem metadata_eq {m : Loaded} {beg stop : ℤ} (hm : Describable m layer)
    (hbeg : 0 ≤ beg ∧ beg < 2 ^ 32) (hstop : 0 ≤ stop ∧ stop < 2 ^ 32) :
    ∃ es, metadata m layer beg stop = some es ∧ es.length < 2 ^ 64 ∧
      (∀ e ∈ es, unbounded.Holds (utf8 e.1).length ∧ e.2.Fits unbounded) ∧
      ∀ infos headerEnd, Header.get ⟨3, es.map fun e => (e.1, e.2.value), infos, headerEnd⟩
        "general.alignment" = some (.int 32) := by
  obtain ⟨arch, harch, hshort⟩ := hm.arch
  obtain ⟨nExpert, hnExpert⟩ := Option.isSome_iff_exists.mp hm.nExpert
  obtain ⟨nEmbd, hnEmbd⟩ := Option.isSome_iff_exists.mp hm.nEmbd
  obtain ⟨nFf, hnFf⟩ := Option.isSome_iff_exists.mp hm.nFfExpert
  obtain ⟨nLayer, hnLayer⟩ := Option.isSome_iff_exists.mp hm.nLayer
  have hlayerField := packU32_int hm.low hm.high
  have hbegField := packU32_int hbeg.1 hbeg.2
  have hstopField := packU32_int hstop.1 hstop.2
  have hfit : ∀ {o : Option Value} {f : Field}, o.bind packU32 = some f → f.Fits unbounded := by
    intro o f h
    obtain ⟨v, -, hv⟩ := Option.bind_eq_some_iff.mp h
    exact packU32_fits hv unbounded
  refine ⟨entries arch m.id m.digest (.u32 layer.toNat) (.u32 beg.toNat) (.u32 stop.toNat) nExpert nEmbd
    nFf nLayer, ?_, by simp [entries], ?_, entries_alignment _ _ _ _ _ _ _ _ _ _⟩
  · rw [metadata, harch, hlayerField, hbegField, hstopField, hnExpert, hnEmbd, hnFf, hnLayer]
    rfl
  · apply entries_fit hshort hm.id hm.digest
    simp only [List.forall_mem_cons]
    exact ⟨packU32_fits hlayerField _, packU32_fits hbegField _, packU32_fits hstopField _,
      packU32_fits hnExpert _, hfit hnEmbd, hfit hnFf, hfit hnLayer, fun _ h => absurd h List.not_mem_nil⟩

/-! ## Reading a shard -/

/-- The bytes that a GGUF file keeps under a tensor's name. -/
def tensorData (file : Bytes) (name : String) : Option Bytes :=
  match readHeader unbounded file with
  | .error _ => none
  | .ok h => do
    let align ← h.get "general.alignment"
    let t ← h.tensors.find? fun t => t.name = name
    let n ← modelTensorBytes t
    match align with
    | .int a => some ((file.drop (alignUp h.headerEnd a + t.offset).toNat).take n)
    | _ => none

/-- What is kept under a name in what a reply wrote. -/
def Reply.tensorData : Reply → String → Option Bytes
  | .shard _ _ written _, name => Shard.tensorData written name
  | _, _ => none

/-- A GGUF file of the experts from `beg` to `stop` of a layer. -/
structure HoldsExperts (m : Loaded) (layer beg stop : ℤ) (shard : Bytes) (h : Header) : Prop where
  read : readHeader unbounded shard = .ok h
  names : h.tensors.map RawTensor.name = expertTensors.map (tensorName layer)
  last : ∀ t ∈ h.tensors, t.dims.getLast? = some (stop - beg).toNat
  aligned : ∃ a : ℕ, 0 < a ∧ h.get "general.alignment" = some (.int a) ∧ ∀ t ∈ h.tensors, a ∣ t.offset
  disjoint : h.tensors.Pairwise fun t u => ∃ n, modelTensorBytes t = some n ∧ t.offset + n ≤ u.offset
  data : ∀ w t, lastAt m.model.slice (layer, w) = some t →
    tensorData shard (tensorName layer w) = some (expertsBytes m.file t beg stop)

/-- A request for the experts from `beg` to `stop` of a layer. -/
structure Asks (s : Server) (m : Loaded) (layer beg stop : ℤ) (req : Request) : Prop where
  path : req.path = "/shard"
  token : authed s req = some true
  model : lastAt s.models (req.first "model") = some m
  layer : req.num "layer" = .ok layer
  beg : req.num "expert_begin" = .ok beg
  stop : req.num "expert_end" = .ok stop

/-- A window that one request may name, with all of its experts in the file. -/
structure Window (s : Server) (m : Loaded) (layer beg stop : ℤ) : Prop where
  begins : 0 ≤ beg
  nonempty : beg < stop
  ends : Num.fin stop ≤ m.model.nExpert.amount
  cap : stop - beg ≤ s.maxExperts
  stored : ∀ w t, lastAt m.model.slice (layer, w) = some t →
    t.offset + stop * whole t.perExpert ≤ m.file.length

def shardInfo (layer nLocal : ℤ) (p : Placed) : RawTensor :=
  ⟨tensorName layer p.part.tensor, p.part.dims.dropLast ++ [nLocal.toNat], p.part.type,
    p.dataOffset.toNat⟩

theorem mapM_some {α β : Type*} {f : α → Option β} {g : α → β} {l : List α}
    (h : ∀ a ∈ l, f a = some (g a)) : l.mapM f = some (l.map g) := by
  induction l with
  | nil => rfl
  | cons a l ih =>
    rw [List.mapM_cons, h a List.mem_cons_self, ih fun b hb => h b (List.mem_cons_of_mem a hb)]
    rfl

theorem tensorName_injective (layer : ℤ) : Function.Injective (tensorName layer) := by
  intro a b h
  unfold tensorName at h
  apply tensor_injective
  have hlists := congrArg String.toList h
  simp only [String.toList_append, List.append_assoc, List.append_cancel_left_eq] at hlists
  exact String.toList_injective (List.append_cancel_right hlists)

theorem shardBytes_eq {n per : ℕ} (ht : Divided m t n per)
    (hblocks : (modelTensorBytes ⟨"", t.dims.dropLast, t.type, 0⟩).isSome = true) (nLocal : ℕ)
    (name : String) (offset : ℕ) :
    modelTensorBytes ⟨name, t.dims.dropLast ++ [nLocal], t.type, offset⟩ = some (nLocal * per) := by
  obtain ⟨one, hone⟩ := Option.isSome_iff_exists.mp hblocks
  have htotal := ht.bytes "" 0
  have hdims : t.dims = t.dims.dropLast ++ [n] := by
    obtain ⟨ys, hys⟩ := List.getLast?_eq_some_iff.mp ht.last
    rw [hys, List.dropLast_concat]
  rw [hdims] at htotal
  unfold modelTensorBytes at hone htotal ⊢
  dsimp only at hone htotal ⊢
  cases htype : ggmlTypes t.type with
  | none =>
    rw [htype] at hone
    cases hone
  | some block =>
    obtain ⟨elems, bytes⟩ := block
    have helems : 0 < elems := ggmlTypes_pos htype
    rw [htype] at hone htotal
    simp only [Option.bind_eq_bind, Option.bind_some, List.foldl_append, List.foldl_cons,
      List.foldl_nil] at hone htotal ⊢
    generalize t.dims.dropLast.foldl (· * ·) 1 = product at hone htotal ⊢
    split_ifs at hone with hmod
    obtain ⟨k, rfl⟩ := Nat.dvd_of_mod_eq_zero hmod
    -- an expert is `k` blocks, so any number of experts is that many times `k`
    have hscale : ∀ c, elems * k * c % elems = 0 ∧ elems * k * c / elems = k * c := by
      intro c
      rw [Nat.mul_assoc]
      exact ⟨Nat.mul_mod_right _ _, Nat.mul_div_cancel_left _ helems⟩
    rw [if_pos (hscale n).1, (hscale n).2] at htotal
    rw [if_pos (hscale nLocal).1, (hscale nLocal).2]
    have hper : n * (k * bytes) = n * per := by
      rw [← Option.some.inj htotal]
      ring
    rw [← Nat.eq_of_mul_eq_mul_left ht.pos hper]
    congr 1
    ring

theorem length_utf8_layer (h0 : 0 ≤ layer) (h : layer < 2 ^ 32) :
    (utf8 (toString layer)).length ≤ 40 := by
  obtain ⟨k, rfl⟩ := Int.eq_ofNat_of_zero_le h0
  have hk : k < 2 ^ 32 := by exact_mod_cast h
  have htext : toString (k : ℤ) = Nat.repr k := rfl
  have hlen : (Nat.repr k).length ≤ 10 := (Nat.length_repr_le_iff (by decide)).mpr (by omega)
  have hsmall : ∀ l : List Char, (l.flatMap String.utf8EncodeChar).length ≤ 4 * l.length := by
    intro l
    induction l with
    | nil => rfl
    | cons c l ih =>
      have hc : (String.utf8EncodeChar c).length ≤ 4 := by
        rw [String.length_utf8EncodeChar]
        exact Char.utf8Size_le_four c
      rw [List.flatMap_cons, List.length_append, List.length_cons]
      omega
  rw [htext, ← String.ofList_toList (s := Nat.repr k), utf8_ofList]
  have hbound := hsmall (Nat.repr k).toList
  rw [String.length_toList] at hbound
  omega

theorem shardInfo_fits {m : Loaded} {nLocal : ℤ} (hm : Describable m layer) (hlocal : nLocal < 2 ^ 32)
    {p : Placed} (hoffset : p.dataOffset < 2 ^ 64) (hnDims : p.part.dims.length < 256 ^ 4)
    (hne : p.part.dims ≠ []) (hdims : ∀ d ∈ p.part.dims, d < 256 ^ 8) (htype : p.part.type < 256 ^ 4) :
    infoOf layer nLocal p = some (shardInfo layer nLocal p) ∧ (shardInfo layer nLocal p).Fits unbounded := by
  have hall : ∀ d ∈ p.part.dims.dropLast ++ [nLocal.toNat], d < 2 ^ 64 := by
    intro d hd
    rcases List.mem_append.mp hd with hd | hd
    · exact hdims d (List.dropLast_subset _ hd)
    · rw [List.mem_singleton.mp hd]
      omega
  constructor
  · unfold infoOf
    dsimp only
    rw [if_pos ⟨hall, hoffset⟩]
    rfl
  · have hname : (utf8 (shardInfo layer nLocal p).name).length < 2 ^ 64 := by
      have hlayer := length_utf8_layer hm.low hm.high
      have hblk : (utf8 "blk.").length = 4 := by decide
      have hdot : (utf8 ".").length = 1 := by decide
      have hweight : (utf8 ".weight").length = 7 := by decide
      have htensor : (utf8 p.part.tensor.tensor).length ≤ 13 := by
        cases p.part.tensor <;> decide
      rw [shardInfo, tensorName, length_utf8_append, length_utf8_append, length_utf8_append,
        length_utf8_append, hblk, hdot, hweight]
      omega
    have hcount : (p.part.dims.dropLast ++ [nLocal.toNat]).length < 256 ^ 4 := by
      have hpos := List.length_pos_iff.mpr hne
      rw [List.length_append, List.length_dropLast, List.length_singleton]
      omega
    have hplace : p.dataOffset.toNat < 2 ^ 64 := by omega
    exact {
      name := unbounded_holds hname
      nDims := hcount
      dims := fun d hd => unbounded_holds (hall d hd)
      type := htype
      offset := unbounded_holds hplace }

theorem plan_eq (spell : Value → String) {beg stop : ℤ} (hheld : layer ∈ m.expertLayers)
    (hbeg : 0 ≤ beg) (hlt : beg < stop) (hstop : Num.fin stop ≤ m.nExpert.amount)
    {slices : Which → ModelSlice} (hslices : ∀ w, lastAt m.slice (layer, w) = some (slices w)) :
    plan spell m layer beg stop = .ok (expertTensors.map fun w => partOf w (slices w) beg stop) := by
  rw [plan, if_pos hheld, if_pos ⟨hbeg, hlt, hstop⟩]
  simp only [expertTensors, List.mapM_cons, List.mapM_nil, hslices]
  rfl

theorem pairwise_map_of_place (hbytes : ∀ p ∈ parts, 0 ≤ p.bytes) {g : Placed → RawTensor}
    (hsize : ∀ p ∈ place 0 parts, modelTensorBytes (g p) = some p.part.bytes.toNat)
    (hoffset : ∀ p ∈ place 0 parts, (g p).offset = p.dataOffset.toNat) :
    ((place 0 parts).map g).Pairwise fun t u => ∃ n, modelTensorBytes t = some n ∧ t.offset + n ≤ u.offset := by
  obtain ⟨hat, hapart⟩ := place_apart hbytes (dvd_zero 32)
  rw [List.pairwise_map]
  refine hapart.imp_of_mem fun {p q} hp hq hpq => ⟨p.part.bytes.toNat, hsize p hp, ?_⟩
  have hmem : p.part ∈ parts := by
    rw [← place_part 0 parts]
    exact List.mem_map_of_mem hp
  have hnonneg := hbytes p.part hmem
  have hfirst := (hat p hp).1
  rw [hoffset p hp, hoffset q hq]
  omega

section
variable {spell : Value → String} {s : Server} {m : Loaded} {layer beg stop : ℤ}

theorem dataOffset_lt {file : Bytes} (hfile : file.length ≤ 2 ^ 63 - 32) {a b c : Part}
    (hstored : ∀ p ∈ [a, b, c], p.Stored file) : ∀ p ∈ place 0 [a, b, c], p.dataOffset < 2 ^ 64 := by
  simp only [List.forall_mem_cons] at hstored
  obtain ⟨ha, hb, -, -⟩ := hstored
  have halen := ha.inside
  have hblen := hb.inside
  have hastart := ha.start
  have hbstart := hb.start
  obtain ⟨-, ha32, hadvd⟩ := alignUp_32 (0 + a.bytes)
  obtain ⟨-, hb32, -⟩ := alignUp_32 (alignUp (0 + a.bytes) ggufAlignment + b.bytes)
  have hbound : (file.length : ℤ) ≤ 2 ^ 63 - 32 := by omega
  simp only [place, Placed.stop, List.forall_mem_cons]
  refine ⟨by norm_num, ?_, ?_, fun _ h => absurd h List.not_mem_nil⟩
  · omega
  · omega

theorem sendShard_eq {parts : List Part} {es : List (String × Field)}
    (hplan : plan spell m.model layer beg stop = .ok parts)
    (hmeta : metadata m layer beg stop = some es)
    (hinfos : ∀ p ∈ place 0 parts, infoOf layer (stop - beg) p = some (shardInfo layer (stop - beg) p))
    (hstored : ∀ p ∈ parts, p.Stored m.file) (hfile : (m.file.length : ℤ) < 2 ^ 63) :
    ∃ data shard, shard = padded (headerBytes es ((place 0 parts).map (shardInfo layer (stop - beg)))) ++ data ∧
      sendShard spell m layer beg stop = .shard shard.length m.digest shard true ∧
      ∀ p ∈ place 0 parts, (data.drop p.dataOffset.toNat).take p.part.bytes.toNat = p.part.data m.file := by
  obtain ⟨out, last, hrun, hlast, hbody, hdata⟩ := streamParts_place hfile hstored (le_refl 0)
  have hbuild : buildShardGguf spell m layer beg stop =
      .ok (padded (headerBytes es ((place 0 parts).map (shardInfo layer (stop - beg)))), place 0 parts) := by
    rw [buildShardGguf, hplan]
    dsimp only
    rw [hmeta, mapM_some hinfos]
  have htail := length_zeros (sub_nonneg.mpr (hbody 0 le_rfl))
  refine ⟨out ++ zeros ((place 0 parts).foldl (fun _ p => p.stop) 0 - last), _, rfl, ?_, fun p hp => ?_⟩
  · rw [sendShard, hbuild]
    dsimp only
    rw [hrun]
    dsimp only
    rw [List.append_assoc, List.length_append, List.length_append]
    congr 1
    push_cast
    omega
  · have hpart := hdata p hp (zeros ((place 0 parts).foldl (fun _ p => p.stop) 0 - last))
    rwa [sub_zero] at hpart

theorem layer_slices (hload : loadModel spell m.file = some m.model) (hm : Describable m layer) :
    ∃ (slices : Which → ModelSlice) (n : ℕ) (per : Which → ℕ),
      ∀ w, lastAt m.model.slice (layer, w) = some (slices w) ∧ Divided m.model (slices w) n (per w) := by
  obtain ⟨hcomplete, hdivided⟩ := loadModel_divided hload hm.nExpert
  have hthere : ∀ w, ∃ t, lastAt m.model.slice (layer, w) = some t := by
    intro w
    have hall := List.all_eq_true.mp (hcomplete layer hm.held) w (by cases w <;> decide)
    exact Option.isSome_iff_exists.mp hall
  choose slices hslices using hthere
  choose n per hdiv using fun w => hdivided (layer, w) (slices w) (hslices w)
  refine ⟨slices, n .gate, per, fun w => ⟨hslices w, ?_⟩⟩
  -- every tensor has the one count
  have hsame : n w = n .gate := by
    have hcounts : Num.fin (n w) = Num.fin (n .gate) := (hdiv w).count.symm.trans (hdiv .gate).count
    exact Num.ofNat_inj.mp hcounts
  rw [← hsame]
  exact hdiv w

/-- The plan of a window, and where its parts go. -/
def layerParts (slices : Which → ModelSlice) (beg stop : ℤ) : List Part :=
  expertTensors.map fun w => partOf w (slices w) beg stop

def placedParts (slices : Which → ModelSlice) (beg stop : ℤ) : List Placed :=
  place 0 (layerParts slices beg stop)

theorem placedParts_part {slices : Which → ModelSlice} {p : Placed} (hp : p ∈ placedParts slices beg stop) :
    ∃ w, p.part = partOf w (slices w) beg stop := by
  have hmem : p.part ∈ layerParts slices beg stop := by
    rw [← place_part 0 (layerParts slices beg stop)]
    exact List.mem_map_of_mem hp
  obtain ⟨w, -, hw⟩ := List.mem_map.mp hmem
  exact ⟨w, hw.symm⟩

theorem partOf_bytes {t : ModelSlice} {n per : ℕ} (ht : Divided m.model t n per) (hlt : beg < stop)
    (w : Which) : (partOf w t beg stop).bytes = ((stop - beg).toNat * per : ℕ) := by
  have hwidth : ((stop - beg).toNat : ℤ) = stop - beg := Int.toNat_of_nonneg (by omega)
  rw [partOf, ht.whole_eq, Nat.cast_mul, hwidth]

theorem partOf_stored {t : ModelSlice} {n per : ℕ} {w : Which} (ht : Divided m.model t n per)
    (hw : Window s m layer beg stop) (hslice : lastAt m.model.slice (layer, w) = some t) :
    (partOf w t beg stop).Stored m.file := by
  have hinside := hw.stored w t hslice
  rw [ht.whole_eq] at hinside
  have hstart : (partOf w t beg stop).start = t.offset + beg * per := by rw [partOf, ht.whole_eq]
  have hbytes : (partOf w t beg stop).bytes = (stop - beg) * per := by rw [partOf, ht.whole_eq]
  have hfirst : 0 ≤ beg * (per : ℤ) := mul_nonneg hw.begins (Int.natCast_nonneg per)
  have hrest : 0 ≤ (stop - beg) * (per : ℤ) :=
    mul_nonneg (sub_nonneg.mpr hw.nonempty.le) (Int.natCast_nonneg per)
  refine ⟨?_, ?_, ?_⟩
  · rw [hstart]
    exact add_nonneg ht.offset hfirst
  · rw [hbytes]
    exact hrest
  · rw [hstart, hbytes]
    linarith

theorem partOf_data {t : ModelSlice} {n per : ℕ} (w : Which) (ht : Divided m.model t n per)
    (hw : Window s m layer beg stop) : (partOf w t beg stop).data m.file = expertsBytes m.file t beg stop := by
  have hstart : (partOf w t beg stop).start = t.offset + beg * per := by rw [partOf, ht.whole_eq]
  rw [expertsBytes_eq m.file ht.whole_eq ht.offset hw.begins, Part.data,
    partOf_bytes ht hw.nonempty, hstart, Int.toNat_natCast]

theorem find_placed (beg stop layer nLocal : ℤ) (slices : Which → ModelSlice) (w : Which) :
    ∃ p ∈ placedParts slices beg stop, p.part = partOf w (slices w) beg stop ∧
      ((placedParts slices beg stop).map (shardInfo layer nLocal)).find?
        (fun t => t.name = tensorName layer w) = some (shardInfo layer nLocal p) := by
  cases hfind : ((placedParts slices beg stop).map (shardInfo layer nLocal)).find?
      (fun t => decide (t.name = tensorName layer w)) with
  | none =>
    have hnone := List.find?_eq_none.mp hfind
    have hname : tensorName layer w ∈
        ((placedParts slices beg stop).map (shardInfo layer nLocal)).map RawTensor.name := by
      have hall : w ∈ expertTensors := by cases w <;> decide
      exact List.mem_map_of_mem hall
    obtain ⟨t, ht, hname⟩ := List.mem_map.mp hname
    exact absurd (decide_eq_true hname) (hnone t ht)
  | some t =>
    obtain ⟨p, hp, rfl⟩ := List.mem_map.mp (List.mem_of_find?_eq_some hfind)
    have hfound := List.find?_some hfind
    have hname : (shardInfo layer nLocal p).name = tensorName layer w := of_decide_eq_true hfound
    obtain ⟨v, hv⟩ := placedParts_part hp
    have htensor : p.part.tensor = v := by rw [hv, partOf]
    have hsame : v = w := tensorName_injective layer (htensor ▸ hname)
    rw [hsame] at hv
    exact ⟨p, hp, hv, rfl⟩

theorem tensorData_eq {es : List (String × Field)} {infos : List RawTensor} {data shard : Bytes}
    (hshard : shard = padded (headerBytes es infos) ++ data)
    (hread : readHeader unbounded shard =
      .ok ⟨3, es.map fun e => (e.1, e.2.value), infos, (headerBytes es infos).length⟩)
    (halign : Header.get ⟨3, es.map fun e => (e.1, e.2.value), infos, (headerBytes es infos).length⟩
      "general.alignment" = some (.int 32))
    {name : String} {t : RawTensor} {n : ℕ} (hfind : infos.find? (fun t => t.name = name) = some t)
    (hbytes : modelTensorBytes t = some n) :
    tensorData shard name = some ((data.drop t.offset).take n) := by
  have hhead := length_padded (headerBytes es infos)
  have hstart : (alignUp (headerBytes es infos).length 32 + t.offset).toNat =
      (padded (headerBytes es infos)).length + t.offset := by
    have h32 : ggufAlignment = 32 := rfl
    rw [h32] at hhead
    omega
  rw [tensorData, hread]
  dsimp only
  rw [halign, hfind]
  simp only [Option.bind_eq_bind, Option.bind_some]
  rw [hbytes, Option.bind_some, hstart, hshard, drop_append_of_length rfl]

theorem sendShard_holds (hload : loadModel spell m.file = some m.model) (hm : Describable m layer)
    (hw : Window s m layer beg stop) :
    ∃ shard h, sendShard spell m layer beg stop = .shard shard.length m.digest shard true ∧
      HoldsExperts m layer beg stop shard h := by
  obtain ⟨slices, n, per, hslices⟩ := layer_slices hload hm
  have hbeg := hw.begins
  have hlt := hw.nonempty
  have hsize := hm.size
  have hstop : stop < 2 ^ 32 := by
    have hends := hw.ends
    rw [(hslices .gate).2.count, Num.fin_le_fin] at hends
    have hle : stop ≤ n := by exact_mod_cast hends
    have hsmall := (hslices .gate).2.small
    omega
  have hplan := plan_eq spell hm.held hbeg hlt hw.ends fun w => (hslices w).1
  obtain ⟨es, hmeta, hcount, hfits, halign⟩ := metadata_eq hm ⟨hbeg, by omega⟩ ⟨by omega, hstop⟩
  have hstored : ∀ p ∈ layerParts slices beg stop, p.Stored m.file := by
    intro p hp
    obtain ⟨w, -, rfl⟩ := List.mem_map.mp hp
    exact partOf_stored (hslices w).2 hw (hslices w).1
  obtain ⟨hat, -⟩ := place_apart (fun p hp => (hstored p hp).bytes) (dvd_zero 32)
  have hoffset : ∀ p ∈ placedParts slices beg stop, p.dataOffset < 2 ^ 64 := dataOffset_lt hsize hstored
  -- each line of the directory can be written, and its size is that of its part
  have hinfo : ∀ p ∈ placedParts slices beg stop,
      infoOf layer (stop - beg) p = some (shardInfo layer (stop - beg) p) ∧
      (shardInfo layer (stop - beg) p).Fits unbounded := by
    intro p hp
    obtain ⟨w, hpw⟩ := placedParts_part hp
    have hdiv := (hslices w).2
    have hdims : p.part.dims = (slices w).dims := by rw [hpw, partOf]
    have htype : p.part.type = (slices w).type := by rw [hpw, partOf]
    have hne : p.part.dims ≠ [] := by
      intro hnil
      have hlast := hdiv.last
      rw [← hdims, hnil] at hlast
      cases hlast
    apply shardInfo_fits hm (by omega) (hoffset p hp) (hdims ▸ hdiv.nDims) hne
    · rw [hdims]
      exact hdiv.dims
    · rw [htype]
      exact hdiv.type
  have hbytes : ∀ p ∈ placedParts slices beg stop,
      modelTensorBytes (shardInfo layer (stop - beg) p) = some p.part.bytes.toNat := by
    intro p hp
    obtain ⟨w, hpw⟩ := placedParts_part hp
    have hone := shardBytes_eq (hslices w).2 (hm.blocks w _ (hslices w).1) (stop - beg).toNat
      (tensorName layer p.part.tensor) p.dataOffset.toNat
    rw [hpw, partOf_bytes (hslices w).2 hlt, Int.toNat_natCast, ← hone, shardInfo, hpw]
    rfl
  obtain ⟨data, shard, hshard, hsent, hparts⟩ :=
    sendShard_eq hplan hmeta (fun p hp => (hinfo p hp).1) hstored (by omega)
  have hfit : ∀ t ∈ (placedParts slices beg stop).map (shardInfo layer (stop - beg)), t.Fits unbounded := by
    intro t ht
    obtain ⟨p, hp, rfl⟩ := List.mem_map.mp ht
    exact (hinfo p hp).2
  have hthree : ((placedParts slices beg stop).map (shardInfo layer (stop - beg))).length = 3 := rfl
  have hread := readHeader_headerBytes hfits hfit (unbounded_holds hcount)
    (unbounded_holds (by omega)) (zeros (-((headerBytes es ((placedParts slices beg stop).map
      (shardInfo layer (stop - beg)))).length : ℤ) % ggufAlignment) ++ data)
  rw [← List.append_assoc, ← padded] at hread
  change shard = padded (headerBytes es ((placedParts slices beg stop).map
    (shardInfo layer (stop - beg)))) ++ data at hshard
  rw [← hshard] at hread
  refine ⟨shard, _, hsent, ⟨hread, rfl, ?_, ⟨32, by decide, halign _ _, ?_⟩, ?_, ?_⟩⟩
  · intro t ht
    obtain ⟨p, -, rfl⟩ := List.mem_map.mp ht
    exact List.getLast?_concat
  · intro t ht
    obtain ⟨p, hp, rfl⟩ := List.mem_map.mp ht
    have hdvd := hat p hp
    have hoff : (shardInfo layer (stop - beg) p).offset = p.dataOffset.toNat := rfl
    rw [hoff]
    omega
  · exact pairwise_map_of_place (fun p hp => (hstored p hp).bytes) hbytes fun p _ => rfl
  · intro w t ht
    have hsame : t = slices w := Option.some.inj (ht.symm.trans (hslices w).1)
    obtain ⟨p, hp, hpw, hfind⟩ := find_placed beg stop layer (stop - beg) slices w
    rw [tensorData_eq hshard hread (halign _ _) hfind (hbytes p hp)]
    have hpart := hparts p hp
    have hoff : (shardInfo layer (stop - beg) p).offset = p.dataOffset.toNat := rfl
    rw [hoff, hpart, hpw, hsame, partOf_data w (hslices w).2 hw]

end

section
variable {spell : Value → String} {s : Server} {m : Loaded} {layer beg stop : ℤ} {req : Request}

theorem doGet_eq (hask : Asks s m layer beg stop req) (hcap : stop - beg ≤ s.maxExperts) {parts : List Part}
    (hplan : plan spell m.model layer beg stop = .ok parts) :
    doGet spell s req = sendShard spell m layer beg stop := by
  have hhealth : req.path ≠ "/health" := by
    rw [hask.path]
    decide
  have htopology : req.path ≠ "/topology" := by
    rw [hask.path]
    decide
  have hasked : s.asked spell req = .ok (m, layer, beg, stop) := by
    rw [Server.asked, hask.model]
    dsimp only
    rw [hask.layer, hask.beg, hask.stop]
    dsimp only
    rw [if_neg (not_lt.mpr hcap), hplan]
  rw [doGet, if_neg hhealth, hask.token]
  dsimp only
  rw [if_neg htopology, if_pos hask.path, hasked]

theorem doGet_holds (hload : loadModel spell m.file = some m.model) (hm : Describable m layer)
    (hask : Asks s m layer beg stop req) (hw : Window s m layer beg stop) :
    ∃ shard h, doGet spell s req = .shard shard.length m.digest shard true ∧
      HoldsExperts m layer beg stop shard h := by
  obtain ⟨slices, n, per, hslices⟩ := layer_slices hload hm
  have hplan := plan_eq spell hm.held hw.begins hw.nonempty hw.ends fun w => (hslices w).1
  rw [doGet_eq hask hw.cap hplan]
  exact sendShard_holds hload hm hw

end

theorem flatMap_replies {spell : Value → String} {s : Server} {m : Loaded}
    (hload : loadModel spell m.file = some m.model) (hm : Describable m layer)
    {reqs : List (Request × ℤ × ℤ)}
    (hreqs : ∀ r ∈ reqs, Asks s m layer r.2.1 r.2.2 r.1 ∧ Window s m layer r.2.1 r.2.2) {w : Which}
    (ht : lastAt m.model.slice (layer, w) = some t) :
    (reqs.flatMap fun r => ((doGet spell s r.1).tensorData (tensorName layer w)).getD []) =
      (reqs.map Prod.snd).flatMap fun win => expertsBytes m.file t win.1 win.2 := by
  rw [List.flatMap_map]
  apply List.flatMap_congr
  intro r hr
  obtain ⟨hask, hw⟩ := hreqs r hr
  obtain ⟨shard, h, hreply, hholds⟩ := doGet_holds hload hm hask hw
  rw [hreply, Reply.tensorData, hholds.data w t ht, Option.getD_some]

/-- Every window that one request may name is answered by a GGUF file of exactly
its experts, as long as was declared; windows that follow one another give the
whole tensor. -/
theorem shards_hold_experts (spell : Value → String) (s : Server) (m : Loaded) (layer : ℤ)
    (hload : loadModel spell m.file = some m.model) (hm : Describable m layer) :
    (∀ req beg stop, Asks s m layer beg stop req → Window s m layer beg stop →
      ∃ shard h, doGet spell s req = .shard shard.length m.digest shard true ∧
        HoldsExperts m layer beg stop shard h) ∧
    ∀ reqs : List (Request × ℤ × ℤ),
      (∀ r ∈ reqs, Asks s m layer r.2.1 r.2.2 r.1 ∧ Window s m layer r.2.1 r.2.2) →
      ∀ n : ℕ, m.model.nExpert.amount = .fin n → Tiles 0 (reqs.map Prod.snd) n →
      ∀ w t, lastAt m.model.slice (layer, w) = some t →
        ∃ total, modelTensorBytes ⟨tensorName layer w, t.dims, t.type, 0⟩ = some total ∧
          (reqs.flatMap fun r => ((doGet spell s r.1).tensorData (tensorName layer w)).getD []) =
            (m.file.drop t.offset.toNat).take total := by
  refine ⟨fun req beg stop hask hw => doGet_holds hload hm hask hw, fun reqs hreqs n hn htiles w t ht => ?_⟩
  obtain ⟨slices, count, per, hslices⟩ := layer_slices hload hm
  have hsame : t = slices w := Option.some.inj (ht.symm.trans (hslices w).1)
  have hdiv := (hslices w).2
  rw [← hsame] at hdiv
  have hcount : n = count := Num.ofNat_inj.mp (hn.symm.trans hdiv.count)
  refine ⟨n * per w, ?_, ?_⟩
  · rw [hcount]
    exact hdiv.bytes _ _
  · rw [flatMap_replies hload hm hreqs ht, flatMap_tiles m.file t htiles,
      expertsBytes_eq m.file hdiv.whole_eq hdiv.offset le_rfl, zero_mul, add_zero, sub_zero,
      Int.toNat_natCast]

/-! ## A small server -/

def sampleEntries : List (String × Field) :=
  [("general.architecture", .str "m"), ("m.expert_count", .u32 65), ("m.embedding_length", .u32 1),
    ("m.block_count", .u32 1), ("m.expert_feed_forward_length", .u32 1)]

def sampleInfos : List RawTensor :=
  [⟨"blk.0.ffn_gate_exps.weight", [1, 65], 0, 0⟩, ⟨"blk.0.ffn_up_exps.weight", [1, 65], 0, 288⟩,
    ⟨"blk.0.ffn_down_exps.weight", [1, 65], 0, 576⟩]

def sampleFile : Bytes := padded (headerBytes sampleEntries sampleInfos) ++ List.replicate 836 7

def sampleSlices : List ((ℤ × Which) × ModelSlice) :=
  [((0, .gate), ⟨416, .fin 4, 0, [1, 65]⟩), ((0, .up), ⟨704, .fin 4, 0, [1, 65]⟩),
    ((0, .down), ⟨992, .fin 4, 0, [1, 65]⟩)]

def sampleModel : Model where
  arch := some (.str "m")
  nExpert := .int 65
  nEmbd := some (.int 1)
  nLayer := some (.int 1)
  nFfExpert := some (.int 1)
  dataStart := 416
  slice := sampleSlices
  expertLayers := [0]
  bytesPerExpert := .fin 12

def sampleLoaded : Loaded := ⟨"s", "d", sampleModel, sampleFile⟩

def sampleServer : Server := ⟨[("s", sampleLoaded)], "t", 64⟩

def sampleRequest (stop : String) : Request where
  path := "/shard"
  token := "t"
  query := fun key =>
    if key = "model" then ["s"] else if key = "expert_end" then [stop] else ["0"]

def sampleHeader : Header := ⟨3, sampleEntries.map fun e => (e.1, e.2.value), sampleInfos, 398⟩

theorem sample_checks :
    ((headerBytes sampleEntries sampleInfos).length = 398 ∧ sampleFile.length = 1252) ∧
    ((sampleSlices.map fun e => e.1.1).dedup.filter (isComplete sampleSlices)).mergeSort (· ≤ ·) = [0] ∧
    expertTensors.foldl (fun sum w => sizeSum (.int 65) sum
      (((lastAt sampleSlices (0, w)).map ModelSlice.perExpert).getD .nan)) (.fin 0) = .fin 12 := by
  decide +kernel

theorem sample_read : readHeader unbounded sampleFile = .ok sampleHeader := by
  have hentries : ∀ e ∈ sampleEntries, unbounded.Holds (utf8 e.1).length ∧ e.2.Fits unbounded := by
    have hkeys : ∀ e ∈ sampleEntries, (utf8 e.1).length < 2 ^ 64 := by decide
    have hvalues : ∀ e ∈ sampleEntries, e.2.Fits unbounded := by
      simp only [sampleEntries, List.forall_mem_cons]
      exact ⟨unbounded_holds (by decide), (by decide : 65 < 256 ^ 4), (by decide : 1 < 256 ^ 4),
        (by decide : 1 < 256 ^ 4), (by decide : 1 < 256 ^ 4), fun _ h => absurd h List.not_mem_nil⟩
    exact fun e he => ⟨unbounded_holds (hkeys e he), hvalues e he⟩
  have hinfos : ∀ t ∈ sampleInfos, t.Fits unbounded := by
    have hnames : ∀ t ∈ sampleInfos, (utf8 t.name).length < 2 ^ 64 := by decide
    have hdims : ∀ t ∈ sampleInfos, t.dims.length < 256 ^ 4 ∧ t.type < 256 ^ 4 ∧ t.offset < 2 ^ 64 := by
      decide
    have hall : ∀ t ∈ sampleInfos, ∀ d ∈ t.dims, d < 2 ^ 64 := by decide
    intro t ht
    exact ⟨unbounded_holds (hnames t ht), (hdims t ht).1, fun d hd => unbounded_holds (hall t ht d hd),
      (hdims t ht).2.1, unbounded_holds (hdims t ht).2.2⟩
  have hlen := sample_checks.1.1
  have hread := readHeader_headerBytes hentries hinfos (unbounded_holds (by decide))
    (unbounded_holds (by decide))
    (zeros (-((headerBytes sampleEntries sampleInfos).length : ℤ) % ggufAlignment) ++ List.replicate 836 7)
  rw [← List.append_assoc, ← padded, hlen] at hread
  exact hread

theorem sample_slices :
    (sampleHeader.experts.mapM fun e => modelTensor (.int 65) 416 e.1 e.2) = some sampleSlices := by
  decide

theorem sample_summary : summarise { sampleModel with expertLayers := [], bytesPerExpert := .fin 0 } =
    some sampleModel := by
  unfold summarise
  dsimp only [sampleModel]
  rw [sample_checks.2.1]
  simp only [Option.bind_eq_bind, List.head?_cons, Option.bind_some]
  rw [sample_checks.2.2]

theorem sample_loaded : loadModel (fun _ => "") sampleFile = some sampleModel := by
  have hstart : sampleHeader.modelDataStart = some 416 := by decide
  have harch : sampleHeader.archText (fun _ => "") = "m" := rfl
  have hcount : sampleHeader.get ("m" ++ ".expert_count") = some (.int 65) := rfl
  have htruthy : (Value.int 65).pyTruthy = true := rfl
  rw [loadModel, sample_read]
  dsimp only
  rw [modelOf, hstart]
  simp only [Option.bind_eq_bind, Option.bind_some]
  rw [harch, hcount]
  simp only [Option.bind_some]
  rw [if_pos htruthy]
  have hslices := sample_slices
  unfold Header.experts at hslices
  rw [hslices]
  exact sample_summary

theorem sample_describable : Describable sampleLoaded 0 where
  held := List.mem_singleton.mpr rfl
  low := le_rfl
  high := by decide
  arch := ⟨"m", rfl, by decide⟩
  id := by decide
  digest := by decide
  nExpert := rfl
  nEmbd := rfl
  nFfExpert := rfl
  nLayer := rfl
  blocks := by
    intro w t ht
    have hmem : ((0, w), t) ∈ sampleSlices := lastAt_mem ht
    have hall : ∀ e ∈ sampleSlices, (modelTensorBytes ⟨"", e.2.dims.dropLast, e.2.type, 0⟩).isSome = true := by
      decide
    exact hall _ hmem
  size := by
    have hlen := sample_checks.1.2
    show sampleFile.length ≤ 2 ^ 63 - 32
    omega

theorem sample_asks {stop : String} {n : ℤ} (hn : pyInt stop.toList = some n) :
    Asks sampleServer sampleLoaded 0 0 n (sampleRequest stop) where
  path := rfl
  token := by
    have htoken : authed sampleServer ⟨"/shard", "t", fun _ => []⟩ = some true := by decide
    exact htoken
  model := rfl
  layer := by
    have hfirst : (sampleRequest stop).first "layer" = "0" := rfl
    have hzero : pyInt "0".toList = some 0 := by decide
    rw [Request.num, hfirst, hzero]
  beg := by
    have hfirst : (sampleRequest stop).first "expert_begin" = "0" := rfl
    have hzero : pyInt "0".toList = some 0 := by decide
    rw [Request.num, hfirst, hzero]
  stop := by
    have hfirst : (sampleRequest stop).first "expert_end" = stop := rfl
    rw [Request.num, hfirst, hn]

theorem sample_window {n : ℤ} (hpos : 0 < n) (hcap : n ≤ 64) : Window sampleServer sampleLoaded 0 0 n where
  begins := le_rfl
  nonempty := hpos
  ends := by
    have hle : (n : ℚ) ≤ 65 := by exact_mod_cast hcap.trans (by decide)
    exact Num.fin_le_fin.mpr (by exact_mod_cast hle)
  cap := by
    rw [sub_zero]
    exact hcap
  stored := by
    intro w t ht
    have hmem : ((0, w), t) ∈ sampleSlices := lastAt_mem ht
    have hall : ∀ e ∈ sampleSlices, e.2.offset ≤ 992 ∧ whole e.2.perExpert = 4 := by decide
    have hlen : (sampleLoaded.file.length : ℤ) = 1252 := by
      exact_mod_cast sample_checks.1.2
    obtain ⟨hoffset, hper⟩ := hall _ hmem
    dsimp only at hoffset hper
    rw [hlen, hper]
    omega

theorem shards_hold_experts_two : ∃ shard h,
    doGet (fun _ => "") sampleServer (sampleRequest "2") = .shard shard.length "d" shard true ∧
      HoldsExperts sampleLoaded 0 0 2 shard h := by
  have hpair := shards_hold_experts (fun _ => "") sampleServer sampleLoaded 0 sample_loaded sample_describable
  exact hpair.1 (sampleRequest "2") 0 2 (sample_asks (by decide)) (sample_window (by decide) (by decide))

/-- A window of all 65 experts lies in the layer, but is more than one request may name. -/
theorem wide_window_refused :
    loadModel (fun _ => "") sampleFile = some sampleModel ∧ Describable sampleLoaded 0 ∧
    Asks sampleServer sampleLoaded 0 0 65 (sampleRequest "65") ∧ Num.fin 65 ≤ sampleModel.nExpert.amount ∧
    ∀ length digest shard whole, doGet (fun _ => "") sampleServer (sampleRequest "65") ≠
      .shard length digest shard whole := by
  refine ⟨sample_loaded, sample_describable, sample_asks (by decide), ?_, ?_⟩
  · exact Num.fin_le_fin.mpr (by norm_num)
  · intro length digest shard whole h
    have hask : Asks sampleServer sampleLoaded 0 0 65 (sampleRequest "65") := sample_asks (by decide)
    have hasked : sampleServer.asked (fun _ => "") (sampleRequest "65") =
        .error (.json 413 (.error ("at most " ++ toString (64 : ℤ) ++ " experts per request"))) := by
      rw [Server.asked, hask.model]
      dsimp only
      rw [hask.layer, hask.beg, hask.stop]
      rfl
    have hpath : (sampleRequest "65").path ≠ "/health" ∧ (sampleRequest "65").path ≠ "/topology" := by
      rw [hask.path]
      decide
    rw [doGet, if_neg hpath.1, hask.token] at h
    dsimp only at h
    rw [if_neg hpath.2, if_pos hask.path, hasked] at h
    cases h

end KvasirNet.Shard
