import KvasirNet.GgufAgreement
import KvasirNet.ExactNat

/-! Where the experts of a tensor are cut apart. Both programs ask that the bytes of the tensor
divide by the number of experts; a cut falls between two blocks if the elements of one expert are
whole blocks, and that is something else. -/
namespace KvasirNet.Gguf

/-- One expert is whole blocks: the last dimension counts the experts, the others are one expert's. -/
def WholeExperts (type : ℕ) (dims : List ℕ) : Prop :=
  ∃ block, ggmlTypes type = some block ∧ block.1 ∣ dims.dropLast.prod

/-- The bytes of a tensor, in blocks of which the last one need not be whole. -/
def extent (type : ℕ) (dims : List ℕ) : Option ℚ :=
  (ggmlTypes type).map fun block => (dims.prod : ℚ) / block.1 * block.2

/-- They are a number that a double holds, as every number below `2^53` is. -/
def ExactExtent (type : ℕ) (dims : List ℕ) : Prop :=
  ∃ n, Representable n ∧ extent type dims = some (n : ℚ)

/-- What the byte range of a shard rests on, for a tensor with so many experts of so many bytes:
the bytes of one expert are whole blocks, and all experts together, from the offset on, end where
the tensor ends. -/
def CutBetweenBlocks (nExpert perExpert : Num) (type : ℕ) (dims : List ℕ) : Prop :=
  ∃ block n p, ggmlTypes type = some block ∧ nExpert = .ofNat n ∧ perExpert = .ofNat p ∧
    block.2 ∣ p ∧ extent type dims = some (n * p : ℕ)

variable {block : ℕ × ℕ}

theorem ggmlTypes_block {type : ℕ} (h : ggmlTypes type = some block) :
    (∃ j, block.1 = 2 ^ j) ∧ 0 < block.2 := by
  have hsizes : block.1 = 2 ^ 0 ∨ block.1 = 2 ^ 5 ∨ block.1 = 2 ^ 8 := by
    unfold ggmlTypes at h
    split at h <;> cases h <;> decide
  constructor
  · rcases hsizes with hsize | hsize | hsize
    · exact ⟨0, hsize⟩
    · exact ⟨5, hsize⟩
    · exact ⟨8, hsize⟩
  · unfold ggmlTypes at h
    split at h <;> cases h <;> decide

theorem prod_getLast {dims : List ℕ} {d : ℕ} (h : dims.getLast? = some d) :
    dims.prod = dims.dropLast.prod * d := by
  obtain ⟨front, rfl⟩ := List.getLast?_eq_some_iff.mp h
  rw [List.dropLast_concat, List.prod_append, List.prod_singleton]

variable {t : RawTensor}

/-- With `T` bytes that divide by the number of experts: the cuts are sound if each expert is whole
blocks and `T` is what the tensor has. -/
theorem cut_iff {d T : ℕ} (hblock : ggmlTypes t.type = some block)
    (hlast : t.dims.getLast? = some d) (hd : 0 < d) (hdvd : d ∣ T) :
    CutBetweenBlocks (.ofNat d) (.ofNat (T / d)) t.type t.dims ↔
      WholeExperts t.type t.dims ∧ extent t.type t.dims = some (T : ℚ) := by
  obtain ⟨⟨j, hj⟩, hbytes⟩ := ggmlTypes_block hblock
  have hpos : 0 < block.1 := hj ▸ Nat.two_pow_pos j
  have hposq : (block.1 : ℚ) ≠ 0 := by exact_mod_cast hpos.ne'
  have hsplit : t.dims.prod = t.dims.dropLast.prod * d := prod_getLast hlast
  have hshare : d * (T / d) = T := Nat.mul_div_cancel' hdvd
  have hextent : extent t.type t.dims = some ((t.dims.dropLast.prod * d : ℕ) / block.1 * block.2 : ℚ) := by
    rw [extent, hblock, Option.map_some, hsplit]
  constructor
  · rintro ⟨block', n, p, hblock', hn, hp, ⟨k, hk⟩, hend⟩
    obtain rfl := Option.some.inj (hblock.symm.trans hblock')
    obtain rfl := Num.ofNat_inj.mp hn
    obtain rfl := Num.ofNat_inj.mp hp
    rw [hshare] at hend
    refine ⟨⟨block, hblock, k, ?_⟩, hend⟩
    -- both sides of the end count the same bytes
    have hcount : ((t.dims.dropLast.prod * d : ℕ) : ℚ) / block.1 * block.2 = (T : ℚ) :=
      Option.some.inj (hextent.symm.trans hend)
    have htotal : T = d * (block.2 * k) := by rw [← hk, hshare]
    rw [div_mul_eq_mul_div, div_eq_iff hposq, htotal] at hcount
    have hnat : t.dims.dropLast.prod * d * block.2 = d * (block.2 * k) * block.1 := by
      exact_mod_cast hcount
    have hcancel : d * block.2 * t.dims.dropLast.prod = d * block.2 * (block.1 * k) := by
      calc
        d * block.2 * t.dims.dropLast.prod = t.dims.dropLast.prod * d * block.2 := by ring
        _ = d * (block.2 * k) * block.1 := hnat
        _ = d * block.2 * (block.1 * k) := by ring
    exact Nat.eq_of_mul_eq_mul_left (Nat.mul_pos hd hbytes) hcancel
  · rintro ⟨⟨block', hblock', k, hk⟩, hend⟩
    obtain rfl := Option.some.inj (hblock.symm.trans hblock')
    refine ⟨block, d, T / d, hblock, rfl, rfl, ⟨k, ?_⟩, ?_⟩
    · have hcount : ((t.dims.dropLast.prod * d : ℕ) : ℚ) / block.1 * block.2 = (T : ℚ) :=
        Option.some.inj (hextent.symm.trans hend)
      rw [hk, div_mul_eq_mul_div, div_eq_iff hposq] at hcount
      have hnat : block.1 * k * d * block.2 = T * block.1 := by exact_mod_cast hcount
      have htotal : T = block.2 * k * d := by
        apply Nat.eq_of_mul_eq_mul_left hpos
        calc
          block.1 * T = block.1 * k * d * block.2 := by rw [hnat, Nat.mul_comm]
          _ = block.1 * (block.2 * k * d) := by ring
      rw [htotal, Nat.mul_div_cancel _ hd]
    · rw [hshare]
      exact hend

/-! ## The sizes that are computed -/

/-- What `tensorBytes` makes of a tensor: an infinity, or a size that is rounded from what the
elements are rounded to. -/
theorem tensorBytes_cases {total : Num} (h : tensorBytes t = some total) :
    total = .posInf ∨ total = .nan ∨ ∃ block E T, ggmlTypes t.type = some block ∧ block.1 ∣ E ∧
      t.dims.foldl (fun (a : Num) b => a.mul (.ofNat b)) (.ofNat 1) = .ofNat E ∧
      double ((E / block.1 * block.2 : ℕ) : ℚ) = .ofNat T ∧ total = .ofNat T := by
  unfold tensorBytes at h
  obtain ⟨block, hblock, h⟩ := Option.bind_eq_some_iff.mp h
  obtain ⟨⟨j, hj⟩, -⟩ := ggmlTypes_block hblock
  have hpos : 0 < block.1 := hj ▸ Nat.two_pow_pos j
  have hposq : (block.1 : ℚ) ≠ 0 := by exact_mod_cast hpos.ne'
  dsimp only at h
  rcases Num.foldl_mul_cases t.dims (representable_of_lt (n := 1) (by norm_num)) with
    ⟨E, hE, helems⟩ | hinf | hnan
  · rw [helems, Num.rem_ofNat hpos] at h
    by_cases hmod : E % block.1 = 0
    · rw [if_pos (Num.ofNat_eq_zero.mpr hmod)] at h
      have hdvd := Nat.dvd_of_mod_eq_zero hmod
      obtain rfl := Option.some.inj h
      have hquot : (Num.ofNat E).div (.ofNat block.1) = double ((E / block.1 : ℕ) : ℚ) := by
        rw [Num.ofNat, Num.ofNat, Num.div, if_neg hposq, Nat.cast_div hdvd hposq]
      rw [hquot]
      rcases Num.double_natCast_cases (E / block.1) with hinf | ⟨m, -, hm⟩
      · rw [hinf]
        exact (Num.mul_posInf_ofNat block.2).imp id Or.inl
      · -- the quotient is a double, for the size of a block is a power of two
        have hexact : m = E / block.1 := by
          apply Num.double_of_representable _ hm
          by_cases hzero : E = 0
          · rw [hzero, Nat.zero_div]
            exact representable_zero
          · exact hE.of_dvd hzero (Nat.div_dvd_of_dvd hdvd)
        rw [hm, hexact, Num.mul_ofNat_eq]
        rcases Num.double_natCast_cases (E / block.1 * block.2) with hinf | ⟨T, -, hT⟩
        · exact Or.inl hinf
        · exact Or.inr (Or.inr ⟨block, E, T, hblock, hdvd, helems, hT, hT⟩)
    · rw [if_neg fun hzero => hmod (Num.ofNat_eq_zero.mp hzero)] at h
      cases h
  · have hrem : Num.posInf.rem (.ofNat block.1) = .nan := rfl
    rw [hinf, hrem, if_neg Num.noConfusion] at h
    cases h
  · have hrem : Num.nan.rem (.ofNat block.1) = .nan := rfl
    rw [hnan, hrem, if_neg Num.noConfusion] at h
    cases h

theorem extent_iff {E T : ℕ} (hblock : ggmlTypes t.type = some block)
    (hwhole : block.1 ∣ t.dims.prod)
    (helems : t.dims.foldl (fun (a : Num) b => a.mul (.ofNat b)) (.ofNat 1) = .ofNat E)
    (hT : double ((E / block.1 * block.2 : ℕ) : ℚ) = .ofNat T) :
    extent t.type t.dims = some (T : ℚ) ↔ ExactExtent t.type t.dims := by
  obtain ⟨⟨j, hj⟩, hbytes⟩ := ggmlTypes_block hblock
  have hpos : 0 < block.1 := hj ▸ Nat.two_pow_pos j
  have hposq : (block.1 : ℚ) ≠ 0 := by exact_mod_cast hpos.ne'
  have hextent : extent t.type t.dims = some ((t.dims.prod / block.1 * block.2 : ℕ) : ℚ) := by
    rw [extent, hblock, Option.map_some, Nat.cast_mul, Nat.cast_div hwhole hposq]
  constructor
  · intro h
    exact ⟨T, Num.representable_of_double hT, h⟩
  · rintro ⟨S, hS, hend⟩
    rw [hend] at hextent
    have hsize : S = t.dims.prod / block.1 * block.2 := by exact_mod_cast Option.some.inj hextent
    -- a size that is a double leaves no product on the way to it that is none
    have hexact : E = t.dims.prod := by
      by_cases hzero : t.dims.prod = 0
      · rw [hzero]
        exact Num.foldl_mul_of_zero_mem (List.prod_eq_zero_iff.mp hzero) helems
      · have hscaled : S * 2 ^ j = t.dims.prod * block.2 := by
          rw [hsize, ← hj, Nat.mul_right_comm, Nat.div_mul_cancel hwhole]
        have hne : S * 2 ^ j ≠ 0 := by
          rw [hscaled]
          exact Nat.mul_ne_zero hzero hbytes.ne'
        have hrep : Representable (1 * t.dims.prod) := by
          rw [Nat.one_mul]
          exact (hS.mul_two_pow j).of_dvd hne (hscaled ▸ Nat.dvd_mul_right _ _)
        have hprod := Num.foldl_mul_exact hrep (by rwa [Nat.one_mul]) helems
        rwa [Nat.one_mul] at hprod
    rw [hexact, ← hsize] at hT
    rw [hend, Num.double_of_representable hS hT]

/-! ## One tensor -/

variable {v : Value}

theorem truthy_ne_zero (h : v.truthy = true) {d : ℕ} (hv : v.isNumber = some (.ofNat d)) :
    0 < d := by
  apply Nat.pos_of_ne_zero
  rintro rfl
  cases v with
  | int n =>
    have hzero : n = 0 := by simpa [Value.isNumber, Num.ofNat] using hv
    rw [hzero] at h
    cases h
  | float x =>
    have hzero : x = .fin 0 := by simpa [Value.isNumber, Num.ofNat] using hv
    rw [hzero] at h
    cases h
  | bool b => cases hv
  | str s => cases hv
  | list xs => cases hv

variable {m : List Char × Which}

theorem sliceTensor_cut (hv : v.truthy = true) {dataStart n : Num} (hn : v.isNumber = some n)
    {e : (Num × Which) × Slice}
    (he : sliceTensor v dataStart t m = some e) :
    CutBetweenBlocks n e.2.perExpert t.type t.dims ↔ WholeExperts t.type t.dims ∧ ExactExtent t.type t.dims := by
  unfold sliceTensor at he
  obtain ⟨d, hlast, he⟩ := Option.bind_eq_some_iff.mp he
  obtain ⟨n', hn', he⟩ := Option.bind_eq_some_iff.mp he
  obtain rfl := Option.some.inj (hn.symm.trans hn')
  by_cases hcount : n = .ofNat d
  · rw [if_pos hcount] at he
    subst hcount
    have hd : 0 < d := truthy_ne_zero hv hn
    obtain ⟨total, htotal, he⟩ := Option.bind_eq_some_iff.mp he
    rcases tensorBytes_cases htotal with rfl | rfl | ⟨block, E, T, hblock, hE, helems, hT, rfl⟩
    · cases he
    · cases he
    · rw [Num.rem_ofNat hd] at he
      by_cases hmod : T % d = 0
      · rw [if_pos (Num.ofNat_eq_zero.mpr hmod)] at he
        obtain rfl := Option.some.inj he
        have hdvd := Nat.dvd_of_mod_eq_zero hmod
        rw [Num.div_ofNat_of_double hT (Num.representable_of_double hT) hd hdvd,
          cut_iff hblock hlast hd hdvd]
        apply and_congr_right
        rintro ⟨block', hblock', hwhole⟩
        obtain rfl := Option.some.inj (hblock.symm.trans hblock')
        have helemsWhole : block.1 ∣ t.dims.prod := by
          rw [prod_getLast hlast]
          exact hwhole.trans (Nat.dvd_mul_right _ _)
        exact extent_iff hblock helemsWhole helems hT
      · rw [if_neg fun hzero => hmod (Num.ofNat_eq_zero.mp hzero)] at he
        cases he
  · rw [if_neg hcount] at he
    cases he

theorem modelTensorBytes_extent {total : ℕ} (h : modelTensorBytes t = some total) :
    ∃ block, ggmlTypes t.type = some block ∧ extent t.type t.dims = some (total : ℚ) := by
  unfold modelTensorBytes at h
  obtain ⟨block, hblock, h⟩ := Option.bind_eq_some_iff.mp h
  obtain ⟨⟨j, hj⟩, -⟩ := ggmlTypes_block hblock
  have hposq : (block.1 : ℚ) ≠ 0 := by
    rw [hj]
    positivity
  dsimp only at h
  rw [← List.prod_eq_foldl] at h
  by_cases hmod : t.dims.prod % block.1 = 0
  · rw [if_pos hmod] at h
    obtain rfl := Option.some.inj h
    refine ⟨block, hblock, ?_⟩
    rw [extent, hblock, Option.map_some, Nat.cast_mul,
      Nat.cast_div (Nat.dvd_of_mod_eq_zero hmod) hposq]
  · rw [if_neg hmod] at h
    cases h

/-- The number of experts is a float, so that the bytes are divided as one. -/
def Value.IsFloat : Value → Prop
  | .float _ => True
  | _ => False

theorem perExpert_float_cases {total d : ℕ} (hd : 0 < d) {size : Num}
    (h : perExpert total (.float (.ofNat d)) = some size) :
    ∃ D, double (total : ℚ) = .ofNat D ∧ d ∣ D ∧ size = .ofNat (D / d) := by
  unfold perExpert at h
  dsimp only at h
  rcases Num.double_natCast_cases total with hinf | ⟨D, hD, hdouble⟩
  · have hrem : Num.posInf.rem (.ofNat d) = .nan := rfl
    rw [hinf, hrem, if_neg Num.noConfusion] at h
    cases h
  · rw [hdouble, Num.rem_ofNat hd] at h
    by_cases hmod : D % d = 0
    · have hdvd := Nat.dvd_of_mod_eq_zero hmod
      rw [if_pos (Num.ofNat_eq_zero.mpr hmod), Num.div_ofNat_of_double hdouble hD hd hdvd] at h
      refine ⟨D, hdouble, hdvd, ?_⟩
      have hfloor : ((⌊((D / d : ℕ) : ℚ)⌋ : ℤ) : ℚ) = ((D / d : ℕ) : ℚ) := by
        rw [Int.floor_natCast, Int.cast_natCast]
      exact (Option.some.inj h).symm.trans (congrArg Num.fin hfloor)
    · rw [if_neg fun hzero => hmod (Num.ofNat_eq_zero.mp hzero)] at h
      cases h

theorem modelTensor_cut (hv : v.pyTruthy = true) {ds : ℤ}
    {e : (ℤ × Which) × ModelSlice} (he : modelTensor v ds t m = some e) :
    CutBetweenBlocks v.amount e.2.perExpert t.type t.dims ↔ WholeExperts t.type t.dims ∧ (v.IsFloat → ExactExtent t.type t.dims) := by
  unfold modelTensor at he
  obtain ⟨layer, hlayer, he⟩ := Option.bind_eq_some_iff.mp he
  obtain ⟨d, hlast, he⟩ := Option.bind_eq_some_iff.mp he
  by_cases hcount : equalsNat d v = true
  · rw [if_pos hcount] at he
    obtain ⟨total, htotal, he⟩ := Option.bind_eq_some_iff.mp he
    obtain ⟨size, hsize, he⟩ := Option.bind_eq_some_iff.mp he
    obtain rfl := Option.some.inj he
    obtain ⟨block, hblock, hextent⟩ := modelTensorBytes_extent htotal
    cases v with
    | int n =>
      obtain rfl : n = d := by simpa [equalsNat] using hcount
      have hd : 0 < d := by simpa [Value.pyTruthy, Nat.pos_iff_ne_zero] using hv
      rw [perExpert_int] at hsize
      by_cases hmod : total % d = 0
      · rw [if_pos hmod] at hsize
        obtain rfl := Option.some.inj hsize
        have hamount : (Value.int d).amount = .ofNat d := rfl
        rw [hamount, cut_iff hblock hlast hd (Nat.dvd_of_mod_eq_zero hmod)]
        exact and_congr_right fun _ => iff_of_true hextent False.elim
      · rw [if_neg hmod] at hsize
        cases hsize
    | bool b =>
      obtain rfl : b = true := hv
      obtain rfl : 1 = d := by simpa [equalsNat] using hcount
      obtain rfl := Option.some.inj hsize
      have hamount : (Value.bool true).amount = .ofNat 1 := by
        rw [Num.ofNat, Nat.cast_one]
        rfl
      have hshare : Num.ofNat total = .ofNat (total / 1) := by rw [Nat.div_one]
      rw [hamount, hshare, cut_iff hblock hlast Nat.one_pos (Nat.one_dvd total)]
      exact and_congr_right fun _ => iff_of_true hextent False.elim
    | float x =>
      obtain rfl : x = .ofNat d := by simpa [equalsNat] using hcount
      have hd : 0 < d := by
        apply Nat.pos_of_ne_zero
        intro hzero
        simp [Value.pyTruthy, hzero, Num.ofNat] at hv
      obtain ⟨D, hD, hdvd, rfl⟩ := perExpert_float_cases hd hsize
      have hamount : (Value.float (.ofNat d)).amount = .ofNat d := rfl
      rw [hamount, cut_iff hblock hlast hd hdvd]
      apply and_congr_right
      intro _
      constructor
      · intro hend _
        exact ⟨D, Num.representable_of_double hD, hend⟩
      · intro hexact
        obtain ⟨S, hS, hend⟩ := hexact trivial
        have hsame : S = total := by exact_mod_cast Option.some.inj (hend.symm.trans hextent)
        rw [hsame] at hS
        rw [hextent, Num.double_of_representable hS hD]
    | str s => cases hcount
    | list xs => cases hcount
  · rw [if_neg hcount] at he
    cases he

/-! ## A whole file -/

theorem sliceTensor_form {dataStart : Num}
    {e : (Num × Which) × Slice} (he : sliceTensor v dataStart t m = some e) :
    e.2.type = t.type ∧ e.2.dims = t.dims := by
  unfold sliceTensor at he
  obtain ⟨d, -, he⟩ := Option.bind_eq_some_iff.mp he
  obtain ⟨n, -, he⟩ := Option.bind_eq_some_iff.mp he
  split_ifs at he
  obtain ⟨total, -, he⟩ := Option.bind_eq_some_iff.mp he
  split_ifs at he
  obtain rfl := Option.some.inj he
  exact ⟨rfl, rfl⟩

theorem modelTensor_form {ds : ℤ}
    {e : (ℤ × Which) × ModelSlice} (he : modelTensor v ds t m = some e) :
    e.2.type = t.type ∧ e.2.dims = t.dims := by
  unfold modelTensor at he
  obtain ⟨layer, -, he⟩ := Option.bind_eq_some_iff.mp he
  obtain ⟨d, -, he⟩ := Option.bind_eq_some_iff.mp he
  split_ifs at he
  obtain ⟨total, -, he⟩ := Option.bind_eq_some_iff.mp he
  obtain ⟨size, -, he⟩ := Option.bind_eq_some_iff.mp he
  obtain rfl := Option.some.inj he
  exact ⟨rfl, rfl⟩

theorem forall_mapM_iff {α β : Type*} {f : α → Option β} {l : List α} {ys : List β}
    (h : l.mapM f = some ys) {P : β → Prop} {Q : α → Prop} (hPQ : ∀ a y, f a = some y → (P y ↔ Q a)) :
    (∀ y ∈ ys, P y) ↔ ∀ a ∈ l, Q a := by
  induction l generalizing ys with
  | nil =>
    obtain rfl := Option.some.inj h
    exact iff_of_true (fun y hy => absurd hy List.not_mem_nil) fun a ha => absurd ha List.not_mem_nil
  | cons a l ih =>
    rw [List.mapM_cons] at h
    obtain ⟨y, hy, h⟩ := Option.bind_eq_some_iff.mp h
    obtain ⟨rest, hrest, h⟩ := Option.bind_eq_some_iff.mp h
    obtain rfl := Option.some.inj h
    rw [List.forall_mem_cons, List.forall_mem_cons, hPQ a y hy, ih hrest]

theorem forall_experts_iff {α : Type*} {find : String → Option α} {tensors : List RawTensor}
    {Q : RawTensor → Prop} :
    (∀ e ∈ tensors.filterMap (fun t => (find t.name).map fun m => (t, m)), Q e.1) ↔
      ∀ t ∈ tensors, (find t.name).isSome = true → Q t := by
  constructor
  · intro h t ht hsome
    obtain ⟨m, hm⟩ := Option.isSome_iff_exists.mp hsome
    exact h (t, m) (List.mem_filterMap.mpr ⟨t, ht, by rw [hm, Option.map_some]⟩)
  · intro h e he
    obtain ⟨t, ht, heq⟩ := List.mem_filterMap.mp he
    obtain ⟨m, hm, rfl⟩ := Option.map_eq_some_iff.mp heq
    exact h t ht (Option.isSome_iff_exists.mpr ⟨m, hm⟩)

section
variable {spell : Value → String} {h : Header}

theorem topology_cuts {l : Layout} (hl : topology spell h = some l) :
    (∀ e ∈ l.slice, CutBetweenBlocks l.nExpert e.2.perExpert e.2.type e.2.dims) ↔
      ∀ t ∈ h.tensors, (expertTensor t.name).isSome = true →
        WholeExperts t.type t.dims ∧ ExactExtent t.type t.dims := by
  unfold topology at hl
  obtain ⟨v, hv, hl⟩ := Option.bind_eq_some_iff.mp hl
  by_cases htruthy : v.truthy = true
  · rw [if_pos htruthy] at hl
    obtain ⟨stored, hstored, hl⟩ := Option.bind_eq_some_iff.mp hl
    unfold summary at hl
    obtain ⟨first, -, hl⟩ := Option.bind_eq_some_iff.mp hl
    obtain ⟨n, hn, hl⟩ := Option.bind_eq_some_iff.mp hl
    obtain rfl := Option.some.inj hl
    refine (forall_mapM_iff hstored ?_).trans (forall_experts_iff (Q := fun t =>
      WholeExperts t.type t.dims ∧ ExactExtent t.type t.dims))
    intro a e he
    obtain ⟨htype, hdims⟩ := sliceTensor_form he
    rw [htype, hdims]
    exact sliceTensor_cut htruthy hn he
  · rw [if_neg htruthy] at hl
    cases hl

theorem modelOf_cuts {m : Model} (hm : modelOf spell h = some m) :
    (∀ e ∈ m.slice, CutBetweenBlocks m.nExpert.amount e.2.perExpert e.2.type e.2.dims) ↔
      ∀ t ∈ h.tensors, (expertParts t.name).isSome = true →
        WholeExperts t.type t.dims ∧ (m.nExpert.IsFloat → ExactExtent t.type t.dims) := by
  unfold modelOf at hm
  obtain ⟨ds, -, hm⟩ := Option.bind_eq_some_iff.mp hm
  obtain ⟨v, hv, hm⟩ := Option.bind_eq_some_iff.mp hm
  by_cases htruthy : v.pyTruthy = true
  · rw [if_pos htruthy] at hm
    obtain ⟨stored, hstored, hm⟩ := Option.bind_eq_some_iff.mp hm
    unfold summarise at hm
    obtain ⟨first, -, hm⟩ := Option.bind_eq_some_iff.mp hm
    obtain rfl := Option.some.inj hm
    refine (forall_mapM_iff hstored ?_).trans (forall_experts_iff (Q := fun t =>
      WholeExperts t.type t.dims ∧ (v.IsFloat → ExactExtent t.type t.dims)))
    intro a e he
    obtain ⟨htype, hdims⟩ := modelTensor_form he
    rw [htype, hdims]
    exact modelTensor_cut htruthy he
  · rw [if_neg htruthy] at hm
    cases hm

end

/-- Of a header that either program accepts, every expert tensor is cut between two blocks, and its
experts end where it does, exactly if one expert of each is whole blocks and the size of each is
computed without rounding; where the number of experts is no float, `Model` never rounds. -/
theorem expert_cuts_iff (js py : Value → String) (h : Header) :
    (∀ l, topology js h = some l →
      ((∀ e ∈ l.slice, CutBetweenBlocks l.nExpert e.2.perExpert e.2.type e.2.dims) ↔
        ∀ t ∈ h.tensors, (expertTensor t.name).isSome = true →
          WholeExperts t.type t.dims ∧ ExactExtent t.type t.dims)) ∧
    (∀ m, modelOf py h = some m →
      ((∀ e ∈ m.slice, CutBetweenBlocks m.nExpert.amount e.2.perExpert e.2.type e.2.dims) ↔
        ∀ t ∈ h.tensors, (expertParts t.name).isSome = true →
          WholeExperts t.type t.dims ∧ (m.nExpert.IsFloat → ExactExtent t.type t.dims))) :=
  ⟨fun _ hl => topology_cuts hl, fun _ hm => modelOf_cuts hm⟩

theorem small_whole : ∀ t ∈ smallInfos, WholeExperts t.type t.dims ∧ ExactExtent t.type t.dims := by
  intro t ht
  obtain ⟨hdims, htype, -⟩ := small_infos_form t ht
  rw [hdims, htype]
  refine ⟨⟨(1, 4), rfl, by decide⟩, 16, representable_of_lt (by norm_num), ?_⟩
  norm_num [extent, ggmlTypes]

/-- The small file: both programs accept it, and cut it between blocks. -/
theorem expert_cuts_small :
    (∃ l, topology (fun _ => "") (smallHeader smallInfos) = some l ∧
      ∀ e ∈ l.slice, CutBetweenBlocks l.nExpert e.2.perExpert e.2.type e.2.dims) ∧
    (∃ m, modelOf (fun _ => "") (smallHeader smallInfos) = some m ∧
      ∀ e ∈ m.slice, CutBetweenBlocks m.nExpert.amount e.2.perExpert e.2.type e.2.dims) := by
  obtain ⟨hjs, hpy⟩ := expert_cuts_iff (fun _ => "") (fun _ => "") (smallHeader smallInfos)
  have haccepted := small_accepted small_checks.2.1
  have hmodel : (modelOf (fun _ => "") (smallHeader smallInfos)).isSome = true := by
    rw [small_header_fits.topology_eq, Option.isSome_map] at haccepted
    exact haccepted
  obtain ⟨l, hl⟩ := Option.isSome_iff_exists.mp haccepted
  obtain ⟨m, hm⟩ := Option.isSome_iff_exists.mp hmodel
  refine ⟨⟨l, hl, (hjs l hl).mpr fun t ht _ => small_whole t ht⟩, m, hm, (hpy m hm).mpr ?_⟩
  exact fun t ht _ => ⟨(small_whole t ht).1, fun _ => (small_whole t ht).2⟩

/-- Two experts that share one block of `Q4_K`: 144 bytes, 72 for each. -/
def halfInfos : List RawTensor := smallInfos.map fun t => { t with dims := [128, 1, 2], type := 12 }

theorem half_accepted :
    layerStored halfInfos = true ∧
      (modelOf (fun _ => "") (smallHeader halfInfos)).isSome = true := by
  decide +kernel

theorem half_not_whole (ht : t ∈ halfInfos) : ¬ WholeExperts t.type t.dims := by
  obtain ⟨t', -, rfl⟩ := List.mem_map.mp ht
  rintro ⟨block, hblock, hdvd⟩
  obtain rfl := Option.some.inj hblock
  have hdvd' : 256 ∣ 128 := hdvd
  exact absurd hdvd' (by decide)

/-- Both programs accept the header, though the cut between the experts is inside the block. -/
theorem half_block_accepted :
    (¬ ∀ (spell : Value → String) (h : Header) (l : Layout), topology spell h = some l →
      ∀ e ∈ l.slice, CutBetweenBlocks l.nExpert e.2.perExpert e.2.type e.2.dims) ∧
    (¬ ∀ (spell : Value → String) (h : Header) (m : Model), modelOf spell h = some m →
      ∀ e ∈ m.slice, CutBetweenBlocks m.nExpert.amount e.2.perExpert e.2.type e.2.dims) := by
  have hgate : { smallTensor "0" .gate 0 with dims := [128, 1, 2], type := 12 } ∈ halfInfos :=
    List.mem_cons_self
  have hnames : (expertTensor (smallTensor "0" .gate 0).name).isSome = true ∧
      (expertParts (smallTensor "0" .gate 0).name).isSome = true := by decide
  constructor
  · intro hall
    obtain ⟨l, hl⟩ := Option.isSome_iff_exists.mp (small_accepted half_accepted.1)
    have hcuts := (topology_cuts hl).mp (hall _ _ l hl)
    exact half_not_whole hgate (hcuts _ hgate hnames.1).1
  · intro hall
    obtain ⟨m, hm⟩ := Option.isSome_iff_exists.mp half_accepted.2
    have hcuts := (modelOf_cuts hm).mp (hall _ _ m hm)
    exact half_not_whole hgate (hcuts _ hgate hnames.2).1

end KvasirNet.Gguf
