import KvasirNet.GgufModel
import KvasirNet.GgufWrite

/-! The two programs tell the same of a file whose header both read alike: plain
layer numbers, an alignment that is an integer, a count of experts that is a
number, and sizes that a double holds. -/
namespace KvasirNet.Gguf

/-! ## Names -/

theorem find_tensor {w : Which} {p : Which → Bool} (hw : p w = true)
    (honly : ∀ v, p v = true → v = w) : expertTensors.find? p = some w := by
  cases hf : expertTensors.find? p with
  | none =>
    have hnone := List.find?_eq_none.mp hf w (by cases w <;> decide)
    exact absurd hw hnone
  | some v => rw [honly v (List.find?_some hf)]

theorem tensor_injective : Function.Injective Which.tensor := by
  intro v w h
  cases v <;> cases w <;> first | rfl | exact absurd h (by decide)

theorem point_notMem_tensor (w : Which) : '.' ∉ w.tensor.toList := by
  cases w <;> decide

variable {digits : List Char}

theorem splitOn_name (hdigits : '.' ∉ digits) (w : Which) :
    ("blk".toList ++ '.' :: (digits ++ '.' :: (w.tensor.toList ++ '.' :: "weight".toList))).splitOn '.' =
      ["blk".toList, digits, w.tensor.toList, "weight".toList] := by
  rw [List.splitOn_append_cons_self, List.splitOn_append_cons_self, List.splitOn_append_cons_self,
    List.splitOn_eq_singleton (by decide), List.splitOn_eq_singleton hdigits,
    List.splitOn_eq_singleton (point_notMem_tensor w), List.splitOn_eq_singleton (by decide)]
  rfl

theorem point_notMem_digits (h : digits.all Char.isDigit = true) :
    '.' ∉ digits := by
  intro hmem
  have hdigit := List.all_eq_true.mp h '.' hmem
  exact absurd hdigit (by decide)

theorem expertParts_form (hdigits : '.' ∉ digits) (w : Which) {name : String}
    (hname : name.toList =
      "blk".toList ++ '.' :: (digits ++ '.' :: (w.tensor.toList ++ '.' :: "weight".toList))) :
    expertParts name = some (digits, w) := by
  have hstart : "blk.".toList <+: name.toList := by
    rw [hname]
    exact ⟨_, rfl⟩
  have hfind : expertTensors.find? (fun v => decide (w.tensor.toList = v.tensor.toList)) = some w := by
    apply find_tensor (by simp)
    intro v hv
    exact (tensor_injective (String.toList_injective (of_decide_eq_true hv))).symm
  rw [expertParts, if_pos hstart, hname, splitOn_name hdigits]
  simp only [if_true, hfind]
  rfl

variable {m : List Char × Which}

theorem expertParts_of_expertTensor {name : String}
    (h : expertTensor name = some m) : expertParts name = some m := by
  unfold expertTensor at h
  split at h
  · rename_i cs hcs
    split_ifs at h with hempty
    obtain ⟨w, hw, rfl⟩ := Option.map_eq_some_iff.mp h
    have hfound := List.find?_some hw
    have hrest : cs.dropWhile Char.isDigit = '.' :: (w.tensor.toList ++ ".weight".toList) :=
      of_decide_eq_true hfound
    have hall : (cs.takeWhile Char.isDigit).all Char.isDigit = true := List.all_takeWhile
    apply expertParts_form (point_notMem_digits hall) w
    have hjoin : cs = cs.takeWhile Char.isDigit ++ '.' :: (w.tensor.toList ++ ".weight".toList) := by
      rw [← hrest]
      exact List.takeWhile_append_dropWhile.symm
    rw [hcs]
    exact congrArg (fun x => 'b' :: 'l' :: 'k' :: '.' :: x) hjoin
  · cases h

theorem expertTensor_of_expertParts {name : String}
    (h : expertParts name = some m) (hne : m.1 ≠ []) (hdigits : m.1.all Char.isDigit = true) :
    expertTensor name = some m := by
  unfold expertParts at h
  split_ifs at h with hstart
  obtain ⟨rest, hrest⟩ := hstart
  split at h
  · rename_i start layer which tail hsplit
    split_ifs at h with htail
    obtain ⟨w, hw, rfl⟩ := Option.map_eq_some_iff.mp h
    have hfound := List.find?_some hw
    have hwhich : which = w.tensor.toList := of_decide_eq_true hfound
    have hname : name.toList = "blk".toList ++ '.' :: rest := by rw [← hrest]; rfl
    -- behind the prefix stand the other three parts
    have hparts : rest.splitOn '.' = [layer, which, tail] := by
      rw [hname, List.splitOn_append_cons_self, List.splitOn_eq_singleton (by decide)] at hsplit
      exact (List.cons.inj hsplit).2
    have hjoin : rest = layer ++ '.' :: (which ++ '.' :: tail) := by
      have hback : ['.'].intercalate (rest.splitOn '.') = rest := List.intercalate_splitOn '.'
      rw [hparts] at hback
      simpa [List.intercalate] using hback.symm
    have hdigit : ∀ c ∈ layer, c.isDigit = true := List.all_eq_true.mp hdigits
    have hweight : ".weight".toList = '.' :: "weight".toList := by decide
    have htake : rest.takeWhile Char.isDigit = layer := by
      rw [hjoin, List.takeWhile_append_of_pos hdigit, List.takeWhile_cons_of_neg (by decide),
        List.append_nil]
    have hdrop : rest.dropWhile Char.isDigit = '.' :: (w.tensor.toList ++ ".weight".toList) := by
      rw [hjoin, List.dropWhile_append_of_pos hdigit, List.dropWhile_cons_of_neg (by decide), hwhich,
        htail, hweight]
    have hfind : expertTensors.find? (fun v =>
        decide (rest.dropWhile Char.isDigit = '.' :: (v.tensor.toList ++ ".weight".toList))) =
        some w := by
      apply find_tensor (decide_eq_true hdrop)
      intro v hv
      have htext := of_decide_eq_true hv
      rw [hdrop, List.cons_inj_right] at htext
      exact (tensor_injective (String.toList_injective (List.append_cancel_right htext))).symm
    have hlist : name.toList = 'b' :: 'l' :: 'k' :: '.' :: rest := hname
    unfold expertTensor
    rw [hlist]
    simp only [htake, if_neg hne, hfind]
    rfl
  · cases h

/-- A tensor's layer, where the name has one, is a plain number that a double
holds and that `int` takes. -/
def PlainLayer (t : RawTensor) : Prop :=
  ∀ m, expertParts t.name = some m → m.1 ≠ [] ∧ m.1.all Char.isDigit = true ∧
    m.1.length ≤ maxStrDigits ∧ Nat.ofDigitChars 10 m.1 0 < 2 ^ 53

variable {t : RawTensor}

theorem PlainLayer.expertTensor_eq (h : PlainLayer t) :
    expertTensor t.name = expertParts t.name := by
  cases hp : expertParts t.name with
  | some m =>
    obtain ⟨hne, hdigits, -, -⟩ := h m hp
    exact expertTensor_of_expertParts hp hne hdigits
  | none =>
    cases ht : expertTensor t.name with
    | none => rfl
    | some m =>
      rw [expertParts_of_expertTensor ht] at hp
      cases hp

/-! ## Layers -/

theorem decimalDigit_of_isDigit {c : Char} (h : c.isDigit = true) :
    decimalDigit c = some (c.toNat - 48) := by
  obtain ⟨hlo, hhi⟩ := isDigit_bounds h
  have hfirst : (decide (48 ≤ c.toNat) && decide (c.toNat < 48 + 10)) = true := by
    simp only [Bool.and_eq_true, decide_eq_true_eq]
    omega
  obtain ⟨zs, hzs⟩ : ∃ zs, decimalZeros = 48 :: zs := ⟨_, rfl⟩
  rw [decimalDigit, hzs, List.find?_cons, hfirst]
  rfl

variable {cs : List Char}

theorem digitsFrom_eq (h : ∀ c ∈ cs, c.isDigit = true) (acc : ℕ) :
    digitsFrom acc true cs = some (Nat.ofDigitChars 10 cs acc) := by
  induction cs generalizing acc with
  | nil => rfl
  | cons c cs ih =>
    have hc := h c List.mem_cons_self
    have hunder : c ≠ '_' := ne_of_digit hc (by decide)
    have hrest := ih (fun d hd => h d (List.mem_cons_of_mem c hd)) (10 * acc + (c.toNat - 48))
    rw [digitsFrom, if_neg hunder, decimalDigit_of_isDigit hc, Option.bind_some, hrest,
      Nat.ofDigitChars_cons]
    rfl

theorem strip_digits (h : ∀ c ∈ cs, c.isDigit = true) : strip cs = cs := by
  have hspace : ∀ c ∈ cs, isSpace c = false := by
    intro c hc
    obtain ⟨hlo, hhi⟩ := isDigit_bounds (h c hc)
    simp only [isSpace, Bool.or_eq_false_iff, Bool.and_eq_false_iff, decide_eq_false_iff_not, beq_eq_false_iff_ne]
    omega
  have hdrop : ∀ l : List Char, (∀ c ∈ l, isSpace c = false) → l.dropWhile isSpace = l := by
    intro l hl
    cases l with
    | nil => rfl
    | cons c l => rw [List.dropWhile_cons_of_neg (by simp [hl c List.mem_cons_self])]
  rw [strip, hdrop cs hspace, hdrop cs.reverse fun c hc => hspace c (List.mem_reverse.mp hc),
    List.reverse_reverse]

theorem pyInt_digits (hne : cs ≠ []) (h : cs.all Char.isDigit = true)
    (hlen : cs.length ≤ maxStrDigits) : pyInt cs = some (Nat.ofDigitChars 10 cs 0 : ℤ) := by
  have hdigit : ∀ c ∈ cs, c.isDigit = true := List.all_eq_true.mp h
  have hunsigned : unsignedInt cs = some (Nat.ofDigitChars 10 cs 0) := by
    rw [unsignedInt, if_pos ((List.length_filter_le _ _).trans hlen)]
    cases cs with
    | nil => exact absurd rfl hne
    | cons c cs =>
      have hc := hdigit c List.mem_cons_self
      have hunder : c ≠ '_' := ne_of_digit hc (by decide)
      have hrest := digitsFrom_eq (fun d hd => hdigit d (List.mem_cons_of_mem c hd))
        (10 * 0 + (c.toNat - 48))
      rw [digitsFrom, if_neg hunder, decimalDigit_of_isDigit hc, Option.bind_some, hrest,
        Nat.ofDigitChars_cons]
      rfl
  unfold pyInt
  rw [strip_digits hdigit]
  split
  · exact absurd (hdigit '+' List.mem_cons_self) (by decide)
  · exact absurd (hdigit '-' List.mem_cons_self) (by decide)
  · rw [hunsigned]
    rfl

/-! ## Where the data starts -/

/-- The header's alignment is missing, a nonzero integer, or `true`. -/
def PlainAlignment (h : Header) : Prop :=
  h.get "general.alignment" = none ∨
    (∃ a : ℤ, a ≠ 0 ∧ |a| < 2 ^ 53 ∧ h.get "general.alignment" = some (.int a)) ∨
    h.get "general.alignment" = some (.bool true)

theorem ceil_eq_neg_fdiv_of_pos (n : ℤ) {a : ℤ} (ha : 0 < a) :
    ⌈(n : ℚ) / a⌉ = -(Int.fdiv (-n) a) := by
  have hsplit : a * Int.fdiv (-n) a + Int.fmod (-n) a = -n := Int.mul_fdiv_add_fmod (-n) a
  have hcast : (a : ℚ) * ((Int.fdiv (-n) a : ℤ) : ℚ) + ((Int.fmod (-n) a : ℤ) : ℚ) = -n := by
    exact_mod_cast hsplit
  have haq : (0 : ℚ) < a := by exact_mod_cast ha
  have hlo : (0 : ℚ) ≤ ((Int.fmod (-n) a : ℤ) : ℚ) := by
    exact_mod_cast Int.fmod_nonneg_of_pos (-n) ha
  have hhi : ((Int.fmod (-n) a : ℤ) : ℚ) < a := by exact_mod_cast Int.fmod_lt_of_pos (-n) ha
  apply Int.ceil_eq_iff.mpr
  push_cast
  constructor
  · rw [lt_div_iff₀ haq]
    linarith
  · rw [div_le_iff₀ haq]
    linarith

theorem ceil_eq_neg_fdiv (n : ℤ) {a : ℤ} (ha : a ≠ 0) : ⌈(n : ℚ) / a⌉ = -(Int.fdiv (-n) a) := by
  rcases lt_or_gt_of_ne ha with hneg | hpos
  · have hflip := ceil_eq_neg_fdiv_of_pos (-n) (a := -a) (by omega)
    have hquot : ((-n : ℤ) : ℚ) / ((-a : ℤ) : ℚ) = (n : ℚ) / a := by
      push_cast
      exact neg_div_neg_eq _ _
    rw [hquot, Int.neg_fdiv_neg] at hflip
    exact hflip
  · exact ceil_eq_neg_fdiv_of_pos n hpos

theorem alignUp_bounds {n a : ℤ} (hn : 0 ≤ n) (ha : a ≠ 0) :
    0 ≤ alignUp n a ∧ alignUp n a < n + |a| := by
  have hceil := Int.ceil_eq_iff.mp (ceil_eq_neg_fdiv n ha)
  have hnq : (0 : ℚ) ≤ n := by exact_mod_cast hn
  have hvalue : ((alignUp n a : ℤ) : ℚ) = ((-(Int.fdiv (-n) a) : ℤ) : ℚ) * a := by
    rw [alignUp, Int.cast_mul]
  have hgoal : (0 : ℚ) ≤ ((alignUp n a : ℤ) : ℚ) ∧
      ((alignUp n a : ℤ) : ℚ) < (n : ℚ) + |(a : ℚ)| := by
    rw [hvalue]
    rcases lt_or_gt_of_ne ha with hneg | hpos
    · have haq : (a : ℚ) < 0 := by exact_mod_cast hneg
      rw [abs_of_neg haq]
      have hle := (div_le_iff_of_neg haq).mp hceil.2
      have hzero : (n : ℚ) / a ≤ 0 := div_nonpos_of_nonneg_of_nonpos hnq haq.le
      -- between `n / a ≤ 0` and one more there is no positive integer
      have hk : ((-(Int.fdiv (-n) a) : ℤ) : ℚ) ≤ 0 := by
        have hlt : ((-(Int.fdiv (-n) a) : ℤ) : ℚ) < 1 := by linarith [hceil.1]
        have hint : -(Int.fdiv (-n) a) < 1 := by exact_mod_cast hlt
        have hint' : -(Int.fdiv (-n) a) ≤ 0 := by omega
        exact_mod_cast hint'
      exact ⟨mul_nonneg_of_nonpos_of_nonpos hk haq.le, by linarith⟩
    · have haq : (0 : ℚ) < a := by exact_mod_cast hpos
      rw [abs_of_pos haq]
      have hlo := (div_le_iff₀ haq).mp hceil.2
      have hhi := (lt_div_iff₀ haq).mp hceil.1
      exact ⟨by linarith, by linarith⟩
  exact ⟨by exact_mod_cast hgoal.1, by exact_mod_cast hgoal.2⟩

theorem align_number {n : ℕ} {a : ℤ} (hn : n < 2 ^ 53) (ha0 : a ≠ 0) (ha : |a| < 2 ^ 53)
    (hfit : alignUp n a < 2 ^ 53) :
    ((Num.ofNat n).div (.fin a)).ceil.mul (.fin a) = .fin (alignUp n a) := by
  have hnabs : |(n : ℤ)| < 2 ^ 53 := by
    rw [Nat.abs_cast]
    exact_mod_cast hn
  obtain ⟨x, hx, hceil⟩ := ceil_double_div hnabs ha0 ha
  have haq : (a : ℚ) ≠ 0 := by exact_mod_cast ha0
  have hdiv : (Num.ofNat n).div (.fin a) = .fin x := by
    rw [Num.ofNat, Num.div, if_neg haq]
    exact_mod_cast hx
  have hprod : ((⌈x⌉ : ℤ) : ℚ) * a = ((alignUp n a : ℤ) : ℚ) := by
    rw [hceil, ceil_eq_neg_fdiv _ ha0, alignUp, Int.cast_mul]
  have hbound : |alignUp n a| < 2 ^ 53 := by
    rw [abs_of_nonneg (alignUp_bounds (Int.natCast_nonneg n) ha0).1]
    exact hfit
  rw [hdiv, Num.ceil, Num.mul, hprod, double_intCast hbound]

theorem dataStart_eq {h : Header} (hplain : PlainAlignment h) (hend : h.headerEnd < 2 ^ 53)
    (hfit : ∀ ds, h.modelDataStart = some ds → ds < 2 ^ 53) :
    ∃ ds, h.modelDataStart = some ds ∧ 0 ≤ ds ∧ h.dataStart = .fin ds := by
  -- the alignment that both come to
  obtain ⟨a, ha0, ha, hpy, hjs⟩ : ∃ a : ℤ, a ≠ 0 ∧ |a| < 2 ^ 53 ∧
      h.modelDataStart = (if alignUp h.headerEnd a < 2 ^ 63 then some (alignUp h.headerEnd a) else none) ∧
      h.dataStart = ((Num.ofNat h.headerEnd).div (.fin a)).ceil.mul (.fin a) := by
    rcases hplain with hnone | ⟨a, ha0, ha, hint⟩ | htrue
    · refine ⟨32, by decide, by decide, ?_, ?_⟩
      · simp [Header.modelDataStart, hnone]
      · simp [Header.dataStart, hnone]
    · refine ⟨a, ha0, ha, ?_, ?_⟩
      · simp [Header.modelDataStart, hint, ha0]
      · simp [Header.dataStart, hint, Value.number]
    · refine ⟨1, by decide, by decide, ?_, ?_⟩
      · simp [Header.modelDataStart, htrue]
      · simp [Header.dataStart, htrue, Value.number]
  obtain ⟨hnonneg, hlt⟩ := alignUp_bounds (Int.natCast_nonneg h.headerEnd) ha0
  have hseek : alignUp h.headerEnd a < 2 ^ 63 := by omega
  rw [if_pos hseek] at hpy
  exact ⟨_, hpy, hnonneg, hjs.trans (align_number hend ha0 ha (hfit _ hpy))⟩

/-! ## Sizes -/

/-- The element counts of a tensor on the way to its size, and the size, are held
by a double. -/
structure SmallSize (t : RawTensor) : Prop where
  elems : ∀ k, (t.dims.take k).foldl (· * ·) 1 < 2 ^ 53
  bytes : ∀ n, modelTensorBytes t = some n → n < 2 ^ 53

theorem ggmlTypes_pos {type blockElems blockBytes : ℕ}
    (h : ggmlTypes type = some (blockElems, blockBytes)) : 0 < blockElems := by
  unfold ggmlTypes at h
  split at h <;> cases h <;> decide

theorem foldl_mul_ofNat (dims : List ℕ) (acc : ℕ)
    (h : ∀ k, (dims.take k).foldl (· * ·) acc < 2 ^ 53) :
    dims.foldl (fun (a : Num) b => a.mul (.ofNat b)) (.ofNat acc) =
      .ofNat (dims.foldl (· * ·) acc) := by
  induction dims generalizing acc with
  | nil => rfl
  | cons d dims ih =>
    have hfirst : acc * d < 2 ^ 53 := by simpa using h 1
    have hrest : ∀ k, (dims.take k).foldl (· * ·) (acc * d) < 2 ^ 53 := fun k => h (k + 1)
    rw [List.foldl_cons, List.foldl_cons, Num.mul_ofNat hfirst, ih _ hrest]

theorem tensorBytes_eq (h : SmallSize t) :
    tensorBytes t = (modelTensorBytes t).map Num.ofNat := by
  have hbytes := h.bytes
  have helems : t.dims.foldl (· * ·) 1 < 2 ^ 53 := by
    have hall := h.elems t.dims.length
    rwa [List.take_length] at hall
  unfold tensorBytes
  unfold modelTensorBytes at hbytes ⊢
  cases htype : ggmlTypes t.type with
  | none => rfl
  | some block =>
    obtain ⟨blockElems, blockBytes⟩ := block
    have hpos := ggmlTypes_pos htype
    simp only [htype, Option.bind_eq_bind, Option.bind_some] at hbytes ⊢
    rw [foldl_mul_ofNat _ _ h.elems, Num.rem_ofNat hpos]
    by_cases hmod : t.dims.foldl (· * ·) 1 % blockElems = 0
    · have hdvd : blockElems ∣ t.dims.foldl (· * ·) 1 := Nat.dvd_of_mod_eq_zero hmod
      rw [if_pos hmod] at hbytes ⊢
      rw [hmod, if_pos (Num.ofNat_eq_zero.mpr rfl), Num.div_ofNat helems hpos hdvd,
        Num.mul_ofNat (hbytes _ rfl)]
      rfl
    · rw [if_neg hmod, if_neg (fun hzero => hmod (Num.ofNat_eq_zero.mp hzero))]
      rfl

theorem perExpert_int {total d : ℕ} :
    perExpert total (.int d) = if total % d = 0 then some (.ofNat (total / d)) else none := by
  have hmod : ((total : ℤ) % (d : ℤ) = 0) ↔ total % d = 0 := by
    rw [← Int.natCast_mod]
    exact Int.natCast_eq_zero
  have hdiv : ((((total : ℤ) / (d : ℤ) : ℤ)) : ℚ) = ((total / d : ℕ) : ℚ) := by
    rw [← Int.natCast_div]
    exact Int.cast_natCast _
  simp only [perExpert, hmod, hdiv, Num.ofNat]

theorem perExpert_float {total d : ℕ} (htotal : total < 2 ^ 53) (hd : 0 < d) :
    perExpert total (.float (.ofNat d)) =
      if total % d = 0 then some (.ofNat (total / d)) else none := by
  simp only [perExpert, Num.double_natCast htotal, Num.rem_ofNat hd, Num.ofNat_eq_zero]
  by_cases hmod : total % d = 0
  · rw [if_pos hmod, if_pos hmod, Num.div_ofNat htotal hd (Nat.dvd_of_mod_eq_zero hmod)]
    change some (Num.fin ((⌊((total / d : ℕ) : ℚ)⌋ : ℤ) : ℚ)) = _
    rw [Int.floor_natCast, Int.cast_natCast]
    rfl
  · rw [if_neg hmod, if_neg hmod]

/-- A count of experts that is not `true`, and not zero. -/
def CountsExperts (v : Value) : Prop := v ≠ .bool true ∧ v.pyTruthy = true

theorem count_eq {v : Value} (hv : CountsExperts v) (last : ℕ) :
    (v.isNumber = some (.ofNat last) ∧ equalsNat last v = true ∧ 0 < last ∧
      (v = .int last ∨ v = .float (.ofNat last))) ∨
    (v.isNumber ≠ some (.ofNat last) ∧ equalsNat last v = false) := by
  obtain ⟨htrue, htruthy⟩ := hv
  cases v with
  | int n =>
    by_cases hn : n = last
    · subst hn
      left
      refine ⟨rfl, by simp [equalsNat], ?_, Or.inl rfl⟩
      simpa [Value.pyTruthy, Nat.pos_iff_ne_zero] using htruthy
    · right
      refine ⟨fun h => hn ?_, by simpa [equalsNat] using hn⟩
      have hq : (n : ℚ) = ((last : ℤ) : ℚ) := by
        have hfin := Num.fin.inj (Option.some.inj h)
        exact_mod_cast hfin
      exact_mod_cast hq
  | float x =>
    by_cases hx : x = .ofNat last
    · subst hx
      left
      refine ⟨rfl, by simp [equalsNat], ?_, Or.inr rfl⟩
      have hne : Num.ofNat last ≠ .fin 0 := by simpa [Value.pyTruthy] using htruthy
      rw [ne_eq, Num.ofNat_eq_zero] at hne
      exact Nat.pos_of_ne_zero hne
    · right
      exact ⟨fun h => hx (Option.some.inj h), by simpa [equalsNat] using hx⟩
  | bool b =>
    cases b with
    | true => exact absurd rfl htrue
    | false => cases htruthy
  | str s => exact Or.inr ⟨fun h => (nomatch h), rfl⟩
  | list xs => exact Or.inr ⟨fun h => (nomatch h), rfl⟩

theorem sliceTensor_eq {v : Value} {ds : ℤ}
    (hv : CountsExperts v) (hname : expertParts t.name = some m) (hplain : PlainLayer t)
    (hsmall : SmallSize t) (hds : 0 ≤ ds) (hoffset : ds + t.offset < 2 ^ 53) :
    sliceTensor v (.fin ds) t m = (modelTensor v ds t m).map viewSlice := by
  obtain ⟨hne, hdigits, hlen, hlayer⟩ := hplain m hname
  have hint := pyInt_digits hne hdigits hlen
  have hnumber : double (Nat.ofDigitChars 10 m.1 0 : ℚ) = .ofNat (Nat.ofDigitChars 10 m.1 0) :=
    Num.double_natCast hlayer
  have hkey : Num.fin (((Nat.ofDigitChars 10 m.1 0 : ℕ) : ℤ) : ℚ) = .ofNat (Nat.ofDigitChars 10 m.1 0) := by
    rw [Int.cast_natCast]
    rfl
  have hadd : (Num.fin ds).add (.ofNat t.offset) = .fin ((ds + t.offset : ℤ) : ℚ) := by
    have habs : |ds + t.offset| < 2 ^ 53 := by
      rw [abs_of_nonneg (by omega)]
      exact hoffset
    rw [Num.ofNat, Num.add, ← double_intCast habs]
    push_cast
    rfl
  unfold sliceTensor modelTensor
  cases hlast : t.dims.getLast? with
  | none => simp [hint]
  | some last =>
    rcases count_eq hv last with ⟨hnum, heq, hpos, hform⟩ | ⟨hnum, heq⟩
    · cases htotal : modelTensorBytes t with
      | none => simp [hint, hnum, tensorBytes_eq hsmall, htotal]
      | some total =>
        have hper : perExpert total v = if total % last = 0 then some (.ofNat (total / last)) else none := by
          rcases hform with rfl | rfl
          · exact perExpert_int
          · exact perExpert_float (hsmall.bytes _ htotal) hpos
        by_cases hmod : total % last = 0
        · have hdiv := Num.div_ofNat (hsmall.bytes _ htotal) hpos (Nat.dvd_of_mod_eq_zero hmod)
          simp only [hint, hnum, heq, tensorBytes_eq hsmall, htotal, hper, hmod, hdiv, hadd, hnumber,
            Num.rem_ofNat hpos, Num.ofNat_eq_zero, viewSlice, hkey, Option.bind_eq_bind,
            Option.bind_some, Option.map_some, if_true]
        · simp [hint, hnum, tensorBytes_eq hsmall, htotal, hper, hmod, Num.rem_ofNat hpos,
            Num.ofNat_eq_zero]
    · cases hn : v.isNumber with
      | none => simp [hint, heq]
      | some n =>
        have hne : n ≠ .ofNat last := fun h => hnum (by rw [hn, h])
        simp [hint, heq, hne]

/-! ## Maps -/

theorem mapM_eq_map {α β γ : Type*} {f : α → Option β} {g : α → Option γ} {view : γ → β}
    {l : List α} (h : ∀ a ∈ l, f a = (g a).map view) :
    l.mapM f = (l.mapM g).map (List.map view) := by
  induction l with
  | nil => rfl
  | cons a l ih =>
    have hrest := ih fun b hb => h b (List.mem_cons_of_mem a hb)
    rw [List.mapM_cons, List.mapM_cons, h a List.mem_cons_self, hrest]
    cases g a with
    | none => rfl
    | some c =>
      cases l.mapM g with
      | none => rfl
      | some cs => rfl

theorem mem_of_mapM {α β : Type*} {f : α → Option β} {l : List α} {ys : List β}
    (h : l.mapM f = some ys) {y : β} (hy : y ∈ ys) : ∃ a ∈ l, f a = some y := by
  induction l generalizing ys with
  | nil =>
    cases h
    cases hy
  | cons a l ih =>
    rw [List.mapM_cons] at h
    obtain ⟨b, hb, h⟩ := Option.bind_eq_some_iff.mp h
    obtain ⟨bs, hbs, h⟩ := Option.bind_eq_some_iff.mp h
    cases h
    rcases List.mem_cons.mp hy with rfl | hold
    · exact ⟨a, List.mem_cons_self, hb⟩
    · obtain ⟨a', ha', hf⟩ := ih hbs hold
      exact ⟨a', List.mem_cons_of_mem a ha', hf⟩

theorem lastAt_view (entries : List ((ℤ × Which) × ModelSlice)) (layer : ℤ) (w : Which) :
    lastAt (entries.map viewSlice) (.fin layer, w) =
      (lastAt entries (layer, w)).map fun s => ⟨.fin s.offset, s.perExpert, s.type, s.dims⟩ := by
  have hsame : ∀ e : (ℤ × Which) × ModelSlice,
      decide ((viewSlice e).1 = (.fin layer, w)) = decide (e.1 = (layer, w)) := by
    intro e
    simp [viewSlice, Prod.ext_iff]
  rw [lastAt, lastAt, ← List.map_reverse, List.find?_map]
  simp only [Function.comp_def, hsame, Option.map_map]
  rfl

theorem isComplete_view (entries : List ((ℤ × Which) × ModelSlice)) (layer : ℤ) :
    isComplete (entries.map viewSlice) (.fin layer) = isComplete entries layer := by
  simp only [isComplete, lastAt_view, Option.isSome_map]

theorem fin_intCast_injective : Function.Injective fun l : ℤ => Num.fin l := by
  intro a b h
  have hq : (a : ℚ) = b := Num.fin.inj h
  exact_mod_cast hq

theorem layers_view (entries : List ((ℤ × Which) × ModelSlice)) :
    (((entries.map viewSlice).map fun e => e.1.1).dedup.mergeSort (· ≤ ·)).filter
        (isComplete (entries.map viewSlice)) =
      (((entries.map fun e => e.1.1).dedup.filter (isComplete entries)).mergeSort (· ≤ ·)).map
        fun (l : ℤ) => .fin l := by
  have hkeys : (entries.map viewSlice).map (fun e => e.1.1) =
      (entries.map fun e => e.1.1).map fun (l : ℤ) => Num.fin l := by
    rw [List.map_map, List.map_map]
    rfl
  have hcomplete : (isComplete (entries.map viewSlice)) ∘ (fun l : ℤ => Num.fin l) =
      isComplete entries := funext (isComplete_view entries)
  have hperm : List.Perm
      ((((entries.map viewSlice).map fun e => e.1.1).dedup.mergeSort (· ≤ ·)).filter
        (isComplete (entries.map viewSlice)))
      ((((entries.map fun e => e.1.1).dedup.filter (isComplete entries)).mergeSort (· ≤ ·)).map
        fun (l : ℤ) => Num.fin l) := by
    refine ((List.mergeSort_perm _ _).filter _).trans ?_
    rw [hkeys, List.dedup_map_of_injective fin_intCast_injective, List.filter_map, hcomplete]
    exact ((List.mergeSort_perm _ _).map _).symm
  apply List.Perm.eq_of_pairwise' (r := (· ≤ ·)) _ _ hperm
  · exact (List.pairwise_mergeSort' (· ≤ ·) _).filter _
  · rw [List.pairwise_map]
    refine (List.pairwise_mergeSort' (· ≤ ·) _).imp ?_
    intro a b hab
    exact Num.fin_le_fin.mpr (by exact_mod_cast hab)

/-! ## Files -/

def Header.experts (h : Header) : List (RawTensor × (List Char × Which)) :=
  h.tensors.filterMap fun t => (expertParts t.name).map fun m => (t, m)

theorem mem_experts {h : Header} {e : RawTensor × (List Char × Which)} :
    e ∈ h.experts ↔ e.1 ∈ h.tensors ∧ expertParts e.1.name = some e.2 := by
  simp only [Header.experts, List.mem_filterMap, Option.map_eq_some_iff]
  constructor
  · rintro ⟨t, ht, m, hm, rfl⟩
    exact ⟨ht, hm⟩
  · rintro ⟨ht, hm⟩
    exact ⟨e.1, ht, e.2, hm, rfl⟩

/-- A header that both programs read alike. `js` and `py` spell an architecture
that is neither text nor an integer. -/
structure Fits (js py : Value → String) (h : Header) : Prop where
  arch : (∃ s, h.get "general.architecture" = some (.str s)) ∨
    (∃ n : ℤ, |n| < 2 ^ 53 ∧ h.get "general.architecture" = some (.int n)) ∨
    (h.get (h.architectureText js ++ ".expert_count") = none ∧
      h.get (h.archText py ++ ".expert_count") = none)
  alignment : PlainAlignment h
  count : h.get (h.archText py ++ ".expert_count") ≠ some (.bool true)
  layers : ∀ t ∈ h.tensors, PlainLayer t
  ends : h.headerEnd < 2 ^ 53
  start : ∀ ds, h.modelDataStart = some ds → ds < 2 ^ 53
  offsets : ∀ ds, h.modelDataStart = some ds → ∀ e ∈ h.experts, ds + e.1.offset < 2 ^ 53
  sizes : ∀ e ∈ h.experts, SmallSize e.1
  together : ∀ a ∈ h.experts, ∀ b ∈ h.experts, ∀ c ∈ h.experts, ∀ x y z,
    modelTensorBytes a.1 = some x → modelTensorBytes b.1 = some y → modelTensorBytes c.1 = some z →
    x + y + z < 2 ^ 53

section
variable {js py : Value → String} {h : Header}

theorem Fits.arch_eq (hfits : Fits js py h) :
    h.architectureText js = h.archText py ∨
    (h.get (h.architectureText js ++ ".expert_count") = none ∧
      h.get (h.archText py ++ ".expert_count") = none) := by
  rcases hfits.arch with ⟨s, hs⟩ | ⟨n, hn, hint⟩ | hnone
  · left
    simp only [Header.architectureText, Header.archText, hs]
  · left
    simp only [Header.architectureText, Header.archText, hint, if_pos hn]
  · exact Or.inr hnone

theorem Fits.experts_eq (hfits : Fits js py h) :
    (h.tensors.filterMap fun t => (expertTensor t.name).map fun m => (t, m)) = h.experts := by
  apply List.filterMap_congr
  intro t ht
  rw [(hfits.layers t ht).expertTensor_eq]

variable {v : Value}

theorem Fits.slices_eq (hfits : Fits js py h) (hv : CountsExperts v) {ds : ℤ}
    (hstart : h.modelDataStart = some ds) (hds : 0 ≤ ds) :
    h.experts.mapM (fun e => sliceTensor v (.fin ds) e.1 e.2) =
      (h.experts.mapM fun e => modelTensor v ds e.1 e.2).map (List.map viewSlice) := by
  apply mapM_eq_map
  intro e he
  obtain ⟨ht, hname⟩ := mem_experts.mp he
  exact sliceTensor_eq hv hname (hfits.layers e.1 ht) (hfits.sizes e he) hds
    (hfits.offsets ds hstart e he)

/-! ### Sums -/

theorem lastAt_mem {κ ν : Type*} [DecidableEq κ] {entries : List (κ × ν)} {key : κ} {x : ν}
    (hx : lastAt entries key = some x) : (key, x) ∈ entries := by
  obtain ⟨e, he, rfl⟩ := Option.map_eq_some_iff.mp hx
  have hfound := List.find?_some he
  have hkey : e.1 = key := of_decide_eq_true hfound
  rw [← hkey]
  exact List.mem_reverse.mp (List.mem_of_find?_eq_some he)

theorem modelTensor_size (hv : CountsExperts v) {ds : ℤ} {t : RawTensor}
    {m : List Char × Which} (hsmall : SmallSize t) {e : (ℤ × Which) × ModelSlice}
    (he : modelTensor v ds t m = some e) :
    ∃ total p, modelTensorBytes t = some total ∧ e.2.perExpert = .ofNat p ∧ p ≤ total ∧
      v.isNumber = some v.amount := by
  unfold modelTensor at he
  obtain ⟨layer, hlayer, he⟩ := Option.bind_eq_some_iff.mp he
  obtain ⟨last, hlast, he⟩ := Option.bind_eq_some_iff.mp he
  split_ifs at he with hequals
  obtain ⟨total, htotal, he⟩ := Option.bind_eq_some_iff.mp he
  obtain ⟨size, hsize, he⟩ := Option.bind_eq_some_iff.mp he
  cases he
  rcases count_eq hv last with ⟨hnum, -, hpos, hform⟩ | ⟨-, hfalse⟩
  · have hper : perExpert total v = if total % last = 0 then some (.ofNat (total / last)) else none := by
      rcases hform with rfl | rfl
      · exact perExpert_int
      · exact perExpert_float (hsmall.bytes _ htotal) hpos
    rw [hper] at hsize
    split_ifs at hsize
    refine ⟨total, total / last, htotal, (Option.some.inj hsize).symm, Nat.div_le_self _ _, ?_⟩
    rcases hform with rfl | rfl <;> rfl
  · rw [hfalse] at hequals
    cases hequals

theorem sum_eq {a b c : ℕ} (h : a + b + c < 2 ^ 53) (f : Which → Num)
    (hgate : f .gate = .ofNat a) (hup : f .up = .ofNat b) (hdown : f .down = .ofNat c) :
    expertTensors.foldl (fun sum w => sizeSum v sum (f w)) (.fin 0) =
      expertTensors.foldl (fun (sum : Num) w => sum.add (f w)) (.fin 0) := by
  have hzero : (Num.fin 0) = .ofNat 0 := by simp [Num.ofNat]
  have hadd : ∀ x y : ℕ, x + y < 2 ^ 53 → sizeSum v (.ofNat x) (.ofNat y) = (Num.ofNat x).add (.ofNat y) := by
    intro x y hxy
    cases v with
    | float _ => rfl
    | int _ | bool _ | str _ | list _ =>
      rw [Num.add_ofNat hxy]
      simp [sizeSum, Num.ofNat]
  simp only [expertTensors, List.foldl_cons, List.foldl_nil, hgate, hup, hdown, hzero]
  rw [hadd 0 a (by omega), Num.add_ofNat (by omega), hadd (0 + a) b (by omega),
    Num.add_ofNat (by omega), hadd (0 + a + b) c (by omega)]

theorem Fits.summary_eq (hfits : Fits js py h) (hv : CountsExperts v) {ds : ℤ}
    {m : Model} (hslice : h.experts.mapM (fun e => modelTensor v ds e.1 e.2) = some m.slice)
    (hcount : m.nExpert = v) :
    (summarise m).map Model.layout = summary v m.nEmbd m.nLayer (m.slice.map viewSlice) := by
  have hlayers := layers_view m.slice
  unfold summary summarise
  dsimp only
  rw [hlayers, List.head?_map]
  cases hfirst : (((m.slice.map fun e => e.1.1).dedup.filter (isComplete m.slice)).mergeSort
      (· ≤ ·)).head? with
  | none => rfl
  | some first =>
    have hmem : first ∈ (m.slice.map fun e => e.1.1).dedup.filter (isComplete m.slice) :=
      List.mem_mergeSort.mp (List.mem_of_mem_head? hfirst)
    have hcomplete := (List.mem_filter.mp hmem).2
    -- each of the three is a share of some expert tensor
    have hshare : ∀ w, ∃ e ∈ h.experts, ∃ total p, modelTensorBytes e.1 = some total ∧ p ≤ total ∧
        ((lastAt m.slice (first, w)).map ModelSlice.perExpert).getD .nan = .ofNat p ∧
        v.isNumber = some v.amount := by
      intro w
      have hsome : (lastAt m.slice (first, w)).isSome = true :=
        List.all_eq_true.mp hcomplete w (by cases w <;> decide)
      obtain ⟨x, hx⟩ := Option.isSome_iff_exists.mp hsome
      obtain ⟨e, he, hstored⟩ := mem_of_mapM hslice (lastAt_mem hx)
      obtain ⟨total, p, htotal, hper, hle, hnum⟩ := modelTensor_size hv (hfits.sizes e he) hstored
      exact ⟨e, he, total, p, htotal, hle, by rw [hx]; exact hper, hnum⟩
    obtain ⟨ea, hea, ta, a, hta, hla, hga, hnum⟩ := hshare .gate
    obtain ⟨eb, heb, tb, b, htb, hlb, hgb, -⟩ := hshare .up
    obtain ⟨ec, hec, tc, c, htc, hlc, hgc, -⟩ := hshare .down
    have htogether := hfits.together ea hea eb heb ec hec ta tb tc hta htb htc
    have hsum := sum_eq (v := v) (a := a) (b := b) (c := c) (by omega)
      (fun w => ((lastAt m.slice (first, w)).map ModelSlice.perExpert).getD .nan) hga hgb hgc
    have hview : ∀ w, ((lastAt (m.slice.map viewSlice) (.fin first, w)).map Slice.perExpert).getD .nan =
        ((lastAt m.slice (first, w)).map ModelSlice.perExpert).getD .nan := by
      intro w
      rw [lastAt_view, Option.map_map]
      rfl
    simp only [Option.map_some, Option.bind_eq_bind, Option.bind_some, hnum, hview, hcount, hsum,
      Model.layout]

theorem mapM_bind_none {α β γ : Type*} {f : α → Option β} {k : List β → Option γ} (l : List α)
    (hf : ∀ a ∈ l, f a = none) (hk : k [] = none) : ((l.mapM f).bind k) = none := by
  cases l with
  | nil => exact hk
  | cons a l =>
    rw [List.mapM_cons, hf a List.mem_cons_self]
    rfl

theorem summary_nil (v : Value) (nEmbd nLayer : Option Value) : summary v nEmbd nLayer [] = none := by
  simp [summary]

theorem sliceTensor_none (hv : v.isNumber = none) (dataStart : Num) (t : RawTensor)
    (m : List Char × Which) : sliceTensor v dataStart t m = none := by
  unfold sliceTensor
  cases t.dims.getLast? with
  | none => rfl
  | some last => simp [hv]

theorem modelTensor_none (hv : ∀ last, equalsNat last v = false) (ds : ℤ) (t : RawTensor)
    (m : List Char × Which) : modelTensor v ds t m = none := by
  unfold modelTensor
  cases pyInt m.1 with
  | none => rfl
  | some layer =>
    cases t.dims.getLast? with
    | none => rfl
    | some last => simp [hv]

theorem summarise_nil {m : Model} (hm : m.slice = []) : summarise m = none := by
  simp [summarise, hm]

/-- The values that the two languages do not agree to be something: an empty
list, and a float that is no number. -/
theorem truthy_cases (v : Value) :
    v.truthy = v.pyTruthy ∨ (v.truthy = true ∧ v.pyTruthy = false ∧ v.isNumber = none) ∨
      (v.truthy = false ∧ ∀ last, equalsNat last v = false) := by
  cases v with
  | int n => exact Or.inl rfl
  | bool b => exact Or.inl rfl
  | str s => exact Or.inl rfl
  | float x =>
    by_cases hx : x = .nan
    · subst hx
      exact Or.inr (Or.inr ⟨rfl, fun last => rfl⟩)
    · left
      simp [Value.truthy, Value.pyTruthy, hx]
  | list xs =>
    cases xs with
    | nil => exact Or.inr (Or.inl ⟨rfl, rfl, rfl⟩)
    | cons x xs => exact Or.inl rfl

theorem Fits.topology_eq (hfits : Fits js py h) :
    topology js h = (modelOf py h).map Model.layout := by
  obtain ⟨ds, hstart, hds, hjs⟩ := dataStart_eq hfits.alignment hfits.ends hfits.start
  have hexperts : (h.tensors.filterMap fun t => (expertParts t.name).map fun m => (t, m)) = h.experts := rfl
  unfold topology modelOf
  rw [hstart, hjs, hfits.experts_eq, hexperts]
  rcases hfits.arch_eq with harch | ⟨hj, hp⟩
  · rw [harch]
    simp only [Option.bind_eq_bind, Option.bind_some]
    cases hget : h.get (h.archText py ++ ".expert_count") with
    | none => rfl
    | some v =>
      have htrue : v ≠ .bool true := fun hb => hfits.count (by rw [hget, hb])
      simp only [Option.bind_some]
      rcases truthy_cases v with hsame | ⟨htruthy, hpy, hnum⟩ | ⟨htruthy, heq⟩
      · rw [hsame]
        cases hpy : v.pyTruthy with
        | false => rfl
        | true =>
          have hv : CountsExperts v := ⟨htrue, hpy⟩
          rw [if_pos rfl, if_pos rfl, hfits.slices_eq hv hstart hds]
          cases hslice : h.experts.mapM fun e => modelTensor v ds e.1 e.2 with
          | none => rfl
          | some slice =>
            rw [Option.map_some, Option.bind_some, Option.bind_some]
            symm
            exact hfits.summary_eq hv hslice rfl
      · rw [htruthy, hpy, if_pos rfl, if_neg Bool.false_ne_true]
        exact mapM_bind_none _ (fun e _ => sliceTensor_none hnum _ _ _) (summary_nil _ _ _)
      · rw [htruthy, if_neg Bool.false_ne_true]
        cases hpy : v.pyTruthy with
        | false => rfl
        | true =>
          rw [if_pos rfl, mapM_bind_none _ (fun e _ => modelTensor_none heq _ _ _) (summarise_nil rfl)]
          rfl
  · simp [hj, hp]

end

/-- Both refuse a file, or both tell the same of it. -/
def Agree : Option Layout → Option Layout → Prop
  | none, none => True
  | some a, some b => a.nExpert = b.nExpert ∧ a.nEmbd = b.nEmbd ∧ a.nLayer = b.nLayer ∧
      a.expertLayers = b.expertLayers ∧ a.bytesPerExpert = b.bytesPerExpert ∧
      ∀ layer w, a.at layer w = b.at layer w
  | _, _ => False

theorem agree_refl (x : Option Layout) : Agree x x := by
  cases x with
  | none => trivial
  | some a => exact ⟨rfl, rfl, rfl, rfl, rfl, fun _ _ => rfl⟩

def smallEntries : List (String × Field) :=
  [("general.architecture", .str "m"), ("m.expert_count", .u32 2), ("m.embedding_length", .u32 4)]

def smallTensor (layer : String) (w : Which) (offset : ℕ) : RawTensor :=
  ⟨"blk." ++ layer ++ "." ++ w.tensor ++ ".weight", [2, 2], 0, offset⟩

def smallInfos : List RawTensor :=
  [smallTensor "0" .gate 0, smallTensor "0" .up 32, smallTensor "0" .down 64]

def smallHeader (infos : List RawTensor) : Header :=
  ⟨3, smallEntries.map fun e => (e.1, e.2.value), infos, (headerBytes smallEntries infos).length⟩

def wordInfos : List RawTensor := smallInfos ++ [smallTensor "mtp" .gate 96]

theorem checked_holds {n : ℕ} (h : n < 2 ^ 53) : checked.Holds n := by
  refine ⟨h.trans (by norm_num), ?_⟩
  simp only [checked, if_pos h]

theorem smallTensor_fits {layer : String} {w : Which} {offset : ℕ}
    (hname : (utf8 (smallTensor layer w offset).name).length < 2 ^ 53) (hoffset : offset < 2 ^ 53) :
    (smallTensor layer w offset).Fits checked where
  name := checked_holds hname
  nDims := (by decide : 2 < 256 ^ 4)
  dims := by
    intro d hd
    apply checked_holds
    have hsmall : ∀ d ∈ [2, 2], d < 2 ^ 53 := by decide
    exact hsmall d hd
  type := (by decide : 0 < 256 ^ 4)
  offset := checked_holds hoffset

theorem readHeader_small {infos : List RawTensor} (hinfos : ∀ t ∈ infos, t.Fits checked)
    (hcount : infos.length < 2 ^ 53) :
    readHeader checked (headerBytes smallEntries infos) = .ok (smallHeader infos) := by
  have hentries : ∀ e ∈ smallEntries, checked.Holds (utf8 e.1).length ∧ e.2.Fits checked := by
    have hkeys : ∀ e ∈ smallEntries, (utf8 e.1).length < 2 ^ 53 := by decide
    have hvalues : ∀ e ∈ smallEntries, e.2.Fits checked := by
      simp only [smallEntries, List.forall_mem_cons]
      refine ⟨checked_holds (by decide), ?_, ?_, fun _ h => absurd h List.not_mem_nil⟩
      · exact (by decide : 2 < 256 ^ 4)
      · exact (by decide : 4 < 256 ^ 4)
    exact fun e he => ⟨checked_holds (hkeys e he), hvalues e he⟩
  have hread := readHeader_headerBytes hentries hinfos (checked_holds (by decide))
    (checked_holds hcount) []
  rwa [List.append_nil] at hread

theorem small_fits : ∀ t ∈ smallInfos, t.Fits checked := by
  simp only [smallInfos, List.forall_mem_cons]
  refine ⟨?_, ?_, ?_, fun _ h => absurd h List.not_mem_nil⟩
  all_goals exact smallTensor_fits (by decide) (by decide)

theorem word_fits : ∀ t ∈ wordInfos, t.Fits checked := by
  intro t ht
  rcases List.mem_append.mp ht with hsmall | hword
  · exact small_fits t hsmall
  · rw [List.mem_singleton.mp hword]
    exact smallTensor_fits (by decide) (by decide)

theorem summary_isSome {v : Value} {n : Num} {nEmbd nLayer : Option Value} {layer : Num}
    {slice : List ((Num × Which) × Slice)} (hn : v.isNumber = some n)
    (hlayer : layer ∈ slice.map fun e => e.1.1) (hcomplete : isComplete slice layer = true) :
    (summary v nEmbd nLayer slice).isSome = true := by
  have hmem : layer ∈ ((slice.map fun e => e.1.1).dedup.mergeSort (· ≤ ·)).filter
      (isComplete slice) :=
    List.mem_filter.mpr ⟨List.mem_mergeSort.mpr (List.mem_dedup.mpr hlayer), hcomplete⟩
  cases hfirst : (((slice.map fun e => e.1.1).dedup.mergeSort (· ≤ ·)).filter
      (isComplete slice)).head? with
  | none =>
    rw [List.head?_eq_none_iff.mp hfirst] at hmem
    cases hmem
  | some first =>
    simp only [summary, hfirst, hn, Option.bind_eq_bind, Option.bind_some, Option.isSome_some]

/-- Layer 0 is complete once the tensors are stored. -/
def layerStored (infos : List RawTensor) : Bool :=
  ((infos.filterMap fun t => (expertTensor t.name).map fun m => (t, m)).mapM fun e =>
    sliceTensor (.int 2) (smallHeader infos).dataStart e.1 e.2).any fun slice =>
      (slice.map fun e => e.1.1).contains (.fin 0) && isComplete slice (.fin 0)

theorem small_accepted {infos : List RawTensor} (h : layerStored infos = true) :
    (topology (fun _ => "") (smallHeader infos)).isSome = true := by
  have harch : (smallHeader infos).architectureText (fun _ => "") = "m" := rfl
  have hget : (smallHeader infos).get ("m" ++ ".expert_count") = some (.int 2) := rfl
  have htruthy : (Value.int 2).truthy = true := rfl
  have htensors : (smallHeader infos).tensors = infos := rfl
  unfold topology
  rw [harch]
  dsimp only
  rw [hget, htensors]
  simp only [Option.bind_eq_bind, Option.bind_some]
  rw [if_pos htruthy]
  unfold layerStored at h
  generalize (infos.filterMap fun t => (expertTensor t.name).map fun m => (t, m)).mapM (fun e =>
    sliceTensor (.int 2) (smallHeader infos).dataStart e.1 e.2) = stored at h ⊢
  cases stored with
  | none => cases h
  | some slice =>
    obtain ⟨hlayer, hcomplete⟩ := Bool.and_eq_true_iff.mp h
    exact summary_isSome rfl (List.contains_iff_mem.mp hlayer) hcomplete

theorem expertParts_small (w : Which) :
    expertParts ("blk." ++ "0" ++ "." ++ w.tensor ++ ".weight") = some (['0'], w) := by
  cases w <;> decide

theorem small_infos_form : ∀ t ∈ smallInfos, t.dims = [2, 2] ∧ t.type = 0 ∧ t.offset ≤ 64 := by
  decide

theorem small_bytes (ht : t ∈ smallInfos) : modelTensorBytes t = some 16 := by
  obtain ⟨hdims, htype, -⟩ := small_infos_form t ht
  rw [modelTensorBytes, hdims, htype]
  rfl

theorem small_checks :
    ((smallHeader smallInfos).modelDataStart = some 352 ∧ (smallHeader smallInfos).headerEnd < 2 ^ 53) ∧
    layerStored smallInfos = true ∧ layerStored wordInfos = true ∧
    (modelOf (fun _ => "") (smallHeader wordInfos)).isNone = true := by
  decide +kernel

theorem small_header_fits : Fits (fun _ => "") (fun _ => "") (smallHeader smallInfos) where
  arch := Or.inl ⟨"m", rfl⟩
  alignment := Or.inl rfl
  count := by
    have hget : (smallHeader smallInfos).get ("m" ++ ".expert_count") = some (.int 2) := rfl
    have harch : (smallHeader smallInfos).archText (fun _ => "") = "m" := rfl
    rw [harch, hget]
    intro h
    cases h
  layers := by
    have hplain : ∀ w offset, PlainLayer (smallTensor "0" w offset) := by
      intro w offset m hm
      have hparts : expertParts (smallTensor "0" w offset).name = some (['0'], w) :=
        expertParts_small w
      rw [hparts] at hm
      cases hm
      have hdigits : ['0'] ≠ [] ∧ (['0']).all Char.isDigit = true ∧ (['0']).length ≤ maxStrDigits ∧
        Nat.ofDigitChars 10 ['0'] 0 < 2 ^ 53 := by decide
      exact hdigits
    simp only [smallHeader, smallInfos, List.forall_mem_cons]
    exact ⟨hplain _ _, hplain _ _, hplain _ _, fun _ h => absurd h List.not_mem_nil⟩
  ends := small_checks.1.2
  start := by
    intro ds hds
    rw [small_checks.1.1] at hds
    cases hds
    decide
  offsets := by
    intro ds hds e he
    rw [small_checks.1.1] at hds
    cases hds
    obtain ⟨-, -, hoffset⟩ := small_infos_form e.1 (mem_experts.mp he).1
    omega
  sizes := by
    intro e he
    obtain ⟨hdims, -, -⟩ := small_infos_form e.1 (mem_experts.mp he).1
    refine ⟨fun k => ?_, fun n hn => ?_⟩
    · rw [hdims]
      rcases k with _ | _ | k
      · decide
      · decide
      · rw [List.take_of_length_le (by simp)]
        decide
    · rw [small_bytes (mem_experts.mp he).1] at hn
      cases hn
      decide
  together := by
    intro a ha b hb c hc x y z hx hy hz
    rw [small_bytes (mem_experts.mp ha).1] at hx
    rw [small_bytes (mem_experts.mp hb).1] at hy
    rw [small_bytes (mem_experts.mp hc).1] at hz
    cases hx
    cases hy
    cases hz
    decide

theorem word_layer_raises : modelOf (fun _ => "") (smallHeader wordInfos) = none := by
  rw [← Option.isNone_iff_eq_none]
  exact small_checks.2.2.2

theorem not_agree_none {x : Option Layout} (hx : x.isSome = true) : ¬ Agree x none := by
  cases x with
  | none => cases hx
  | some l => exact fun h => h

end KvasirNet.Gguf
