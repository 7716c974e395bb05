import Mathlib.Data.Nat.Digits.Lemmas
import Mathlib.Data.List.Nodup
import Mathlib.Data.List.GetD
import Mathlib.Data.Nat.Digits.Defs
import Mathlib.Algebra.Ring.Nat
import Mathlib.Tactic.Ring

/-! The recovery phrases of the phone wallet: entropy and a few bits of its hash, cut into words of a
list of 2048. -/
namespace KvasirNet.RecoveryPhrase

/-! ## Bits of fixed width -/

/-- A text of `0` and `1`. -/
abbrev Bits := List Bool

/-- `toInt(2)` -/
def toInt2 (bits : Bits) : ℕ := bits.foldl (fun n b => 2 * n + b.toNat) 0

/-- `toString(2)` -/
def toString2 (n : ℕ) : Bits :=
  if n = 0 then [false] else (Nat.digits 2 n).reverse.map (· = 1)

/-- `padStart(width, '0')` -/
def padStart (width : ℕ) (bits : Bits) : Bits :=
  List.replicate (width - bits.length) false ++ bits

def numeral (width n : ℕ) : Bits := padStart width (toString2 n)

theorem foldl_toInt2 (bits : Bits) (n : ℕ) :
    bits.foldl (fun n b => 2 * n + b.toNat) n = n * 2 ^ bits.length + toInt2 bits := by
  induction bits generalizing n with
  | nil => exact (Nat.mul_one n).symm
  | cons b bits ih =>
    have hcons : toInt2 (b :: bits) = (2 * 0 + b.toNat) * 2 ^ bits.length + toInt2 bits := ih _
    rw [List.foldl_cons, ih, hcons, List.length_cons, pow_succ]
    ring

theorem toInt2_cons (b : Bool) (bits : Bits) :
    toInt2 (b :: bits) = b.toNat * 2 ^ bits.length + toInt2 bits := by
  rw [toInt2, List.foldl_cons, foldl_toInt2, Nat.mul_zero, Nat.zero_add]

theorem toInt2_append (xs ys : Bits) : toInt2 (xs ++ ys) = toInt2 xs * 2 ^ ys.length + toInt2 ys := by
  rw [toInt2, List.foldl_append, foldl_toInt2]
  rfl

theorem toInt2_lt (bits : Bits) : toInt2 bits < 2 ^ bits.length := by
  induction bits with
  | nil => exact Nat.one_pos
  | cons b bits ih =>
    have hb : b.toNat ≤ 1 := b.toNat_le
    have hmul : b.toNat * 2 ^ bits.length ≤ 1 * 2 ^ bits.length := Nat.mul_le_mul_right _ hb
    rw [toInt2_cons, List.length_cons, pow_succ]
    omega

theorem toInt2_inj {xs ys : Bits} (hlength : xs.length = ys.length) (h : toInt2 xs = toInt2 ys) :
    xs = ys := by
  induction xs generalizing ys with
  | nil => exact (List.length_eq_zero_iff.mp hlength.symm).symm
  | cons x xs ih =>
    cases ys with
    | nil => cases hlength
    | cons y ys =>
      have hlen : xs.length = ys.length := Nat.succ.inj hlength
      have hx := toInt2_lt xs
      have hy := toInt2_lt ys
      rw [toInt2_cons, toInt2_cons, hlen] at h
      rw [hlen] at hx
      have hhead : x = y := by
        cases x <;> cases y <;>
          simp only [Bool.toNat_true, Bool.toNat_false, Nat.one_mul, Nat.zero_mul] at h <;>
          first | rfl | (exfalso; omega)
      rw [hhead] at h ⊢
      rw [ih hlen (by omega)]

theorem toInt2_zeros (k : ℕ) (bits : Bits) :
    toInt2 (List.replicate k false ++ bits) = toInt2 bits := by
  induction k with
  | zero => rfl
  | succ k ih =>
    rw [List.replicate_succ, List.cons_append, toInt2_cons, Bool.toNat_false, Nat.zero_mul,
      Nat.zero_add, ih]

theorem toInt2_digits (ds : List ℕ) (h : ∀ d ∈ ds, d < 2) :
    toInt2 (ds.reverse.map (· = 1)) = Nat.ofDigits 2 ds := by
  induction ds with
  | nil => rfl
  | cons d ds ih =>
    have hd : (decide (d = 1)).toNat = d := by
      have hlt := h d List.mem_cons_self
      interval_cases d <;> rfl
    rw [List.reverse_cons, List.map_append, toInt2_append, ih fun x hx => h x (List.mem_cons_of_mem d hx),
      List.map_singleton, toInt2_cons, hd, Nat.ofDigits_cons]
    show Nat.ofDigits 2 ds * 2 ^ 1 + (d * 2 ^ 0 + 0) = d + 2 * Nat.ofDigits 2 ds
    ring

theorem toInt2_toString2 (n : ℕ) : toInt2 (toString2 n) = n := by
  unfold toString2
  by_cases hn : n = 0
  · rw [if_pos hn, hn]
    rfl
  · rw [if_neg hn, toInt2_digits _ fun d hd => Nat.digits_lt_base (by decide) hd, Nat.ofDigits_digits]

theorem length_toString2_le {width n : ℕ} (hwidth : 0 < width) (h : n < 2 ^ width) :
    (toString2 n).length ≤ width := by
  unfold toString2
  by_cases hn : n = 0
  · rw [if_pos hn]
    exact hwidth
  · rw [if_neg hn, List.length_map, List.length_reverse]
    exact (Nat.digits_length_le_iff (by decide) n).mpr h

theorem toInt2_numeral (width n : ℕ) : toInt2 (numeral width n) = n := by
  rw [numeral, padStart, toInt2_zeros, toInt2_toString2]

section
variable {width : ℕ} (hwidth : 0 < width)
include hwidth

theorem length_numeral {n : ℕ} (h : n < 2 ^ width) : (numeral width n).length = width := by
  have hle := length_toString2_le hwidth h
  rw [numeral, padStart, List.length_append, List.length_replicate]
  omega

theorem numeral_toInt2 {bits : Bits} (h : bits.length = width) : numeral width (toInt2 bits) = bits := by
  have hlt : toInt2 bits < 2 ^ width := h ▸ toInt2_lt bits
  apply toInt2_inj
  · rw [length_numeral hwidth hlt, h]
  · rw [toInt2_numeral]

end

/-! ## Groups -/

section
variable {α : Type*}

/-- So many pieces of `k`. -/
def groups (k : ℕ) : ℕ → List α → List (List α)
  | 0, _ => []
  | n + 1, xs => xs.take k :: groups k n (xs.drop k)

variable {k : ℕ}

theorem length_groups (n : ℕ) (xs : List α) : (groups k n xs).length = n := by
  induction n generalizing xs with
  | zero => rfl
  | succ n ih => rw [groups, List.length_cons, ih]

theorem length_of_mem_groups {n : ℕ} {xs g : List α} (hxs : xs.length = k * n)
    (hg : g ∈ groups k n xs) : g.length = k := by
  induction n generalizing xs with
  | zero => cases hg
  | succ n ih =>
    rw [Nat.mul_succ] at hxs
    rcases List.mem_cons.mp hg with rfl | hg
    · rw [List.length_take]
      omega
    · exact ih (by rw [List.length_drop]; omega) hg

theorem flatten_groups {n : ℕ} {xs : List α} (hxs : xs.length = k * n) :
    (groups k n xs).flatten = xs := by
  induction n generalizing xs with
  | zero => exact (List.length_eq_zero_iff.mp hxs).symm
  | succ n ih =>
    rw [Nat.mul_succ] at hxs
    rw [groups, List.flatten_cons, ih (by rw [List.length_drop]; omega), List.take_append_drop]

theorem groups_flatten {gs : List (List α)} (h : ∀ g ∈ gs, g.length = k) :
    groups k gs.length gs.flatten = gs := by
  induction gs with
  | nil => rfl
  | cons g gs ih =>
    have hg : g.length = k := h g List.mem_cons_self
    rw [List.length_cons, groups, List.flatten_cons, ← hg, List.take_left, List.drop_left, hg,
      ih fun x hx => h x (List.mem_cons_of_mem g hx)]

theorem length_flatMap_of_forall {β : Type*} {f : β → List α} {xs : List β}
    (h : ∀ x ∈ xs, (f x).length = k) : (xs.flatMap f).length = k * xs.length := by
  induction xs with
  | nil => rfl
  | cons x xs ih =>
    rw [List.flatMap_cons, List.length_append, h x List.mem_cons_self,
      ih fun y hy => h y (List.mem_cons_of_mem x hy), List.length_cons]
    ring

end

/-! ## The phrases -/

/-- A `ByteArray`; its bytes are signed. -/
abbrev ByteArray := List Int8

def bitsOf (b : Int8) : Bits := numeral 8 (b.toInt % 256).toNat

/-- `toByte()` -/
def toByte (n : ℕ) : Int8 := Int8.ofInt n

def bytesOf (bits : Bits) : ByteArray :=
  (groups 8 (bits.length / 8) bits).map fun g => toByte (toInt2 g)

section
variable (words : List String) (sha256 : ByteArray → ByteArray)

/-- The loop of `fromEntropy`; `none` is an exception. -/
def wordsLoop : ℕ → Bits → Option (List String)
  | 0, _ => some []
  | rounds + 1, bits =>
    if bits = [] then some []
    else if bits.length < 11 then none
    else (words[toInt2 (bits.take 11)]?).bind fun word =>
      (wordsLoop rounds (bits.drop 11)).map (word :: ·)

def fromEntropy (entropy : ByteArray) : Option (List String) :=
  let csBits := entropy.length * 8 / 32
  let hashBits := (sha256 entropy).flatMap bitsOf
  if hashBits.length < csBits then none
  else
    let bits := entropy.flatMap bitsOf ++ hashBits.take csBits
    wordsLoop words bits.length bits

def isValid (mnemonic : List String) : Bool :=
  if mnemonic.length ∉ [12, 15, 18, 21, 24] then false
  else
    let idx := mnemonic.map fun w => words.idxOf? w
    if idx.any Option.isNone then false
    else
      let bits := idx.flatMap fun n => numeral 11 (n.getD 0)
      let entBits := mnemonic.length * 11 * 32 / 33
      let csBits := mnemonic.length * 11 - entBits
      let entropy := bytesOf (bits.take entBits)
      let hashBits := (sha256 entropy).flatMap bitsOf
      bits.drop entBits == hashBits.take csBits

end

/-! ### Bytes -/

theorem unsigned_lt (b : Int8) : (b.toInt % 256).toNat < 2 ^ 8 := by omega

theorem length_bitsOf (b : Int8) : (bitsOf b).length = 8 := length_numeral (by decide) (unsigned_lt b)

theorem toByte_unsigned (b : Int8) : toByte (b.toInt % 256).toNat = b := by
  have hcast : (((b.toInt % 256).toNat : ℕ) : ℤ) = b.toInt % 256 := by omega
  apply Int8.toInt_inj.mp
  rw [toByte, hcast, Int8.toInt_ofInt]
  calc
    (b.toInt % ((256 : ℕ) : ℤ)).bmod 256 = b.toInt.bmod 256 := Int.emod_bmod _ _
    _ = b.toInt := Int8.toInt_bmod b

theorem unsigned_toByte {n : ℕ} (h : n < 2 ^ 8) : ((toByte n).toInt % 256).toNat = n := by
  have hmod : (n : ℤ).bmod 256 % ((256 : ℕ) : ℤ) = n % ((256 : ℕ) : ℤ) := Int.bmod_emod
  rw [toByte, Int8.toInt_ofInt]
  show ((n : ℤ).bmod 256 % 256).toNat = n
  omega

theorem length_flatMap_bitsOf (e : ByteArray) : (e.flatMap bitsOf).length = 8 * e.length :=
  length_flatMap_of_forall fun b _ => length_bitsOf b

theorem bytesOf_bits (e : ByteArray) : bytesOf (e.flatMap bitsOf) = e := by
  have hgroups : groups 8 e.length (e.flatMap bitsOf) = e.map bitsOf := by
    have hbytes : ∀ g ∈ e.map bitsOf, g.length = 8 := by
      intro g hg
      obtain ⟨b, -, rfl⟩ := List.mem_map.mp hg
      exact length_bitsOf b
    have h := groups_flatten hbytes
    rwa [List.length_map, ← List.flatMap_def] at h
  rw [bytesOf, length_flatMap_bitsOf, Nat.mul_div_cancel_left _ (by decide), hgroups, List.map_map]
  have hid : ((fun g => toByte (toInt2 g)) ∘ bitsOf) = id := by
    funext b
    show toByte (toInt2 (numeral 8 _)) = b
    rw [toInt2_numeral, toByte_unsigned]
  rw [hid, List.map_id]

theorem bits_bytesOf {bits : Bits} {k : ℕ} (h : bits.length = 8 * k) :
    (bytesOf bits).flatMap bitsOf = bits ∧ (bytesOf bits).length = k := by
  have hk : bits.length / 8 = k := by omega
  constructor
  · rw [bytesOf, hk, List.flatMap_map]
    calc
      (groups 8 k bits).flatMap (fun g => bitsOf (toByte (toInt2 g)))
        = (groups 8 k bits).flatMap id := by
        apply List.flatMap_congr
        intro g hg
        have hlen := length_of_mem_groups h hg
        rw [bitsOf, unsigned_toByte (hlen ▸ toInt2_lt g), numeral_toInt2 (by decide) hlen]
        rfl
      _ = (groups 8 k bits).flatten := List.flatMap_id
      _ = bits := flatten_groups h
  · rw [bytesOf, List.length_map, length_groups, hk]

/-! ### Words -/

section
variable {words : List String}

def spelled (words : List String) (n : ℕ) (bits : Bits) : List String :=
  (groups 11 n bits).map fun g => words.getD (toInt2 g) ""

def places (words : List String) (mnemonic : List String) : Bits :=
  mnemonic.flatMap fun w => numeral 11 (words.idxOf w)

variable (hlength : words.length = 2048)
include hlength

theorem wordsLoop_eq {n rounds : ℕ} {bits : Bits} (h : bits.length = 11 * n) (hrounds : n ≤ rounds) :
    wordsLoop words rounds bits = some (spelled words n bits) := by
  induction n generalizing rounds bits with
  | zero =>
    obtain rfl := List.length_eq_zero_iff.mp h
    cases rounds with
    | zero => rfl
    | succ rounds => rfl
  | succ n ih =>
    obtain ⟨rounds, rfl⟩ := Nat.exists_eq_add_of_le' (Nat.lt_of_lt_of_le n.succ_pos hrounds)
    have hne : bits ≠ [] := by
      rintro rfl
      rw [List.length_nil] at h
      omega
    have hlt : toInt2 (bits.take 11) < words.length := by
      have htake : (bits.take 11).length = 11 := by
        rw [List.length_take]
        omega
      have hbits := toInt2_lt (bits.take 11)
      rw [htake] at hbits
      rw [hlength]
      exact hbits
    rw [wordsLoop, if_neg hne, if_neg (by omega), List.getElem?_eq_getElem hlt, Option.bind_some,
      ih (by rw [List.length_drop]; omega) (by omega), Option.map_some,
      ← List.getD_eq_getElem words "" hlt]
    rfl

variable (hnodup : words.Nodup)

theorem spelled_mem {n : ℕ} {bits : Bits} (h : bits.length = 11 * n) :
    ∀ w ∈ spelled words n bits, w ∈ words := by
  intro w hw
  obtain ⟨g, hg, rfl⟩ := List.mem_map.mp hw
  have hlt : toInt2 g < words.length := by
    have hbits := toInt2_lt g
    rw [length_of_mem_groups h hg] at hbits
    rw [hlength]
    exact hbits
  rw [List.getD_eq_getElem _ _ hlt]
  exact List.getElem_mem hlt

theorem length_places {mnemonic : List String} (h : ∀ w ∈ mnemonic, w ∈ words) :
    (places words mnemonic).length = 11 * mnemonic.length := by
  apply length_flatMap_of_forall
  intro w hw
  have hlt := List.idxOf_lt_length_of_mem (h w hw)
  rw [hlength] at hlt
  exact length_numeral (by decide) hlt

include hnodup in
theorem places_spelled {n : ℕ} {bits : Bits} (h : bits.length = 11 * n) :
    places words (spelled words n bits) = bits := by
  rw [places, spelled, List.flatMap_map]
  calc
    (groups 11 n bits).flatMap (fun g => numeral 11 (words.idxOf (words.getD (toInt2 g) "")))
      = (groups 11 n bits).flatMap id := by
      apply List.flatMap_congr
      intro g hg
      have hlen := length_of_mem_groups h hg
      have hlt : toInt2 g < words.length := by
        have hbits := toInt2_lt g
        rw [hlen] at hbits
        rw [hlength]
        exact hbits
      rw [List.getD_eq_getElem _ _ hlt, hnodup.idxOf_getElem, numeral_toInt2 (by decide) hlen]
      rfl
    _ = (groups 11 n bits).flatten := List.flatMap_id
    _ = bits := flatten_groups h

theorem spelled_places {mnemonic : List String} (h : ∀ w ∈ mnemonic, w ∈ words) :
    spelled words mnemonic.length (places words mnemonic) = mnemonic := by
  have hgroups : groups 11 mnemonic.length (places words mnemonic) =
      mnemonic.map fun w => numeral 11 (words.idxOf w) := by
    have heleven : ∀ g ∈ mnemonic.map fun w => numeral 11 (words.idxOf w), g.length = 11 := by
      intro g hg
      obtain ⟨w, hw, rfl⟩ := List.mem_map.mp hg
      have hlt := List.idxOf_lt_length_of_mem (h w hw)
      rw [hlength] at hlt
      exact length_numeral (by decide) hlt
    have hall := groups_flatten heleven
    rwa [List.length_map, ← List.flatMap_def] at hall
  rw [spelled, hgroups, List.map_map]
  conv_rhs => rw [← List.map_id mnemonic]
  apply List.map_congr_left
  intro w hw
  have hlt := List.idxOf_lt_length_of_mem (h w hw)
  show words.getD (toInt2 (numeral 11 _)) "" = w
  rw [toInt2_numeral, List.getD_eq_getElem _ _ hlt, List.getElem_idxOf hlt]

end

/-! ### Phrases -/

def Permitted (e : ByteArray) : Prop := e.length ∈ [16, 20, 24, 28, 32]

instance (e : ByteArray) : Decidable (Permitted e) := inferInstanceAs (Decidable (_ ∈ _))

def checked (sha256 : ByteArray → ByteArray) (e : ByteArray) : Bits :=
  e.flatMap bitsOf ++ ((sha256 e).flatMap bitsOf).take (e.length / 4)

section
variable {words : List String} {sha256 : ByteArray → ByteArray}

variable {e : ByteArray}

theorem length_checked (hsha : ∀ e, (sha256 e).length = 32) (he : Permitted e) :
    (checked sha256 e).length = 11 * (e.length / 4 * 3) := by
  have hcases : e.length = 16 ∨ e.length = 20 ∨ e.length = 24 ∨ e.length = 28 ∨ e.length = 32 := by
    simpa only [Permitted, List.mem_cons, List.not_mem_nil, or_false] using he
  rw [checked, List.length_append, List.length_take, length_flatMap_bitsOf, length_flatMap_bitsOf,
    hsha]
  omega

theorem take_checked (sha256 : ByteArray → ByteArray) (e : ByteArray) :
    (checked sha256 e).take (8 * e.length) = e.flatMap bitsOf := by
  rw [checked, ← length_flatMap_bitsOf, List.take_left]

theorem drop_checked (sha256 : ByteArray → ByteArray) (e : ByteArray) :
    (checked sha256 e).drop (8 * e.length) = ((sha256 e).flatMap bitsOf).take (e.length / 4) := by
  rw [checked, ← length_flatMap_bitsOf, List.drop_left]

theorem checked_injective {e' : ByteArray} (hlen : e.length = e'.length)
    (h : checked sha256 e = checked sha256 e') : e = e' := by
  have htake := congrArg (List.take (8 * e.length)) h
  rw [take_checked, hlen, take_checked] at htake
  rw [← bytesOf_bits e, htake, bytesOf_bits]

variable (hlength : words.length = 2048) (hnodup : words.Nodup)
  (hsha : ∀ e, (sha256 e).length = 32)

include hlength hsha in
theorem fromEntropy_eq (he : Permitted e) :
    fromEntropy words sha256 e = some (spelled words (e.length / 4 * 3) (checked sha256 e)) := by
  have hcases : e.length = 16 ∨ e.length = 20 ∨ e.length = 24 ∨ e.length = 28 ∨ e.length = 32 := by
    simpa only [Permitted, List.mem_cons, List.not_mem_nil, or_false] using he
  have hcs : e.length * 8 / 32 = e.length / 4 := by omega
  have hhash : ¬ ((sha256 e).flatMap bitsOf).length < e.length / 4 := by
    rw [length_flatMap_bitsOf, hsha]
    omega
  have hchecked := length_checked hsha he
  unfold fromEntropy
  simp only [hcs, if_neg hhash]
  exact wordsLoop_eq hlength hchecked (by rw [← checked, hchecked]; omega)

theorem length_spelled (n : ℕ) (bits : Bits) : (spelled words n bits).length = n := by
  rw [spelled, List.length_map, length_groups]

theorem idxOf?_of_mem {words : List String} {w : String} (h : w ∈ words) :
    words.idxOf? w = some (words.idxOf w) := by
  induction words with
  | nil => exact absurd h List.not_mem_nil
  | cons x words ih =>
    rw [List.idxOf?_cons, List.idxOf_cons]
    by_cases hx : (x == w) = true
    · rw [if_pos hx, hx]
      rfl
    · have hne : w ≠ x := fun heq => hx (beq_iff_eq.mpr heq.symm)
      rw [if_neg hx, ih ((List.mem_cons.mp h).resolve_left hne), Bool.eq_false_of_not_eq_true hx]
      rfl

variable {mnemonic : List String}

theorem isValid_iff : isValid words sha256 mnemonic = true ↔
    mnemonic.length ∈ [12, 15, 18, 21, 24] ∧ (∀ w ∈ mnemonic, w ∈ words) ∧
      (places words mnemonic).drop (mnemonic.length / 3 * 32) =
        ((sha256 (bytesOf ((places words mnemonic).take (mnemonic.length / 3 * 32)))).flatMap
          bitsOf).take (mnemonic.length / 3) := by
  unfold isValid
  by_cases hsize : mnemonic.length ∉ [12, 15, 18, 21, 24]
  · rw [if_pos hsize]
    exact ⟨fun h => (by cases h), fun h => absurd h.1 hsize⟩
  rw [if_neg hsize]
  have hsize' := not_not.mp hsize
  have hcases : mnemonic.length = 12 ∨ mnemonic.length = 15 ∨ mnemonic.length = 18 ∨
      mnemonic.length = 21 ∨ mnemonic.length = 24 := by
    simpa only [List.mem_cons, List.not_mem_nil, or_false] using hsize'
  have hent : mnemonic.length * 11 * 32 / 33 = mnemonic.length / 3 * 32 := by omega
  have hcs : mnemonic.length * 11 - mnemonic.length / 3 * 32 = mnemonic.length / 3 := by omega
  by_cases hall : ∀ w ∈ mnemonic, w ∈ words
  · have hnone : ¬ (mnemonic.map fun w => words.idxOf? w).any Option.isNone = true := by
      intro hany
      obtain ⟨o, ho, hisNone⟩ := List.any_eq_true.mp hany
      obtain ⟨w, hw, rfl⟩ := List.mem_map.mp ho
      rw [Option.isNone_iff_eq_none, List.idxOf?_eq_none_iff] at hisNone
      exact hisNone (hall w hw)
    have hbits : (mnemonic.map fun w => words.idxOf? w).flatMap (fun n => numeral 11 (n.getD 0)) =
        places words mnemonic := by
      rw [List.flatMap_map]
      apply List.flatMap_congr
      intro w hw
      rw [idxOf?_of_mem (hall w hw), Option.getD_some]
    simp only [if_neg hnone, hbits, hent, hcs, beq_iff_eq]
    exact ⟨fun h => ⟨hsize', hall, h⟩, fun h => h.2.2⟩
  · have hany : (mnemonic.map fun w => words.idxOf? w).any Option.isNone = true := by
      obtain ⟨w, hw⟩ := not_forall.mp hall
      obtain ⟨hmem, hnot⟩ := Classical.not_imp.mp hw
      apply List.any_eq_true.mpr
      refine ⟨words.idxOf? w, List.mem_map_of_mem hmem, ?_⟩
      rw [Option.isNone_iff_eq_none, List.idxOf?_eq_none_iff]
      exact hnot
    simp only [if_pos hany]
    exact ⟨fun h => (by cases h), fun h => absurd h.2.1 hall⟩

include hlength hsha in
theorem length_fromEntropy (he : Permitted e)
    (h : fromEntropy words sha256 e = some mnemonic) : 4 * mnemonic.length = 3 * e.length := by
  have hcases : e.length = 16 ∨ e.length = 20 ∨ e.length = 24 ∨ e.length = 28 ∨ e.length = 32 := by
    simpa only [Permitted, List.mem_cons, List.not_mem_nil, or_false] using he
  rw [fromEntropy_eq hlength hsha he] at h
  rw [← Option.some.inj h, length_spelled]
  omega

include hlength hnodup hsha in
theorem isValid_fromEntropy (he : Permitted e)
    (h : fromEntropy words sha256 e = some mnemonic) : isValid words sha256 mnemonic = true := by
  have hcases : e.length = 16 ∨ e.length = 20 ∨ e.length = 24 ∨ e.length = 28 ∨ e.length = 32 := by
    simpa only [Permitted, List.mem_cons, List.not_mem_nil, or_false] using he
  have hwords := length_fromEntropy hlength hsha he h
  have hchecked := length_checked hsha he
  rw [fromEntropy_eq hlength hsha he] at h
  obtain rfl := Option.some.inj h
  have hent : (spelled words (e.length / 4 * 3) (checked sha256 e)).length / 3 * 32 = 8 * e.length := by
    omega
  have hcs : (spelled words (e.length / 4 * 3) (checked sha256 e)).length / 3 = e.length / 4 := by
    omega
  rw [isValid_iff]
  refine ⟨?_, spelled_mem hlength hchecked, ?_⟩
  · simp only [List.mem_cons, List.not_mem_nil, or_false]
    omega
  · rw [hent, hcs, places_spelled hlength hnodup hchecked, drop_checked, take_checked, bytesOf_bits]

include hlength hnodup hsha in
theorem fromEntropy_injective {e' : ByteArray} (he : Permitted e) (hlen : e.length = e'.length)
    (h : fromEntropy words sha256 e = fromEntropy words sha256 e') : e = e' := by
  have he' : Permitted e' := by rwa [Permitted, ← hlen]
  rw [fromEntropy_eq hlength hsha he, fromEntropy_eq hlength hsha he', ← hlen] at h
  have hplaces := congrArg (places words) (Option.some.inj h)
  rw [places_spelled hlength hnodup (length_checked hsha he),
    places_spelled hlength hnodup (hlen ▸ length_checked hsha he')] at hplaces
  exact checked_injective hlen hplaces

include hlength hsha in
theorem exists_fromEntropy (h : isValid words sha256 mnemonic = true) :
    ∃ e, Permitted e ∧ fromEntropy words sha256 e = some mnemonic := by
  obtain ⟨hsize, hall, hcheck⟩ := isValid_iff.mp h
  have hcases : mnemonic.length = 12 ∨ mnemonic.length = 15 ∨ mnemonic.length = 18 ∨
      mnemonic.length = 21 ∨ mnemonic.length = 24 := by
    simpa only [List.mem_cons, List.not_mem_nil, or_false] using hsize
  have hbits := length_places hlength hall
  have htake : ((places words mnemonic).take (mnemonic.length / 3 * 32)).length =
      8 * (mnemonic.length / 3 * 4) := by
    rw [List.length_take]
    omega
  obtain ⟨hround, hlen⟩ := bits_bytesOf htake
  set e := bytesOf ((places words mnemonic).take (mnemonic.length / 3 * 32)) with he
  have hpermitted : Permitted e := by
    simp only [Permitted, List.mem_cons, List.not_mem_nil, or_false]
    omega
  have hchecked : checked sha256 e = places words mnemonic := by
    have hcs : e.length / 4 = mnemonic.length / 3 := by omega
    rw [checked, hround, hcs, ← hcheck, List.take_append_drop]
  refine ⟨e, hpermitted, ?_⟩
  have hwords : e.length / 4 * 3 = mnemonic.length := by omega
  rw [fromEntropy_eq hlength hsha hpermitted, hchecked, hwords, spelled_places hlength hall]

end

/-- Recovery phrases and entropy are in bijection. -/
theorem phrases_bijective (words : List String) (sha256 : ByteArray → ByteArray)
    (hlength : words.length = 2048) (hnodup : words.Nodup) (hsha : ∀ e, (sha256 e).length = 32) :
    (∀ e, Permitted e → ∃ mnemonic, fromEntropy words sha256 e = some mnemonic ∧
      4 * mnemonic.length = 3 * e.length ∧ isValid words sha256 mnemonic = true) ∧
    (∀ e e', Permitted e → e.length = e'.length →
      fromEntropy words sha256 e = fromEntropy words sha256 e' → e = e') ∧
    ∀ mnemonic, isValid words sha256 mnemonic = true →
      ∃! e, Permitted e ∧ fromEntropy words sha256 e = some mnemonic := by
  refine ⟨fun e he => ?_, fun e e' he hlen h => fromEntropy_injective hlength hnodup hsha he hlen h,
    fun mnemonic hvalid => ?_⟩
  · have hphrase := fromEntropy_eq hlength hsha he
    exact ⟨_, hphrase, length_fromEntropy hlength hsha he hphrase,
      isValid_fromEntropy hlength hnodup hsha he hphrase⟩
  · obtain ⟨e, he, hphrase⟩ := exists_fromEntropy hlength hsha hvalid
    refine ⟨e, ⟨he, hphrase⟩, fun e' ⟨he', hphrase'⟩ => ?_⟩
    have hwords := length_fromEntropy hlength hsha he hphrase
    have hwords' := length_fromEntropy hlength hsha he' hphrase'
    exact fromEntropy_injective hlength hnodup hsha he' (by omega) (hphrase'.trans hphrase.symm)

def sampleWords : List String := (List.range 2048).map fun n => String.ofList (List.replicate n 'a')

def sampleHash (_ : ByteArray) : ByteArray := List.replicate 32 0

theorem phrases_bijective_sample : ∃ mnemonic,
    fromEntropy sampleWords sampleHash (List.replicate 16 (-1)) = some mnemonic ∧
      4 * mnemonic.length = 3 * 16 ∧ isValid sampleWords sampleHash mnemonic = true := by
  have hnodup : sampleWords.Nodup := by
    apply List.Nodup.map _ List.nodup_range
    intro m n h
    have hlist := congrArg List.length (String.ofList_injective h)
    rwa [List.length_replicate, List.length_replicate] at hlist
  have hlength : sampleWords.length = 2048 := by
    rw [sampleWords, List.length_map, List.length_range]
  exact (phrases_bijective sampleWords sampleHash hlength hnodup fun _ => List.length_replicate).1
    (List.replicate 16 (-1)) (by decide)

end KvasirNet.RecoveryPhrase
