import KvasirNet.Utf8Text
import Mathlib.Data.List.TakeWhile
import Mathlib.Data.Rat.Defs
import Mathlib.Algebra.Order.Ring.Rat
import Mathlib.Tactic.Linarith

/-! Bytes as base64url text, numbers as decimal text, and lists of fields behind
a separator, each with the reader that takes its own writing back. -/
namespace KvasirNet

/-! ## base64url -/

def base64Digit (n : ℕ) : Char :=
  if n < 26 then Char.ofNat (65 + n)
  else if n < 52 then Char.ofNat (71 + n)
  else if n < 62 then Char.ofNat (n - 4)
  else if n = 62 then '-'
  else '_'

def base64Value (c : Char) : Option ℕ :=
  if 'A' ≤ c ∧ c ≤ 'Z' then some (c.toNat - 65)
  else if 'a' ≤ c ∧ c ≤ 'z' then some (c.toNat - 71)
  else if '0' ≤ c ∧ c ≤ '9' then some (c.toNat + 4)
  else if c = '-' ∨ c = '+' then some 62
  else if c = '_' ∨ c = '/' then some 63
  else none

/-- Three bytes make four digits; a rest of one or two makes two or three. -/
def sextets : Bytes → List ℕ
  | [] => []
  | [a] => [a.toNat / 4, a.toNat % 4 * 16]
  | [a, b] => [a.toNat / 4, a.toNat % 4 * 16 + b.toNat / 16, b.toNat % 16 * 4]
  | a :: b :: c :: rest =>
    a.toNat / 4 :: (a.toNat % 4 * 16 + b.toNat / 16) :: (b.toNat % 16 * 4 + c.toNat / 64) ::
      c.toNat % 64 :: sextets rest

def ofSextets : List ℕ → Bytes
  | w :: x :: y :: z :: rest =>
    UInt8.ofNat (w * 4 + x / 16) :: UInt8.ofNat (x % 16 * 16 + y / 4) ::
      UInt8.ofNat (y % 4 * 64 + z) :: ofSextets rest
  | [w, x, y] => [UInt8.ofNat (w * 4 + x / 16), UInt8.ofNat (x % 16 * 16 + y / 4)]
  | [w, x] => [UInt8.ofNat (w * 4 + x / 16)]
  | _ => []

def base64url (bs : Bytes) : String := String.ofList ((sextets bs).map base64Digit)

def ofBase64url (text : String) : Bytes := ofSextets (text.toList.filterMap base64Value)

theorem base64Value_digit {n : ℕ} (h : n < 64) : base64Value (base64Digit n) = some n := by
  have hall : ∀ k : Fin 64, base64Value (base64Digit k) = some k.val := by decide +kernel
  exact hall ⟨n, h⟩

theorem sextets_lt (bs : Bytes) : ∀ n ∈ sextets bs, n < 64 := by
  fun_induction sextets bs with
  | case1 => simp
  | case2 a =>
    have ha := a.toNat_lt
    simp only [List.mem_cons, List.not_mem_nil, or_false, forall_eq_or_imp, forall_eq]
    omega
  | case3 a b =>
    have ha := a.toNat_lt
    have hb := b.toNat_lt
    simp only [List.mem_cons, List.not_mem_nil, or_false, forall_eq_or_imp, forall_eq]
    omega
  | case4 a b c rest ih =>
    have ha := a.toNat_lt
    have hb := b.toNat_lt
    have hc := c.toNat_lt
    simp only [List.mem_cons, forall_eq_or_imp]
    refine ⟨by omega, by omega, by omega, by omega, ih⟩

theorem ofNat_eq_of_toNat {n : ℕ} {b : UInt8} (h : n = b.toNat) : UInt8.ofNat n = b := by
  rw [h, UInt8.ofNat_toNat]

theorem ofSextets_sextets (bs : Bytes) : ofSextets (sextets bs) = bs := by
  fun_induction sextets bs with
  | case1 => rfl
  | case2 a =>
    have ha := a.toNat_lt
    simp only [ofSextets]
    rw [ofNat_eq_of_toNat (b := a) (by omega)]
  | case3 a b =>
    have ha := a.toNat_lt
    have hb := b.toNat_lt
    simp only [ofSextets]
    rw [ofNat_eq_of_toNat (b := a) (by omega), ofNat_eq_of_toNat (b := b) (by omega)]
  | case4 a b c rest ih =>
    have ha := a.toNat_lt
    have hb := b.toNat_lt
    have hc := c.toNat_lt
    simp only [ofSextets, ih]
    rw [ofNat_eq_of_toNat (b := a) (by omega), ofNat_eq_of_toNat (b := b) (by omega),
      ofNat_eq_of_toNat (b := c) (by omega)]

theorem ofBase64url_base64url (bs : Bytes) : ofBase64url (base64url bs) = bs := by
  have hdigits (l : List ℕ) (hl : ∀ n ∈ l, n < 64) :
      (l.map base64Digit).filterMap base64Value = l := by
    induction l with
    | nil => rfl
    | cons n l ih =>
      have hn := base64Value_digit (hl n List.mem_cons_self)
      have hrest := ih fun k hk => hl k (List.mem_cons_of_mem n hk)
      rw [List.map_cons, List.filterMap_cons, hn, hrest]
  rw [ofBase64url, base64url, String.toList_ofList, hdigits _ (sextets_lt bs), ofSextets_sextets]

theorem base64url_ne_empty {bs : Bytes} (h : bs ≠ []) : base64url bs ≠ "" := by
  intro he
  have hback := ofBase64url_base64url bs
  rw [he] at hback
  exact h hback.symm

/-! ## Numbers -/

/-- White space and line ends as `trim` knows them. -/
def isBlank (c : Char) : Bool :=
  let n := c.toNat
  (9 ≤ n && n ≤ 13) || n == 32 || n == 0xA0 || n == 0x1680 || (0x2000 ≤ n && n ≤ 0x200A) ||
    n == 0x2028 || n == 0x2029 || n == 0x202F || n == 0x205F || n == 0x3000 || n == 0xFEFF

def trimBlanks (cs : List Char) : List Char :=
  ((cs.dropWhile isBlank).reverse.dropWhile isBlank).reverse

def digitsValue (cs : List Char) : Option ℕ :=
  if cs ≠ [] ∧ cs.all Char.isDigit then some (Nat.ofDigitChars 10 cs 0) else none

/-- The value of a hexadecimal, octal or binary digit. -/
def radixDigit (radix : ℕ) (c : Char) : Option ℕ :=
  let n := c.toNat
  let d := if c.isDigit then n - 48
    else if 97 ≤ n ∧ n ≤ 102 then n - 87
    else if 65 ≤ n ∧ n ≤ 70 then n - 55
    else radix
  if d < radix then some d else none

def radixValue (radix : ℕ) (cs : List Char) : Option ℚ :=
  if cs = [] then none
  else (cs.mapM (radixDigit radix)).map fun ds => ((ds.foldl (fun v d => v * radix + d) 0 : ℕ) : ℚ)

/-- The exponent behind an `e`. -/
def exponentValue : List Char → Option ℤ
  | '+' :: cs => (digitsValue cs).map fun n => (n : ℤ)
  | '-' :: cs => (digitsValue cs).map fun n => -(n : ℤ)
  | cs => (digitsValue cs).map fun n => (n : ℤ)

/-- A decimal literal without a sign: digits around a point, of which one side may
be missing, and an exponent. -/
def decimalValue (cs : List Char) : Option ℚ :=
  let isE (c : Char) : Bool := c == 'e' || c == 'E'
  let mantissa := cs.takeWhile fun c => !isE c
  let whole := mantissa.takeWhile fun c => c != '.'
  let fraction := (mantissa.dropWhile fun c => c != '.').drop 1
  (digitsValue (whole ++ fraction)).bind fun m =>
    let value : ℚ := m / 10 ^ fraction.length
    match cs.dropWhile fun c => !isE c with
    | [] => some value
    | _ :: e => (exponentValue e).map fun k => value * (10 : ℚ) ^ k

/-- `Number(text)` before it is rounded to a double; `none` is what is no number
or is spelled `Infinity`. -/
def jsNumber (text : String) : Option ℚ :=
  match trimBlanks text.toList with
  | [] => some 0
  | '0' :: 'x' :: cs | '0' :: 'X' :: cs => radixValue 16 cs
  | '0' :: 'o' :: cs | '0' :: 'O' :: cs => radixValue 8 cs
  | '0' :: 'b' :: cs | '0' :: 'B' :: cs => radixValue 2 cs
  | '+' :: cs => decimalValue cs
  | '-' :: cs => (decimalValue cs).map fun v => -v
  | cs => decimalValue cs

/-- The value rounds to a double and not to an infinity. -/
def isFinite (x : ℚ) : Bool := decide (|x| < 2 ^ 1024 - 2 ^ 970)

variable {c : Char}

theorem isDigit_bounds (h : c.isDigit = true) : 48 ≤ c.toNat ∧ c.toNat ≤ 57 := by
  simp only [Char.isDigit, Bool.and_eq_true, decide_eq_true_eq] at h
  exact ⟨h.1, h.2⟩

theorem isBlank_of_digit (h : c.isDigit = true) : isBlank c = false := by
  have hb := isDigit_bounds h
  simp only [isBlank, Bool.or_eq_false_iff, Bool.and_eq_false_iff, decide_eq_false_iff_not,
    beq_eq_false_iff_ne]
  omega

theorem ne_of_digit {d : Char} (h : c.isDigit = true) (hd : d.isDigit = false) : c ≠ d := by
  rintro rfl
  rw [h] at hd
  cases hd

variable {cs : List Char}

theorem trimBlanks_eq_self (h : ∀ c ∈ cs, isBlank c = false) :
    trimBlanks cs = cs := by
  have hdrop (l : List Char) (hl : ∀ c ∈ l, isBlank c = false) : l.dropWhile isBlank = l := by
    cases l with
    | nil => rfl
    | cons c l => rw [List.dropWhile_cons_of_neg (by simp [hl c List.mem_cons_self])]
  rw [trimBlanks, hdrop cs h, hdrop cs.reverse fun c hc => h c (List.mem_reverse.mp hc),
    List.reverse_reverse]

theorem decimalValue_digits (hne : cs ≠ []) (h : ∀ c ∈ cs, c.isDigit = true) :
    decimalValue cs = some (Nat.ofDigitChars 10 cs 0 : ℚ) := by
  have hmantissa : (cs.takeWhile fun c => !(c == 'e' || c == 'E')) = cs := by
    apply List.takeWhile_eq_self_iff.mpr
    intro c hc
    simp [ne_of_digit (h c hc) (show 'e'.isDigit = false by decide),
      ne_of_digit (h c hc) (show 'E'.isDigit = false by decide)]
  have hexponent : (cs.dropWhile fun c => !(c == 'e' || c == 'E')) = [] := by
    rw [List.dropWhile_eq_nil_iff]
    intro c hc
    exact List.takeWhile_eq_self_iff.mp hmantissa c hc
  have hpoint : ∀ c ∈ cs, (c != '.') = true := by
    intro c hc
    exact bne_iff_ne.mpr (ne_of_digit (h c hc) (by decide))
  have hwhole : (cs.takeWhile fun c => c != '.') = cs := List.takeWhile_eq_self_iff.mpr hpoint
  have hfraction : (cs.dropWhile fun c => c != '.') = [] := List.dropWhile_eq_nil_iff.mpr hpoint
  have hvalue : digitsValue cs = some (Nat.ofDigitChars 10 cs 0) :=
    if_pos ⟨hne, List.all_eq_true.mpr h⟩
  simp only [decimalValue, hmantissa, hexponent, hwhole, hfraction, List.drop_nil, List.append_nil,
    hvalue, Option.bind_some, List.length_nil, pow_zero, div_one]

theorem jsNumber_digits (hne : cs ≠ []) (h : ∀ c ∈ cs, c.isDigit = true) :
    jsNumber (String.ofList cs) = some (Nat.ofDigitChars 10 cs 0 : ℚ) := by
  have htrim : trimBlanks (String.ofList cs).toList = cs := by
    rw [String.toList_ofList]
    exact trimBlanks_eq_self fun c hc => isBlank_of_digit (h c hc)
  unfold jsNumber
  rw [htrim]
  -- a second character that is a letter, or a sign in front, is no digit
  have hletter {c d : Char} {l : List Char} (hl : cs = c :: d :: l) (hd : d.isDigit = false) : False := by
    have hmem := h d (by rw [hl]; simp)
    rw [hd] at hmem
    cases hmem
  have hsign {c : Char} {l : List Char} (hl : cs = c :: l) (hc : c.isDigit = false) : False := by
    have hmem := h c (by rw [hl]; simp)
    rw [hc] at hmem
    cases hmem
  split
  · exact absurd rfl hne
  · exact (hletter rfl (by decide)).elim
  · exact (hletter rfl (by decide)).elim
  · exact (hletter rfl (by decide)).elim
  · exact (hletter rfl (by decide)).elim
  · exact (hletter rfl (by decide)).elim
  · exact (hletter rfl (by decide)).elim
  · exact (hsign rfl (by decide)).elim
  · exact (hsign rfl (by decide)).elim
  · exact decimalValue_digits hne h

theorem jsNumber_toString (n : ℤ) : jsNumber (toString n) = some (n : ℚ) := by
  have hdigits (m : ℕ) : ∀ c ∈ Nat.toDigits 10 m, c.isDigit = true :=
    fun c hc => Nat.isDigit_of_mem_toDigits (by decide) (by decide) hc
  cases n with
  | ofNat m =>
    have htext : toString (Int.ofNat m) = String.ofList (Nat.toDigits 10 m) :=
      Nat.repr_eq_ofList_toDigits
    rw [htext, jsNumber_digits Nat.toDigits_ne_nil (hdigits m), Nat.ofDigitChars_ten_toDigits]
    simp
  | negSucc m =>
    have htext : (toString (Int.negSucc m)).toList = '-' :: Nat.toDigits 10 (m + 1) := by
      change ("-" ++ Nat.repr (m + 1)).toList = _
      rw [String.toList_append, Nat.toList_repr]
      rfl
    have htrim : trimBlanks (toString (Int.negSucc m)).toList = '-' :: Nat.toDigits 10 (m + 1) := by
      rw [htext]
      apply trimBlanks_eq_self
      intro c hc
      rcases List.mem_cons.mp hc with rfl | hc
      · decide
      · exact isBlank_of_digit (hdigits _ c hc)
    unfold jsNumber
    rw [htrim]
    simp only [decimalValue_digits Nat.toDigits_ne_nil (hdigits (m + 1)),
      Nat.ofDigitChars_ten_toDigits, Option.map_some]
    push_cast
    rfl

/-! ## Fields -/

def splitFields (sep : Char) (text : String) : List String :=
  (text.toList.splitOn sep).map String.ofList

theorem length_splitOn_of_mem {sep : Char} {l : List Char} (h : sep ∈ l) :
    2 ≤ (l.splitOn sep).length := by
  obtain ⟨xs, ys, rfl⟩ := List.append_of_mem h
  rw [List.splitOn_append_cons_self, List.length_append]
  have hx := List.length_pos_iff.mpr (List.splitOn_ne_nil sep xs)
  have hy := List.length_pos_iff.mpr (List.splitOn_ne_nil sep ys)
  omega

theorem splitFields_append (sep : Char) (a b : String) :
    splitFields sep (a ++ String.singleton sep ++ b) = splitFields sep a ++ splitFields sep b := by
  unfold splitFields
  have hlist : (a ++ String.singleton sep ++ b).toList = a.toList ++ sep :: b.toList := by
    simp [String.toList_append]
  rw [hlist, List.splitOn_append_cons_self, List.map_append]

theorem splitFields_of_notMem {sep : Char} {text : String} (h : sep ∉ text.toList) :
    splitFields sep text = [text] := by
  rw [splitFields, List.splitOn_eq_singleton h, List.map_singleton, String.ofList_toList]

/-! ## Positions -/

/-- `text.lastIndexOf(c)`. -/
def lastIndexOf (c : Char) (cs : List Char) : ℤ :=
  match cs.reverse.findIdx? (· == c) with
  | some i => cs.length - 1 - i
  | none => -1

/-- `text.lastIndexOf(c, start)`: a negative start is the first position. -/
def lastIndexFrom (c : Char) (cs : List Char) (start : ℤ) : ℤ :=
  lastIndexOf c (cs.take (start.toNat + 1))

/-- `text.slice(start, stop)`: a negative position counts from the end. -/
def slice (cs : List Char) (start stop : ℤ) : List Char :=
  let position (i : ℤ) : ℕ := if i < 0 then (cs.length + i).toNat else i.toNat
  (cs.take (position stop)).drop (position start)

theorem lastIndexOf_append (xs : List Char) {ys : List Char} (h : c ∉ ys) :
    lastIndexOf c (xs ++ c :: ys) = xs.length := by
  have hnone : ys.reverse.findIdx? (· == c) = none := by
    rw [List.findIdx?_eq_none_iff]
    intro x hx
    rw [beq_eq_false_iff_ne]
    rintro rfl
    exact h (List.mem_reverse.mp hx)
  have hfind : (xs ++ c :: ys).reverse.findIdx? (· == c) = some ys.length := by
    rw [List.reverse_append, List.reverse_cons, List.append_assoc, List.findIdx?_append, hnone]
    simp [List.findIdx?_cons]
  unfold lastIndexOf
  rw [hfind]
  simp only [List.length_append, List.length_cons]
  omega

theorem slice_lastTwo (xs : List Char) {ys zs : List Char} (hy : c ∉ ys) (hz : c ∉ zs) :
    let cs := xs ++ c :: (ys ++ c :: zs)
    let i2 := lastIndexOf c cs
    let i1 := lastIndexFrom c cs (i2 - 1)
    slice cs 0 i1 = xs ∧ slice cs (i1 + 1) i2 = ys ∧ slice cs (i2 + 1) cs.length = zs := by
  intro cs i2 i1
  have hcs : cs = (xs ++ c :: ys) ++ c :: zs := by simp [cs]
  have hi2 : i2 = ((xs.length + ys.length + 1 : ℕ) : ℤ) := by
    have hlast := lastIndexOf_append (xs ++ c :: ys) hz
    rw [← hcs] at hlast
    refine hlast.trans ?_
    simp only [List.length_append, List.length_cons]
    omega
  have htake : cs.take ((i2 - 1).toNat + 1) = xs ++ c :: ys := by
    have hcount : (i2 - 1).toNat + 1 = (xs ++ c :: ys).length := by
      simp only [List.length_append, List.length_cons]
      omega
    rw [hcount, hcs, List.take_left]
  have hi1 : i1 = (xs.length : ℤ) := by
    show lastIndexOf c (cs.take ((i2 - 1).toNat + 1)) = _
    rw [htake, lastIndexOf_append xs hy]
  have hlen : cs.length = xs.length + ys.length + 1 + (zs.length + 1) := by
    simp only [cs, List.length_append, List.length_cons]
    omega
  refine ⟨?_, ?_, ?_⟩
  · unfold slice
    rw [hi1]
    have hnat : ¬ ((xs.length : ℤ) < 0) := by omega
    simp only [hnat, if_false, Int.toNat_natCast, lt_irrefl, Int.toNat_zero, List.drop_zero]
    exact List.take_left
  · unfold slice
    rw [hi1, hi2]
    have hstop : ¬ (((xs.length + ys.length + 1 : ℕ) : ℤ) < 0) := by omega
    have hstart : ¬ ((xs.length : ℤ) + 1 < 0) := by omega
    have hnext : ((xs.length : ℤ) + 1).toNat = xs.length + 1 := by omega
    simp only [hstop, hstart, if_false, Int.toNat_natCast, hnext]
    have hpart : cs.take (xs.length + ys.length + 1) = (xs ++ [c]) ++ ys := by
      have hcount : xs.length + ys.length + 1 = (xs ++ c :: ys).length := by
        simp only [List.length_append, List.length_cons]
        omega
      rw [hcount, hcs, List.take_left, List.append_assoc, List.singleton_append]
    have hdrop : xs.length + 1 = (xs ++ [c]).length := by simp
    rw [hpart, hdrop, List.drop_left]
  · unfold slice
    rw [hi2]
    have hstop : ¬ ((cs.length : ℤ) < 0) := by omega
    have hstart : ¬ (((xs.length + ys.length + 1 : ℕ) : ℤ) + 1 < 0) := by omega
    have hnext : (((xs.length + ys.length + 1 : ℕ) : ℤ) + 1).toNat =
        ((xs ++ c :: ys) ++ [c]).length := by
      simp only [List.length_append, List.length_cons, List.length_nil]
      omega
    simp only [hstop, hstart, if_false, Int.toNat_natCast, hnext, List.take_length]
    have hall : cs = ((xs ++ c :: ys) ++ [c]) ++ zs := by
      rw [hcs, List.append_assoc _ [c], List.singleton_append]
    conv_lhs => rw [hall]
    exact List.drop_left

end KvasirNet
