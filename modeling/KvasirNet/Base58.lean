import KvasirNet.Radix
import KvasirNet.SignedTexts
import Mathlib.Tactic.IntervalCases

/-! The four base58 decoders, and the encoding they undo. -/
namespace KvasirNet.Signing

open KvasirNet.Gateway (utf16Length)

/-- The admissions service's copy of the bridge's decoder. -/
def Admissions.base58Decode : String → Option Bytes := NodeAuth.base58Decode

def base58Letter (d : ℕ) : Char := base58.getD d '1'

/-- A zero byte is a leading one; the value of the others follows in base 58. -/
def base58Text (bytes : Bytes) : String :=
  String.ofList ((Radix.rebase 256 58 (bytes.map UInt8.toNat)).map base58Letter)

/-- A decoder gives the bytes that a text encodes, and none for a text that encodes none. -/
def Inverts (decode : String → Option Bytes) (s : String) : Prop :=
  ∀ bytes, decode s = some bytes ↔ base58Text bytes = s

structure DecodersExact (s : String) : Prop where
  gateway : Inverts GatewayAuth.b58decode s
  relay : Inverts Relay.b58decode s
  bridge : Inverts NodeAuth.base58Decode s
  admissions : Inverts Admissions.base58Decode s

/-! ### Letters and digits -/

theorem idxOf_letter : ∀ d < 58, base58.idxOf? (base58Letter d) = some d := by decide

theorem letter_eq_one : ∀ d < 58, base58Letter d = '1' ↔ d = 0 := by decide

theorem idxOf_eq_some {c : Char} {d : ℕ} :
    base58.idxOf? c = some d ↔ d < 58 ∧ base58Letter d = c := by
  constructor
  · intro h
    obtain ⟨hd, hc, -⟩ := List.idxOf?_eq_some_iff.mp h
    refine ⟨hd, ?_⟩
    rw [base58Letter, List.getD, List.getElem?_eq_getElem hd, hc]
    rfl
  · rintro ⟨hd, rfl⟩
    exact idxOf_letter d hd

/-- The digits of a text, where all of its letters are in the alphabet. -/
def digits (cs : List Char) : Option (List ℕ) := cs.mapM fun c => base58.idxOf? c

variable {ds : List ℕ}

theorem digits_eq_some {cs : List Char} :
    digits cs = some ds ↔ (∀ d ∈ ds, d < 58) ∧ ds.map base58Letter = cs := by
  unfold digits
  induction cs generalizing ds with
  | nil =>
    constructor
    · intro h
      obtain rfl := Option.some.inj h
      exact ⟨fun d hd => absurd hd List.not_mem_nil, rfl⟩
    · rintro ⟨-, hmap⟩
      rw [List.map_eq_nil_iff.mp hmap]
      rfl
  | cons c cs ih =>
    rw [List.mapM_cons]
    simp only [Option.bind_eq_bind, Option.bind_eq_some_iff]
    constructor
    · rintro ⟨d, hd, rest, hrest, heq⟩
      obtain rfl := Option.some.inj heq
      obtain ⟨hlt, rfl⟩ := idxOf_eq_some.mp hd
      obtain ⟨hall, rfl⟩ := ih.mp hrest
      exact ⟨List.forall_mem_cons.mpr ⟨hlt, hall⟩, rfl⟩
    · rintro ⟨hall, hmap⟩
      obtain ⟨d, rest, rfl, rfl, rfl⟩ := List.map_eq_cons_iff.mp hmap
      obtain ⟨hlt, hrest⟩ := List.forall_mem_cons.mp hall
      exact ⟨d, idxOf_letter d hlt, rest, ih.mpr ⟨hrest, rfl⟩, rfl⟩

theorem leading_ones (h : ∀ d ∈ ds, d < 58) :
    ((ds.map base58Letter).takeWhile (· = '1')).length = Radix.zeros ds := by
  induction ds with
  | nil => rfl
  | cons d ds ih =>
    obtain ⟨hd, hds⟩ := List.forall_mem_cons.mp h
    have hone := letter_eq_one d hd
    have hrest := ih hds
    unfold Radix.zeros at hrest ⊢
    by_cases hzero : d = 0
    · have hletter := hone.mpr hzero
      have hfront : decide (d = 0) = true := decide_eq_true hzero
      simp only [List.map_cons, List.takeWhile_cons, hletter, hfront, decide_true, if_true,
        List.length_cons, hrest]
    · have hletter : ¬ base58Letter d = '1' := fun h => hzero (hone.mp h)
      simp only [List.map_cons, List.takeWhile_cons, hletter, hzero, decide_false]
      rfl

/-! ### The loops -/

theorem pushCarry_eq {fuel carry : ℕ} (h : carry < 256 ^ fuel) :
    pushCarry fuel carry = Nat.digits 256 carry := by
  induction fuel generalizing carry with
  | zero =>
    have hzero : carry = 0 := by simpa using h
    rw [hzero, Nat.digits_zero]
    rfl
  | succ fuel ih =>
    by_cases hzero : carry = 0
    · rw [pushCarry, if_pos hzero, hzero, Nat.digits_zero]
    · have hrest : carry / 256 < 256 ^ fuel := by
        rw [Nat.div_lt_iff_lt_mul (by decide), ← Nat.pow_succ]
        exact h
      rw [pushCarry, if_neg hzero, ih hrest,
        Nat.digits_def' (n := carry) (by decide) (by omega)]

theorem addDigit_digits (n v : ℕ) :
    addDigit (Nat.digits 256 n) v = Nat.digits 256 (n * 58 + v) := by
  induction n using Nat.strongRecOn generalizing v with
  | ind n ih =>
    by_cases hzero : n = 0
    · rw [hzero, Nat.digits_zero, Nat.zero_mul, Nat.zero_add]
      exact pushCarry_eq (Nat.lt_pow_self (by decide))
    · have hpos : 0 < n := Nat.pos_of_ne_zero hzero
      have hrest := ih (n / 256) (Nat.div_lt_self hpos (by decide)) ((v + n % 256 * 58) / 256)
      -- the byte in front takes its part of the digit, and the carry goes on
      have hmod : (v + n % 256 * 58) % 256 = (n * 58 + v) % 256 := by omega
      have hdiv : n / 256 * 58 + (v + n % 256 * 58) / 256 = (n * 58 + v) / 256 := by omega
      rw [Nat.digits_def' (by decide) hpos, addDigit, hrest, hmod, hdiv,
        Nat.digits_def' (b := 256) (n := n * 58 + v) (by decide) (by omega)]

theorem foldl_addDigit (ds : List ℕ) (n : ℕ) :
    ds.foldl addDigit (Nat.digits 256 n) =
      Nat.digits 256 (ds.foldl (fun big digit => big * 58 + digit) n) := by
  induction ds generalizing n with
  | nil => rfl
  | cons d ds ih => rw [List.foldl_cons, addDigit_digits, ih, List.foldl_cons]

theorem foldl_addDigit_zero (h : ∀ d ∈ ds, d < 58) :
    ds.foldl addDigit [0] =
      if ∀ d ∈ ds, d = 0 then [0] else Nat.digits 256 (Radix.value 58 ds) := by
  induction ds with
  | nil => rfl
  | cons d ds ih =>
    obtain ⟨hd, hds⟩ := List.forall_mem_cons.mp h
    by_cases hzero : d = 0
    · have hstep : addDigit [0] d = [0] := by rw [hzero]; rfl
      have hvalue : Radix.value 58 (d :: ds) = Radix.value 58 ds := by
        rw [hzero, Radix.value, List.foldl_cons, Nat.zero_mul]
        rfl
      have hall : (∀ x ∈ d :: ds, x = 0) ↔ ∀ x ∈ ds, x = 0 := by simp [hzero]
      rw [List.foldl_cons, hstep, ih hds, hvalue]
      simp only [hall]
    · have hstep : addDigit [0] d = Nat.digits 256 d := by
        rw [Nat.digits_of_lt 256 d hzero (by omega)]
        interval_cases d <;> first | exact absurd rfl hzero | rfl
      have hnot : ¬ ∀ x ∈ d :: ds, x = 0 := fun hall => hzero (hall d List.mem_cons_self)
      rw [List.foldl_cons, hstep, foldl_addDigit, if_neg hnot, Radix.value, List.foldl_cons,
        Nat.zero_mul, Nat.zero_add]

/-! ### What the decoders give -/

def base58Bytes (s : String) : Option Bytes :=
  (digits s.toList).map fun ds => (Radix.rebase 58 256 ds).map UInt8.ofNat

theorem toNat_rebase (ds : List ℕ) :
    ((Radix.rebase 58 256 ds).map UInt8.ofNat).map UInt8.toNat = Radix.rebase 58 256 ds := by
  have hback : ∀ n ∈ Radix.rebase 58 256 ds, (UInt8.toNat ∘ UInt8.ofNat) n = id n := by
    intro n hn
    have hlt : n < 256 := Radix.rebase_lt (by decide) n hn
    exact UInt8.toNat_ofNat_of_lt' hlt
  rw [List.map_map, List.map_congr_left hback, List.map_id]

theorem base58Bytes_inverts (s : String) : Inverts base58Bytes s := by
  intro bytes
  have hbytes : ∀ n ∈ bytes.map UInt8.toNat, n < 256 := by
    intro n hn
    obtain ⟨b, -, rfl⟩ := List.mem_map.mp hn
    exact b.toNat_lt
  constructor
  · intro h
    obtain ⟨ds, hds, rfl⟩ := Option.map_eq_some_iff.mp h
    obtain ⟨hlt, hletters⟩ := digits_eq_some.mp hds
    rw [base58Text, toNat_rebase, Radix.rebase_rebase (by decide) 256 hlt, hletters,
      String.ofList_toList]
  · rintro rfl
    rw [base58Bytes, Option.map_eq_some_iff]
    refine ⟨Radix.rebase 256 58 (bytes.map UInt8.toNat), ?_, ?_⟩
    · rw [digits_eq_some]
      exact ⟨Radix.rebase_lt (by decide), String.toList_ofList.symm⟩
    · have hback : UInt8.ofNat ∘ UInt8.toNat = id := funext fun b => UInt8.ofNat_toNat
      rw [Radix.rebase_rebase (by decide) 58 hbytes, List.map_map, hback, List.map_id]

theorem reverse_bytes {cs : List Char} (h : digits cs = some ds) :
    (Nat.digits 256 (Radix.value 58 ds) ++
        List.replicate (cs.takeWhile (· = '1')).length 0).reverse = Radix.rebase 58 256 ds := by
  obtain ⟨hlt, rfl⟩ := digits_eq_some.mp h
  rw [leading_ones hlt, List.reverse_append, List.reverse_replicate]
  rfl

theorem relay_eq (s : String) : Relay.b58decode s = base58Bytes s := by
  unfold Relay.b58decode b58decode base58Bytes
  cases hdigits : digits s.toList with
  | none =>
    unfold digits at hdigits
    rw [hdigits]
    rfl
  | some ds =>
    have hloop := foldl_addDigit ds 0
    rw [Nat.digits_zero] at hloop
    rw [Option.map_some, ← reverse_bytes hdigits]
    unfold digits at hdigits
    rw [hdigits]
    show some _ = some _
    rw [hloop]
    rfl

theorem gateway_eq {s : String} (hdigits : digits s.toList = some ds) :
    GatewayAuth.b58decode s = if ∀ d ∈ ds, d = 0 then
      some (List.replicate (ds.length + 1) 0) else base58Bytes s := by
  obtain ⟨hlt, hletters⟩ := digits_eq_some.mp hdigits
  have hloop := foldl_addDigit_zero hlt
  have hdecode : GatewayAuth.b58decode s = some ((ds.foldl addDigit [0] ++
      List.replicate (s.toList.takeWhile (· = '1')).length 0).reverse.map UInt8.ofNat) := by
    unfold GatewayAuth.b58decode b58decode
    unfold digits at hdigits
    rw [hdigits]
    rfl
  rw [hdecode, hloop]
  split_ifs with hzero
  · have hones : (s.toList.takeWhile (· = '1')).length = ds.length := by
      rw [← hletters, leading_ones hlt, Radix.zeros, List.takeWhile_eq_self_iff.mpr]
      intro d hd
      simpa using hzero d hd
    rw [hones, List.reverse_append, List.reverse_replicate, List.map_append, List.map_replicate,
      List.replicate_succ']
    rfl
  · rw [reverse_bytes hdigits, base58Bytes, hdigits, Option.map_some]

theorem gateway_none {s : String} (hdigits : digits s.toList = none) :
    GatewayAuth.b58decode s = base58Bytes s := by
  unfold GatewayAuth.b58decode b58decode base58Bytes
  rw [hdigits]
  unfold digits at hdigits
  rw [hdigits]
  rfl

theorem bridge_eq {s : String} (hne : s ≠ "") (hlength : utf16Length s ≤ 64) :
    NodeAuth.base58Decode s = base58Bytes s := by
  have hguard : ¬ (s = "" ∨ 64 < utf16Length s) := by
    rintro (hempty | hlong)
    · exact hne hempty
    · omega
  unfold NodeAuth.base58Decode base58Bytes
  rw [if_neg hguard]
  cases hdigits : digits s.toList with
  | none =>
    unfold digits at hdigits
    rw [hdigits]
    rfl
  | some ds =>
    obtain ⟨hlt, hletters⟩ := digits_eq_some.mp hdigits
    have hcount : s.length = ds.length := by
      rw [← String.length_toList, ← hletters, List.length_map]
    -- a number of so many digits in base 58 has no more of them in base 256
    have hvalue : Radix.value 58 ds < 256 ^ s.length := by
      rw [Radix.value_eq, hcount]
      calc Nat.ofDigits 58 ds.reverse < 58 ^ ds.reverse.length := by
            apply Nat.ofDigits_lt_base_pow_length (by decide)
            intro d hd
            exact hlt d (List.mem_reverse.mp hd)
        _ = 58 ^ ds.length := by rw [List.length_reverse]
        _ ≤ 256 ^ ds.length := Nat.pow_le_pow_left (by decide) _
    have hbytes := pushCarry_eq hvalue
    rw [Option.map_some, ← reverse_bytes hdigits, ← hbytes]
    unfold digits at hdigits
    rw [hdigits]
    rfl

/-! ### Agreement -/

/-- Over the texts an address may be, the four decoders invert the encoding, except the gateway's
on a text of nothing but ones. -/
theorem decoders_exact_iff {s : String} (hne : s ≠ "") (hlength : utf16Length s ≤ 64) :
    DecodersExact s ↔ ∃ c ∈ s.toList, c ≠ '1' := by
  have hspec := base58Bytes_inverts s
  have hrelay : Inverts Relay.b58decode s := by
    intro bytes
    rw [relay_eq]
    exact hspec bytes
  have hbridge : Inverts NodeAuth.base58Decode s := by
    intro bytes
    rw [bridge_eq hne hlength]
    exact hspec bytes
  constructor
  · intro h
    by_contra hones
    push Not at hones
    have hzeros : digits s.toList = some (List.replicate s.toList.length 0) := by
      rw [digits_eq_some]
      refine ⟨fun d hd => by simp [List.eq_of_mem_replicate hd], ?_⟩
      rw [List.map_replicate]
      exact (List.eq_replicate_of_mem hones).symm
    have hgateway : GatewayAuth.b58decode s = some (List.replicate (s.toList.length + 1) 0) := by
      rw [gateway_eq hzeros, if_pos fun d hd => List.eq_of_mem_replicate hd, List.length_replicate]
    -- the relay reads the same bytes only if there is one zero for each letter
    have hsame := (h.relay _).mpr ((h.gateway _).mp hgateway)
    rw [relay_eq, base58Bytes, hzeros, Option.map_some, Radix.rebase, ← List.append_nil
      (List.replicate s.toList.length 0), Radix.zeros_append _ (by simp),
      Radix.value_zeros_append] at hsame
    have hlengths := congrArg List.length (Option.some.inj hsame)
    simp [Radix.value] at hlengths
  · rintro ⟨c, hc, hone⟩
    refine ⟨?_, hrelay, hbridge, hbridge⟩
    intro bytes
    have hgateway : GatewayAuth.b58decode s = base58Bytes s := by
      cases hdigits : digits s.toList with
      | none => exact gateway_none hdigits
      | some ds =>
        rw [gateway_eq hdigits, if_neg]
        intro hzero
        obtain ⟨-, hletters⟩ := digits_eq_some.mp hdigits
        rw [← hletters] at hc
        obtain ⟨d, hd, rfl⟩ := List.mem_map.mp hc
        rw [hzero d hd] at hone
        exact hone rfl
    rw [hgateway]
    exact hspec bytes

theorem decoders_exact_of_address : DecodersExact "1A" :=
  (decoders_exact_iff (by decide) (by decide)).mpr ⟨'A', by decide, by decide⟩

/-- The gateway reads two zero bytes in a single one, the others one. -/
theorem single_one_not_exact : ¬ DecodersExact "1" := by
  intro h
  have hsame := (h.relay [0, 0]).mpr ((h.gateway [0, 0]).mp (by decide))
  exact absurd hsame (by decide)

end KvasirNet.Signing
