import Mathlib.Algebra.Ring.Int.Defs
import Mathlib.Algebra.Ring.Nat
import Mathlib.Data.List.Basic
import Mathlib.Tactic.Common

/-! Byte strings read from the front: little-endian integers, blocks behind a
32-bit length, and readers that either fail or return a value with the bytes
they left. A reader is described by the spellings it accepts. -/
namespace KvasirNet

abbrev Bytes := List UInt8

/-- The low `width` bytes of a number, least significant first. -/
def leBytes : ℕ → ℕ → Bytes
  | 0, _ => []
  | width + 1, n => UInt8.ofNat n :: leBytes width (n / 256)

def leValue : Bytes → ℕ
  | [] => 0
  | b :: bs => b.toNat + 256 * leValue bs

@[simp]
theorem length_leBytes (width n : ℕ) : (leBytes width n).length = width := by
  induction width generalizing n with
  | zero => rfl
  | succ width ih => simp only [leBytes, List.length_cons, ih]

theorem leValue_leBytes {width n : ℕ} (h : n < 256 ^ width) : leValue (leBytes width n) = n := by
  induction width generalizing n with
  | zero =>
    have hn : n = 0 := by simpa using h
    simp [leBytes, leValue, hn]
  | succ width ih =>
    have hdiv : n / 256 < 256 ^ width := by
      apply Nat.div_lt_of_lt_mul
      rwa [← Nat.pow_succ']
    have hlow : (UInt8.ofNat n).toNat = n % 256 := by simp
    simp only [leBytes, leValue, ih hdiv, hlow]
    exact Nat.mod_add_div n 256

theorem leBytes_leValue (bs : Bytes) : leBytes bs.length (leValue bs) = bs := by
  induction bs with
  | nil => rfl
  | cons b bs ih =>
    have hb : b.toNat < 256 := b.toNat_lt
    have hlow : UInt8.ofNat (b.toNat + 256 * leValue bs) = b := by
      apply UInt8.toNat_inj.mp
      simp only [UInt8.toNat_ofNat', Nat.add_mul_mod_self_left, Nat.reducePow]
      exact Nat.mod_eq_of_lt hb
    have hhigh : (b.toNat + 256 * leValue bs) / 256 = leValue bs := by omega
    simp only [List.length_cons, leBytes, leValue, hlow, hhigh, ih]

theorem leValue_lt (bs : Bytes) : leValue bs < 256 ^ bs.length := by
  induction bs with
  | nil => simp [leValue]
  | cons b bs ih =>
    have hb : b.toNat < 256 := b.toNat_lt
    simp only [leValue, List.length_cons, Nat.pow_succ]
    omega

theorem leBytes_inj {width m n : ℕ} (hm : m < 256 ^ width) (hn : n < 256 ^ width)
    (h : leBytes width m = leBytes width n) : m = n := by
  rw [← leValue_leBytes hm, ← leValue_leBytes hn, h]

theorem leBytes_leValue_window {bs : Bytes} {k width : ℕ} (h : k + width ≤ bs.length) :
    leBytes width (leValue ((bs.drop k).take width)) = (bs.drop k).take width ∧
      leValue ((bs.drop k).take width) < 256 ^ width := by
  have hlen : ((bs.drop k).take width).length = width := by
    simp only [List.length_take, List.length_drop]
    omega
  have hback := leBytes_leValue ((bs.drop k).take width)
  have hlt := leValue_lt ((bs.drop k).take width)
  rw [hlen] at hback hlt
  exact ⟨hback, hlt⟩

theorem drop_eq_window_append (bs : Bytes) (k n : ℕ) :
    bs.drop k = (bs.drop k).take n ++ bs.drop (k + n) := by
  rw [← List.drop_drop, List.take_append_drop]

/-- No spelling is a proper beginning of another. -/
def PrefixFree {ρ : Type} (write : ρ → Bytes) : Prop :=
  ∀ a b r s, write a ++ r = write b ++ s → a = b ∧ r = s

/-- A block short enough to stand behind a 32-bit length. -/
structure Block where
  body : Bytes
  short : body.length < 2 ^ 32
  deriving DecidableEq

def Block.bytes (b : Block) : Bytes := leBytes 4 b.body.length ++ b.body

def u64Bytes (n : UInt64) : Bytes := leBytes 8 n.toNat

def optionBytes {ρ : Type} (write : ρ → Bytes) : Option ρ → Bytes
  | none => [0]
  | some a => 1 :: write a

theorem u64Bytes_prefixFree : PrefixFree u64Bytes := by
  intro m n r s h
  obtain ⟨hhead, htail⟩ := List.append_inj h (by simp [u64Bytes])
  refine ⟨?_, htail⟩
  apply UInt64.toNat_inj.mp
  exact leBytes_inj m.toNat_lt n.toNat_lt hhead

theorem block_prefixFree : PrefixFree Block.bytes := by
  intro a b r s h
  simp only [Block.bytes, List.append_assoc] at h
  -- the two lengths are read from the same four bytes
  obtain ⟨hlen, hrest⟩ := List.append_inj h (by simp)
  have hlen : a.body.length = b.body.length := leBytes_inj a.short b.short hlen
  obtain ⟨hbody, htail⟩ := List.append_inj hrest hlen
  refine ⟨?_, htail⟩
  obtain ⟨body, short⟩ := a
  simp only at hbody
  subst hbody
  rfl

theorem option_prefixFree {ρ : Type} {write : ρ → Bytes} (hw : PrefixFree write) :
    PrefixFree (optionBytes write) := by
  intro a b r s h
  cases a with
  | none => cases b with
    | none => exact ⟨rfl, by simpa [optionBytes] using h⟩
    | some y => simp [optionBytes] at h
  | some x => cases b with
    | none => simp [optionBytes] at h
    | some y =>
      obtain ⟨rfl, htail⟩ := hw x y r s (by simpa [optionBytes] using h)
      exact ⟨rfl, htail⟩

/-! ### Readers -/

abbrev Reader (ε α : Type) := StateT Bytes (Except ε) α

namespace Reader

variable {ε α β : Type}

variable {r : Reader ε α} {bs : Bytes}

theorem bind_eq_ok {f : α → Reader ε β} {rest : Bytes} {b : β}
    (h : (r >>= f) bs = .ok (b, rest)) :
    ∃ a mid, r bs = .ok (a, mid) ∧ f a mid = .ok (b, rest) := by
  simp only [bind, StateT.bind, Except.bind] at h
  split at h
  · cases h
  · exact ⟨_, _, ‹_›, h⟩

theorem bind_of_ok {f : α → Reader ε β} {mid : Bytes} {a : α}
    (h : r bs = .ok (a, mid)) : (r >>= f) bs = f a mid := by
  simp only [bind, StateT.bind, Except.bind, h]

theorem pure_apply (a : α) (bs : Bytes) : (pure a : Reader ε α) bs = .ok (a, bs) := rfl

/-- The next `n` bytes. -/
def take (short : ε) (n : ℕ) : Reader ε Bytes := fun bs =>
  if bs.length < n then .error short else .ok (bs.take n, bs.drop n)

theorem take_append (short : ε) (xs rest : Bytes) :
    take short xs.length (xs ++ rest) = .ok (xs, rest) := by
  simp [take]

theorem take_eq_ok {short : ε} {n : ℕ} {xs rest : Bytes}
    (h : take short n bs = .ok (xs, rest)) : bs = xs ++ rest ∧ xs.length = n := by
  unfold take at h
  split at h
  · cases h
  · obtain ⟨rfl, rfl⟩ := Prod.mk.inj (Except.ok.inj h)
    exact ⟨(List.take_append_drop n bs).symm, by simp; omega⟩

def many (r : Reader ε α) : ℕ → Reader ε (List α)
  | 0 => pure []
  | n + 1 => do
    let a ← r
    let rest ← many r n
    pure (a :: rest)

theorem many_append {write : β → Bytes} {value : β → α} {items : List β}
    (h : ∀ x ∈ items, ∀ rest, r (write x ++ rest) = .ok (value x, rest)) (rest : Bytes) :
    many r items.length (items.flatMap write ++ rest) = .ok (items.map value, rest) := by
  induction items with
  | nil => rfl
  | cons x items ih =>
    have hhead := h x List.mem_cons_self (items.flatMap write ++ rest)
    have htail := ih fun y hy => h y (List.mem_cons_of_mem x hy)
    rw [List.length_cons, many, List.flatMap_cons, List.append_assoc, bind_of_ok hhead,
      bind_of_ok htail]
    rfl

theorem many_eq_ok {P : α → Prop}
    (h : ∀ bs a rest, r bs = .ok (a, rest) → P a) {n : ℕ} {rest : Bytes} {xs : List α}
    (hread : many r n bs = .ok (xs, rest)) : xs.length = n ∧ ∀ x ∈ xs, P x := by
  induction n generalizing bs rest xs with
  | zero =>
    obtain ⟨rfl, -⟩ := Prod.mk.inj (Except.ok.inj hread)
    exact ⟨rfl, fun x hx => absurd hx List.not_mem_nil⟩
  | succ n ih =>
    obtain ⟨a, mid, ha, hread⟩ := bind_eq_ok hread
    obtain ⟨as, last, has, hread⟩ := bind_eq_ok hread
    obtain ⟨rfl, -⟩ := Prod.mk.inj (Except.ok.inj hread)
    obtain ⟨hlen, hall⟩ := ih has
    refine ⟨congrArg Nat.succ hlen, fun x hx => ?_⟩
    rcases List.mem_cons.mp hx with rfl | hx
    · exact h bs x mid ha
    · exact hall x hx

end Reader

/-! ### Signed words -/

def i32Bytes (x : ℤ) : Bytes := leBytes 4 (x % 2 ^ 32).toNat

def i32Value (bs : Bytes) : ℤ :=
  if leValue bs < 2 ^ 31 then leValue bs else (leValue bs : ℤ) - 2 ^ 32

theorem i32Value_i32Bytes {x : ℤ} (h : -2 ^ 31 ≤ x ∧ x < 2 ^ 31) : i32Value (i32Bytes x) = x := by
  have hlt : (x % 2 ^ 32).toNat < 256 ^ 4 := by omega
  rw [i32Value, i32Bytes, leValue_leBytes hlt]
  split_ifs <;> omega

def Reader.i32 {ε : Type} (short : ε) : Reader ε ℤ := do
  let bs ← Reader.take short 4
  pure (i32Value bs)

theorem Reader.i32_append {ε : Type} (short : ε) {x : ℤ} (h : -2 ^ 31 ≤ x ∧ x < 2 ^ 31)
    (rest : Bytes) : Reader.i32 short (i32Bytes x ++ rest) = .ok (x, rest) := by
  have htake : Reader.take short 4 (i32Bytes x ++ rest) = .ok (i32Bytes x, rest) := by
    have hlen : (i32Bytes x).length = 4 := length_leBytes 4 _
    rw [← hlen]
    exact Reader.take_append short (i32Bytes x) rest
  rw [Reader.i32, Reader.bind_of_ok htake, Reader.pure_apply, i32Value_i32Bytes h]

/-- `r` reads exactly the spellings `write raw`, and returns `value raw`. -/
structure Reads {ε α ρ : Type} (r : Reader ε α) (write : ρ → Bytes) (value : ρ → α) : Prop where
  accepts : ∀ raw rest, r (write raw ++ rest) = .ok (value raw, rest)
  exact : ∀ bs a rest, r bs = .ok (a, rest) → ∃ raw, bs = write raw ++ rest ∧ a = value raw

section
variable {ε α β ρ : Type} {r : Reader ε α} {write : ρ → Bytes} {value : ρ → α}

theorem Reads.bind_accepts (hr : Reads r write value) (f : α → Reader ε β) (raw : ρ)
    (rest : Bytes) : (r >>= f) (write raw ++ rest) = f (value raw) rest :=
  Reader.bind_of_ok (hr.accepts raw rest)

theorem Reads.bind_exact (hr : Reads r write value) {f : α → Reader ε β} {bs rest : Bytes} {b : β}
    (h : (r >>= f) bs = .ok (b, rest)) :
    ∃ raw mid, bs = write raw ++ mid ∧ f (value raw) mid = .ok (b, rest) := by
  obtain ⟨a, mid, ha, hf⟩ := Reader.bind_eq_ok h
  obtain ⟨raw, hbs, rfl⟩ := hr.exact bs a mid ha
  exact ⟨raw, mid, hbs, hf⟩

theorem Reader.pure_eq_ok {a b : α} {bs rest : Bytes}
    (h : (pure a : Reader ε α) bs = .ok (b, rest)) : bs = rest ∧ b = a := by
  obtain ⟨rfl, rfl⟩ := Prod.mk.inj (Except.ok.inj h)
  exact ⟨rfl, rfl⟩

end

/-- `enc` returns exactly the spellings of its argument, and fails when there
is none. -/
def Writes {ε α ρ : Type} (enc : α → Except ε Bytes) (write : ρ → Bytes)
    (spells : ρ → α → Prop) : Prop :=
  ∀ a bs, enc a = .ok bs ↔ ∃ raw, spells raw a ∧ bs = write raw

theorem except_bind_eq_ok {ε α β : Type} {x : Except ε α} {f : α → Except ε β} {b : β} :
    (x >>= f) = .ok b ↔ ∃ a, x = .ok a ∧ f a = .ok b := by
  cases x with
  | error e => simp [bind, Except.bind]
  | ok a => simp [bind, Except.bind]

theorem except_bind_eq_error {ε α β : Type} {x : Except ε α} {f : α → Except ε β} {e : ε} :
    (x >>= f) = .error e ↔ x = .error e ∨ ∃ a, x = .ok a ∧ f a = .error e := by
  cases x with
  | error e => simp [bind, Except.bind]
  | ok a => simp [bind, Except.bind]

end KvasirNet
