import Mathlib.Algebra.Order.Ring.Nat
import Mathlib.Data.List.Basic
import Mathlib.Logic.Function.Basic
import Mathlib.Tactic.Common

/-! Buffers whose sizes and indices are checked: what a program that indexes plain memory must never
do ends its run here. -/
namespace KvasirNet.Checked

/-- An index outside a buffer, a size that is negative or does not fit in 64 bits, or an argument
that a called function forbids. -/
inductive Violation
  | outside
  | overflow
  | forbidden
  deriving DecidableEq, Repr

/-- The size of a buffer: the product of its dimensions, whose bytes must fit in a `size_t`. -/
def elems (width : ℕ) (dims : List ℤ) : Except Violation ℕ :=
  if (dims.all fun d => decide (0 ≤ d)) && decide (width * (dims.map Int.toNat).prod < 2 ^ 64) then
    .ok (dims.map Int.toNat).prod
  else .error .overflow

structure Vec (α : Type) where
  size : ℕ
  get : ℕ → α

section
variable {α : Type}

def Vec.read (v : Vec α) (k : ℤ) : Except Violation α :=
  if 0 ≤ k ∧ k < v.size then .ok (v.get k.toNat) else .error .outside

def Vec.modify (v : Vec α) (k : ℤ) (f : α → α) : Except Violation (Vec α) :=
  if 0 ≤ k ∧ k < v.size then
    .ok ⟨v.size, Function.update v.get k.toNat (f (v.get k.toNat))⟩
  else .error .outside

/-- `memcpy` of `n` cells. -/
def Vec.copy (v : Vec α) (at' : ℕ) (src : Vec α) (start : ℤ) (n : ℕ) : Except Violation (Vec α) :=
  if at' + n ≤ v.size ∧ 0 ≤ start ∧ start + n ≤ src.size then
    .ok ⟨v.size, fun k => if at' ≤ k ∧ k < at' + n then src.get (start.toNat + (k - at'))
      else v.get k⟩
  else .error .outside

def item (l : List α) (k : ℕ) : Except Violation α :=
  (l[k]?).elim (.error .outside) .ok

end

section
variable {α ε : Type}

theorem elems_two {width m n : ℕ} (h : width * (m * n) < 2 ^ 64) :
    elems width [(m : ℤ), (n : ℤ)] = .ok (m * n) := by
  unfold elems
  have hprod : ([(m : ℤ), (n : ℤ)].map Int.toNat).prod = m * n := by simp
  rw [hprod, if_pos]
  simpa using h

theorem elems_one {width n : ℕ} (h : width * n < 2 ^ 64) : elems width [(n : ℤ)] = .ok n := by
  unfold elems
  have hprod : ([(n : ℤ)].map Int.toNat).prod = n := by simp
  rw [hprod, if_pos]
  simpa using h

theorem elems_three {width l m n : ℕ} (h : width * (l * (m * n)) < 2 ^ 64) :
    elems width [(l : ℤ), (m : ℤ), (n : ℤ)] = .ok (l * (m * n)) := by
  unfold elems
  have hprod : ([(l : ℤ), (m : ℤ), (n : ℤ)].map Int.toNat).prod = l * (m * n) := by simp
  rw [hprod, if_pos]
  simpa using h

theorem read_ok {v : Vec α} {k : ℕ} (h : k < v.size) : v.read k = .ok (v.get k) := by
  unfold Vec.read
  rw [if_pos ⟨Int.natCast_nonneg k, by exact_mod_cast h⟩, Int.toNat_natCast]

theorem modify_ok {v : Vec α} {k : ℕ} (f : α → α) (h : k < v.size) :
    v.modify k f = .ok ⟨v.size, Function.update v.get k (f (v.get k))⟩ := by
  unfold Vec.modify
  rw [if_pos ⟨Int.natCast_nonneg k, by exact_mod_cast h⟩, Int.toNat_natCast]

theorem copy_ok {v src : Vec α} {at' start n : ℕ} (h : at' + n ≤ v.size) (h' : start + n ≤ src.size) :
    v.copy at' src start n = .ok ⟨v.size, fun k =>
      if at' ≤ k ∧ k < at' + n then src.get (start + (k - at')) else v.get k⟩ := by
  unfold Vec.copy
  rw [if_pos ⟨h, Int.natCast_nonneg start, by exact_mod_cast h'⟩, Int.toNat_natCast]

theorem range_foldlM {f : α → ℕ → Except ε α} (P : ℕ → α → Prop) {a : α} (h0 : P 0 a) (n : ℕ)
    (hstep : ∀ i < n, ∀ b, P i b → ∃ b', f b i = .ok b' ∧ P (i + 1) b') :
    ∃ b, (List.range n).foldlM f a = .ok b ∧ P n b := by
  induction n with
  | zero => exact ⟨a, rfl, h0⟩
  | succ n ih =>
    obtain ⟨b, hb, hP⟩ := ih fun i hi => hstep i (Nat.lt_succ_of_lt hi)
    obtain ⟨b', hb', hP'⟩ := hstep n (Nat.lt_succ_self n) b hP
    refine ⟨b', ?_, hP'⟩
    rw [List.range_succ, List.foldlM_append, hb]
    change List.foldlM f b [n] = .ok b'
    rw [List.foldlM_cons, hb']
    rfl

theorem modify_range {v : Vec α} {lo n : ℕ} {f : Vec α → ℕ → Except Violation (Vec α)} {g : ℕ → α → α}
    (hf : ∀ k < n, ∀ v, f v k = v.modify ((lo + k : ℕ) : ℤ) (g k)) (hfit : lo + n ≤ v.size) :
    (List.range n).foldlM f v = .ok ⟨v.size, fun x =>
      if lo ≤ x ∧ x < lo + n then g (x - lo) (v.get x) else v.get x⟩ := by
  induction n with
  | zero =>
    have hnone : (fun x => if lo ≤ x ∧ x < lo + 0 then g (x - lo) (v.get x) else v.get x) = v.get := by
      funext x
      exact if_neg (by omega)
    rw [hnone]
    rfl
  | succ n ih =>
    have hn := ih (fun k hk => hf k (Nat.lt_succ_of_lt hk)) (by omega)
    rw [List.range_succ, List.foldlM_append, hn]
    change List.foldlM f _ [n] = _
    have hlast : ∀ get : ℕ → α, Vec.modify ⟨v.size, get⟩ ((lo + n : ℕ) : ℤ) (g n) =
        .ok ⟨v.size, Function.update get (lo + n) (g n (get (lo + n)))⟩ :=
      fun get => modify_ok (g n) (by omega : lo + n < v.size)
    rw [List.foldlM_cons, hf n (Nat.lt_succ_self n), hlast]
    change Except.ok (⟨v.size, _⟩ : Vec α) = _
    congr 2
    funext x
    by_cases hx : x = lo + n
    · subst hx
      rw [Function.update_self, Nat.add_sub_cancel_left]
      simp
    · rw [Function.update_of_ne hx]
      -- the cells before the last are those of the shorter loop
      by_cases hin : lo ≤ x ∧ x < lo + n
      · rw [if_pos hin, if_pos (by omega)]
      · rw [if_neg hin, if_neg (by omega)]

end

end KvasirNet.Checked
