import Mathlib.Data.Nat.Digits.Defs
import Mathlib.Data.Nat.Digits.Lemmas
import Mathlib.Data.List.TakeWhile

/-! Numerals with leading zeros that count. Written in another base such a numeral keeps as many
zeros in front, and its value behind them; writing it back gives the numeral there was. -/
namespace KvasirNet.Radix

def value (b : ℕ) (ds : List ℕ) : ℕ := ds.foldl (fun n d => n * b + d) 0

def zeros (ds : List ℕ) : ℕ := (ds.takeWhile (· = 0)).length

def rebase (b c : ℕ) (ds : List ℕ) : List ℕ :=
  List.replicate (zeros ds) 0 ++ (Nat.digits c (value b ds)).reverse

variable {b c : ℕ}

theorem value_reverse (ds : List ℕ) : value b ds.reverse = Nat.ofDigits b ds := by
  induction ds with
  | nil => rfl
  | cons d ds ih =>
    rw [Nat.ofDigits_cons, ← ih, value, List.reverse_cons, List.foldl_append]
    show value b ds.reverse * b + d = d + b * value b ds.reverse
    ring

theorem value_eq (ds : List ℕ) : value b ds = Nat.ofDigits b ds.reverse := by
  rw [← value_reverse, List.reverse_reverse]

theorem value_zeros_append (k : ℕ) (ds : List ℕ) :
    value b (List.replicate k 0 ++ ds) = value b ds := by
  induction k with
  | zero => rfl
  | succ k ih =>
    rw [List.replicate_succ, List.cons_append, ← ih, value, List.foldl_cons, Nat.zero_mul]
    rfl

theorem split_zeros (ds : List ℕ) : ∃ rest, ds = List.replicate (zeros ds) 0 ++ rest ∧
    ∀ d ∈ rest.head?, d ≠ 0 := by
  refine ⟨ds.dropWhile (· = 0), ?_, ?_⟩
  · have hzeros : ds.takeWhile (· = 0) = List.replicate (zeros ds) 0 := by
      apply List.eq_replicate_of_mem
      intro d hd
      simpa using List.mem_takeWhile_imp hd
    rw [← hzeros, List.takeWhile_append_dropWhile]
  · intro d hd
    have hne := List.head?_dropWhile_not (· = 0) ds
    rw [Option.mem_def.mp hd] at hne
    simpa using hne

theorem zeros_append (k : ℕ) {rest : List ℕ} (h : ∀ d ∈ rest.head?, d ≠ 0) :
    zeros (List.replicate k 0 ++ rest) = k := by
  have hrest : rest.takeWhile (fun d => decide (d = 0)) = [] := by
    cases rest with
    | nil => rfl
    | cons d rest => simp [h d rfl]
  rw [zeros, List.takeWhile_append_of_pos, hrest, List.append_nil, List.length_replicate]
  intro d hd
  simpa using List.eq_of_mem_replicate hd

theorem head_digits (c n : ℕ) : ∀ d ∈ (Nat.digits c n).reverse.head?, d ≠ 0 := by
  intro d hd
  rw [List.head?_reverse, Option.mem_def] at hd
  have hne : n ≠ 0 := by
    rintro rfl
    simp at hd
  have hlast := Nat.getLast_digit_ne_zero c hne
  rw [List.getLast?_eq_some_getLast (Nat.digits_ne_nil_iff_ne_zero.mpr hne)] at hd
  rwa [Option.some.inj hd] at hlast

theorem rebase_rebase (hb : 1 < b) (c : ℕ) {ds : List ℕ} (h : ∀ d ∈ ds, d < b) :
    rebase c b (rebase b c ds) = ds := by
  obtain ⟨rest, hds, hhead⟩ := split_zeros ds
  have hrest : (Nat.digits b (value b ds)).reverse = rest := by
    have hvalue : value b ds = Nat.ofDigits b rest.reverse := by
      rw [hds, value_zeros_append, value_eq]
    rw [hvalue, Nat.digits_ofDigits b hb, List.reverse_reverse]
    · intro d hd
      apply h
      rw [hds]
      exact List.mem_append_right _ (List.mem_reverse.mp hd)
    · intro hne
      rw [List.getLast_reverse]
      apply hhead
      exact List.head?_eq_some_head _
  have hzeros : zeros (rebase b c ds) = zeros ds := zeros_append _ (head_digits c _)
  have hvalue : value c (rebase b c ds) = value b ds := by
    rw [rebase, value_zeros_append, value_eq, List.reverse_reverse, Nat.ofDigits_digits]
  rw [rebase, hzeros, hvalue, hrest, ← hds]

theorem rebase_lt (hc : 1 < c) {ds : List ℕ} : ∀ d ∈ rebase b c ds, d < c := by
  intro d hd
  rcases List.mem_append.mp hd with hd | hd
  · rw [List.eq_of_mem_replicate hd]
    omega
  · exact Nat.digits_lt_base hc (List.mem_reverse.mp hd)

end KvasirNet.Radix
