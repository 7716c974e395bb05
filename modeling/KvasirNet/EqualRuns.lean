import Mathlib.Data.List.Basic
import Mathlib.Data.List.Chain

/-! Runs of equal entries. A list is folded into the longest windows whose entries agree: they lie
side by side from its start to its end, each has one value, and two neighbours never have the
same. -/
namespace KvasirNet.EqualRuns

/-- The entries from `start` on, those before `stop`, are all `value`. -/
structure Run (α : Type*) where
  start : ℕ
  stop : ℕ
  value : α

variable {α : Type*}

section Fold
variable [DecidableEq α]

def foldFrom : ℕ → α → ℕ → List α → List (Run α)
  | start, v, e, [] => [⟨start, e, v⟩]
  | start, v, e, x :: rest =>
    if x = v then foldFrom start v (e + 1) rest else ⟨start, e, v⟩ :: foldFrom e x (e + 1) rest

def runsOf : List α → List (Run α)
  | [] => []
  | v :: rest => foldFrom 0 v 1 rest

end Fold

/-- None is empty, and each begins where the one before it ends. -/
inductive Tiles : ℕ → ℕ → List (Run α) → Prop
  | nil (a : ℕ) : Tiles a a []
  | cons {b : ℕ} {r : Run α} {rest : List (Run α)} (nonempty : r.start < r.stop)
      (tail : Tiles r.stop b rest) : Tiles r.start b (r :: rest)

def Apart (rs : List (Run α)) : Prop := rs.IsChain fun r r' => r.value ≠ r'.value

structure Longest (l : List α) (rs : List (Run α)) : Prop where
  tiles : Tiles 0 l.length rs
  values : ∀ r ∈ rs, ∀ e, r.start ≤ e → e < r.stop → l[e]? = some r.value
  apart : Apart rs

theorem Tiles.bounds {a b : ℕ} {rs : List (Run α)} (h : Tiles a b rs) :
    a ≤ b ∧ ∀ r ∈ rs, a ≤ r.start ∧ r.start < r.stop ∧ r.stop ≤ b := by
  induction h with
  | nil a => exact ⟨le_refl a, fun r hr => absurd hr List.not_mem_nil⟩
  | cons nonempty _ ih =>
    obtain ⟨hle, hrest⟩ := ih
    refine ⟨by omega, fun r hr => ?_⟩
    rcases List.mem_cons.mp hr with rfl | hr
    · exact ⟨le_refl _, nonempty, hle⟩
    · have hbounds := hrest r hr
      omega

theorem Tiles.exists_mem {a b : ℕ} {rs : List (Run α)} (h : Tiles a b rs) {e : ℕ} (ha : a ≤ e)
    (hb : e < b) : ∃ r ∈ rs, r.start ≤ e ∧ e < r.stop := by
  induction h with
  | nil a => omega
  | @cons b r rest nonempty _ ih =>
    by_cases he : e < r.stop
    · exact ⟨r, List.mem_cons_self, ha, he⟩
    · obtain ⟨r', hr', hin⟩ := ih (by omega) hb
      exact ⟨r', List.mem_cons_of_mem r hr', hin⟩

section Fold
variable [DecidableEq α]

theorem foldFrom_longest {l : List α} (start e : ℕ) (v : α) (rest : List α) (hstart : start < e)
    (hrest : l.drop e = rest) (hlen : e ≤ l.length)
    (hsame : ∀ i, start ≤ i → i < e → l[i]? = some v) :
    Tiles start l.length (foldFrom start v e rest) ∧
    (∀ r ∈ foldFrom start v e rest, ∀ i, r.start ≤ i → i < r.stop → l[i]? = some r.value) ∧
    Apart (foldFrom start v e rest) ∧
    ((foldFrom start v e rest).head?.map Run.value) = some v := by
  induction rest generalizing start e v with
  | nil =>
    have hend : e = l.length := by
      have hle := List.drop_eq_nil_iff.mp hrest
      omega
    rw [foldFrom]
    refine ⟨?_, ?_, List.isChain_singleton _, rfl⟩
    · rw [← hend]
      exact .cons (r := ⟨start, e, v⟩) hstart (.nil e)
    · intro r hr
      obtain rfl := List.mem_singleton.mp hr
      exact hsame
  | cons x rest ih =>
    have hx : l[e]? = some x := by
      rw [← List.head?_drop, hrest]
      rfl
    have hlt : e < l.length := (List.getElem?_eq_some_iff.mp hx).1
    have hdrop : l.drop (e + 1) = rest := by
      rw [← List.tail_drop, hrest]
      rfl
    rw [foldFrom]
    by_cases hv : x = v
    · rw [if_pos hv]
      apply ih start (e + 1) v (by omega) hdrop hlt
      intro i hi hie
      rcases Nat.lt_succ_iff_lt_or_eq.mp hie with hie | rfl
      · exact hsame i hi hie
      · rw [hx, hv]
    · rw [if_neg hv]
      obtain ⟨htiles, hvalues, hapart, hhead⟩ := ih e (e + 1) x (Nat.lt_succ_self e)
        hdrop hlt (by
          intro i hi hie
          obtain rfl : i = e := by omega
          exact hx)
      refine ⟨.cons (r := ⟨start, e, v⟩) hstart htiles, ?_, ?_, rfl⟩
      · intro r hr
        rcases List.mem_cons.mp hr with rfl | hr
        · exact hsame
        · exact hvalues r hr
      · apply List.isChain_cons.mpr
        refine ⟨?_, hapart⟩
        intro r hr
        rw [hr, Option.map_some] at hhead
        rw [Option.some.inj hhead]
        exact fun heq => hv heq.symm

theorem runsOf_longest (l : List α) : Longest l (runsOf l) := by
  cases l with
  | nil => exact ⟨.nil 0, fun r hr => absurd hr List.not_mem_nil, List.isChain_nil⟩
  | cons v rest =>
    obtain ⟨htiles, hvalues, hapart, -⟩ := foldFrom_longest (l := v :: rest) 0 1 v rest
      Nat.one_pos rfl (by simp) (by
        intro i _ hi
        obtain rfl : i = 0 := by omega
        rfl)
    exact ⟨htiles, hvalues, hapart⟩

end Fold

end KvasirNet.EqualRuns
