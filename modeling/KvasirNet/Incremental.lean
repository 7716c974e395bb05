import Mathlib.Data.List.Basic
import Mathlib.Data.List.Induction
import Mathlib.Tactic.Common

/-! Machines that read a sequence item by item and keep a state, alone and in a chain. Reading one
more item costs one step of each machine of the chain; the result is that of the whole sequence
passing through one machine after the other. -/
namespace KvasirNet.Incremental

variable {σ τ α β : Type}

/-- Read items from a position on, and give what comes out for each. -/
def feed (step : σ → ℕ → α → Option (σ × β)) : σ → ℕ → List α → Option (σ × List β)
  | s, _, [] => some (s, [])
  | s, n, x :: xs => do
    let (s', y) ← step s n x
    let (s'', ys) ← feed step s' (n + 1) xs
    pure (s'', y :: ys)

theorem feed_concat (step : σ → ℕ → α → Option (σ × β)) (s : σ) (n : ℕ) (xs : List α) (x : α) :
    feed step s n (xs ++ [x]) =
      (feed step s n xs).bind fun r => (step r.1 (n + xs.length) x).map fun q => (q.1, r.2 ++ [q.2]) := by
  induction xs generalizing s n with
  | nil =>
    simp only [List.nil_append, feed, List.length_nil, Nat.add_zero, Option.bind_eq_bind,
      Option.bind_some]
    cases step s n x with
    | none => rfl
    | some q => rfl
  | cons y ys ih =>
    simp only [List.cons_append, feed, List.length_cons, Option.bind_eq_bind]
    cases hstep : step s n y with
    | none => rfl
    | some r =>
      have hplace : n + 1 + ys.length = n + (ys.length + 1) := by omega
      simp only [Option.bind_some, ih, hplace]
      cases hfeed : feed step r.1 (n + 1) ys with
      | none => rfl
      | some q =>
        simp only [Option.bind_some, pure]
        cases step q.1 (n + (ys.length + 1)) x with
        | none => rfl
        | some u => rfl

theorem feed_length {step : σ → ℕ → α → Option (σ × β)} {s t : σ} {n : ℕ} {xs : List α}
    {ys : List β} (h : feed step s n xs = some (t, ys)) : ys.length = xs.length := by
  induction xs generalizing s n ys with
  | nil =>
    obtain ⟨-, rfl⟩ := Prod.mk.inj (Option.some.inj h)
    rfl
  | cons x xs ih =>
    simp only [feed, Option.bind_eq_bind, Option.bind_eq_some_iff] at h
    obtain ⟨⟨s', y⟩, -, ⟨s'', zs⟩, hrest, heq⟩ := h
    obtain ⟨rfl, rfl⟩ := Prod.mk.inj (Option.some.inj heq)
    rw [List.length_cons, List.length_cons, ih hrest]

structure Machine (σ α : Type) where
  start : σ
  step : σ → ℕ → α → Option (σ × α)

/-- The states of a chain that a whole sequence went through, one machine after the other. -/
def flow : List (Machine σ α) → List α → Option (List σ)
  | [], _ => some []
  | M :: Ms, xs => do
    let (s, ys) ← feed M.step M.start 0 xs
    let ss ← flow Ms ys
    pure (s :: ss)

/-- The states of a chain after one more item. -/
def pass : List (Machine σ α) → List σ → ℕ → α → Option (List σ)
  | [], [], _, _ => some []
  | M :: Ms, s :: ss, n, x => do
    let (s', y) ← M.step s n x
    let ss' ← pass Ms ss n y
    pure (s' :: ss')
  | _, _, _, _ => none

theorem pass_nil {ss ss' : List σ} {n : ℕ} {x : α} (h : pass [] ss n x = some ss') :
    ss = [] ∧ ss' = [] := by
  cases ss with
  | nil => exact ⟨rfl, (Option.some.inj h).symm⟩
  | cons s ss => cases h

theorem pass_cons {M : Machine σ α} {Ms : List (Machine σ α)} {ss ss' : List σ} {n : ℕ} {x : α}
    (h : pass (M :: Ms) ss n x = some ss') :
    ∃ s rest t y rest', ss = s :: rest ∧ M.step s n x = some (t, y) ∧
      pass Ms rest n y = some rest' ∧ ss' = t :: rest' := by
  cases ss with
  | nil => cases h
  | cons s rest =>
    simp only [pass, Option.bind_eq_bind, Option.bind_eq_some_iff] at h
    obtain ⟨⟨t, y⟩, hstep, rest', hrest, heq⟩ := h
    exact ⟨s, rest, t, y, rest', rfl, hstep, hrest, (Option.some.inj heq).symm⟩

theorem pass_length {Ms : List (Machine σ α)} {ss ss' : List σ} {n : ℕ} {x : α}
    (h : pass Ms ss n x = some ss') : ss.length = Ms.length ∧ ss'.length = Ms.length := by
  induction Ms generalizing ss ss' x with
  | nil =>
    obtain ⟨rfl, rfl⟩ := pass_nil h
    exact ⟨rfl, rfl⟩
  | cons M Ms ih =>
    obtain ⟨s, rest, t, y, rest', rfl, -, hrest, rfl⟩ := pass_cons h
    obtain ⟨hbefore, hafter⟩ := ih hrest
    exact ⟨congrArg Nat.succ hbefore, congrArg Nat.succ hafter⟩

theorem flow_nil (Ms : List (Machine σ α)) : flow Ms [] = some (Ms.map Machine.start) := by
  induction Ms with
  | nil => rfl
  | cons M Ms ih =>
    simp only [flow, feed, Option.bind_eq_bind, Option.bind_some, ih]
    rfl

theorem flow_concat (Ms : List (Machine σ α)) (xs : List α) (x : α) :
    flow Ms (xs ++ [x]) = (flow Ms xs).bind fun ss => pass Ms ss xs.length x := by
  induction Ms generalizing xs x with
  | nil => rfl
  | cons M Ms ih =>
    simp only [flow, feed_concat, Option.bind_eq_bind, Nat.zero_add]
    cases hfeed : feed M.step M.start 0 xs with
    | none => rfl
    | some r =>
      obtain ⟨s, ys⟩ := r
      have hlength : ys.length = xs.length := feed_length hfeed
      simp only [Option.bind_some]
      cases hstep : M.step s xs.length x with
      | none =>
        -- the item fails here, whatever the machines behind make of those before it
        cases hflow : flow Ms ys with
        | none => rfl
        | some ss => simp [pass, hstep]
      | some q =>
        simp only [Option.map_some, Option.bind_some, ih, hlength]
        cases hflow : flow Ms ys with
        | none => rfl
        | some ss =>
          simp only [Option.bind_some, pure, pass, hstep, Option.bind_eq_bind]

/-! ### A chain behind a first machine -/

/-- The states after a sequence: of the first machine, and of those behind it. -/
def run (first : τ → ℕ → α → Option (τ × β)) (start : τ) (Ms : List (Machine σ β)) (xs : List α) :
    Option (τ × List σ) := do
  let (t, ys) ← feed first start 0 xs
  let ss ← flow Ms ys
  pure (t, ss)

section
variable {first : τ → ℕ → α → Option (τ × β)} {start : τ} {Ms : List (Machine σ β)}

theorem run_nil : run first start Ms [] = some (start, Ms.map Machine.start) := by
  simp only [run, feed, Option.bind_eq_bind, Option.bind_some, flow_nil]
  rfl

theorem run_concat (xs : List α) (x : α) :
    run first start Ms (xs ++ [x]) = (run first start Ms xs).bind fun r =>
      (first r.1 xs.length x).bind fun q => (pass Ms r.2 xs.length q.2).map fun ss => (q.1, ss) := by
  simp only [run, feed_concat, Option.bind_eq_bind, Nat.zero_add]
  cases hfeed : feed first start 0 xs with
  | none => rfl
  | some r =>
    obtain ⟨t, ys⟩ := r
    have hlength : ys.length = xs.length := feed_length hfeed
    simp only [Option.bind_some]
    cases hstep : first t xs.length x with
    | none =>
      cases hflow : flow Ms ys with
      | none => rfl
      | some ss => simp [hstep]
    | some q =>
      simp only [Option.map_some, Option.bind_some, flow_concat, hlength]
      cases hflow : flow Ms ys with
      | none => rfl
      | some ss =>
        simp only [Option.bind_some, pure, hstep]
        cases pass Ms ss xs.length q.2 with
        | none => rfl
        | some ss' => rfl

theorem run_prefix (xs : List α) {ys : List α} (h : (run first start Ms (xs ++ ys)).isSome = true) :
    (run first start Ms xs).isSome = true := by
  induction ys using List.reverseRecOn with
  | nil => rwa [List.append_nil] at h
  | append_singleton ys y ih =>
    rw [← List.append_assoc, run_concat] at h
    apply ih
    cases hrun : run first start Ms (xs ++ ys) with
    | none =>
      rw [hrun] at h
      cases h
    | some r => rfl

theorem run_concat_some {xs : List α} {x : α} {t : τ} {ss : List σ}
    (hrun : run first start Ms xs = some (t, ss))
    (h : (run first start Ms (xs ++ [x])).isSome = true) :
    ∃ t' y ss', first t xs.length x = some (t', y) ∧ pass Ms ss xs.length y = some ss' ∧
      run first start Ms (xs ++ [x]) = some (t', ss') := by
  rw [run_concat, hrun, Option.bind_some] at h ⊢
  cases hstep : first t xs.length x with
  | none =>
    rw [hstep] at h
    cases h
  | some q =>
    rw [hstep, Option.bind_some] at h
    cases hpass : pass Ms ss xs.length q.2 with
    | none =>
      rw [hpass] at h
      cases h
    | some ss' => exact ⟨q.1, q.2, ss', rfl, hpass, by rw [Option.bind_some, hpass]; rfl⟩

end

/-! ### Greedy continuation -/

/-- The items that a sequence goes on with, each the next of all before it: until one stops it, and
at most so many. -/
def greedy (next : List α → Option α) (stop : α → Bool) : ℕ → List α → Option (List α)
  | 0, _ => some []
  | n + 1, xs => do
    let x ← next xs
    if stop x then some [] else (greedy next stop n (xs ++ [x])).map fun ys => x :: ys

end KvasirNet.Incremental
