import Mathlib.Data.Option.Basic
import Mathlib.Data.List.Basic

/-! Runs of a partial step function. `runs step s as` performs the actions in
order and fails when one of them is not enabled. -/
namespace KvasirNet

variable {σ α : Type*}

def runs (step : σ → α → Option σ) : σ → List α → Option σ
  | s, [] => some s
  | s, a :: as => (step s a).bind fun s' => runs step s' as

/-- `P` holds of every state and action along the run. -/
def Along (step : σ → α → Option σ) (P : σ → α → Prop) : σ → List α → Prop
  | _, [] => True
  | s, a :: as => P s a ∧ ∀ s', step s a = some s' → Along step P s' as

instance alongDecidable (step : σ → α → Option σ) (P : σ → α → Prop)
    [hP : ∀ s a, Decidable (P s a)] : ∀ s as, Decidable (Along step P s as)
  | _, [] => .isTrue trivial
  | s, a :: as =>
    match hs : step s a with
    | none => decidable_of_iff (P s a) (by simp [Along, hs])
    | some s' =>
      haveI := alongDecidable step P s' as
      decidable_of_iff (P s a ∧ Along step P s' as) (by simp [Along, hs])

variable {step : σ → α → Option σ} {as : List α} {s' s : σ}

theorem runs_cons {a : α}
    (h : runs step s (a :: as) = some s') :
    ∃ t, step s a = some t ∧ runs step t as = some s' := by
  simpa only [runs, Option.bind_eq_some_iff] using h

theorem runs_append (as : List α) {bs : List α}
    (h : runs step s (as ++ bs) = some s') :
    ∃ t, runs step s as = some t ∧ runs step t bs = some s' := by
  induction as generalizing s with
  | nil => exact ⟨s, rfl, h⟩
  | cons a as ih =>
    obtain ⟨t, ht, hrest⟩ := runs_cons h
    obtain ⟨u, hu, hlast⟩ := ih hrest
    exact ⟨u, by rw [runs, ht, Option.bind_some, hu], hlast⟩

theorem runs_exists (step : σ → α → Option σ) (s : σ) (as : List α) (p : σ → Bool)
    (h : (runs step s as).any p = true) : ∃ s', runs step s as = some s' ∧ p s' = true := by
  cases hr : runs step s as with
  | none => simp [hr] at h
  | some s' => exact ⟨s', rfl, by simpa [hr] using h⟩

variable {P : σ → α → Prop}

theorem runs_relation {R : σ → σ → Prop}
    (hrefl : ∀ s, R s s) (htrans : ∀ r s t, R r s → R s t → R r t)
    (hstep : ∀ s a s', P s a → step s a = some s' → R s s')
    (hP : Along step P s as) (h : runs step s as = some s') :
    R s s' := by
  induction as generalizing s with
  | nil =>
    obtain rfl : s = s' := Option.some.inj h
    exact hrefl s
  | cons a as ih =>
    obtain ⟨t, ht, hrun⟩ := runs_cons h
    exact htrans _ _ _ (hstep s a t hP.1 ht) (ih (hP.2 t ht) hrun)

theorem runs_invariant {I : σ → Prop}
    (hstep : ∀ s a s', P s a → I s → step s a = some s' → I s')
    (hP : Along step P s as) (h : runs step s as = some s')
    (hs : I s) : I s' :=
  runs_relation (R := fun s s' => I s → I s') (fun _ h => h)
    (fun _ _ _ h₁ h₂ hr => h₂ (h₁ hr)) (fun s a s' hp ht hi => hstep s a s' hp hi ht) hP h hs

variable {Q : σ → α → Prop}

theorem Along.and
    (hP : Along step P s as) (hQ : Along step Q s as) :
    Along step (fun s a => P s a ∧ Q s a) s as := by
  induction as generalizing s with
  | nil => trivial
  | cons a as ih => exact ⟨⟨hP.1, hQ.1⟩, fun s' hs' => ih (hP.2 s' hs') (hQ.2 s' hs')⟩

theorem Along.mono
    (hP : Along step P s as) (h : ∀ s a, P s a → Q s a) : Along step Q s as := by
  induction as generalizing s with
  | nil => trivial
  | cons a as ih => exact ⟨h s a hP.1, fun s' hs' => ih (hP.2 s' hs')⟩

theorem Along.after {t : σ} {a : α} (as : List α)
    {bs : List α} (hP : Along step P s (as ++ a :: bs)) (h : runs step s as = some t) : P t a := by
  induction as generalizing s with
  | nil =>
    obtain rfl : s = t := Option.some.inj h
    exact hP.1
  | cons b as ih =>
    obtain ⟨s', hs', hrun⟩ := runs_cons h
    exact ih (hP.2 s' hs') hrun

theorem Along.of_invariant {I : σ → Prop}
    (hstep : ∀ s a s', P s a → I s → step s a = some s' → Q s a ∧ I s')
    (hP : Along step P s as) (h : runs step s as = some s')
    (hs : I s) : Along step Q s as := by
  induction as generalizing s with
  | nil => trivial
  | cons a as ih =>
    obtain ⟨t, ht, hrun⟩ := runs_cons h
    obtain ⟨hq, hi⟩ := hstep s a t hP.1 hs ht
    refine ⟨hq, fun t' ht' => ?_⟩
    obtain rfl : t = t' := Option.some.inj (ht.symm.trans ht')
    exact ih (hP.2 t ht) hrun hi

theorem along_of_forall
    (h : ∀ s a, P s a) (s : σ) (as : List α) : Along step P s as := by
  induction as generalizing s with
  | nil => trivial
  | cons a as ih => exact ⟨h s a, fun s' _ => ih s'⟩

theorem along_of_mem {P : α → Prop}
    (h : ∀ a ∈ as, P a) (s : σ) : Along step (fun _ a => P a) s as := by
  induction as generalizing s with
  | nil => trivial
  | cons a as ih =>
    have htail : ∀ b ∈ as, P b := fun b hb => h b (List.mem_cons_of_mem a hb)
    exact ⟨h a List.mem_cons_self, fun s' _ => ih htail s'⟩

/-! ## Histories -/

/-- A history that each step adds to, kept beside the run. -/
def recorded {η : Type*} (step : σ → α → Option σ) (note : σ → α → σ → η → η) :
    σ → List α → η → η
  | _, [], h => h
  | s, a :: as, h =>
    match step s a with
    | none => h
    | some s' => recorded step note s' as (note s a s' h)

theorem recorded_invariant {η : Type*} {note : σ → α → σ → η → η}
    {I : σ → η → Prop}
    (hstep : ∀ s a s' h, P s a → I s h → step s a = some s' → I s' (note s a s' h))
    {h : η} (hP : Along step P s as) (hrun : runs step s as = some s')
    (hs : I s h) : I s' (recorded step note s as h) := by
  induction as generalizing s h with
  | nil =>
    obtain rfl : s = s' := Option.some.inj hrun
    exact hs
  | cons a as ih =>
    obtain ⟨t, ht, htail⟩ := runs_cons hrun
    simp only [recorded, ht]
    exact ih (hP.2 t ht) htail (hstep s a t h hP.1 hs ht)

/-- The run with its history as part of the state. -/
def beside {η : Type*} (step : σ → α → Option σ) (note : σ → α → σ → η → η) :
    σ × η → α → Option (σ × η)
  | (s, h), a => (step s a).map fun s' => (s', note s a s' h)

theorem runs_beside {η : Type*} {note : σ → α → σ → η → η}
    {h h' : η} (hrun : runs (beside step note) (s, h) as = some (s', h')) :
    runs step s as = some s' := by
  induction as generalizing s h with
  | nil =>
    obtain ⟨rfl, -⟩ := Prod.mk.inj (Option.some.inj hrun)
    rfl
  | cons a as ih =>
    obtain ⟨⟨t, k⟩, ht, htail⟩ := runs_cons hrun
    obtain ⟨t', ht', he⟩ := Option.map_eq_some_iff.mp ht
    obtain ⟨rfl, -⟩ := Prod.mk.inj he
    rw [runs, ht', Option.bind_some]
    exact ih htail

end KvasirNet
