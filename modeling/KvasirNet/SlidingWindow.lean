import Mathlib.Data.List.Basic
import Mathlib.Order.Nat

/-! A sliding-window limit. The limiter keeps the recent times only and forgets
the older ones when it looks; on a clock that does not run backwards this is as
good as keeping them all. -/
namespace KvasirNet

/-- The times that still count at `now`. -/
def inWindow (width now : ℕ) (times : List ℕ) : List ℕ :=
  times.filter fun t => now - t < width

/-- The times of the half-open window that starts at `start`. -/
def windowFrom (width start : ℕ) (times : List ℕ) : List ℕ :=
  times.filter fun t => start ≤ t ∧ t < start + width

theorem inWindow_inWindow {width now now' : ℕ} (h : now ≤ now') (times : List ℕ) :
    inWindow width now' (inWindow width now times) = inWindow width now' times := by
  unfold inWindow
  rw [List.filter_filter]
  apply List.filter_congr
  intro t _
  rw [Bool.eq_iff_iff]
  simp only [Bool.and_eq_true, decide_eq_true_eq]
  omega

/-- `recent` is as good as all `times` from `clock` on, and no window holds more
than `cap` of them. -/
structure WindowKept (width cap clock : ℕ) (recent times : List ℕ) : Prop where
  kept : ∀ now, clock ≤ now → inWindow width now recent = inWindow width now times
  past : ∀ t ∈ times, t ≤ clock
  capped : ∀ start, (windowFrom width start times).length ≤ cap

namespace WindowKept

variable {width cap clock now : ℕ} {recent times : List ℕ}

theorem empty (width cap clock : ℕ) : WindowKept width cap clock [] [] where
  kept _ _ := rfl
  past _ h := nomatch h
  capped _ := Nat.zero_le cap

theorem later (h : WindowKept width cap clock recent times) (hle : clock ≤ now) :
    WindowKept width cap now recent times where
  kept now' h' := h.kept now' (hle.trans h')
  past t ht := (h.past t ht).trans hle
  capped := h.capped

theorem pruned (h : WindowKept width cap clock recent times) (hle : clock ≤ now) :
    WindowKept width cap now (inWindow width now recent) times where
  kept now' h' := (inWindow_inWindow h' recent).trans (h.kept now' (hle.trans h'))
  past t ht := (h.past t ht).trans hle
  capped := h.capped

theorem length_windowFrom_le (h : WindowKept width cap clock recent times) (hle : clock ≤ now)
    {start : ℕ} (hnow : now < start + width) :
    (windowFrom width start times).length ≤ (inWindow width now recent).length := by
  rw [h.kept now hle]
  apply List.Sublist.length_le
  apply List.monotone_filter_right
  intro t ht
  simp only [decide_eq_true_eq] at ht ⊢
  omega

theorem admitted (h : WindowKept width cap clock recent times) (hle : clock ≤ now)
    (hcap : (inWindow width now recent).length < cap) :
    WindowKept width cap now (inWindow width now recent ++ [now]) (times ++ [now]) where
  kept now' h' := by
    have hold := (h.pruned hle).kept now' h'
    unfold inWindow at hold ⊢
    rw [List.filter_append, List.filter_append, hold]
  past t ht := by
    rcases List.mem_append.mp ht with ht | ht
    · exact (h.past t ht).trans hle
    · exact (List.mem_singleton.mp ht).le
  capped start := by
    have hold := h.capped start
    unfold windowFrom at hold ⊢
    rw [List.filter_append, List.length_append]
    by_cases hin : start ≤ now ∧ now < start + width
    · -- the window holds `now`, so what it held before still counted at `now`
      have hle' := h.length_windowFrom_le hle hin.2
      unfold windowFrom at hle'
      have hone : ([now].filter fun t => start ≤ t ∧ t < start + width).length ≤ 1 :=
        List.length_filter_le _ _
      omega
    · have hnone : ([now].filter fun t => start ≤ t ∧ t < start + width) = [] := by
        simpa using hin
      rw [hnone]
      exact hold

end WindowKept
end KvasirNet
