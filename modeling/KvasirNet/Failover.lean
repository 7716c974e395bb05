import Mathlib.Data.Finset.Card
import Mathlib.Data.Set.Insert
import Mathlib.Order.Interval.Finset.Nat

/-! Failover in rounds. An item that waits is asked of the first replica that covers it and is not
down. What is not answered waits on, and a replica that does not answer is down from then on. -/
namespace KvasirNet.Failover

/-- Which replicas there are, in the order they are preferred, and which answer when they are asked
in a round. -/
structure Service (Item : Type*) where
  replicas : ℕ
  covers : ℕ → Item → Prop
  answers : ℕ → ℕ → Prop

structure Stage (Item : Type*) where
  waiting : Set Item
  down : Set ℕ

section
variable {Item : Type*} (S : Service Item)

/-- The item is asked of the first replica that covers it and is not down. -/
structure Service.Asks (s : Stage Item) (p : Item) (i : ℕ) : Prop where
  waits : p ∈ s.waiting
  lt : i < S.replicas
  up : i ∉ s.down
  covers : S.covers i p
  first : ∀ j < i, S.covers j p → j ∈ s.down

def Service.next (k : ℕ) (s : Stage Item) : Stage Item where
  waiting := {p | p ∈ s.waiting ∧ ¬ ∃ i, S.Asks s p i ∧ S.answers k i}
  down := {i | i ∈ s.down ∨ (∃ p, S.Asks s p i) ∧ ¬ S.answers k i}

def Service.after (s : Stage Item) : ℕ → Stage Item
  | 0 => s
  | k + 1 => S.next k (Service.after s k)

/-- Some replica that is asked in the round answers. -/
def Service.Helps (k : ℕ) (s : Stage Item) : Prop := ∃ p i, S.Asks s p i ∧ S.answers k i

/-- As long as something waits, every round helps. -/
def Service.Steady (s : Stage Item) : Prop :=
  ∀ k, (S.after s k).waiting.Nonempty → S.Helps k (S.after s k)

end

section
variable {Item : Type*} {S : Service Item} {s : Stage Item} {p : Item} {i j k : ℕ}

theorem Service.Asks.unique (hi : S.Asks s p i) (hj : S.Asks s p j) : i = j := by
  rcases Nat.lt_trichotomy i j with hlt | heq | hlt
  · exact absurd (hj.first i hlt hi.covers) hi.up
  · exact heq
  · exact absurd (hi.first j hlt hj.covers) hj.up

theorem asks_exists (hp : p ∈ s.waiting) (hi : i < S.replicas) (hup : i ∉ s.down)
    (hcovers : S.covers i p) : ∃ j, S.Asks s p j := by
  classical
  have hex : ∃ j, j < S.replicas ∧ j ∉ s.down ∧ S.covers j p := ⟨i, hi, hup, hcovers⟩
  obtain ⟨hlt, hnot, hcov⟩ := Nat.find_spec hex
  refine ⟨Nat.find hex, hp, hlt, hnot, hcov, fun j hj hjcov => ?_⟩
  by_contra hjup
  exact Nat.find_min hex hj ⟨hj.trans hlt, hjup, hjcov⟩

theorem waiting_subset {k m : ℕ} (h : k ≤ m) :
    (S.after s m).waiting ⊆ (S.after s k).waiting := by
  induction h with
  | refl => exact fun p hp => hp
  | step _ ih => exact fun p hp => ih hp.1

theorem up_after (hup : i ∉ s.down) (hanswers : ∀ k, S.answers k i) (k : ℕ) :
    i ∉ (S.after s k).down := by
  induction k with
  | zero => exact hup
  | succ k ih =>
    rintro (hdown | ⟨-, hno⟩)
    · exact ih hdown
    · exact hno (hanswers k)

/-! ### Every replica is reached -/

open Classical in
/-- The replicas that are down after so many rounds. -/
noncomputable def fallen (S : Service Item) (s : Stage Item) (k : ℕ) : Finset ℕ :=
  (Finset.range S.replicas).filter fun i => i ∈ (S.after s k).down

theorem mem_fallen : i ∈ fallen S s k ↔ i < S.replicas ∧ i ∈ (S.after s k).down := by
  simp only [fallen, Finset.mem_filter, Finset.mem_range]

theorem fallen_lt (hwaits : p ∈ (S.after s (k + 1)).waiting) (hi : i < S.replicas)
    (hup : i ∉ (S.after s k).down) (hcovers : S.covers i p) :
    (fallen S s k).card < (fallen S s (k + 1)).card := by
  obtain ⟨j, hasks⟩ := asks_exists hwaits.1 hi hup hcovers
  have hno : ¬ S.answers k j := fun hyes => hwaits.2 ⟨j, hasks, hyes⟩
  apply Finset.card_lt_card
  refine ⟨fun x hx => ?_, fun hsub => ?_⟩
  · obtain ⟨hlt, hdown⟩ := mem_fallen.mp hx
    exact mem_fallen.mpr ⟨hlt, .inl hdown⟩
  · have hj : j ∈ fallen S s (k + 1) := mem_fallen.mpr ⟨hasks.lt, .inr ⟨⟨p, hasks⟩, hno⟩⟩
    exact hasks.up (mem_fallen.mp (hsub hj)).2

theorem waits_lt (hi : i < S.replicas) (hup : i ∉ s.down) (hcovers : S.covers i p)
    (hanswers : ∀ k, S.answers k i) (hwaits : p ∈ (S.after s k).waiting) : k < S.replicas := by
  have hcount : ∀ m ≤ k, m ≤ (fallen S s m).card := by
    intro m
    induction m with
    | zero => exact fun _ => Nat.zero_le _
    | succ m ih =>
      intro hm
      have hlt := fallen_lt (waiting_subset hm hwaits) hi (up_after hup hanswers m) hcovers
      exact (Nat.succ_le_succ (ih (Nat.le_of_succ_le hm))).trans hlt
  have hmiss : fallen S s k ⊂ Finset.range S.replicas := by
    refine ⟨fun x hx => Finset.mem_range.mpr (mem_fallen.mp hx).1, fun hsub => ?_⟩
    exact up_after hup hanswers k (mem_fallen.mp (hsub (Finset.mem_range.mpr hi))).2
  calc k ≤ (fallen S s k).card := hcount k le_rfl
    _ < (Finset.range S.replicas).card := Finset.card_lt_card hmiss
    _ = S.replicas := Finset.card_range _

/-- If each item has a replica that always answers, only the rounds up to the number of replicas
need to help. -/
theorem steady_iff (h : ∀ p ∈ s.waiting, ∃ i < S.replicas, i ∉ s.down ∧ S.covers i p ∧
      ∀ k, S.answers k i) :
    S.Steady s ↔ ∀ k < S.replicas, (S.after s k).waiting.Nonempty → S.Helps k (S.after s k) := by
  refine ⟨fun hsteady k _ => hsteady k, fun hbounded k hne => hbounded k ?_ hne⟩
  obtain ⟨p, hp⟩ := hne
  obtain ⟨i, hi, hup, hcovers, hanswers⟩ := h p (waiting_subset (Nat.zero_le k) hp)
  exact waits_lt hi hup hcovers hanswers hp

end

end KvasirNet.Failover
