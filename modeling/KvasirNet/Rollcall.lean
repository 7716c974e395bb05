import Mathlib.Data.Finset.Card
import Mathlib.Data.List.Induction

/-! A roll that is called until a number of names has been heard. Every answer gives a name and
whether all is well; the first answer under a name counts, and the roll is closed as soon as the
names are as many as were to be. Where the names that answer are those of a list, each there once,
it is closed exactly when all of them have answered. -/
namespace KvasirNet.Rollcall

/-- The names heard, in order, and whether every answer was good; once closed, only that. -/
inductive Roll (ν : Type*)
  | listening (seen : List ν) (good : Bool)
  | closed (good : Bool)
  deriving DecidableEq

variable {ν : Type*} [DecidableEq ν]

def answer (n : ℕ) : Roll ν → ν × Bool → Roll ν
  | .listening seen good, a =>
    if a.1 ∈ seen then .listening seen good
    else if n ≤ (seen ++ [a.1]).length then .closed (good && a.2)
    else .listening (seen ++ [a.1]) (good && a.2)
  | .closed good, _ => .closed good

theorem answer_listening (n : ℕ) (seen : List ν) (good : Bool) (a : ν × Bool) :
    answer n (.listening seen good) a =
      if a.1 ∈ seen then .listening seen good
      else if n ≤ (seen ++ [a.1]).length then .closed (good && a.2)
      else .listening (seen ++ [a.1]) (good && a.2) := rfl

theorem foldl_answer_closed (n : ℕ) (good : Bool) (as : List (ν × Bool)) :
    as.foldl (answer n) (.closed good) = .closed good := by
  induction as with
  | nil => rfl
  | cons a as ih => exact ih

def roll (n : ℕ) (as : List (ν × Bool)) : Roll ν := as.foldl (answer n) (.listening [] true)

def firstOf (as : List (ν × Bool)) (x : ν) : Option Bool := (as.find? fun a => a.1 = x).map Prod.snd

variable {as : List (ν × Bool)}

theorem firstOf_append_of_mem {x : ν} (hx : x ∈ as.map Prod.fst)
    (bs : List (ν × Bool)) : firstOf (as ++ bs) x = firstOf as x := by
  obtain ⟨a, ha, rfl⟩ := List.mem_map.mp hx
  have hsome : (as.find? fun b => b.1 = a.1).isSome = true := by
    rw [List.find?_isSome]
    exact ⟨a, ha, by simp⟩
  obtain ⟨b, hb⟩ := Option.isSome_iff_exists.mp hsome
  rw [firstOf, firstOf, List.find?_append, hb, Option.some_or]

theorem firstOf_concat_of_notMem {x : ν} (hx : x ∉ as.map Prod.fst)
    (ok : Bool) : firstOf (as ++ [(x, ok)]) x = some ok := by
  have hnone : (as.find? fun b => b.1 = x) = none := by
    rw [List.find?_eq_none]
    intro b hb heq
    exact hx (List.mem_map.mpr ⟨b, hb, of_decide_eq_true heq⟩)
  rw [firstOf, List.find?_append, hnone, Option.none_or]
  simp

theorem firstOf_isSome {x : ν} :
    (firstOf as x).isSome = true ↔ x ∈ as.map Prod.fst := by
  rw [firstOf, Option.isSome_map, List.find?_isSome, List.mem_map]
  simp only [decide_eq_true_eq]

structure Heard (as : List (ν × Bool)) (seen : List ν) (good : Bool) : Prop where
  nodup : seen.Nodup
  named : ∀ x ∈ seen, x ∈ as.map Prod.fst
  good_iff : good = true ↔ ∀ x ∈ seen, firstOf as x = some true

theorem Heard.append {seen : List ν} {good : Bool} (h : Heard as seen good)
    (bs : List (ν × Bool)) : Heard (as ++ bs) seen good := by
  refine ⟨h.nodup, fun x hx => ?_, ?_⟩
  · rw [List.map_append]
    exact List.mem_append_left _ (h.named x hx)
  · rw [h.good_iff]
    apply forall₂_congr
    intro x hx
    rw [firstOf_append_of_mem (h.named x hx)]

theorem Heard.concat {seen : List ν} {good : Bool} (h : Heard as seen good)
    {a : ν × Bool} (hnew : a.1 ∉ as.map Prod.fst) : Heard (as ++ [a]) (seen ++ [a.1]) (good && a.2) := by
  have hrest := h.append [a]
  refine ⟨?_, ?_, ?_⟩
  · rw [List.nodup_append]
    refine ⟨h.nodup, List.nodup_singleton _, ?_⟩
    rintro x hx y hy rfl
    rw [List.mem_singleton.mp hy] at hx
    exact hnew (h.named _ hx)
  · intro x hx
    rcases List.mem_append.mp hx with hx | hx
    · exact hrest.named x hx
    · rw [List.mem_singleton.mp hx, List.map_append]
      exact List.mem_append_right _ List.mem_cons_self
  · have hlast : firstOf (as ++ [a]) a.1 = some a.2 := firstOf_concat_of_notMem hnew a.2
    rw [Bool.and_eq_true, hrest.good_iff, List.forall_mem_append, List.forall_mem_singleton, hlast,
      Option.some_inj]

/-- The roll, as the answers up to now leave it. -/
def Kept (n : ℕ) (as : List (ν × Bool)) : Roll ν → Prop
  | .listening seen good => Heard as seen good ∧ (∀ x ∈ as.map Prod.fst, x ∈ seen) ∧ seen.length < n
  | .closed good => ∃ seen, Heard as seen good ∧ seen.length = n

theorem kept_roll {n : ℕ} (hn : 0 < n) (as : List (ν × Bool)) : Kept n as (roll n as) := by
  induction as using List.reverseRecOn with
  | nil =>
    refine ⟨⟨List.nodup_nil, fun x hx => absurd hx List.not_mem_nil, ?_⟩,
      fun x hx => absurd hx List.not_mem_nil, hn⟩
    exact iff_of_true rfl fun x hx => absurd hx List.not_mem_nil
  | append_singleton as a ih =>
    have hlast : roll n (as ++ [a]) = answer n (roll n as) a := by
      rw [roll, List.foldl_append, List.foldl_cons, List.foldl_nil, ← roll]
    rw [hlast]
    cases hroll : roll n as with
    | closed good =>
      rw [hroll] at ih
      obtain ⟨seen, hheard, hlength⟩ := ih
      exact ⟨seen, hheard.append [a], hlength⟩
    | listening seen good =>
      rw [hroll] at ih
      obtain ⟨hheard, hall, hlt⟩ := ih
      rw [answer_listening]
      by_cases hold : a.1 ∈ seen
      · rw [if_pos hold]
        refine ⟨hheard.append [a], fun x hx => ?_, hlt⟩
        rw [List.map_append] at hx
        rcases List.mem_append.mp hx with hx | hx
        · exact hall x hx
        · rw [List.mem_singleton.mp hx]
          exact hold
      · have hnew : a.1 ∉ as.map Prod.fst := fun hmem => hold (hall _ hmem)
        have hlength : (seen ++ [a.1]).length = seen.length + 1 := List.length_append
        rw [if_neg hold]
        by_cases hfull : n ≤ (seen ++ [a.1]).length
        · rw [if_pos hfull]
          exact ⟨seen ++ [a.1], hheard.concat hnew, by omega⟩
        · rw [if_neg hfull]
          refine ⟨hheard.concat hnew, fun x hx => ?_, not_le.mp hfull⟩
          rw [List.map_append] at hx
          rcases List.mem_append.mp hx with hx | hx
          · exact List.mem_append_left _ (hall x hx)
          · exact List.mem_append_right _ hx

theorem closed_iff {n : ℕ} (hn : 0 < n) (as : List (ν × Bool)) :
    (∃ good, roll n as = .closed good) ↔ n ≤ (as.map Prod.fst).toFinset.card := by
  have hkept := kept_roll hn as
  cases hroll : roll n as with
  | closed good =>
    rw [hroll] at hkept
    obtain ⟨seen, hheard, hlength⟩ := hkept
    refine iff_of_true ⟨good, rfl⟩ ?_
    rw [← hlength, ← List.toFinset_card_of_nodup hheard.nodup]
    apply Finset.card_le_card
    intro x hx
    exact List.mem_toFinset.mpr (hheard.named x (List.mem_toFinset.mp hx))
  | listening seen good =>
    rw [hroll] at hkept
    obtain ⟨hheard, hall, hlt⟩ := hkept
    refine iff_of_false ?_ ?_
    · rintro ⟨good', h⟩
      cases h
    · rw [not_le]
      calc
        (as.map Prod.fst).toFinset.card ≤ seen.toFinset.card := by
          apply Finset.card_le_card
          intro x hx
          exact List.mem_toFinset.mpr (hall x (List.mem_toFinset.mp hx))
        _ = seen.length := List.toFinset_card_of_nodup hheard.nodup
        _ < n := hlt

theorem good_of_all {n : ℕ} (hn : 0 < n) (hall : ∀ a ∈ as, a.2 = true)
    {good : Bool} (h : roll n as = .closed good) : good = true := by
  have hkept := kept_roll hn as
  rw [h] at hkept
  obtain ⟨seen, hheard, -⟩ := hkept
  apply hheard.good_iff.mpr
  intro x hx
  obtain ⟨a, ha, rfl⟩ := List.mem_map.mp (hheard.named x hx)
  have hsome : (as.find? fun b => b.1 = a.1).isSome = true := by
    rw [List.find?_isSome]
    exact ⟨a, ha, by simp⟩
  obtain ⟨b, hb⟩ := Option.isSome_iff_exists.mp hsome
  rw [firstOf, hb, Option.map_some, hall b (List.mem_of_find?_eq_some hb)]

section Members
variable {names : List ν} {as : List (ν × Bool)}

theorem closed_iff_all (hnodup : names.Nodup) (hne : names ≠ [])
    (hin : ∀ a ∈ as, a.1 ∈ names) :
    (∃ good, roll names.length as = .closed good) ↔ ∀ x ∈ names, x ∈ as.map Prod.fst := by
  have hsub : (as.map Prod.fst).toFinset ⊆ names.toFinset := by
    intro x hx
    obtain ⟨a, ha, rfl⟩ := List.mem_map.mp (List.mem_toFinset.mp hx)
    exact List.mem_toFinset.mpr (hin a ha)
  rw [closed_iff (List.length_pos_of_ne_nil hne), ← List.toFinset_card_of_nodup hnodup]
  constructor
  · intro hle x hx
    rw [← List.mem_toFinset, Finset.eq_of_subset_of_card_le hsub hle]
    exact List.mem_toFinset.mpr hx
  · intro hall
    apply Finset.card_le_card
    intro x hx
    exact List.mem_toFinset.mpr (hall x (List.mem_toFinset.mp hx))

theorem good_iff_all (hnodup : names.Nodup) (hne : names ≠ []) (hin : ∀ a ∈ as, a.1 ∈ names)
    {good : Bool} (h : roll names.length as = .closed good) :
    good = true ↔ ∀ x ∈ names, firstOf as x = some true := by
  have hkept := kept_roll (List.length_pos_of_ne_nil hne) as
  rw [h] at hkept
  obtain ⟨seen, hheard, hlength⟩ := hkept
  have hsub : seen.toFinset ⊆ names.toFinset := by
    intro x hx
    obtain ⟨a, ha, rfl⟩ := List.mem_map.mp (hheard.named x (List.mem_toFinset.mp hx))
    exact List.mem_toFinset.mpr (hin a ha)
  have hsame : seen.toFinset = names.toFinset := by
    apply Finset.eq_of_subset_of_card_le hsub
    rw [List.toFinset_card_of_nodup hheard.nodup, List.toFinset_card_of_nodup hnodup, hlength]
  have hmem (x : ν) : x ∈ seen ↔ x ∈ names := by
    rw [← List.mem_toFinset, hsame, List.mem_toFinset]
  rw [hheard.good_iff]
  exact forall_congr' fun x => by rw [hmem x]

end Members

theorem exists_missing {α : Type*} {l : List α} {f : α → ν} (hne : l ≠ []) (hnodup : (l.map f).Nodup)
    (y : ν) : ∃ a ∈ l, (y :: (l.filter fun b => f b ≠ f a).map f).Nodup ∧
      (y :: (l.filter fun b => f b ≠ f a).map f).length = l.length := by
  have herase (a : α) : (l.filter fun b => f b ≠ f a).map f = (l.map f).erase (f a) := by
    rw [hnodup.erase_eq_filter, List.filter_map]
    congr 1
    apply List.filter_congr
    intro b _
    by_cases hb : f b = f a
    · simp [hb]
    · simp [hb]
  have hlength {a : α} (ha : a ∈ l) : (y :: (l.map f).erase (f a)).length = l.length := by
    have hpos : 0 < l.length := List.length_pos_of_ne_nil hne
    rw [List.length_cons, List.length_erase_of_mem (List.mem_map_of_mem ha), List.length_map]
    omega
  by_cases hy : y ∈ l.map f
  · obtain ⟨a, ha, rfl⟩ := List.mem_map.mp hy
    refine ⟨a, ha, ?_, ?_⟩
    · rw [herase, List.nodup_cons]
      exact ⟨fun hmem => ((List.Nodup.mem_erase_iff hnodup).mp hmem).1 rfl, hnodup.erase _⟩
    · rw [herase]
      exact hlength ha
  · obtain ⟨a, ha⟩ := List.exists_mem_of_ne_nil l hne
    refine ⟨a, ha, ?_, ?_⟩
    · rw [herase, List.nodup_cons]
      exact ⟨fun hmem => hy (List.mem_of_mem_erase hmem), hnodup.erase _⟩
    · rw [herase]
      exact hlength ha

theorem card_lt_of_not_nodup {names : List ν} (h : ¬ names.Nodup) :
    names.toFinset.card < names.length := by
  rw [List.card_toFinset]
  by_contra hle
  have hsame := (List.dedup_sublist names).eq_of_length_le (not_lt.mp hle)
  exact h (hsame ▸ List.nodup_dedup names)

end KvasirNet.Rollcall
