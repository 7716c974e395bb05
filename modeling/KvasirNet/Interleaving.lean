import Mathlib.Data.List.Perm.Basic

/-! Several streams with no order between them. An interleaving takes the next element of any stream
that still has one; it can be cut where one likes, and the streams are cut with it. -/
namespace KvasirNet.Interleaving

variable {α : Type*}

inductive Merge : List (List α) → List α → Prop
  | done {ss : List (List α)} (h : ∀ s ∈ ss, s = []) : Merge ss []
  | next {before after : List (List α)} {s : List α} {e : α} {out : List α}
      (h : Merge (before ++ s :: after) out) : Merge (before ++ (e :: s) :: after) (e :: out)

variable {ss : List (List α)} {out : List α}

theorem Merge.perm (h : Merge ss out) : out.Perm ss.flatten := by
  induction h with
  | done hnil => rw [List.flatten_eq_nil_iff.mpr hnil]
  | next _ ih =>
    rw [List.flatten_append, List.flatten_cons] at ih ⊢
    exact (ih.cons _).trans List.perm_middle.symm

theorem Merge.mem_iff (h : Merge ss out) {e : α} : e ∈ out ↔ ∃ s ∈ ss, e ∈ s := by
  rw [h.perm.mem_iff, List.mem_flatten]

theorem Merge.of_perm {ss' : List (List α)} (h : Merge ss out) (hperm : ss.Perm ss') :
    Merge ss' out := by
  induction h generalizing ss' with
  | done hnil => exact Merge.done fun s hs => hnil s (hperm.mem_iff.mpr hs)
  | @next before after s e out _ ih =>
    have hmem : e :: s ∈ ss' := hperm.mem_iff.mp (List.mem_append_right _ List.mem_cons_self)
    obtain ⟨before', after', rfl⟩ := List.append_of_mem hmem
    have hrest : (before ++ after).Perm (before' ++ after') := by
      apply List.Perm.cons_inv (a := e :: s)
      exact (List.perm_middle.symm.trans hperm).trans List.perm_middle
    apply Merge.next
    apply ih
    exact List.perm_middle.trans ((hrest.cons s).trans List.perm_middle.symm)

theorem Merge.nil_cons (h : Merge ss out) : Merge ([] :: ss) out := by
  induction h with
  | done hnil =>
    apply Merge.done
    intro s hs
    rcases List.mem_cons.mp hs with rfl | hs
    · rfl
    · exact hnil s hs
  | @next before after s e out _ ih =>
    have hstep : Merge (([] :: before) ++ (e :: s) :: after) (e :: out) := Merge.next ih
    exact hstep

theorem Merge.cons (h : Merge ss out) (s : List α) : Merge (s :: ss) (s ++ out) := by
  induction s with
  | nil => exact h.nil_cons
  | cons e s ih =>
    have hstep : Merge ([] ++ (e :: s) :: ss) (e :: (s ++ out)) := Merge.next ih
    exact hstep

theorem merge_flatten (ss : List (List α)) : Merge ss ss.flatten := by
  induction ss with
  | nil => exact Merge.done fun s hs => absurd hs List.not_mem_nil
  | cons s ss ih => exact ih.cons s

theorem merge_first (before after : List (List α)) (s : List α) :
    Merge (before ++ s :: after) (s ++ (before ++ after).flatten) :=
  ((merge_flatten (before ++ after)).cons s).of_perm List.perm_middle.symm

def joined (parts : List (List α × List α)) : List (List α) := parts.map fun p => p.1 ++ p.2

theorem Merge.split {h t : List α} (hmerge : Merge ss (h ++ t)) :
    ∃ parts, ss = joined parts ∧ Merge (parts.map Prod.fst) h ∧ Merge (parts.map Prod.snd) t := by
  induction h generalizing ss with
  | nil =>
    refine ⟨ss.map fun s => ([], s), ?_, Merge.done ?_, ?_⟩
    · rw [joined, List.map_map]
      exact (List.map_id ss).symm
    · intro s hs
      rw [List.map_map] at hs
      obtain ⟨s', -, rfl⟩ := List.mem_map.mp hs
      rfl
    · rw [List.map_map]
      exact (List.map_id ss).symm ▸ hmerge
  | cons e h ih =>
    cases hmerge with
    | @next before after s _ _ hrest =>
      obtain ⟨parts, hparts, hfirst, hsecond⟩ := ih hrest
      obtain ⟨front, back, rfl, rfl, hback⟩ := List.map_eq_append_iff.mp hparts.symm
      obtain ⟨p, back', rfl, rfl, rfl⟩ := List.map_eq_cons_iff.mp hback
      refine ⟨front ++ (e :: p.1, p.2) :: back', ?_, ?_, ?_⟩
      · rw [joined, List.map_append, List.map_cons]
        rfl
      · rw [List.map_append, List.map_cons] at hfirst ⊢
        exact Merge.next hfirst
      · rw [List.map_append, List.map_cons] at hsecond ⊢
        exact hsecond

theorem Merge.append {parts : List (List α × List α)} {h t : List α}
    (hfirst : Merge (parts.map Prod.fst) h) (hsecond : Merge (parts.map Prod.snd) t) :
    Merge (joined parts) (h ++ t) := by
  generalize hfs : parts.map Prod.fst = fs at hfirst
  induction hfirst generalizing parts with
  | done hnil =>
    have hsame : joined parts = parts.map Prod.snd := by
      apply List.map_congr_left
      intro p hp
      have hempty : p.1 = [] := hnil p.1 (hfs ▸ List.mem_map_of_mem hp)
      rw [hempty, List.nil_append]
    rw [hsame]
    exact hsecond
  | @next before after s e out _ ih =>
    obtain ⟨front, back, rfl, rfl, hback⟩ := List.map_eq_append_iff.mp hfs
    obtain ⟨p, back', rfl, hp, rfl⟩ := List.map_eq_cons_iff.mp hback
    have hsecond' : Merge ((front ++ (s, p.2) :: back').map Prod.snd) t := by
      rw [List.map_append, List.map_cons] at hsecond ⊢
      exact hsecond
    have hrest := ih hsecond' (by rw [List.map_append, List.map_cons])
    rw [joined, List.map_append, List.map_cons] at hrest ⊢
    rw [hp]
    exact Merge.next hrest

end KvasirNet.Interleaving
