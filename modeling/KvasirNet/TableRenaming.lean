import KvasirNet.TableSum

/-! One pass over a table that brings every row up to date and moves the rows under retired keys
to their new keys, where these are free. It is written for tables that hold a mixture of retired
and current keys, and may run any number of times. -/
namespace KvasirNet

/-- Which keys are retired, and the current key of each. -/
structure Renaming (κ : Type*) where
  rename : κ → Option κ
  injective : ∀ {h h' b}, rename h = some b → rename h' = some b → h = h'
  current : ∀ {h b}, rename h = some b → rename b = none

namespace Renaming

variable {κ ν : Type*} (ren : Renaming κ) (upgrade : ν → ν)

theorem ne {h b : κ} (hb : ren.rename h = some b) : h ≠ b := by
  rintro rfl
  have hnone := ren.current hb
  simp [hb] at hnone

section
variable [DecidableEq κ]

def turn (t : Table κ ν) (k : κ) : Table κ ν :=
  match t.lookup k with
  | none => t
  | some v =>
    let upgraded := t.insert k (upgrade v)
    match ren.rename k with
    | none => upgraded
    | some b =>
      if (upgraded.lookup b).isSome then upgraded
      else (upgraded.insert b (upgrade v)).erase k

/-- The pass: a turn for each key that was there at the start. -/
def pass (t : Table κ ν) : Table κ ν := t.keys.foldl (ren.turn upgrade) t

variable {ren upgrade} {t : Table κ ν} {k : κ} {v : ν}

/-! ### One turn -/

theorem turn_none (h : t.lookup k = none) : ren.turn upgrade t k = t := by
  simp [turn, h]

theorem lookup_turn_stay (h : t.lookup k = some v)
    (hstay : ∀ b, ren.rename k = some b → (t.lookup b).isSome = true) (j : κ) :
    (ren.turn upgrade t k).lookup j = if j = k then some (upgrade v) else t.lookup j := by
  have hmove : ren.turn upgrade t k = t.insert k (upgrade v) := by
    unfold turn
    simp only [h]
    cases hb : ren.rename k with
    | none => rfl
    | some b =>
      have hbk : b ≠ k := fun he => ren.ne hb he.symm
      simp [AList.lookup_insert_ne hbk, hstay b hb]
  rw [hmove]
  split_ifs with hj
  · subst hj
    exact AList.lookup_insert _
  · exact AList.lookup_insert_ne hj

theorem lookup_turn_move {b : κ} (h : t.lookup k = some v) (hb : ren.rename k = some b)
    (hfree : t.lookup b = none) (j : κ) :
    (ren.turn upgrade t k).lookup j =
      if j = k then none else if j = b then some (upgrade v) else t.lookup j := by
  have hbk : b ≠ k := fun he => ren.ne hb he.symm
  have hmove : ren.turn upgrade t k = ((t.insert k (upgrade v)).insert b (upgrade v)).erase k := by
    unfold turn
    simp [h, hb, AList.lookup_insert_ne hbk, hfree]
  rw [hmove]
  split_ifs with hj hjb
  · subst hj
    exact AList.lookup_erase _ _
  · subst hjb
    rw [AList.lookup_erase_ne hj, AList.lookup_insert]
  · rw [AList.lookup_erase_ne hj, AList.lookup_insert_ne hjb, AList.lookup_insert_ne hj]

theorem turn_cases (ren : Renaming κ) (t : Table κ ν) (k : κ) :
    t.lookup k = none ∨
    (∃ v, t.lookup k = some v ∧ ∀ b, ren.rename k = some b → (t.lookup b).isSome = true) ∨
    ∃ v b, t.lookup k = some v ∧ ren.rename k = some b ∧ t.lookup b = none := by
  cases hv : t.lookup k with
  | none => exact Or.inl rfl
  | some v =>
    cases hb : ren.rename k with
    | none => exact Or.inr (Or.inl ⟨v, rfl, fun b h => by cases h⟩)
    | some b =>
      cases hfree : t.lookup b with
      | none => exact Or.inr (Or.inr ⟨v, b, rfl, rfl, hfree⟩)
      | some w =>
        refine Or.inr (Or.inl ⟨v, rfl, fun b' h => ?_⟩)
        cases h
        simp [hfree]

theorem lookup_turn_other {j : κ} (hj : j ≠ k) (h : t.lookup j = some v) :
    (ren.turn upgrade t k).lookup j = some v := by
  rcases turn_cases ren t k with hn | ⟨w, hw, hstay⟩ | ⟨w, b, hw, hb, hfree⟩
  · rwa [turn_none hn]
  · rwa [lookup_turn_stay hw hstay, if_neg hj]
  · have hjb : j ≠ b := by
      rintro rfl
      simp [h] at hfree
    rwa [lookup_turn_move hw hb hfree, if_neg hj, if_neg hjb]

theorem total_turn {M : Type*} [AddCancelCommMonoid M] (f : ν → M)
    (hf : ∀ v, f (upgrade v) = f v) (t : Table κ ν) (k : κ) :
    (ren.turn upgrade t k).total (fun _ v => f v) = t.total fun _ v => f v := by
  unfold turn
  cases hv : t.lookup k with
  | none => rfl
  | some v =>
    have hup : Table.total (fun _ v => f v) (t.insert k (upgrade v)) = t.total fun _ v => f v := by
      have h := Table.total_insert_add (fun _ v => f v) t k (upgrade v)
      simp only [Table.rowAt, hv, Option.elim_some, hf] at h
      exact add_right_cancel h
    dsimp only
    cases hb : ren.rename k with
    | none => exact hup
    | some b =>
      dsimp only
      split_ifs with hfree
      · exact hup
      · have hne : k ≠ b := ren.ne hb
        -- the row is added under the new key and taken out under the old one
        have hins := Table.total_insert_add (fun _ v => f v) (t.insert k (upgrade v)) b (upgrade v)
        have hera := Table.total_erase_add (fun _ v => f v)
          ((t.insert k (upgrade v)).insert b (upgrade v)) k
        simp only [Table.rowAt, Option.not_isSome_iff_eq_none.mp hfree, Option.elim_none,
          add_zero] at hins
        simp only [Table.rowAt, AList.lookup_insert_ne hne, AList.lookup_insert,
          Option.elim_some] at hera
        exact (add_right_cancel (hera.trans hins)).trans hup

/-! ### Several turns -/

theorem lookup_turns_other {ks : List κ} (hk : k ∉ ks) (h : t.lookup k = some v) :
    (ks.foldl (ren.turn upgrade) t).lookup k = some v := by
  induction ks generalizing t with
  | nil => exact h
  | cons j ks ih =>
    rw [List.mem_cons, not_or] at hk
    exact ih hk.2 (lookup_turn_other hk.1 h)

theorem isSome_turns {ks : List κ} (hk : ren.rename k = none)
    (h : (t.lookup k).isSome = true) :
    ((ks.foldl (ren.turn upgrade) t).lookup k).isSome = true := by
  induction ks generalizing t with
  | nil => exact h
  | cons j ks ih =>
    apply ih
    obtain ⟨v, hv⟩ := Option.isSome_iff_exists.mp h
    by_cases hj : k = j
    · subst hj
      rw [lookup_turn_stay hv fun b hb => by simp [hk] at hb, if_pos rfl]
      rfl
    · simp [lookup_turn_other hj hv]

theorem lookup_turns_free {ks : List κ} (hks : ks.Nodup) (h : t.lookup k = none)
    (hto : ∀ j ∈ ks, ren.rename j = some k → t.lookup j = none) :
    (ks.foldl (ren.turn upgrade) t).lookup k = none := by
  induction ks generalizing t with
  | nil => exact h
  | cons j ks ih =>
    rw [List.nodup_cons] at hks
    have hrest (i : κ) (hmem : i ∈ ks) (hb : ren.rename i = some k) : t.lookup i = none :=
      hto i (List.mem_cons_of_mem _ hmem) hb
    rcases turn_cases ren t j with hn | ⟨v, hv, hstay⟩ | ⟨v, b, hv, hb, hfree⟩
    · rw [List.foldl_cons, turn_none hn]
      exact ih hks.2 h hrest
    · have hkj : k ≠ j := by
        rintro rfl
        simp [h] at hv
      refine ih hks.2 ?_ fun i hmem hb => ?_
      · rwa [lookup_turn_stay hv hstay, if_neg hkj]
      · have hne : i ≠ j := fun he => hks.1 (he ▸ hmem)
        rw [lookup_turn_stay hv hstay, if_neg hne, hrest i hmem hb]
    · have hkj : k ≠ j := by
        rintro rfl
        simp [h] at hv
      have hkb : k ≠ b := by
        rintro rfl
        have hnone := hto j List.mem_cons_self hb
        simp [hv] at hnone
      refine ih hks.2 ?_ fun i hmem hb' => ?_
      · rwa [lookup_turn_move hv hb hfree, if_neg hkj, if_neg hkb]
      · have hne : i ≠ j := fun he => hks.1 (he ▸ hmem)
        have hneb : i ≠ b := by
          rintro rfl
          have hnone := ren.current hb
          simp [hb'] at hnone
        rw [lookup_turn_move hv hb hfree, if_neg hne, if_neg hneb, hrest i hmem hb']

/-! ### The whole pass -/

theorem keys_split (h : t.lookup k = some v) :
    ∃ pre post, t.keys = pre ++ k :: post ∧ pre.Nodup ∧ post.Nodup ∧ k ∉ pre ∧ k ∉ post := by
  have hmem : k ∈ t.keys := AList.mem_keys.mp (AList.lookup_isSome.mp (by simp [h]))
  obtain ⟨pre, post, hsplit⟩ := List.append_of_mem hmem
  have hnodup : (pre ++ k :: post).Nodup := hsplit ▸ t.keys_nodup
  rw [List.nodup_append] at hnodup
  obtain ⟨hpre, hpost, hdisj⟩ := hnodup
  rw [List.nodup_cons] at hpost
  exact ⟨pre, post, hsplit, hpre, hpost.2, fun hk => hdisj k hk k List.mem_cons_self rfl, hpost.1⟩

theorem lookup_pass_stay (h : t.lookup k = some v)
    (hstay : ∀ b, ren.rename k = some b → (t.lookup b).isSome = true) :
    (ren.pass upgrade t).lookup k = some (upgrade v) := by
  obtain ⟨pre, post, hsplit, -, -, hkpre, hkpost⟩ := keys_split h
  simp only [pass, hsplit, List.foldl_append, List.foldl_cons]
  -- only the turn for `k` itself changes the row
  have hpre : (pre.foldl (ren.turn upgrade) t).lookup k = some v := lookup_turns_other hkpre h
  apply lookup_turns_other hkpost
  rw [lookup_turn_stay hpre fun b hb => isSome_turns (ren.current hb) (hstay b hb), if_pos rfl]

theorem lookup_pass_move {b : κ} (h : t.lookup k = some v) (hb : ren.rename k = some b)
    (hfree : t.lookup b = none) :
    (ren.pass upgrade t).lookup k = none ∧ (ren.pass upgrade t).lookup b = some (upgrade v) := by
  obtain ⟨pre, post, hsplit, hnpre, hnpost, hkpre, hkpost⟩ := keys_split h
  have hbkeys : b ∉ t.keys := fun hmem =>
    AList.lookup_eq_none.mp hfree (AList.mem_keys.mpr hmem)
  rw [hsplit] at hbkeys
  simp only [pass, hsplit, List.foldl_append, List.foldl_cons]
  have hpre : (pre.foldl (ren.turn upgrade) t).lookup k = some v := lookup_turns_other hkpre h
  have hprefree : (pre.foldl (ren.turn upgrade) t).lookup b = none := by
    refine lookup_turns_free hnpre hfree fun j hmem hj => ?_
    exact absurd (ren.injective hb hj ▸ hmem) hkpre
  constructor
  · refine lookup_turns_free hnpost ?_ fun j _ hj => ?_
    · rw [lookup_turn_move hpre hb hprefree, if_pos rfl]
    · -- nothing is renamed to a retired key
      have hnone := ren.current hj
      simp [hb] at hnone
  · apply lookup_turns_other fun hmem => hbkeys (by simp [hmem])
    rw [lookup_turn_move hpre hb hprefree, if_neg (ren.ne hb).symm, if_pos rfl]

theorem lookup_pass_free (h : t.lookup k = none)
    (hto : ∀ j, ren.rename j = some k → t.lookup j = none) :
    (ren.pass upgrade t).lookup k = none :=
  lookup_turns_free t.keys_nodup h fun j _ hj => hto j hj

/-- What is found under a key depends on the row there, on whether its new key is
taken and, when there is no row, on the row that would be renamed to it. -/
theorem lookup_pass_congr {t' : Table κ ν} (hk : t'.lookup k = t.lookup k)
    (hto : ∀ b, ren.rename k = some b → (t'.lookup b).isSome = (t.lookup b).isSome)
    (hof : t.lookup k = none → ∀ j, ren.rename j = some k → t'.lookup j = t.lookup j) :
    (ren.pass upgrade t').lookup k = (ren.pass upgrade t).lookup k := by
  rcases turn_cases ren t k with hv | ⟨v, hv, hstay⟩ | ⟨v, b, hv, hb, hfree⟩
  · by_cases hex : ∃ j w, ren.rename j = some k ∧ t.lookup j = some w
    · obtain ⟨j, w, hj, hw⟩ := hex
      rw [(lookup_pass_move ((hof hv j hj).trans hw) hj (hk.trans hv)).2,
        (lookup_pass_move hw hj hv).2]
    · have hnone (j : κ) (hj : ren.rename j = some k) : t.lookup j = none := by
        cases hw : t.lookup j with
        | none => rfl
        | some w => exact absurd ⟨j, w, hj, hw⟩ hex
      rw [lookup_pass_free (hk.trans hv) fun j hj => (hof hv j hj).trans (hnone j hj),
        lookup_pass_free hv hnone]
  · rw [lookup_pass_stay (hk.trans hv) fun b hb => (hto b hb).trans (hstay b hb),
      lookup_pass_stay hv hstay]
  · have hfree' : t'.lookup b = none := by
      have hsome := hto b hb
      simpa [hfree] using hsome
    rw [(lookup_pass_move (hk.trans hv) hb hfree').1, (lookup_pass_move hv hb hfree).1]

theorem lookup_pass_some (h : (ren.pass upgrade t).lookup k = some v) :
    ∃ w, v = upgrade w ∧ (t.lookup k = some w ∨ ∃ j, ren.rename j = some k ∧ t.lookup j = some w) := by
  rcases turn_cases ren t k with hn | ⟨w, hw, hstay⟩ | ⟨w, b, hw, hb, hfree⟩
  · by_cases hex : ∃ j w, ren.rename j = some k ∧ t.lookup j = some w
    · obtain ⟨j, w, hj, hw⟩ := hex
      exact ⟨w, Option.some.inj (h.symm.trans (lookup_pass_move hw hj hn).2), Or.inr ⟨j, hj, hw⟩⟩
    · have hnone : (ren.pass upgrade t).lookup k = none := lookup_pass_free hn fun j hj => by
        cases hw : t.lookup j with
        | none => rfl
        | some w => exact absurd ⟨j, w, hj, hw⟩ hex
      rw [hnone] at h
      cases h
  · exact ⟨w, Option.some.inj (h.symm.trans (lookup_pass_stay hw hstay)), Or.inl hw⟩
  · rw [(lookup_pass_move hw hb hfree).1] at h
    cases h

theorem lookup_pass_retired {b : κ} (hb : ren.rename k = some b)
    (hfree : (ren.pass upgrade t).lookup b = none) : (ren.pass upgrade t).lookup k = none := by
  rcases turn_cases ren t k with hn | ⟨w, hw, hstay⟩ | ⟨w, b', hw, hb', hfree'⟩
  · refine lookup_pass_free hn fun j hj => ?_
    have hnone := ren.current hj
    simp [hb] at hnone
  · obtain ⟨x, hx⟩ := Option.isSome_iff_exists.mp (hstay b hb)
    have hsome : (ren.pass upgrade t).lookup b = some (upgrade x) :=
      lookup_pass_stay hx fun c hc => by simp [ren.current hb] at hc
    rw [hfree] at hsome
    cases hsome
  · exact (lookup_pass_move hw hb' hfree').1

theorem lookup_pass_pass (hup : ∀ v, upgrade (upgrade v) = upgrade v) (t : Table κ ν) (k : κ) :
    (ren.pass upgrade (ren.pass upgrade t)).lookup k = (ren.pass upgrade t).lookup k := by
  cases hv : (ren.pass upgrade t).lookup k with
  | none =>
    exact lookup_pass_free hv fun j hj => lookup_pass_retired hj hv
  | some v =>
    obtain ⟨w, rfl, -⟩ := lookup_pass_some hv
    rw [lookup_pass_stay hv fun b hb => ?_, hup]
    cases hb' : (ren.pass upgrade t).lookup b with
    | none => simp [lookup_pass_retired hb hb'] at hv
    | some _ => rfl

theorem pass_rows {Q : ν → Prop} (hQ : ∀ v, Q v → Q (upgrade v))
    (h : ∀ k v, t.lookup k = some v → Q v) :
    ∀ k v, (ren.pass upgrade t).lookup k = some v → Q v := by
  intro k v hv
  obtain ⟨w, rfl, hw | ⟨j, -, hw⟩⟩ := lookup_pass_some hv
  · exact hQ w (h k w hw)
  · exact hQ w (h j w hw)

theorem total_pass {M : Type*} [AddCancelCommMonoid M] (f : ν → M)
    (hf : ∀ v, f (upgrade v) = f v) (t : Table κ ν) :
    (ren.pass upgrade t).total (fun _ v => f v) = t.total fun _ v => f v := by
  have hturns (ks : List κ) (t : Table κ ν) :
      (ks.foldl (ren.turn upgrade) t).total (fun _ v => f v) = t.total fun _ v => f v := by
    induction ks generalizing t with
    | nil => rfl
    | cons k ks ih => rw [List.foldl_cons, ih, total_turn f hf]
  exact hturns _ _

end

end Renaming
end KvasirNet
