import KvasirNet.RingBoundary
import Mathlib.Data.BitVec

/-! The two readers of a boundary bundle side by side: which bundles cross from one
end of an edge to the other, and on which payloads the ends agree. -/
namespace KvasirNet.Ring

/-! ### Bundles that were written -/

variable {b : BoundaryBundle} {payload : Bytes}

theorem encodeBoundary_eq_some
    (h : encodeBoundary b = some payload) :
    b ≠ [] ∧ b.length ≤ maxBoundaryTensors ∧ bundleTotal b ≤ maxFrameBytes ∧
      payload = bundleBytes b := by
  unfold encodeBoundary at h
  split_ifs at h with hcount htotal
  obtain ⟨hne, hmax⟩ := not_or.mp hcount
  exact ⟨hne, Nat.le_of_not_lt hmax, Nat.le_of_not_lt htotal, (Option.some.inj h).symm⟩

theorem encodeBoundary_of_bundle
    (h : encodeBoundaryBundle b = some payload) : encodeBoundary b = some payload := by
  unfold encodeBoundaryBundle at h
  split_ifs at h with hcount hbad
  unfold encodeBoundary
  rw [if_neg hcount, if_neg (not_or.mp hbad).2, h]

theorem BoundaryTensor.Crosses.of_limit {limit : Option ℕ} {i : ℕ} {t : BoundaryTensor} (h : t.Crosses limit i) :
    t.Crosses none i :=
  ⟨h.credible, fun _ hm => absurd hm (Option.not_mem_none _), h.data⟩

/-- A bundle that was written comes back from both readers exactly when each of its
tensors is one the node lets through. -/
theorem written_returns
    (h : encodeBoundary b = some payload) :
    (decodeBoundaryBundle payload = .ok b ∧ decodeBoundary payload = .ok b) ↔
      ∀ (i : ℕ) (t : BoundaryTensor), b[i]? = some t → t.Crosses (some maxFrameBytes) i := by
  obtain ⟨hne, hmax, htotal, rfl⟩ := encodeBoundary_eq_some h
  constructor
  · intro hback
    exact (decodeBundle_eq_ok hback.1).2.2
  · intro hcross
    exact ⟨decodeBundle_bytes hne hmax htotal hcross,
      decodeBundle_bytes hne hmax htotal fun i t hi => (hcross i t hi).of_limit⟩

/-! ### The node's reader is the executor's, stopped earlier -/

section
variable {m : ℕ} {payload : Bytes}

theorem readTensor_some (i offset : ℕ) :
    readTensor (some m) payload i offset =
      if (Desc.read (payload.drop offset)).nbytes.toNat ≤ m then readTensor none payload i offset
      else .error .refused := by
  have hsome (d : Desc Bytes) : d.within (some m) ↔ d.nbytes.toNat ≤ m := by simp [Desc.within]
  have hnone (d : Desc Bytes) : d.within none := fun _ hx => absurd hx (Option.not_mem_none _)
  by_cases hm : (Desc.read (payload.drop offset)).nbytes.toNat ≤ m
  · simp only [readTensor, hsome, hm, hnone, if_true]
  · simp only [readTensor, hsome, hm, and_false, not_false_eq_true, if_true, if_false, ite_self]

variable {offset : ℕ}

theorem readTensor_desc {limit : Option ℕ} {i next : ℕ} {t : BoundaryTensor}
    (h : readTensor limit payload i offset = .ok (t, next)) :
    t.desc.withName () = (Desc.read (payload.drop offset)).withName () := by
  unfold readTensor at h
  dsimp only at h
  split_ifs at h
  split at h
  · cases h
  · obtain ⟨rfl, -⟩ := Prod.mk.inj (Except.ok.inj h)
    rfl

theorem readTensors_some (n i offset : ℕ) (b : BoundaryBundle) :
    readTensors (some m) payload n i offset = .ok b ↔
      readTensors none payload n i offset = .ok b ∧ ∀ t ∈ b, t.desc.nbytes.toNat ≤ m := by
  induction n generalizing i offset b with
  | zero =>
    by_cases hend : offset = payload.length
    · simp only [readTensors, hend, if_true, Except.ok.injEq]
      exact ⟨fun h => ⟨h, fun t ht => by simp [← h] at ht⟩, And.left⟩
    · simp [readTensors, hend]
  | succ n ih =>
    simp only [readTensors, except_bind_eq_ok, Prod.exists]
    constructor
    · rintro ⟨t, next, hfirst, rest, hrest, hb⟩
      cases hb
      rw [readTensor_some] at hfirst
      split_ifs at hfirst with hsize
      have hdesc := congrArg Desc.nbytes (readTensor_desc hfirst)
      obtain ⟨hnone, hall⟩ := (ih _ _ _).mp hrest
      refine ⟨⟨t, next, hfirst, rest, hnone, rfl⟩, fun s hs => ?_⟩
      rcases List.mem_cons.mp hs with rfl | hs
      · simpa only [Desc.withName] using hdesc ▸ hsize
      · exact hall s hs
    · rintro ⟨⟨t, next, hfirst, rest, hrest, hb⟩, hall⟩
      cases hb
      have hdesc := congrArg Desc.nbytes (readTensor_desc hfirst)
      have hsize : (Desc.read (payload.drop offset)).nbytes.toNat ≤ m := by
        have := hall t List.mem_cons_self
        simpa only [Desc.withName] using hdesc ▸ this
      refine ⟨t, next, ?_, rest, (ih _ _ _).mpr ⟨hrest, ?_⟩, rfl⟩
      · rw [readTensor_some, if_pos hsize, hfirst]
      · intro s hs
        exact hall s (List.mem_cons_of_mem t hs)

def Decided {α : Type} (r : Except Fault α) : Prop := ∀ f, r = .error f → f = .refused

theorem decided_some {n i : ℕ} (h : Decided (readTensors none payload n i offset)) :
    Decided (readTensors (some m) payload n i offset) := by
  induction n generalizing i offset with
  | zero => exact h
  | succ n ih =>
    intro f hf
    rw [readTensors, readTensor_some, except_bind_eq_error] at hf
    rcases hf with hf | ⟨⟨t, next⟩, hfirst, hf⟩
    · split_ifs at hf
      · apply h
        rw [readTensors, except_bind_eq_error]
        exact Or.inl hf
      · cases hf
        rfl
    · split_ifs at hfirst
      -- what is left of the two readings is compared by the induction hypothesis
      have htail : Decided (readTensors none payload n (i + 1) next) := by
        intro e he
        apply h
        rw [readTensors, except_bind_eq_error]
        exact Or.inr ⟨(t, next), hfirst, except_bind_eq_error.mpr (Or.inl he)⟩
      rcases except_bind_eq_error.mp hf with hf | ⟨rest, -, hf⟩
      · exact ih htail f hf
      · cases hf

/-! ### The descriptors of a payload -/

/-- The descriptors met from `offset` on, each with where its data end, up to the
first that no reader goes past. -/
def descriptors (payload : Bytes) : ℕ → ℕ → ℕ → List (ℕ × Desc Bytes)
  | 0, _, _ => []
  | n + 1, i, offset =>
    if payload.length < offset + descBytes then []
    else
      let wire := Desc.read (payload.drop offset)
      let next := offset + descBytes + wire.dataBytes
      if ¬ wire.credible i then []
      else if payload.length < next then [(next, wire)]
      else (next, wire) :: descriptors payload n (i + 1) next

/-- No sum leaves 64 bits, and the name of every tensor that fits has its zero byte. -/
def Clean (payload : Bytes) (ds : List (ℕ × Desc Bytes)) : Prop :=
  ∀ e ∈ ds, e.1 < 2 ^ 64 ∧ (e.1 ≤ payload.length → (cString e.2.name).isSome)

/-- All of the tensors counted are there and end with the payload. -/
def Filled (payload : Bytes) (n offset : ℕ) (ds : List (ℕ × Desc Bytes)) : Prop :=
  ds.length = n ∧ (ds.map Prod.fst).getLastD offset = payload.length

theorem filled_cons {n : ℕ} {e : ℕ × Desc Bytes} {ds : List (ℕ × Desc Bytes)} :
    Filled payload (n + 1) offset (e :: ds) ↔ Filled payload n e.1 ds := by
  simp only [Filled, List.length_cons, List.map_cons, List.getLastD_cons, Nat.succ.injEq]

theorem clean_cons {e : ℕ × Desc Bytes} {ds : List (ℕ × Desc Bytes)} :
    Clean payload (e :: ds) ↔
      (e.1 < 2 ^ 64 ∧ (e.1 ≤ payload.length → (cString e.2.name).isSome)) ∧ Clean payload ds := by
  simp only [Clean, List.forall_mem_cons]

/-- One turn of the executor's loop beside one step of the descriptors: the payload
is refused and the descriptors stop short of its end, or the turn goes wrong on a
descriptor that is not clean, or both go on to the same place. -/
theorem turn (payload : Bytes) (n i offset : ℕ) :
    (readTensor none payload i offset = .error .refused ∧
      Clean payload (descriptors payload (n + 1) i offset) ∧
      ¬ Filled payload (n + 1) offset (descriptors payload (n + 1) i offset)) ∨
    ((∃ f, f ≠ .refused ∧ readTensor none payload i offset = .error f) ∧
      ¬ Clean payload (descriptors payload (n + 1) i offset)) ∨
    (∃ t next, ∃ d : Desc Bytes, readTensor none payload i offset = .ok (t, next) ∧
      t.desc.withName () = d.withName () ∧ next < 2 ^ 64 ∧ (cString d.name).isSome ∧
      descriptors payload (n + 1) i offset = (next, d) :: descriptors payload n (i + 1) next) := by
  have hnone (d : Desc Bytes) : d.within none := fun _ hx => absurd hx (Option.not_mem_none _)
  set d := Desc.read (payload.drop offset) with hd
  set next := offset + descBytes + d.dataBytes with hnext
  by_cases hshort : payload.length < offset + descBytes
  · left
    have hds : descriptors payload (n + 1) i offset = [] := by rw [descriptors, if_pos hshort]
    rw [hds]
    exact ⟨by rw [readTensor, if_pos hshort], by simp [Clean], by simp [Filled]⟩
  by_cases hgood : d.credible i
  swap
  · left
    have hds : descriptors payload (n + 1) i offset = [] := by
      simp only [descriptors, if_neg hshort, ← hd, hgood, not_false_eq_true, if_true]
    rw [hds]
    refine ⟨?_, by simp [Clean], by simp [Filled]⟩
    simp only [readTensor, if_neg hshort, ← hd, hgood, false_and, not_false_eq_true, if_true]
  have hread : readTensor none payload i offset =
      if 2 ^ 64 ≤ next then .error .wraps
      else if payload.length < next then .error .refused
      else (cString d.name).elim (.error .overreads) fun name => .ok (⟨d.withName name,
        (payload.drop (offset + descBytes)).take d.dataBytes⟩, next) := by
    simp only [readTensor, if_neg hshort, ← hd, hgood, hnone, and_self, not_true_eq_false, if_false]
    cases cString d.name with
    | none => rfl
    | some name => rfl
  have hds : descriptors payload (n + 1) i offset =
      if payload.length < next then [(next, d)]
      else (next, d) :: descriptors payload n (i + 1) next := by
    simp only [descriptors, if_neg hshort, ← hd, hgood, not_true_eq_false, if_false]
    rfl
  rw [hread, hds]
  by_cases hwrap : 2 ^ 64 ≤ next
  · right; left
    refine ⟨⟨.wraps, by simp, if_pos hwrap⟩, fun hclean => ?_⟩
    have hlt : next < 2 ^ 64 := (hclean (next, d) (by split_ifs <;> simp)).1
    exact absurd hlt (Nat.not_lt.mpr hwrap)
  rw [if_neg hwrap]
  by_cases hpast : payload.length < next
  · left
    rw [if_pos hpast, if_pos hpast]
    refine ⟨rfl, ?_, ?_⟩
    · rw [clean_cons]
      exact ⟨⟨Nat.lt_of_not_le hwrap, fun hle => absurd hpast (Nat.not_lt.mpr hle)⟩, by simp [Clean]⟩
    · rw [filled_cons]
      intro hfilled
      have hend : next = payload.length := by simpa using hfilled.2
      omega
  rw [if_neg hpast, if_neg hpast]
  cases hname : cString d.name with
  | none =>
    right; left
    refine ⟨⟨.overreads, by simp, rfl⟩, fun hclean => ?_⟩
    have hsome := (clean_cons.mp hclean).1.2 (Nat.le_of_not_lt hpast)
    simp [hname] at hsome
  | some name =>
    right; right
    exact ⟨_, next, d, rfl, rfl, Nat.lt_of_not_le hwrap, by simp [hname], rfl⟩

theorem decided_none (n i offset : ℕ) :
    Decided (readTensors none payload n i offset) ↔
      Clean payload (descriptors payload n i offset) := by
  induction n generalizing i offset with
  | zero =>
    constructor
    · intro _ e he
      simp [descriptors] at he
    · intro _ f hf
      simp only [readTensors] at hf
      split_ifs at hf
      cases hf
      rfl
  | succ n ih =>
    rcases turn payload n i offset with ⟨hread, hclean, -⟩ | ⟨⟨f, hf, hread⟩, hclean⟩ |
      ⟨t, next, d, hread, -, hlt, hname, hds⟩
    · refine iff_of_true (fun e he => ?_) hclean
      rcases except_bind_eq_error.mp he with he | ⟨a, ha, -⟩
      · exact (Except.error.inj (hread.symm.trans he)).symm
      · cases hread.symm.trans ha
    · exact iff_of_false (fun h => hf (h f (except_bind_eq_error.mpr (Or.inl hread)))) hclean
    · rw [hds, clean_cons, ← ih]
      simp only [hlt, hname, implies_true, and_self, true_and]
      constructor
      · intro h e he
        exact h e (except_bind_eq_error.mpr
          (Or.inr ⟨_, hread, except_bind_eq_error.mpr (Or.inl he)⟩))
      · intro h e he
        rcases except_bind_eq_error.mp he with he | ⟨a, ha, he⟩
        · cases hread.symm.trans he
        · cases hread.symm.trans ha
          rcases except_bind_eq_error.mp he with he | ⟨rest, -, he⟩
          · exact h e he
          · cases he

theorem accepts_none {n i : ℕ} (hclean : Clean payload (descriptors payload n i offset)) :
    (∃ b, readTensors none payload n i offset = .ok b) ↔
      Filled payload n offset (descriptors payload n i offset) := by
  induction n generalizing i offset with
  | zero =>
    simp only [readTensors, Filled, descriptors, List.length_nil, List.map_nil, true_and]
    show _ ↔ offset = payload.length
    split_ifs with hend
    · exact iff_of_true ⟨_, rfl⟩ hend
    · refine iff_of_false ?_ hend
      rintro ⟨b, h⟩
      cases h
  | succ n ih =>
    rcases turn payload n i offset with ⟨hread, -, hfilled⟩ | ⟨-, hdirty⟩ |
      ⟨t, next, d, hread, -, -, -, hds⟩
    · refine iff_of_false ?_ hfilled
      rintro ⟨b, hb⟩
      obtain ⟨a, ha, -⟩ := except_bind_eq_ok.mp hb
      cases hread.symm.trans ha
    · exact absurd hclean hdirty
    · rw [hds] at hclean ⊢
      rw [filled_cons, ← ih (clean_cons.mp hclean).2]
      constructor
      · rintro ⟨b, hb⟩
        obtain ⟨a, ha, hb⟩ := except_bind_eq_ok.mp hb
        cases hread.symm.trans ha
        obtain ⟨rest, hrest, -⟩ := except_bind_eq_ok.mp hb
        exact ⟨rest, hrest⟩
      · rintro ⟨rest, hrest⟩
        exact ⟨t :: rest, except_bind_eq_ok.mpr
          ⟨_, hread, except_bind_eq_ok.mpr ⟨rest, hrest, rfl⟩⟩⟩

theorem descs_none {n i : ℕ} {b : BoundaryBundle}
    (h : readTensors none payload n i offset = .ok b) :
    b.map (fun t => t.desc.withName ()) =
      (descriptors payload n i offset).map fun e => e.2.withName () := by
  induction n generalizing i offset b with
  | zero =>
    simp only [readTensors] at h
    split_ifs at h
    cases h
    rfl
  | succ n ih =>
    obtain ⟨a, ha, h⟩ := except_bind_eq_ok.mp h
    obtain ⟨rest, hrest, h⟩ := except_bind_eq_ok.mp h
    cases h
    rcases turn payload n i offset with ⟨hread, -, -⟩ | ⟨⟨f, -, hread⟩, -⟩ |
      ⟨t, next, d, hread, hdesc, -, -, hds⟩
    · cases hread.symm.trans ha
    · cases hread.symm.trans ha
    · cases hread.symm.trans ha
      rw [hds, List.map_cons, List.map_cons, ih hrest]
      exact congrArg (· :: _) hdesc

end

/-! ### Payloads as they come -/

/-- Every alias is set from the bytes of a tensor that owns them, and that has at
least as many as the alias names. -/
def Resolves (b : BoundaryBundle) : Prop :=
  ∀ t ∈ b, t.desc.isAlias → ∃ s, b[t.desc.target]? = some s ∧ ¬ s.desc.isAlias ∧
    BoundaryBundle.source b t = s.data ∧ t.desc.nbytes.toNat ≤ s.data.length

/-- The two readers agree on a payload, stay inside it, and return only bundles whose
aliases resolve. -/
structure Agrees (payload : Bytes) : Prop where
  same : decodeBoundaryBundle payload = decodeBoundary payload
  decided : Decided (decodeBoundary payload)
  resolves : ∀ b, decodeBoundary payload = .ok b → Resolves b

/-- No descriptor is over the node's limit, and each alias points to one that owns at
least the bytes it names. -/
def Settled (ds : List (ℕ × Desc Bytes)) : Prop :=
  ∀ e ∈ ds, e.2.nbytes.toNat ≤ maxFrameBytes ∧ (e.2.isAlias → ∃ s, ds[e.2.target]? = some s ∧
    ¬ s.2.isAlias ∧ e.2.nbytes.toNat ≤ s.2.nbytes.toNat)

theorem decodeBundle_some {m : ℕ} :
    decodeBundle (some m) payload = .ok b ↔
      decodeBundle none payload = .ok b ∧ ∀ t ∈ b, t.desc.nbytes.toNat ≤ m := by
  unfold decodeBundle
  cases readHeader payload with
  | none => simp
  | some count => exact readTensors_some count 0 12 b

section
variable {b : BoundaryBundle} {ds : List (ℕ × Desc Bytes)}

theorem tensor_of_desc
    (h : b.map (fun t => t.desc.withName ()) = ds.map fun e => e.2.withName ()) {k : ℕ}
    {e : ℕ × Desc Bytes} (hk : ds[k]? = some e) :
    ∃ t, b[k]? = some t ∧ t.desc.withName () = e.2.withName () := by
  have hat := congrArg (·[k]?) h
  simp only [List.getElem?_map, hk, Option.map_some] at hat
  exact Option.map_eq_some_iff.mp hat

theorem desc_of_tensor
    (h : b.map (fun t => t.desc.withName ()) = ds.map fun e => e.2.withName ()) {k : ℕ}
    {t : BoundaryTensor} (hk : b[k]? = some t) :
    ∃ e, ds[k]? = some e ∧ e.2.withName () = t.desc.withName () := by
  have hat := congrArg (·[k]?) h
  simp only [List.getElem?_map, hk, Option.map_some] at hat
  exact Option.map_eq_some_iff.mp hat.symm

theorem withName_eq {d : Desc CName} {e : Desc Bytes} (h : d.withName () = e.withName ()) :
    d.isAlias = e.isAlias ∧ d.target = e.target ∧ d.nbytes = e.nbytes ∧ d.dataBytes = e.dataBytes :=
  ⟨congrArg Desc.isAlias h, congrArg Desc.target h, congrArg Desc.nbytes h,
    congrArg Desc.dataBytes h⟩

theorem resolves_iff
    (h : b.map (fun t => t.desc.withName ()) = ds.map fun e => e.2.withName ())
    (hcross : ∀ (i : ℕ) (t : BoundaryTensor), b[i]? = some t → t.Crosses none i) :
    Resolves b ↔ ∀ e ∈ ds, e.2.isAlias → ∃ s, ds[e.2.target]? = some s ∧
      ¬ s.2.isAlias ∧ e.2.nbytes.toNat ≤ s.2.nbytes.toNat := by
  have hdata {i : ℕ} {s : BoundaryTensor} (hi : b[i]? = some s) (howns : ¬ s.desc.isAlias) :
      s.data.length = s.desc.nbytes.toNat := by
    rw [(hcross i s hi).data, Desc.dataBytes, if_neg howns]
  constructor
  · intro hb e he halias
    obtain ⟨k, hk⟩ := List.getElem?_of_mem he
    obtain ⟨t, htk, ht⟩ := tensor_of_desc h hk
    obtain ⟨htalias, httarget, htbytes, -⟩ := withName_eq ht
    obtain ⟨s, hs, howns, -, hle⟩ := hb t (List.mem_of_getElem? htk) (htalias ▸ halias)
    obtain ⟨f, hf, hfs⟩ := desc_of_tensor h hs
    obtain ⟨hsalias, -, hsbytes, -⟩ := withName_eq hfs.symm
    refine ⟨f, httarget ▸ hf, hsalias ▸ howns, ?_⟩
    rwa [hdata hs howns, hsbytes, htbytes] at hle
  · intro hds t ht halias
    obtain ⟨k, hk⟩ := List.getElem?_of_mem ht
    obtain ⟨e, hek, he⟩ := desc_of_tensor h hk
    obtain ⟨htalias, httarget, htbytes, -⟩ := withName_eq he.symm
    obtain ⟨f, hf, howns, hle⟩ := hds e (List.mem_of_getElem? hek) (htalias ▸ halias)
    obtain ⟨s, hs, hsf⟩ := tensor_of_desc h hf
    obtain ⟨hsalias, -, hsbytes, -⟩ := withName_eq hsf
    have hsowns : ¬ s.desc.isAlias := hsalias ▸ howns
    have hat : b[t.desc.target]? = some s := httarget ▸ hs
    refine ⟨s, hat, hsowns, ?_, ?_⟩
    · rw [BoundaryBundle.source, if_pos halias, hat]
      rfl
    · rwa [hdata hs hsowns, hsbytes, htbytes]

end

/-- The readers agree on a payload exactly when its descriptors are clean and, where
they fill it, settled. -/
theorem agrees_iff (payload : Bytes) :
    Agrees payload ↔ ∀ count, readHeader payload = some count →
      Clean payload (descriptors payload count 0 12) ∧
      (Filled payload count 12 (descriptors payload count 0 12) →
        Settled (descriptors payload count 0 12)) := by
  cases hheader : readHeader payload with
  | none =>
    have hboth (limit : Option ℕ) : decodeBundle limit payload = .error .refused := by
      simp only [decodeBundle, hheader]
    refine iff_of_true ⟨?_, fun f hf => ?_, fun b hb => ?_⟩ (fun count hcount => by cases hcount)
    · exact (hboth _).trans (hboth _).symm
    · exact Except.error.inj (hf.symm.trans (hboth none))
    · cases (hboth none).symm.trans hb
  | some count =>
    have hread (limit : Option ℕ) :
        decodeBundle limit payload = readTensors limit payload count 0 12 := by
      simp only [decodeBundle, hheader]
    simp only [Option.some.injEq, forall_eq']
    constructor
    · intro h
      have hclean : Clean payload (descriptors payload count 0 12) := by
        rw [← decided_none, ← hread]
        exact h.decided
      refine ⟨hclean, fun hfilled e he => ?_⟩
      obtain ⟨b, hb⟩ := (accepts_none hclean).mpr hfilled
      have hexec : decodeBoundary payload = .ok b := (hread none).trans hb
      have hnode := decodeBundle_some.mp (h.same.trans hexec)
      have hdescs := descs_none hb
      obtain ⟨k, hk⟩ := List.getElem?_of_mem he
      obtain ⟨t, htk, ht⟩ := tensor_of_desc hdescs hk
      constructor
      · have := hnode.2 t (List.mem_of_getElem? htk)
        rwa [(withName_eq ht).2.2.1] at this
      · exact (resolves_iff hdescs (decodeBundle_eq_ok hexec).2.2).mp (h.resolves b hexec) e he
    · rintro ⟨hclean, hsettled⟩
      have hdecided : Decided (readTensors none payload count 0 12) := decided_none _ _ _ |>.mpr hclean
      have hok {b : BoundaryBundle} (hb : readTensors none payload count 0 12 = .ok b) :
          Settled (descriptors payload count 0 12) := hsettled ((accepts_none hclean).mp ⟨b, hb⟩)
      refine ⟨?_, ?_, ?_⟩
      · show decodeBundle _ payload = decodeBundle none payload
        rw [hread, hread]
        cases hexec : readTensors none payload count 0 12 with
        | ok b =>
          refine (readTensors_some _ _ _ _).mpr ⟨hexec, fun t ht => ?_⟩
          obtain ⟨k, hk⟩ := List.getElem?_of_mem ht
          obtain ⟨e, hek, he⟩ := desc_of_tensor (descs_none hexec) hk
          rw [(withName_eq he.symm).2.2.1]
          exact (hok hexec e (List.mem_of_getElem? hek)).1
        | error f =>
          obtain rfl := hdecided f hexec
          cases hnode : readTensors (some maxFrameBytes) payload count 0 12 with
          | ok b => cases hexec.symm.trans ((readTensors_some _ _ _ _).mp hnode).1
          | error f => rw [decided_some hdecided f hnode]
      · intro f hf
        exact hdecided f ((hread none).symm.trans hf)
      · intro b hb
        have hexec := (hread none).symm.trans hb
        refine (resolves_iff (descs_none hexec) (decodeBundle_eq_ok hb).2.2).mpr fun e he => ?_
        exact (hok hexec e he).2

/-- Which bundles cross an edge, and on which payloads its two ends agree. -/
theorem boundaries_survive (payload : Bytes) :
    (∀ b, encodeBoundaryBundle b = some payload ∨ encodeBoundary b = some payload →
      ((decodeBoundaryBundle payload = .ok b ∧ decodeBoundary payload = .ok b) ↔
        ∀ (i : ℕ) (t : BoundaryTensor), b[i]? = some t → t.Crosses (some maxFrameBytes) i)) ∧
    (Agrees payload ↔ ∀ count, readHeader payload = some count →
      Clean payload (descriptors payload count 0 12) ∧
      (Filled payload count 12 (descriptors payload count 0 12) →
        Settled (descriptors payload count 0 12))) := by
  refine ⟨fun b h => ?_, agrees_iff payload⟩
  rcases h with h | h
  · exact written_returns (encodeBoundary_of_bundle h)
  · exact written_returns h

/-- A tensor without data, and an alias of it that names a byte over the node's limit. -/
def oversizedAlias : BoundaryBundle :=
  let desc : Desc CName :=
    { type := 0, nDims := 1, ne := fun _ => 0, nb := fun _ => 0, nbytes := 0, viewOffset := 0,
      aliasOf := -1, flags := 0, name := .empty }
  [⟨desc, []⟩, ⟨{ desc with nbytes := 2 ^ 26 + 1, aliasOf := 0 }, []⟩]

/-- The executor writes it and reads it back, and the node refuses what it wrote. -/
theorem oversizedAlias_verdicts :
    encodeBoundary oversizedAlias = some (bundleBytes oversizedAlias) ∧
    decodeBoundary (bundleBytes oversizedAlias) = .ok oversizedAlias ∧
    ¬ ∃ b, decodeBoundaryBundle (bundleBytes oversizedAlias) = .ok b := by
  have hexec : decodeBoundary (bundleBytes oversizedAlias) = .ok oversizedAlias := by
    apply decodeBundle_bytes (by simp [oversizedAlias]) (by decide) (by decide)
    intro i t hi
    rcases i with - | - | i
    · cases hi
      exact ⟨by decide, by decide, by decide⟩
    · cases hi
      exact ⟨by decide, by decide, by decide⟩
    · cases hi
  refine ⟨?_, hexec, ?_⟩
  · rw [encodeBoundary, if_neg (by simp [oversizedAlias, maxBoundaryTensors]), if_neg (by decide)]
  · rintro ⟨b, hb⟩
    obtain ⟨hsame, hsizes⟩ := decodeBundle_some.mp hb
    obtain rfl := Except.ok.inj (hexec.symm.trans hsame)
    have hsize := hsizes _ (List.mem_cons_of_mem _ List.mem_cons_self)
    exact absurd hsize (by decide)

end KvasirNet.Ring
