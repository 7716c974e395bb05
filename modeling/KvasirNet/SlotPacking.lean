import KvasirNet.LentMemory
import Mathlib.Order.Bounds.Basic

/-! How a budget of GPU memory is cut into slots. The offer asks for one window after the other,
the slider counts what all of them come to, and a budget that is lowered says how many of the slots
stay; the three go by the same packing. -/
namespace KvasirNet.SlotPacking

open LentMemory (MemoryModel maxExpertsPerRequest slotBytes windowBeside countFitting)

/-! ## The four functions -/

/-- What may be used, before the headroom is off. -/
def grossBytes (budget : ℤ) (available : Option ℤ) : ℤ := available.elim budget (min budget)

def usableBytes (m : MemoryModel) (budget : ℤ) (available : Option ℤ) : ℤ :=
  grossBytes budget available - m.headroomBytes

/-- The experts that fit in `left` as one slot; negative where its fixed cost does not. -/
def window (m : MemoryModel) (left : ℤ) : ℤ :=
  min maxExpertsPerRequest
    ((left - m.fixedBytes - m.scratchBytes) / m.residentBytesPerExpert)

def expertsForBudget (budget : Option ℤ) (model : Option MemoryModel) (available : Option ℤ) : ℕ :=
  match budget, model with
  | some b, some m =>
    (max 0 (min ((grossBytes b available - m.fixedBytes - m.scratchBytes - m.headroomBytes) /
      m.residentBytesPerExpert) maxExpertsPerRequest)).toNat
  | _, _ => maxExpertsPerRequest

structure Capacity where
  experts : ℕ
  slots : ℕ
  deriving DecidableEq, Repr

/-- The loop of `capacityForBudget`, with the slots that it may still add. -/
def capacityLoop (m : MemoryModel) : ℕ → ℤ → Capacity → Capacity
  | 0, _, c => c
  | more + 1, left, c =>
    if window m left < 1 then c
    else
      let n := (window m left).toNat
      capacityLoop m more (left - slotBytes m n) ⟨c.experts + n, c.slots + 1⟩

def capacityForBudget (budget : Option ℤ) (model : Option MemoryModel) (available : Option ℤ)
    (maxSlots : ℕ) : Capacity :=
  match budget, model with
  | some b, some m => capacityLoop m maxSlots (usableBytes m b available) ⟨0, 0⟩
  | _, _ => ⟨maxExpertsPerRequest, 1⟩

def nextSlotWindow (budget : Option ℤ) (model : Option MemoryModel) (available : Option ℤ)
    (maxSlots : ℕ) (heldCounts : List ℕ) : ℕ :=
  if maxSlots ≤ heldCounts.length then 0
  else
    match budget, model with
    | some b, some m => windowBeside m (usableBytes m b available) (heldCounts.map (slotBytes m)).sum
    | _, _ => if heldCounts = [] then maxExpertsPerRequest else 0

def slotsThatFit (budget : Option ℤ) (model : Option MemoryModel) (available : Option ℤ)
    (heldCounts : List ℕ) : ℕ :=
  match budget, model with
  | some b, some m => countFitting m (usableBytes m b available) 0 heldCounts
  | _, _ => heldCounts.length

/-- The slider's own loop (`src/api.ts`). -/
def sliderLoop (m : MemoryModel) : ℕ → ℤ → Capacity → Capacity
  | 0, _, c => c
  | more + 1, left, c =>
    let n : ℤ := min maxExpertsPerRequest
      ((left - m.fixedBytes - m.scratchBytes) / m.residentBytesPerExpert)
    if n < 1 then c
    else sliderLoop m more (left - (m.fixedBytes + m.scratchBytes + n * m.residentBytesPerExpert))
      ⟨c.experts + n.toNat, c.slots + 1⟩

/-- `capacityForBudget` of `src/api.ts`. -/
def sliderCapacity (budget : Option ℤ) (model : Option MemoryModel) (available : Option ℤ) : Capacity :=
  match budget, model with
  | some b, some m => sliderLoop m LentMemory.maxSlots (usableBytes m b available) ⟨0, 0⟩
  | _, _ => ⟨maxExpertsPerRequest, 1⟩

/-! ## Asking -/

/-- The answers of one question after the other, as far as they are not 0. -/
inductive Granted (ask : List ℕ → ℕ) : List ℕ → Prop
  | start : Granted ask []
  | grant {held : List ℕ} : Granted ask held → ask held ≠ 0 → Granted ask (held ++ [ask held])

inductive Taken (ask : List ℕ → ℕ) : List ℕ → Prop
  | start : Taken ask []
  | take {held : List ℕ} {n : ℕ} : Taken ask held → ask held ≠ 0 → n ≤ ask held →
    Taken ask (held ++ [n])

variable {held : List ℕ}

theorem Granted.taken {ask : List ℕ → ℕ} (h : Granted ask held) :
    Taken ask held := by
  induction h with
  | start => exact .start
  | grant _ hask ih => exact .take ih hask (Nat.le_refl _)

theorem exists_granted {ask : List ℕ → ℕ} {bound : ℕ}
    (hask : ∀ held, bound ≤ held.length → ask held = 0) :
    ∃ counts, Granted ask counts ∧ ask counts = 0 := by
  have hfrom : ∀ more held, Granted ask held → bound ≤ held.length + more →
      ∃ counts, Granted ask counts ∧ ask counts = 0 := by
    intro more
    induction more with
    | zero => exact fun held hheld hbound => ⟨held, hheld, hask held hbound⟩
    | succ more ih =>
      intro held hheld hbound
      by_cases hzero : ask held = 0
      · exact ⟨held, hheld, hzero⟩
      · apply ih _ (hheld.grant hzero)
        rw [List.length_append, List.length_singleton]
        omega
  exact hfrom bound [] .start (Nat.le_add_left bound _)

variable {m : MemoryModel}

def bytes (m : MemoryModel) (counts : List ℕ) : ℕ := (counts.map (slotBytes m)).sum

theorem bytes_append (held : List ℕ) (n : ℕ) : bytes m (held ++ [n]) = bytes m held + slotBytes m n := by
  rw [bytes, List.map_append, List.sum_append, List.map_singleton, List.sum_singleton, bytes]

theorem windowBeside_eq (usable : ℤ) (used : ℕ) :
    windowBeside m usable used = (window m (usable - used)).toNat := by
  unfold windowBeside window
  omega

theorem slotBytes_mono {n k : ℕ} (h : n ≤ k) : slotBytes m n ≤ slotBytes m k :=
  Nat.add_le_add_left (Nat.mul_le_mul_right _ h) _

/-! ## The counts -/

section
variable (m : MemoryModel) (budget : ℤ) (available : Option ℤ) (maxSlots : ℕ)

def ask (held : List ℕ) : ℕ := nextSlotWindow (some budget) (some m) available maxSlots held

end

variable {budget : ℤ} {available : Option ℤ} {maxSlots : ℕ}

theorem ask_full (h : maxSlots ≤ held.length) :
    ask m budget available maxSlots held = 0 := if_pos h

theorem ask_of_lt (h : held.length < maxSlots) :
    ask m budget available maxSlots held =
      (window m (usableBytes m budget available - bytes m held)).toNat :=
  (if_neg (Nat.not_le_of_lt h)).trans (windowBeside_eq _ _)

theorem lt_of_ask (h : ask m budget available maxSlots held ≠ 0) :
    held.length < maxSlots := by
  by_contra hfull
  exact h (ask_full (Nat.le_of_not_lt hfull))

theorem ask_fits (h : ask m budget available maxSlots held ≠ 0) :
    (bytes m held + slotBytes m (ask m budget available maxSlots held) : ℕ) ≤
      usableBytes m budget available := by
  have hask : ask m budget available maxSlots held =
      windowBeside m (usableBytes m budget available) (bytes m held) :=
    if_neg (Nat.not_le_of_lt (lt_of_ask h))
  rw [hask] at h ⊢
  exact LentMemory.windowBeside_fits (Nat.pos_of_ne_zero h)

theorem capacityLoop_granted (h : Granted (ask m budget available maxSlots) held) :
    capacityLoop m maxSlots (usableBytes m budget available) ⟨0, 0⟩ =
      capacityLoop m (maxSlots - held.length) (usableBytes m budget available - bytes m held)
        ⟨held.sum, held.length⟩ := by
  induction h with
  | start =>
    show _ = capacityLoop m maxSlots (usableBytes m budget available - 0) ⟨0, 0⟩
    rw [Int.sub_zero]
  | @grant held hheld hask ih =>
    have hlt := lt_of_ask hask
    have hn : ask m budget available maxSlots held =
        (window m (usableBytes m budget available - bytes m held)).toNat := ask_of_lt hlt
    obtain ⟨more, hmore⟩ : ∃ more, maxSlots - held.length = more + 1 :=
      ⟨maxSlots - held.length - 1, by omega⟩
    have hmore' : maxSlots - (held ++ [ask m budget available maxSlots held]).length = more := by
      rw [List.length_append, List.length_singleton]
      omega
    have hpos : ¬ window m (usableBytes m budget available - bytes m held) < 1 := by
      rw [hn] at hask
      omega
    rw [ih, hmore, hmore', capacityLoop, if_neg hpos, ← hn, bytes_append, List.sum_append,
      List.sum_singleton, List.length_append, List.length_singleton, Int.natCast_add, ← Int.sub_sub]

variable {left : ℤ}

theorem capacityLoop_of_lt_one {more : ℕ} {c : Capacity} (h : window m left < 1) :
    capacityLoop m more left c = c := by
  cases more with
  | zero => rfl
  | succ more => exact if_pos h

variable {counts : List ℕ}

theorem capacity_eq (h : Granted (ask m budget available maxSlots) counts)
    (hend : ask m budget available maxSlots counts = 0) :
    capacityForBudget (some budget) (some m) available maxSlots = ⟨counts.sum, counts.length⟩ := by
  have hloop := capacityLoop_granted h
  by_cases hfull : maxSlots ≤ counts.length
  · rw [Nat.sub_eq_zero_of_le hfull] at hloop
    exact hloop
  · rw [ask_of_lt (Nat.lt_of_not_le hfull)] at hend
    exact hloop.trans (capacityLoop_of_lt_one (by omega))

theorem sliderLoop_eq (m : MemoryModel) (more : ℕ) (left : ℤ) (c : Capacity) :
    sliderLoop m more left c = capacityLoop m more left c := by
  induction more generalizing left c with
  | zero => rfl
  | succ more ih =>
    rw [sliderLoop, capacityLoop]
    show (if window m left < 1 then c else sliderLoop m more _ _) = _
    by_cases hstop : window m left < 1
    · rw [if_pos hstop, if_pos hstop]
    · have hn : ((window m left).toNat : ℤ) = window m left := by omega
      have hcost : (slotBytes m (window m left).toNat : ℤ) =
          m.fixedBytes + m.scratchBytes + window m left * m.residentBytesPerExpert := by
        rw [slotBytes, Int.natCast_add, Int.natCast_add, Int.natCast_mul, hn]
      rw [if_neg hstop, if_neg hstop, ih]
      show _ = capacityLoop m more (left - slotBytes m (window m left).toNat) _
      rw [hcost]
      rfl

/-! ## What fits -/

theorem Taken.fits (h : Taken (ask m budget available maxSlots) counts) :
    counts = [] ∨ (bytes m counts : ℤ) ≤ usableBytes m budget available := by
  cases h with
  | start => exact .inl rfl
  | @take held n _ hask hn =>
    refine .inr (le_trans ?_ (ask_fits hask))
    rw [bytes_append]
    exact_mod_cast Nat.add_le_add_left (slotBytes_mono hn) _

theorem le_countFitting {usable : ℤ} {used : ℕ} {k : ℕ} :
    k ≤ countFitting m usable used counts ↔
      k ≤ counts.length ∧ (k = 0 ∨ (used + bytes m (counts.take k) : ℕ) ≤ usable) := by
  induction counts generalizing used k with
  | nil =>
    rw [countFitting, List.length_nil]
    omega
  | cons n rest ih =>
    cases k with
    | zero => simp
    | succ k =>
      have hbytes : bytes m ((n :: rest).take (k + 1)) = slotBytes m n + bytes m (rest.take k) := by
        rw [List.take_succ_cons, bytes, List.map_cons, List.sum_cons, bytes]
      rw [countFitting, hbytes, ← Nat.add_assoc, List.length_cons]
      by_cases hover : usable < (used + slotBytes m n : ℕ)
      · rw [if_pos hover]
        omega
      · rw [if_neg hover, Nat.succ_le_succ_iff, ih, Nat.succ_le_succ_iff]
        -- the first slot fits, so no more need be asked of no further ones
        have hnone : k = 0 → (used + slotBytes m n + bytes m (rest.take k) : ℕ) ≤ usable := by
          rintro rfl
          show ((used + slotBytes m n + 0 : ℕ) : ℤ) ≤ usable
          omega
        constructor
        · exact fun ⟨hk, hfit⟩ => ⟨hk, .inr (hfit.elim hnone id)⟩
        · exact fun ⟨hk, hfit⟩ => ⟨hk, .inr (hfit.resolve_left (Nat.succ_ne_zero k))⟩

/-- `k` of the slots fit a budget: what they take and the headroom are within it. -/
def Fits (m : MemoryModel) (budget : ℤ) (available : Option ℤ) (counts : List ℕ) (k : ℕ) : Prop :=
  k ≤ counts.length ∧
    (k = 0 ∨ (bytes m (counts.take k) + m.headroomBytes : ℤ) ≤ grossBytes budget available)

theorem slotsThatFit_greatest (m : MemoryModel) (budget : ℤ) (available : Option ℤ)
    (counts : List ℕ) :
    IsGreatest {k | Fits m budget available counts k}
      (slotsThatFit (some budget) (some m) available counts) := by
  have hiff (k : ℕ) : k ≤ slotsThatFit (some budget) (some m) available counts ↔
      Fits m budget available counts k := by
    refine le_countFitting.trans (and_congr_right fun _ => or_congr_right ?_)
    rw [Nat.zero_add, usableBytes, le_sub_iff_add_le]
  exact ⟨(hiff _).mp (Nat.le_refl _), fun k hk => (hiff k).mpr hk⟩

theorem Taken.kept (h : Taken (ask m budget available maxSlots) counts) :
    slotsThatFit (some budget) (some m) available counts = counts.length := by
  have hgreatest := slotsThatFit_greatest m budget available counts
  refine Nat.le_antisymm hgreatest.1.1 (hgreatest.2 ⟨Nat.le_refl _, ?_⟩)
  rw [List.take_length]
  refine h.fits.imp (fun hnil => by rw [hnil, List.length_nil]) fun hfit => ?_
  exact le_sub_iff_add_le.mp hfit

/-! ## Larger budgets -/

theorem grossBytes_mono {budget budget' : ℤ} (h : budget ≤ budget') (available : Option ℤ) :
    grossBytes budget available ≤ grossBytes budget' available := by
  cases available with
  | none => exact h
  | some a => exact min_le_min_right a h

theorem slotsThatFit_mono {budget budget' : ℤ} (h : budget ≤ budget') (available : Option ℤ)
    (counts : List ℕ) : slotsThatFit (some budget) (some m) available counts ≤
      slotsThatFit (some budget') (some m) available counts := by
  obtain ⟨hk, hfit⟩ := (slotsThatFit_greatest m budget available counts).1
  exact (slotsThatFit_greatest m budget' available counts).2
    ⟨hk, hfit.imp_right fun hle => hle.trans (grossBytes_mono h available)⟩

def Capacity.Within (c d : Capacity) : Prop := c.experts ≤ d.experts ∧ c.slots ≤ d.slots

theorem within_capacityLoop (more : ℕ) (left : ℤ) (c : Capacity) :
    c.Within (capacityLoop m more left c) := by
  induction more generalizing left c with
  | zero => exact ⟨Nat.le_refl _, Nat.le_refl _⟩
  | succ more ih =>
    rw [capacityLoop]
    by_cases hstop : window m left < 1
    · rw [if_pos hstop]
      exact ⟨Nat.le_refl _, Nat.le_refl _⟩
    · rw [if_neg hstop]
      obtain ⟨hexperts, hslots⟩ := ih (left - slotBytes m (window m left).toNat)
        ⟨c.experts + (window m left).toNat, c.slots + 1⟩
      exact ⟨(Nat.le_add_right _ _).trans hexperts, (Nat.le_succ _).trans hslots⟩

theorem window_mono {left' : ℤ} (h : left ≤ left') : window m left ≤ window m left' := by
  apply min_le_min_left
  apply Int.ediv_le_ediv (Int.natCast_pos.mpr m.resident_pos)
  omega

theorem window_after (h : window m left < maxExpertsPerRequest)
    (hpos : ¬ window m left < 1) :
    window m (left - slotBytes m (window m left).toNat) < 1 := by
  have hr : (0 : ℤ) < m.residentBytesPerExpert := Int.natCast_pos.mpr m.resident_pos
  have hn : window m left = (left - m.fixedBytes - m.scratchBytes) / m.residentBytesPerExpert := by
    rw [window] at h ⊢
    omega
  have hcost : (slotBytes m (window m left).toNat : ℤ) =
      m.fixedBytes + m.scratchBytes + window m left * m.residentBytesPerExpert := by
    rw [slotBytes, Int.natCast_add, Int.natCast_add, Int.natCast_mul, Int.toNat_of_nonneg (by omega)]
  -- what is left over is less than one expert takes
  have hrest : left - slotBytes m (window m left).toNat < m.residentBytesPerExpert := by
    have hlt := Int.lt_ediv_add_one_mul_self (left - m.fixedBytes - m.scratchBytes) hr
    rw [← hn, Int.add_mul, Int.one_mul] at hlt
    omega
  refine lt_of_le_of_lt (min_le_right _ _) (Int.ediv_lt_of_lt_mul hr ?_)
  omega

theorem capacityLoop_mono {left' : ℤ} (h : left ≤ left') (more : ℕ) {c c' : Capacity}
    (hc : c.Within c') : (capacityLoop m more left c).Within (capacityLoop m more left' c') := by
  induction more generalizing left left' c c' with
  | zero => exact hc
  | succ more ih =>
    have hmono := window_mono (m := m) h
    rw [capacityLoop]
    by_cases hstop : window m left < 1
    · rw [if_pos hstop]
      have hwithin := within_capacityLoop (m := m) (more + 1) left' c'
      exact ⟨hc.1.trans hwithin.1, hc.2.trans hwithin.2⟩
    · rw [if_neg hstop, capacityLoop, if_neg (by omega)]
      have hnext : Capacity.Within ⟨c.experts + (window m left).toNat, c.slots + 1⟩
          ⟨c'.experts + (window m left').toNat, c'.slots + 1⟩ := by
        have hexperts := hc.1
        have hslots := hc.2
        constructor <;> dsimp only <;> omega
      by_cases hfull : window m left < maxExpertsPerRequest
      · -- the smaller budget ends here
        show Capacity.Within (capacityLoop m more (left - slotBytes m (window m left).toNat) _) _
        rw [capacityLoop_of_lt_one (window_after hfull hstop)]
        have hwithin := within_capacityLoop (m := m) more
          (left' - slotBytes m (window m left').toNat)
          ⟨c'.experts + (window m left').toNat, c'.slots + 1⟩
        exact ⟨hnext.1.trans hwithin.1, hnext.2.trans hwithin.2⟩
      · -- both slots are full
        have hle : window m left' ≤ maxExpertsPerRequest := min_le_left _ _
        have hsame : window m left' = window m left := by omega
        apply ih _ hnext
        rw [hsame]
        omega

theorem expertsForBudget_eq_first (budget : Option ℤ) (model : Option MemoryModel)
    (available : Option ℤ) {maxSlots : ℕ} (h : 0 < maxSlots) :
    expertsForBudget budget model available = nextSlotWindow budget model available maxSlots [] := by
  have hempty : ¬ maxSlots ≤ ([] : List ℕ).length := Nat.not_le_of_lt h
  unfold nextSlotWindow
  rw [if_neg hempty]
  match budget, model with
  | none, _ => rfl
  | some b, none => rfl
  | some b, some m =>
    have hsame : usableBytes m b available - (0 : ℕ) - m.fixedBytes - m.scratchBytes =
        grossBytes b available - m.fixedBytes - m.scratchBytes - m.headroomBytes := by
      unfold usableBytes
      omega
    show _ = windowBeside m (usableBytes m b available) 0
    rw [windowBeside, hsame]
    rfl

theorem nextSlotWindow_default (budget : Option ℕ) (m : MemoryModel) (available : Option ℕ)
    (held : List ℕ) : LentMemory.nextSlotWindow budget m available held =
      nextSlotWindow (budget.map Nat.cast) (some m) (available.map Nat.cast) LentMemory.maxSlots held := by
  cases budget with
  | none => rfl
  | some b =>
    have husable : LentMemory.usableBytes m b available =
        usableBytes m b (available.map Nat.cast) := by
      cases available with
      | none => rfl
      | some a =>
        show ((min b a : ℕ) : ℤ) - m.headroomBytes = min (b : ℤ) a - m.headroomBytes
        omega
    exact congrArg (fun usable => if LentMemory.maxSlots ≤ held.length then 0
      else windowBeside m usable (held.map (slotBytes m)).sum) husable

/-! ## The packing -/

def Offered (budget : Option ℤ) (m : MemoryModel) (available : Option ℤ) (maxSlots : ℕ)
    (counts : List ℕ) : Prop :=
  Granted (nextSlotWindow budget (some m) available maxSlots) counts ∧
    nextSlotWindow budget (some m) available maxSlots counts = 0

theorem offered_none {m : MemoryModel} {available : Option ℤ} {maxSlots : ℕ}
    (h : Offered none m available maxSlots counts) (hslots : 0 < maxSlots) :
    counts = [maxExpertsPerRequest] := by
  obtain ⟨hgranted, hend⟩ := h
  have hfirst : nextSlotWindow none (some m) available maxSlots [] = maxExpertsPerRequest :=
    if_neg (Nat.not_le_of_lt hslots)
  cases hgranted with
  | start =>
    rw [hfirst] at hend
    cases hend
  | @grant held hheld hask =>
    have hheld : held = [] := by
      by_contra hne
      have hnone : (if held = [] then maxExpertsPerRequest else 0) = 0 := if_neg hne
      exact hask ((congrArg (fun n => if maxSlots ≤ held.length then 0 else n) hnone).trans
        (ite_self 0))
    rw [hheld, hfirst, List.nil_append]

/-- The windows that are asked for one after the other are what the budget is said to hold, they
fit and stay, and of a lower budget as many as fit. -/
theorem packing_consistent (m : MemoryModel) (available : Option ℤ) (maxSlots : ℕ) :
    (∀ budget, (∃ counts, Offered (some budget) m available maxSlots counts) ∧
      ∀ counts, Offered (some budget) m available maxSlots counts →
        capacityForBudget (some budget) (some m) available maxSlots = ⟨counts.sum, counts.length⟩ ∧
        (maxSlots = LentMemory.maxSlots →
          sliderCapacity (some budget) (some m) available = ⟨counts.sum, counts.length⟩) ∧
        (counts ≠ [] → (bytes m counts + m.headroomBytes : ℤ) ≤ grossBytes budget available)) ∧
    (∀ counts, Offered none m available maxSlots counts → 0 < maxSlots →
      capacityForBudget none (some m) available maxSlots = ⟨counts.sum, counts.length⟩ ∧
      sliderCapacity none (some m) available = ⟨counts.sum, counts.length⟩) ∧
    (∀ budget counts, Taken (nextSlotWindow (some budget) (some m) available maxSlots) counts →
      slotsThatFit (some budget) (some m) available counts = counts.length) ∧
    (∀ budget counts, Offered (some budget) m available maxSlots counts →
      slotsThatFit (some budget) (some m) available counts = counts.length) ∧
    (∀ budget counts, IsGreatest {k | Fits m budget available counts k}
      (slotsThatFit (some budget) (some m) available counts)) ∧
    ∀ budget budget', budget ≤ budget' →
      (capacityForBudget (some budget) (some m) available maxSlots).Within
        (capacityForBudget (some budget') (some m) available maxSlots) ∧
      ∀ counts, slotsThatFit (some budget) (some m) available counts ≤
        slotsThatFit (some budget') (some m) available counts := by
  refine ⟨fun budget => ⟨exists_granted fun held hfull => ask_full (m := m) hfull, ?_⟩, ?_,
    fun budget counts h => Taken.kept h, fun budget counts h => h.1.taken.kept,
    fun budget counts => slotsThatFit_greatest m budget available counts,
    fun budget budget' hle => ⟨?_, fun counts => slotsThatFit_mono hle available counts⟩⟩
  · intro counts hoffered
    have hcapacity := capacity_eq hoffered.1 hoffered.2
    refine ⟨hcapacity, ?_, fun hne => ?_⟩
    · rintro rfl
      exact (sliderLoop_eq m _ _ _).trans hcapacity
    · exact le_sub_iff_add_le.mp (hoffered.1.taken.fits.resolve_left hne)
  · intro counts hoffered hslots
    rw [offered_none hoffered hslots]
    exact ⟨rfl, rfl⟩
  · apply capacityLoop_mono
    · exact Int.sub_le_sub_right (grossBytes_mono hle available) _
    · exact ⟨Nat.le_refl _, Nat.le_refl _⟩

/-- An expert of 10 bytes, a slot of 6 and a headroom of 4. -/
def smallModel : MemoryModel := ⟨10, 5, 1, 4, by decide⟩

/-- A budget of one full slot, and of three experts in another. -/
theorem packing_consistent_small :
    Offered (some 700) smallModel none 8 [64, 4] ∧
      capacityForBudget (some 700) (some smallModel) none 8 = ⟨68, 2⟩ ∧
      sliderCapacity (some 700) (some smallModel) none = ⟨68, 2⟩ ∧
      slotsThatFit (some 700) (some smallModel) none [64, 4] = 2 ∧
      slotsThatFit (some 690) (some smallModel) none [64, 4] = 1 := by
  have hoffered : Offered (some 700) smallModel none 8 [64, 4] :=
    ⟨.grant (.grant .start (by decide)) (by decide), by decide⟩
  have hpacking := packing_consistent smallModel none 8
  obtain ⟨hcapacity, hslider, -⟩ := (hpacking.1 700).2 _ hoffered
  have hkept := hpacking.2.2.2.1 700 _ hoffered
  exact ⟨hoffered, hcapacity, hslider rfl, hkept, by decide⟩

/-- A budget below the headroom: nothing is granted, and the headroom alone is more. -/
theorem headroom_exceeds_budget :
    ¬ ∀ (m : MemoryModel) (budget : ℤ) (available : Option ℤ) (maxSlots : ℕ) (counts : List ℕ),
      0 < m.fixedBytes → 0 < m.scratchBytes → 0 < m.headroomBytes →
      Offered (some budget) m available maxSlots counts →
        (bytes m counts + m.headroomBytes : ℤ) ≤ grossBytes budget available := by
  intro h
  have hbytes := h smallModel 3 none 8 [] (by decide) (by decide) (by decide)
    ⟨.start, by decide⟩
  exact absurd hbytes (by decide)

end KvasirNet.SlotPacking
