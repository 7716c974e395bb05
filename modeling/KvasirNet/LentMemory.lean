import KvasirNet.Runs
import Mathlib.Algebra.BigOperators.Group.List.Basic
import Mathlib.Algebra.Order.Group.Nat
import Mathlib.Algebra.Order.Ring.Nat
import Mathlib.Algebra.Order.BigOperators.Group.List
import Mathlib.Tactic.Common
import Mathlib.Tactic.SplitIfs

/-! The GPU memory that a machine lends: how many experts the next slot may hold, from the
budget, the last probe of the card and what the slots hold already. -/
namespace KvasirNet.LentMemory

/-- What an executor's worker takes, in bytes. -/
structure MemoryModel where
  residentBytesPerExpert : ℕ
  fixedBytes : ℕ
  scratchBytes : ℕ
  headroomBytes : ℕ
  resident_pos : 0 < residentBytesPerExpert

def maxExpertsPerRequest : ℕ := 64

def maxSlots : ℕ := 8

/-- `VRAM_STEP` -/
def vramStep : ℕ := 256 * 1024 * 1024

/-- `SYSTEM_VRAM_RESERVE` -/
def systemVramReserve : ℕ := 512 * 1024 * 1024

def slotBytes (m : MemoryModel) (experts : ℕ) : ℕ :=
  m.fixedBytes + m.scratchBytes + experts * m.residentBytesPerExpert

/-- What may be used, with the headroom off; negative where it does not fit. -/
def usableBytes (m : MemoryModel) (budget : ℕ) (available : Option ℕ) : ℤ :=
  (available.elim budget (min budget) : ℕ) - m.headroomBytes

/-- The experts of one more slot beside what is used; `Math.floor` is the division of `ℤ`. -/
def windowBeside (m : MemoryModel) (usable : ℤ) (used : ℕ) : ℕ :=
  (max 0 (min ((usable - used - m.fixedBytes - m.scratchBytes) / m.residentBytesPerExpert)
    maxExpertsPerRequest)).toNat

def nextSlotWindow (budget : Option ℕ) (m : MemoryModel) (available : Option ℕ)
    (heldCounts : List ℕ) : ℕ :=
  if maxSlots ≤ heldCounts.length then 0
  else
    match budget with
    | none => if heldCounts = [] then maxExpertsPerRequest else 0
    | some b => windowBeside m (usableBytes m b available) (heldCounts.map (slotBytes m)).sum

/-- The loop of `slotsThatFit`, with what the slots before take. -/
def countFitting (m : MemoryModel) (usable : ℤ) : ℕ → List ℕ → ℕ
  | _, [] => 0
  | used, n :: rest =>
    if usable < (used + slotBytes m n : ℕ) then 0
    else countFitting m usable (used + slotBytes m n) rest + 1

def slotsThatFit (budget : Option ℕ) (m : MemoryModel) (available : Option ℕ)
    (heldCounts : List ℕ) : ℕ :=
  match budget with
  | none => heldCounts.length
  | some b => countFitting m (usableBytes m b available) 0 heldCounts

/-! ### The slots -/

inductive Phase
  | idle
  | downloading
  | starting
  | serving
  | failed
  deriving DecidableEq, Repr

structure Slot where
  phase : Phase
  experts : ℕ
  deriving DecidableEq, Repr

def Slot.busy (x : Slot) : Bool :=
  x.phase = .downloading || x.phase = .starting || x.phase = .serving

/-- A worker runs, and uses its memory from its start on. -/
def Slot.started (x : Slot) : Bool := x.phase = .starting || x.phase = .serving

def Slot.settingUp (x : Slot) : Bool := x.phase = .downloading || x.phase = .starting

def Slot.release (x : Slot) : Slot := { x with phase := .idle }

/-- `provision`: the first slot that is free, or one more. -/
def place (x : Slot) : List Slot → List Slot
  | [] => [x]
  | y :: rest => if y.busy then y :: place x rest else x :: rest

/-- `trim`: the busy slots after the first `keep` are released. -/
def releaseAfter : ℕ → List Slot → List Slot
  | _, [] => []
  | keep, x :: rest =>
    if x.busy then
      match keep with
      | 0 => x.release :: releaseAfter 0 rest
      | keep + 1 => x :: releaseAfter keep rest
    else x :: releaseAfter keep rest

/-- The card, its part that other programs use, and the budget of the configuration. -/
structure Card where
  total : ℕ
  other : ℕ
  configured : Option ℕ
  deriving DecidableEq, Repr

/-- `window` is what `nextWindow` has answered and no provision has used, `probedUse` what the
node's workers used when `lastGpuFreeBytes` was read. -/
structure Machine where
  slots : List Slot
  lastGpuTotalBytes : Option ℕ
  lastGpuFreeBytes : Option ℕ
  probedUse : ℕ
  window : ℕ
  deriving DecidableEq, Repr

def Machine.initial : Machine := ⟨[], none, none, 0, 0⟩

inductive Action
  -- a probe may report the size of the card, what is free of it, both or neither
  | probe (total free : Bool)
  | nextWindow
  | provision (experts : ℕ)
  | started (i : ℕ)
  | serves (i : ℕ)
  | fails (i : ℕ)
  | trim
  | release (i : ℕ)
  deriving DecidableEq, Repr

section
variable (m : MemoryModel) (c : Card)

/-- The memory of the slots that `p` holds of. -/
def bytesOf (p : Slot → Bool) (slots : List Slot) : ℕ :=
  (slots.map fun x => if p x then slotBytes m x.experts else 0).sum

def Machine.used (s : Machine) : ℕ := bytesOf m Slot.started s.slots

/-- `ownWorkerGpuBytes`: the slots that serve. -/
def Machine.ownWorkerGpuBytes (s : Machine) : ℕ := bytesOf m (fun x => x.phase = .serving) s.slots

def Machine.availableGpuBytes (s : Machine) : Option ℕ :=
  s.lastGpuFreeBytes.map fun free => free + s.ownWorkerGpuBytes m - systemVramReserve

/-- `vramBudgetBytes`: the configuration's, or half of the card in steps. -/
def Machine.vramBudgetBytes (s : Machine) : Option ℕ :=
  match c.configured, s.lastGpuTotalBytes with
  | some v, _ => some v
  | none, some total => if total = 0 then none else some (total / 2 / vramStep * vramStep)
  | none, none => none

def Machine.heldCounts (s : Machine) : List ℕ := (s.slots.filter Slot.busy).map (·.experts)

/-- `ExpertPool.nextWindow` -/
def Machine.nextWindow (s : Machine) : ℕ :=
  if s.slots.any Slot.settingUp then 0
  else nextSlotWindow (s.vramBudgetBytes c) m (s.availableGpuBytes m) s.heldCounts

def Machine.trim (s : Machine) : Machine :=
  let keep := slotsThatFit (s.vramBudgetBytes c) m (s.availableGpuBytes m) s.heldCounts
  { s with slots := releaseAfter keep s.slots }

def Machine.freeBytes (s : Machine) : ℕ := c.total - c.other - s.used m

/-- The phase of the `i`-th slot changes, if it is one of `before`. -/
def Machine.goTo (s : Machine) (i : ℕ) (before : Slot → Bool) (phase : Phase) : Option Machine :=
  (s.slots[i]?.filter before).map fun x => { s with slots := s.slots.set i { x with phase := phase } }

def step (s : Machine) : Action → Option Machine
  | .probe total free => some { s with
      lastGpuTotalBytes := if total then some c.total else s.lastGpuTotalBytes
      lastGpuFreeBytes := if free then some (s.freeBytes m c) else s.lastGpuFreeBytes
      probedUse := if free then s.used m else s.probedUse }
  | .nextWindow => some { s with window := s.nextWindow m c }
  | .provision experts =>
    if 0 < s.window ∧ experts ≤ s.window then
      some { s with
        slots := place ⟨.downloading, experts⟩ s.slots
        window := 0 }
    else none
  | .started i => s.goTo i (fun x => x.phase = .downloading) .starting
  | .serves i => s.goTo i (fun x => x.phase = .starting) .serving
  | .fails i => s.goTo i Slot.busy .failed
  | .trim => some (s.trim m c)
  | .release i => s.goTo i (fun _ => true) .idle

/-! ### What is lent -/

/-- Free memory without the node, less the reserve. -/
def Card.spare : ℕ := c.total - c.other - systemVramReserve

/-- What the node may use; nothing where the headroom does not fit. -/
def Machine.lendable (s : Machine) : ℕ :=
  (s.vramBudgetBytes c).elim c.spare (min c.spare) - m.headroomBytes

/-- The budget is within what is free, or the last probe of it saw at least as much in use by
the node's workers as serve now. -/
structure Known (s : Machine) : Prop where
  budget : s.vramBudgetBytes c ≠ none
  room : (∀ b, s.vramBudgetBytes c = some b → b ≤ c.spare) ∨
    (s.lastGpuFreeBytes ≠ none ∧ s.ownWorkerGpuBytes m ≤ s.probedUse)

instance (s : Machine) : Decidable (Known m c s) :=
  haveI : Decidable (∀ b, s.vramBudgetBytes c = some b → b ≤ c.spare) :=
    match h : s.vramBudgetBytes c with
    | none => .isTrue fun b hb => by cases hb
    | some b => decidable_of_iff (b ≤ c.spare)
        ⟨fun hb b' hb' => Option.some.inj hb' ▸ hb, fun hb => hb b rfl⟩
  decidable_of_iff (s.vramBudgetBytes c ≠ none ∧
      ((∀ b, s.vramBudgetBytes c = some b → b ≤ c.spare) ∨
        (s.lastGpuFreeBytes ≠ none ∧ s.ownWorkerGpuBytes m ≤ s.probedUse)))
    ⟨fun h => ⟨h.1, h.2⟩, fun h => ⟨h.budget, h.room⟩⟩

/-- A window is asked for while a slot is set up, when the answer is 0, or with a probe that
is not older than what the node holds. -/
def Orderly (s : Machine) : Action → Prop
  | .nextWindow => s.slots.any Slot.settingUp = true ∨ Known m c s
  | _ => True

instance (s : Machine) : ∀ a, Decidable (Orderly m c s a)
  | .nextWindow => inferInstanceAs (Decidable (s.slots.any Slot.settingUp = true ∨ Known m c s))
  | .probe _ _ | .provision _ | .started _ | .serves _ | .fails _ | .trim | .release _ =>
    .isTrue trivial

/-- What the slots take once all their workers run. -/
def Machine.committed (s : Machine) : ℕ := bytesOf m Slot.busy s.slots

/-- What a window adds, if a provision uses all of it. -/
def promised (window : ℕ) : ℕ := if window = 0 then 0 else slotBytes m window

structure Sound (s : Machine) : Prop where
  fits : s.committed m + promised m s.window ≤ s.lendable m c
  unknown : s.vramBudgetBytes c = none → s.committed m + promised m s.window = 0
  total : s.lastGpuTotalBytes = none ∨ s.lastGpuTotalBytes = some c.total
  free : ∀ free, s.lastGpuFreeBytes = some free → free = c.total - c.other - s.probedUse
  probed : s.probedUse ≤ c.total - c.other

variable {m c} {s s' : Machine}

theorem bytesOf_cons (p : Slot → Bool) (x : Slot) (slots : List Slot) :
    bytesOf m p (x :: slots) = (if p x then slotBytes m x.experts else 0) + bytesOf m p slots :=
  List.sum_cons

theorem bytesOf_mono {p q : Slot → Bool} {slots : List Slot} (h : ∀ x ∈ slots, p x → q x) :
    bytesOf m p slots ≤ bytesOf m q slots := by
  apply List.sum_le_sum
  intro x hx
  by_cases hp : p x = true
  · rw [if_pos hp, if_pos (h x hx hp)]
  · rw [if_neg hp]
    exact Nat.zero_le _

theorem used_le_committed (s : Machine) : s.used m ≤ s.committed m := by
  apply bytesOf_mono
  intro x _ hx
  simp only [Slot.started, Slot.busy, Bool.or_eq_true] at hx ⊢
  exact hx.imp_left .inr

theorem committed_le {slots slots' : List Slot}
    (h : List.Forall₂ (fun x y => y = x ∨ y.busy = false ∨ (y.experts = x.experts ∧ x.busy = true))
      slots slots') : bytesOf m Slot.busy slots' ≤ bytesOf m Slot.busy slots := by
  induction h with
  | nil => exact Nat.le_refl _
  | @cons x y xs ys hxy _ ih =>
    have hhead : (if y.busy then slotBytes m y.experts else 0) ≤
        if x.busy then slotBytes m x.experts else 0 := by
      rcases hxy with rfl | hidle | ⟨hsame, hbusy⟩
      · exact Nat.le_refl _
      · rw [hidle]
        exact Nat.zero_le _
      · rw [hsame, if_pos hbusy]
        split_ifs
        · exact Nat.le_refl _
        · exact Nat.zero_le _
    rw [bytesOf_cons, bytesOf_cons]
    exact Nat.add_le_add hhead ih

theorem forall₂_set {R : Slot → Slot → Prop} (hrefl : ∀ x, R x x) {slots : List Slot} {i : ℕ}
    {x y : Slot} (hx : slots[i]? = some x) (h : R x y) : List.Forall₂ R slots (slots.set i y) := by
  induction slots generalizing i with
  | nil => cases hx
  | cons z rest ih =>
    cases i with
    | zero =>
      obtain rfl : z = x := Option.some.inj hx
      exact .cons h (List.forall₂_same.mpr fun w _ => hrefl w)
    | succ i => exact .cons (hrefl z) (ih hx)

theorem releaseAfter_forall₂ (keep : ℕ) (slots : List Slot) :
    List.Forall₂ (fun x y => y = x ∨ y.busy = false ∨ (y.experts = x.experts ∧ x.busy = true))
      slots (releaseAfter keep slots) := by
  induction slots generalizing keep with
  | nil => exact .nil
  | cons x rest ih =>
    unfold releaseAfter
    split_ifs
    · cases keep with
      | zero => exact .cons (.inr (.inl rfl)) (ih 0)
      | succ keep => exact .cons (.inl rfl) (ih keep)
    · exact .cons (.inl rfl) (ih keep)

theorem bytesOf_place (x : Slot) (slots : List Slot) :
    bytesOf m Slot.busy (place x slots) = bytesOf m Slot.busy slots + bytesOf m Slot.busy [x] := by
  induction slots with
  | nil => exact (Nat.zero_add _).symm
  | cons y rest ih =>
    unfold place
    by_cases hy : y.busy = true
    · rw [if_pos hy, bytesOf_cons, bytesOf_cons, ih, Nat.add_assoc]
    · rw [if_neg hy, bytesOf_cons, bytesOf_cons, bytesOf_cons, if_neg hy, Nat.zero_add]
      exact Nat.add_comm _ _

theorem sum_heldCounts (s : Machine) : (s.heldCounts.map (slotBytes m)).sum = s.committed m := by
  unfold Machine.heldCounts Machine.committed bytesOf
  induction s.slots with
  | nil => rfl
  | cons x rest ih =>
    by_cases hx : x.busy = true
    · simp only [List.filter_cons, hx, if_true, List.map_cons, List.sum_cons]
      exact congrArg _ ih
    · simp only [List.filter_cons, hx, List.map_cons, List.sum_cons]
      simpa only [Bool.false_eq_true, if_false, Nat.zero_add] using ih

theorem committed_eq_own (hs : s.slots.any Slot.settingUp = false) :
    s.committed m = s.ownWorkerGpuBytes m := by
  apply Nat.le_antisymm
  · apply bytesOf_mono
    intro x hx hbusy
    have hquiet := List.any_eq_false.mp hs x hx
    simp only [Slot.settingUp, Slot.busy, Bool.or_eq_true, not_or] at hquiet hbusy
    exact hbusy.resolve_left fun h => h.elim hquiet.1 hquiet.2
  · apply bytesOf_mono
    intro x _ hx
    simp only [Slot.busy, hx, Bool.or_true]

theorem windowBeside_fits {usable : ℤ} {used : ℕ} (h : 0 < windowBeside m usable used) :
    (used + slotBytes m (windowBeside m usable used) : ℕ) ≤ usable := by
  set n := windowBeside m usable used with hn
  have hr : (0 : ℤ) < m.residentBytesPerExpert := Int.natCast_pos.mpr m.resident_pos
  have hle : (n : ℤ) ≤ (usable - used - m.fixedBytes - m.scratchBytes) / m.residentBytesPerExpert := by
    unfold windowBeside at hn
    omega
  have hmul : (n : ℤ) * m.residentBytesPerExpert ≤ usable - used - m.fixedBytes - m.scratchBytes :=
    calc
      (n : ℤ) * m.residentBytesPerExpert
        ≤ (usable - used - m.fixedBytes - m.scratchBytes) / m.residentBytesPerExpert *
          m.residentBytesPerExpert := Int.mul_le_mul_of_nonneg_right hle (Int.le_of_lt hr)
      _ ≤ usable - used - m.fixedBytes - m.scratchBytes := Int.ediv_mul_le _ (Int.ne_of_gt hr)
  unfold slotBytes
  push_cast
  omega

theorem nextSlotWindow_fits {b : ℕ} {available : Option ℕ} {held : List ℕ}
    (h : 0 < nextSlotWindow (some b) m available held) :
    ((held.map (slotBytes m)).sum + slotBytes m (nextSlotWindow (some b) m available held) : ℕ) ≤
      usableBytes m b available := by
  unfold nextSlotWindow at h ⊢
  by_cases hlen : maxSlots ≤ held.length
  · rw [if_pos hlen] at h
    cases h
  · rw [if_neg hlen] at h ⊢
    exact windowBeside_fits h

theorem sound_initial : Sound m c .initial where
  fits := Nat.zero_le _
  unknown _ := rfl
  total := .inl rfl
  free free h := by cases h
  probed := Nat.zero_le _

theorem lendable_le (s : Machine) : s.lendable m c ≤ c.spare := by
  have hle : (s.vramBudgetBytes c).elim c.spare (min c.spare) ≤ c.spare := by
    cases s.vramBudgetBytes c with
    | none => rw [Option.elim_none]
    | some b =>
      rw [Option.elim_some]
      exact Nat.min_le_left c.spare b
  rw [Machine.lendable]
  exact (Nat.sub_le _ m.headroomBytes).trans hle

theorem Sound.committed_le (h : Sound m c s) : s.committed m ≤ s.lendable m c :=
  (Nat.le_add_right _ _).trans h.fits

theorem Sound.used_le (h : Sound m c s) : s.used m ≤ s.lendable m c :=
  (used_le_committed s).trans h.committed_le

theorem Sound.lighter (h : Sound m c s) {slots : List Slot} {window : ℕ}
    (hle : bytesOf m Slot.busy slots + promised m window ≤ s.committed m + promised m s.window) :
    Sound m c { s with
      slots := slots
      window := window } where
  fits := hle.trans h.fits
  unknown hb := Nat.le_zero.mp (h.unknown hb ▸ hle)
  total := h.total
  free := h.free
  probed := h.probed

theorem Sound.goTo (h : Sound m c s) {i : ℕ} {before : Slot → Bool} {phase : Phase}
    (hbefore : ∀ x, before x = true → (⟨phase, x.experts⟩ : Slot).busy = false ∨ x.busy = true)
    (hs : s.goTo i before phase = some s') : Sound m c s' := by
  obtain ⟨x, hx, rfl⟩ := Option.map_eq_some_iff.mp hs
  obtain ⟨hx, hmay⟩ := Option.filter_eq_some_iff.mp hx
  apply h.lighter
  apply Nat.add_le_add_right
  apply LentMemory.committed_le
  exact forall₂_set (fun _ => .inl rfl) hx (.inr ((hbefore x hmay).imp_right fun hb => ⟨rfl, hb⟩))

theorem budget_probed (h : Sound m c s) {lastGpuTotalBytes : Option ℕ}
    (hl : lastGpuTotalBytes = some c.total ∨ lastGpuTotalBytes = s.lastGpuTotalBytes)
    (hb : s.vramBudgetBytes c ≠ none) (s' : Machine) (hs' : s'.lastGpuTotalBytes = lastGpuTotalBytes) :
    s'.vramBudgetBytes c = s.vramBudgetBytes c := by
  unfold Machine.vramBudgetBytes at hb ⊢
  rw [hs']
  cases hc : c.configured with
  | some v => rfl
  | none =>
    rcases hl with rfl | rfl
    · rcases h.total with hnone | hsome
      · rw [hc, hnone] at hb
        exact absurd rfl hb
      · rw [hsome]
    · rfl

theorem Sound.probe (h : Sound m c s) {total free : Bool}
    (hs : step m c s (.probe total free) = some s') : Sound m c s' := by
  have hused : s.used m ≤ c.total - c.other :=
    (h.used_le.trans (lendable_le s)).trans (Nat.sub_le _ _)
  have hl : (if total then some c.total else s.lastGpuTotalBytes) = some c.total ∨
      (if total then some c.total else s.lastGpuTotalBytes) = s.lastGpuTotalBytes := by
    cases total with
    | true => exact .inl rfl
    | false => exact .inr rfl
  obtain rfl := Option.some.inj hs
  refine ⟨?_, ?_, ?_, ?_, ?_⟩
  · by_cases hb : s.vramBudgetBytes c = none
    · exact (h.unknown hb).trans_le (Nat.zero_le _)
    · refine h.fits.trans_eq ?_
      rw [Machine.lendable, Machine.lendable, budget_probed h hl hb { s with
        lastGpuTotalBytes := if total then some c.total else s.lastGpuTotalBytes
        lastGpuFreeBytes := if free then some (s.freeBytes m c) else s.lastGpuFreeBytes
        probedUse := if free then s.used m else s.probedUse } rfl]
  · intro hnone
    by_cases hb : s.vramBudgetBytes c = none
    · exact h.unknown hb
    · exact absurd ((budget_probed h hl hb _ rfl).symm.trans hnone) hb
  · rcases hl with hsome | hsame
    · exact .inr hsome
    · exact h.total.imp hsame.trans hsame.trans
  · intro f hf
    cases free with
    | true => exact (Option.some.inj hf).symm
    | false => exact h.free f hf
  · cases free with
    | true => exact hused
    | false => exact h.probed

theorem Sound.available_le (h : Sound m c s) (hown : s.ownWorkerGpuBytes m ≤ s.probedUse)
    {available : ℕ} (ha : s.availableGpuBytes m = some available) : available ≤ c.spare := by
  obtain ⟨free, hfree, rfl⟩ := Option.map_eq_some_iff.mp ha
  have hf := h.free free hfree
  have hp := h.probed
  unfold Card.spare
  omega

theorem Sound.usable_le (h : Sound m c s) (hk : Known m c s) {b : ℕ}
    (hb : s.vramBudgetBytes c = some b) :
    usableBytes m b (s.availableGpuBytes m) ≤ (min c.spare b : ℕ) - m.headroomBytes := by
  have hle : (s.availableGpuBytes m).elim b (min b) ≤ min c.spare b := by
    rcases hk.room with hroom | ⟨hfree, hown⟩
    · rw [Nat.min_eq_right (hroom b hb)]
      cases s.availableGpuBytes m with
      | none => exact Nat.le_refl b
      | some available => exact Nat.min_le_left b available
    · cases ha : s.availableGpuBytes m with
      | none => exact absurd (Option.map_eq_none_iff.mp ha) hfree
      | some available =>
        have havailable := h.available_le hown ha
        exact Nat.le_min.mpr ⟨(Nat.min_le_right b available).trans havailable, Nat.min_le_left b available⟩
  unfold usableBytes
  omega

theorem Sound.nextWindow (h : Sound m c s) (hk : s.slots.any Slot.settingUp = true ∨ Known m c s) :
    Sound m c { s with window := s.nextWindow m c } := by
  by_cases hzero : s.nextWindow m c = 0
  · apply h.lighter
    rw [hzero]
    exact Nat.add_le_add_left (Nat.zero_le _) _
  · have hquiet : s.slots.any Slot.settingUp = false := by
      apply Bool.eq_false_iff.mpr
      intro hup
      exact hzero (if_pos hup)
    have hk := hk.resolve_left (Bool.eq_false_iff.mp hquiet)
    obtain ⟨b, hb⟩ := Option.ne_none_iff_exists'.mp hk.budget
    have hanswer : s.nextWindow m c =
        nextSlotWindow (some b) m (s.availableGpuBytes m) s.heldCounts := by
      rw [Machine.nextWindow, hquiet, if_neg Bool.false_ne_true, hb]
    have hfits := nextSlotWindow_fits (hanswer ▸ Nat.pos_of_ne_zero hzero)
    rw [← hanswer, sum_heldCounts] at hfits
    have husable := h.usable_le hk hb
    refine ⟨?_, ?_, h.total, h.free, h.probed⟩
    · change s.committed m + promised m (s.nextWindow m c) ≤
        (s.vramBudgetBytes c).elim c.spare (min c.spare) - m.headroomBytes
      rw [promised, if_neg hzero, hb, Option.elim_some]
      omega
    · intro hnone
      exact absurd hnone hk.budget

theorem Sound.provision (h : Sound m c s) {experts : ℕ} (hpos : 0 < s.window)
    (hle : experts ≤ s.window) : Sound m c { s with
      slots := place ⟨.downloading, experts⟩ s.slots
      window := 0 } := by
  apply h.lighter
  have hslot : bytesOf m Slot.busy [⟨.downloading, experts⟩] = slotBytes m experts :=
    (bytesOf_cons _ _ _).trans (Nat.add_zero _)
  have hbytes : slotBytes m experts ≤ slotBytes m s.window :=
    Nat.add_le_add_left (Nat.mul_le_mul_right _ hle) _
  rw [bytesOf_place, hslot, promised, if_pos rfl, promised, if_neg (Nat.ne_of_gt hpos)]
  exact Nat.add_le_add_left hbytes _

theorem sound_step {a : Action} (h : Sound m c s) (ha : Orderly m c s a)
    (hs : step m c s a = some s') : Sound m c s' := by
  cases a with
  | probe total free => exact h.probe hs
  | nextWindow =>
    obtain rfl := Option.some.inj hs
    exact h.nextWindow ha
  | provision experts =>
    simp only [step] at hs
    split_ifs at hs with hw
    obtain rfl := Option.some.inj hs
    exact h.provision hw.1 hw.2
  | started i =>
    refine h.goTo (fun x hx => .inr ?_) hs
    simp only [Slot.busy, of_decide_eq_true hx, decide_true, Bool.true_or]
  | serves i =>
    refine h.goTo (fun x hx => .inr ?_) hs
    simp only [Slot.busy, of_decide_eq_true hx, decide_true, Bool.or_true, Bool.true_or]
  | fails i => exact h.goTo (fun x _ => .inl rfl) hs
  | trim =>
    obtain rfl := Option.some.inj hs
    apply h.lighter
    apply Nat.add_le_add_right
    exact LentMemory.committed_le (releaseAfter_forall₂ _ _)
  | release i => exact h.goTo (fun x _ => .inl rfl) hs

/-- The node uses no more than it may, as long as each window is asked for with a probe that is
not older than what the node holds. -/
theorem lends_what_is_free (as : List Action) (hrun : runs (step m c) .initial as = some s)
    (horderly : Along (step m c) (Orderly m c) .initial as) : s.used m ≤ s.lendable m c :=
  (runs_invariant (fun _ _ _ ha h hs => sound_step h ha hs) horderly hrun sound_initial).used_le

end

def cudaModel : MemoryModel where
  residentBytesPerExpert := 9568256
  fixedBytes := 128 * 1024 * 1024
  scratchBytes := 160 * 1024 * 1024
  headroomBytes := 128 * 1024 * 1024
  resident_pos := by decide

/-- 8 GiB, of which other programs use 6, with a budget of 4 GiB. -/
def sharedCard : Card := ⟨8 * 1024 ^ 3, 6 * 1024 ^ 3, some (4 * 1024 ^ 3)⟩

/-- A slot at a time, with a probe before each. -/
theorem lends_what_is_free_probed : ∃ s, runs (step cudaModel sharedCard) .initial
      [.probe true true, .nextWindow, .provision 64, .started 0, .serves 0, .probe true true,
        .nextWindow, .provision 20, .started 1] = some s ∧ 0 < s.used cudaModel ∧
      s.used cudaModel ≤ s.lendable cudaModel sharedCard := by
  obtain ⟨s, hrun, hs⟩ := runs_exists (step cudaModel sharedCard) .initial
    [.probe true true, .nextWindow, .provision 64, .started 0, .serves 0, .probe true true,
      .nextWindow, .provision 20, .started 1] (fun s => 0 < s.used cudaModel) (by decide)
  exact ⟨s, hrun, of_decide_eq_true hs, lends_what_is_free _ hrun (by decide)⟩

/-- Without the second probe the first slot is taken for free memory again. -/
theorem lends_the_same_twice : ∃ s, runs (step cudaModel sharedCard) .initial
      [.probe true true, .nextWindow, .provision 64, .started 0, .serves 0, .nextWindow,
        .provision 64, .started 1] = some s ∧
      ¬ s.used cudaModel ≤ s.lendable cudaModel sharedCard := by
  obtain ⟨s, hrun, hs⟩ := runs_exists (step cudaModel sharedCard) .initial
    [.probe true true, .nextWindow, .provision 64, .started 0, .serves 0, .nextWindow,
      .provision 64, .started 1]
    (fun s => ¬ s.used cudaModel ≤ s.lendable cudaModel sharedCard) (by decide)
  exact ⟨s, hrun, of_decide_eq_true hs⟩

end KvasirNet.LentMemory
