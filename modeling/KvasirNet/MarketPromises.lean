import KvasirNet.MarketCoverage

/-! What becomes of a promise when its wallet reports the window as held. `settle` looks for one
segment that has the whole window, under the last part of the name that the report gives. -/
namespace KvasirNet.Market

variable {cfg : Config} {s : State}

/-- The id that a name stands for, as claims and reports write it. -/
def Config.idOf (cfg : Config) (ref : String) : String :=
  ((cfg.modelInfo ref).map ModelInfo.id).getD ref

/-- The report is for the model: by its name, or by what its name is cut to. -/
def CoverageBody.names (cfg : Config) (b : CoverageBody) (model : String) : Prop :=
  cfg.idOf b.model = model ∨ cfg.idOf (baseName b.model) = model

/-- The segments of the report together have every expert of the window. -/
def CoverageBody.covers (b : CoverageBody) (c : Claim) : Prop :=
  ∀ e : ℕ, c.experts.1 ≤ e → (e : ℚ) < c.experts.2 →
    ∃ lo hi : ℚ, [some (c.layer : ℚ), some lo, some hi] ∈ b.segments ∧ lo ≤ e ∧ (e : ℚ) < hi

def CoverageBody.spans (b : CoverageBody) (c : Claim) : Prop :=
  ∃ seg ∈ parseSegments b.segments,
    seg.layer = c.layer ∧ seg.lo ≤ c.experts.1 ∧ c.experts.2 ≤ seg.hi

def Reply.accepted : Reply → Bool
  | .covered .. => true
  | _ => false

/-- The claim is one that a report of this wallet makes good on. -/
structure Fulfils (cfg : Config) (wallet : Wallet) (b : CoverageBody) (c : Claim) : Prop where
  said : wallet ≠ ""
  owner : c.owner = wallet
  model : b.names cfg c.model
  window : b.covers c

/-- After a report that is accepted, no claim that it makes good on is live. -/
def Settles (cfg : Config) (s : State) (a : Action) : Prop :=
  ∀ wallet allowed b now, a = .coverage (.node wallet) allowed b now →
    (react cfg s a).2.accepted = true → ∀ c, Fulfils cfg wallet b c →
      ∀ ts, (react cfg s a).1.pending.lookup c = some ts → ¬ now ≤ ts + pendingAssignmentMs

/-- Each live claim that a report makes good on lies in one of its segments, and the name of the
report, cut to what is behind the last slash, still stands for the model. -/
def Matches (cfg : Config) (s : State) (a : Action) : Prop :=
  ∀ wallet allowed b now, a = .coverage (.node wallet) allowed b now →
    (react cfg s a).2.accepted = true → ∀ c, Fulfils cfg wallet b c →
      ∀ ts, s.pending.lookup c = some ts → now ≤ ts + pendingAssignmentMs →
        cfg.idOf (baseName b.model) = c.model ∧ b.spans c

/-! ## One report -/

theorem lookup_settle {owner : Wallet} (howner : owner ≠ "") (model : String)
    (segments : List Segment) (c : Claim) :
    (s.settle cfg owner model segments).pending.lookup c =
      (s.pending.lookup c).filter fun _ =>
        !(c.owner == owner && c.model == cfg.idOf model && segments.any fun seg =>
          decide (seg.layer = c.layer ∧ seg.lo ≤ c.experts.1 ∧ c.experts.2 ≤ seg.hi)) := by
  unfold State.settle
  rw [if_neg howner]
  exact Table.lookup_keep _ _ c

theorem lookup_accepted {wallet : Wallet} {allowed : Bool} {b : CoverageBody} {now : ℕ}
    (haccepted : (react cfg s (.coverage (.node wallet) allowed b now)).2.accepted = true)
    (hwallet : wallet ≠ "") (c : Claim) :
    (react cfg s (.coverage (.node wallet) allowed b now)).1.pending.lookup c =
      (s.pending.lookup c).filter fun _ =>
        !(c.owner == wallet && c.model == cfg.idOf (baseName b.model) &&
          (parseSegments b.segments).any fun seg =>
            decide (seg.layer = c.layer ∧ seg.lo ≤ c.experts.1 ∧ c.experts.2 ≤ seg.hi)) := by
  unfold react at haccepted ⊢
  dsimp only at haccepted ⊢
  cases hpassed : needsNode (.node wallet) allowed with
  | error e =>
    rw [hpassed] at haccepted
    cases haccepted
  | ok _ =>
    rw [hpassed] at haccepted
    dsimp only at haccepted ⊢
    unfold coverageReport at haccepted ⊢
    by_cases hmissing : b.workerId = "" ∨ b.model = ""
    · rw [if_pos hmissing] at haccepted
      cases haccepted
    rw [if_neg hmissing] at haccepted ⊢
    dsimp only at haccepted ⊢
    by_cases hfull : (s.workers.lookup b.workerId).isNone ∧
        maxWorkers ≤ (s.census now b.workerId).workers.entries.length
    · rw [if_pos hfull] at haccepted
      cases haccepted
    rw [if_neg hfull]
    have hcensus : (s.census now b.workerId).pending = s.pending := by
      unfold State.census
      split_ifs
      · rfl
      · rfl
    have hrecord := (record_spec cfg (s.census now b.workerId) (.node wallet) b.workerId
      (reportedWorker (s.workers.lookup b.workerId) b now)).2.1
    change (State.record cfg _ _ _ _).1.pending.lookup c = _
    rw [hrecord]
    have hsettle : ((s.census now b.workerId).settle cfg wallet (baseName b.model)
        (parseSegments b.segments)).pending.lookup c =
          ((s.census now b.workerId).pending.lookup c).filter fun _ =>
            !(c.owner == wallet && c.model == cfg.idOf (baseName b.model) &&
              (parseSegments b.segments).any fun seg =>
                decide (seg.layer = c.layer ∧ seg.lo ≤ c.experts.1 ∧ c.experts.2 ≤ seg.hi)) :=
      lookup_settle hwallet _ _ c
    rw [hcensus] at hsettle
    exact hsettle

theorem settled_test {wallet : Wallet} {b : CoverageBody} {c : Claim} (howner : c.owner = wallet) :
    (c.owner == wallet && c.model == cfg.idOf (baseName b.model) &&
      (parseSegments b.segments).any fun seg =>
        decide (seg.layer = c.layer ∧ seg.lo ≤ c.experts.1 ∧ c.experts.2 ≤ seg.hi)) = true ↔
    cfg.idOf (baseName b.model) = c.model ∧ b.spans c := by
  rw [howner, beq_self_eq_true, Bool.true_and, Bool.and_eq_true, beq_iff_eq, eq_comm,
    List.any_eq_true]
  apply and_congr_right
  intro _
  constructor
  · rintro ⟨seg, hseg, hin⟩
    exact ⟨seg, hseg, of_decide_eq_true hin⟩
  · rintro ⟨seg, hseg, hin⟩
    exact ⟨seg, hseg, decide_eq_true hin⟩

theorem settles_iff (cfg : Config) (s : State) (a : Action) :
    Settles cfg s a ↔ Matches cfg s a := by
  constructor
  · intro h wallet allowed b now ha haccepted c hc ts hts hlive
    by_contra hnot
    -- what does not match is left as it was
    refine h wallet allowed b now ha haccepted c hc ts ?_ hlive
    subst ha
    rw [lookup_accepted haccepted hc.said, hts, Option.filter_eq_some_iff]
    refine ⟨rfl, ?_⟩
    rw [Bool.not_eq_true', Bool.eq_false_iff]
    exact fun htest => hnot ((settled_test hc.owner).mp htest)
  · intro h wallet allowed b now ha haccepted c hc ts hts hlive
    subst ha
    rw [lookup_accepted haccepted hc.said, Option.filter_eq_some_iff] at hts
    obtain ⟨hbefore, hkept⟩ := hts
    have htest := (settled_test hc.owner).mpr
      (h wallet allowed b now rfl haccepted c hc ts hbefore hlive)
    rw [htest] at hkept
    cases hkept

/-! ## Whole runs -/

theorem along_iff (cfg : Config) (P : State → Action → Prop) (s : State) (as : List Action) :
    Along (step cfg) P s as ↔
      ∀ before a after s₁, as = before ++ a :: after → runs (step cfg) s before = some s₁ → P s₁ a := by
  constructor
  · intro h before a after s₁ has hrun
    subst has
    exact h.after before hrun
  · intro h
    induction as generalizing s with
    | nil => trivial
    | cons a as ih =>
      refine ⟨h [] a as s rfl rfl, fun s' hs' => ?_⟩
      apply ih s'
      intro before a' after s₁ has hrun
      apply h (a :: before) a' after s₁ (by rw [has]; rfl)
      rw [runs, hs', Option.bind_some, hrun]

theorem countP_entries_le_one (t : Table Claim ℕ) (c : Claim) :
    t.entries.countP (fun e => decide (e.1 = c)) ≤ 1 := by
  have hkeys : t.entries.countP (fun e => decide (e.1 = c)) = t.keys.count c := by
    rw [List.count, AList.keys, List.keys, List.countP_map]
    apply List.countP_congr
    intro e _
    simp
  rw [hkeys]
  exact List.nodup_iff_count_le_one.mp t.nodupKeys c

/-- In a run, every report leaves no live claim that it makes good on exactly if every report finds
such claims within one of its segments and by its cut name; and a wallet never has two claims on one
window of one model. -/
theorem promises_settled_iff (cfg : Config) (as : List Action) :
    ((∀ before a after s₁, as = before ++ a :: after →
        runs (step cfg) State.empty before = some s₁ → Settles cfg s₁ a) ↔
      Along (step cfg) (Matches cfg) State.empty as) ∧
    ∀ s, runs (step cfg) State.empty as = some s →
      ∀ c, s.pending.entries.countP (fun e => decide (e.1 = c)) ≤ 1 := by
  constructor
  · rw [along_iff]
    simp only [settles_iff]
  · intro s _ c
    exact countP_entries_le_one s.pending c

/-- The wallet is promised both experts, and reports them in two pieces. -/
def promised : List Action := [.volunteer (.node "W") true false "" 0 1000]

def pieces : CoverageBody :=
  ⟨"w", "m", [[some 3, some 0, some 1], [some 3, some 1, some 2]], "", "W", Platform.unsaid⟩

theorem pieces_fulfil : Fulfils pairConfig "W" pieces ⟨"W", "m", 3, (0, 2)⟩ where
  said := by decide
  owner := rfl
  model := Or.inl (by decide)
  window := by
    intro e _ he
    have hcast : (e : ℚ) < 2 := he
    have hlt : e < 2 := by exact_mod_cast hcast
    rcases Nat.lt_succ_iff_lt_or_eq.mp hlt with hzero | rfl
    · obtain rfl : e = 0 := by omega
      exact ⟨0, 1, by decide +kernel, by norm_num, by norm_num⟩
    · exact ⟨1, 2, by decide +kernel, by norm_num, by norm_num⟩

theorem pieces_leave_promise :
    ¬ ∀ (cfg : Config) (before : List Action) (a : Action) (s₁ : State),
      runs (step cfg) State.empty before = some s₁ → Settles cfg s₁ a := by
  intro hall
  obtain ⟨s, hrun, hafter⟩ := runs_exists (step pairConfig) State.empty promised
    (fun s => decide ((react pairConfig s (.coverage (.node "W") true pieces 2000)).2.accepted = true ∧
      (react pairConfig s (.coverage (.node "W") true pieces 2000)).1.pending.lookup
        ⟨"W", "m", 3, (0, 2)⟩ = some 1000)) (by decide +kernel)
  obtain ⟨haccepted, hkept⟩ := of_decide_eq_true hafter
  have hsettles := hall pairConfig promised (.coverage (.node "W") true pieces 2000) s hrun
  exact hsettles "W" true pieces 2000 rfl haccepted _ pieces_fulfil 1000 hkept (by decide)

end KvasirNet.Market
