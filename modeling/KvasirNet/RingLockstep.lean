import KvasirNet.RingOps

/-! The ring stays in lock-step: whatever order its stages take their steps in, each
operation is answered by what its issuer waits for, and leaves no frame behind. -/
namespace KvasirNet.Ring

open Pipeline

variable {ε : Type}

/-- The forward stages of a ring, each with its engine. -/
abbrev Forward (ε : Type) := List (Engine ε × Stage ε)

/-- The cells of the stages; the one without a successor answers. -/
def cells : Forward ε → List (Cell (Stage ε) Frame)
  | [] => []
  | (E, s) :: rest => ⟨Stage.handle E rest.isEmpty, s, []⟩ :: cells rest

def history (ring : Forward ε) : List (List Call) := ring.map fun stage => stage.2.calls

def expected : Forward ε → List Op → List (List Call)
  | [], _ => []
  | (E, _) :: rest, ops => ops.flatMap (Op.calls E rest.isEmpty) :: expected rest ops

/-- An operation within the limits that the engines of all stages succeed with. -/
structure Op.Admitted (ring : Forward ε) (op : Op) : Prop where
  issued : op.Issued
  succeeds : ∀ stage ∈ ring, op.Succeeds stage.1

/-- The ring after an operation: the same engines, and in every stage the calls of the
operation after the ones before. -/
def Advances : Forward ε → Op → Forward ε → Prop
  | [], _, ring' => ring' = []
  | (E, s) :: rest, op, ring' => ∃ s' rest', ring' = (E, s') :: rest' ∧
      s'.calls = s.calls ++ op.calls E rest.isEmpty ∧ Advances rest op rest'

variable {ring ring' : Forward ε} {op : Op}

theorem Advances.isEmpty (h : Advances ring op ring') :
    ring'.isEmpty = ring.isEmpty := by
  cases ring with
  | nil =>
    obtain rfl : ring' = [] := h
    rfl
  | cons stage rest =>
    obtain ⟨s', rest', rfl, -, -⟩ := h
    rfl

theorem Advances.engines (h : Advances ring op ring') :
    ring'.map Prod.fst = ring.map Prod.fst := by
  induction ring generalizing ring' with
  | nil =>
    obtain rfl : ring' = [] := h
    rfl
  | cons stage rest ih =>
    obtain ⟨s', rest', rfl, -, hrest⟩ := h
    simp only [List.map_cons, ih hrest]

theorem Advances.admitted {op' : Op} (h : Advances ring op ring')
    (hop : op'.Admitted ring) : op'.Admitted ring' := by
  refine ⟨hop.issued, fun stage hstage => ?_⟩
  have hmem : stage.1 ∈ ring.map Prod.fst := h.engines ▸ List.mem_map_of_mem hstage
  obtain ⟨other, hother, heq⟩ := List.mem_map.mp hmem
  exact heq ▸ hop.succeeds other hother

theorem settle_op {fs : List Frame} (hne : ring ≠ [])
    (hop : op.Admitted ring) (harrives : op.Arrives fs) :
    ∃ ring' replies, settle (cells ring) fs = some (cells ring', replies) ∧
      op.task.Answers replies ∧ Advances ring op ring' := by
  induction ring generalizing fs with
  | nil => exact absurd rfl hne
  | cons stage rest ih =>
    obtain ⟨E, s⟩ := stage
    have hserves : op.Serves E rest.isEmpty s fs :=
      Op.serves hop.issued (hop.succeeds (E, s) List.mem_cons_self) harrives
    obtain ⟨s', sent, hread, hcalls, hsent⟩ := hserves
    cases rest with
    | nil => exact ⟨[(E, s')], sent, settle_cons hread rfl, hsent, s', [], rfl, hcalls, rfl⟩
    | cons next rest =>
      have hrest : op.Admitted (next :: rest) :=
        ⟨hop.issued, fun stage hstage => hop.succeeds stage (List.mem_cons_of_mem _ hstage)⟩
      obtain ⟨ring', replies, hsettle, hanswers, hadvances⟩ :=
        ih (List.cons_ne_nil next rest) hrest hsent
      have hlast : ring'.isEmpty = false := hadvances.isEmpty
      refine ⟨(E, s') :: ring', replies, ?_, hanswers, s', ring', rfl, hcalls, hadvances⟩
      show settle (_ :: cells (next :: rest)) fs =
        some (⟨Stage.handle E ring'.isEmpty, s', []⟩ :: cells ring', replies)
      rw [hlast]
      exact settle_cons hread hsettle

/-! ### Frames that are answered -/

/-- A frame that a stage answers, or sends on at the end of what it sends. -/
def Closing (f : Frame) : Prop :=
  f.kind ≠ .stateChunk ∧ f.kind ≠ .stateSetBegin ∧ f.kind ≠ .stateSetChunk

theorem emit_closes {s s' : Stage ε} {frames before sent : List Frame} {last : Frame}
    (h : emit s frames = some (s', sent)) (hframes : frames = before ++ [last])
    (hlast : Closing last) : sent ≠ [] ∧ Closes Closing sent := by
  unfold emit at h
  split_ifs at h
  obtain ⟨-, rfl⟩ := Prod.mk.inj (Option.some.inj h)
  rw [hframes]
  exact ⟨by simp, closes_append.mpr ⟨fun x hx => Option.some.inj hx ▸ hlast, by simp⟩⟩

theorem handle_closes {E : Engine ε} {isLast : Bool} {s s' : Stage ε} {f : Frame}
    {sent : List Frame} (h : Stage.handle E isLast s f = some (s', sent)) (hf : Closing f) :
    sent ≠ [] ∧ Closes Closing sent := by
  obtain ⟨hchunk, hbegin, hset⟩ := hf
  unfold Stage.handle at h
  cases hkind : f.kind <;>
    simp only [hkind, reduceCtorEq, ne_eq, not_true_eq_false] at h hchunk hbegin hset
  case reset =>
    refine emit_closes h (List.nil_append _).symm ?_
    cases isLast <;> simp [Closing]
  case memory =>
    simp only [Stage.onMemory] at h
    split_ifs at h
    all_goals
      obtain ⟨e, -, h⟩ := Option.bind_eq_some_iff.mp h
      exact emit_closes h (List.nil_append _).symm (by simp [Closing])
  case stateGet =>
    simp only [Stage.onStateGet] at h
    split_ifs at h
    all_goals
      obtain ⟨data, -, h⟩ := Option.bind_eq_some_iff.mp h
      exact emit_closes h rfl (by simp [Closing])
  case stateSetCommit =>
    simp only [Stage.onStateSetCommit] at h
    split_ifs at h
    all_goals exact emit_closes h (List.nil_append _).symm (by simp [Closing])
  case execute =>
    simp only [Stage.onExecute] at h
    split at h
    · cases h
    · obtain ⟨⟨e, output⟩, -, h⟩ := Option.bind_eq_some_iff.mp h
      dsimp only at h
      split_ifs at h
      all_goals
        obtain ⟨payload, -, h⟩ := Option.bind_eq_some_iff.mp h
        exact emit_closes h (List.nil_append _).symm (by simp [Closing])
  case embed =>
    simp only [Stage.onEmbed] at h
    split at h
    · cases h
    · obtain ⟨⟨e, output⟩, -, h⟩ := Option.bind_eq_some_iff.mp h
      dsimp only at h
      split_ifs at h
      · obtain ⟨terminals, -, h⟩ := Option.bind_eq_some_iff.mp h
        obtain ⟨payload, -, h⟩ := Option.bind_eq_some_iff.mp h
        exact emit_closes h (List.nil_append _).symm (by simp [Closing])
      · obtain ⟨payload, -, h⟩ := Option.bind_eq_some_iff.mp h
        exact emit_closes h (List.nil_append _).symm (by simp [Closing])
  all_goals
    simp only [Stage.onDecode, hkind] at h
    split at h
    · cases h
    · obtain ⟨⟨e, output⟩, -, h⟩ := Option.bind_eq_some_iff.mp h
      dsimp only at h
      split_ifs at h
      all_goals first
        | exact emit_closes h (List.nil_append _).symm (by simp [Closing])
        | (obtain ⟨payload, -, h⟩ := Option.bind_eq_some_iff.mp h
           exact emit_closes h (List.nil_append _).symm (by simp [Closing]))

theorem cells_productive (ring : Forward ε) : Productive Closing (cells ring) := by
  induction ring with
  | nil => exact fun c hc => absurd hc List.not_mem_nil
  | cons stage rest ih =>
    intro c hc
    rcases List.mem_cons.mp hc with rfl | hc
    · exact fun _ _ _ _ => handle_closes
    · exact ih c hc

theorem cells_quiet (ring : Forward ε) : Line.Quiet (cells ring) := by
  induction ring with
  | nil => exact fun c hc => absurd hc List.not_mem_nil
  | cons stage rest ih =>
    intro c hc
    rcases List.mem_cons.mp hc with rfl | hc
    · rfl
    · exact ih c hc

theorem task_closes (hissued : op.Issued) : Closes Closing op.task.frames := by
  have harrives := Op.arrives_send hissued
  cases op with
  | reset id => exact fun f hf => Option.some.inj hf ▸ by simp [Closing]
  | memory id op => exact fun f hf => Option.some.inj hf ▸ by simp [Closing]
  | stateGet id seqId flags => exact fun f hf => Option.some.inj hf ▸ by simp [Closing]
  | stateSet id seqId flags layerBegin layerEnd data =>
    exact closes_append.mpr ⟨fun f hf => Option.some.inj hf ▸ by simp [Closing], by simp⟩
  | execute id inv input =>
    obtain ⟨payload, r, hframes, -⟩ := harrives
    rw [hframes]
    exact fun f hf => Option.some.inj hf ▸ by simp [Closing]
  | _ =>
    obtain ⟨payload, b, hframes, -⟩ := harrives
    rw [hframes]
    exact fun f hf => Option.some.inj hf ▸ by simp [Closing]

/-! ### Sequences of operations -/

theorem served_ops {ops : List Op} (hne : ring ≠ [])
    (hops : ∀ op ∈ ops, op.Admitted ring) : Served Closing (cells ring) (ops.map Op.task) := by
  induction ops generalizing ring with
  | nil => trivial
  | cons op ops ih =>
    have hop := hops op List.mem_cons_self
    obtain ⟨ring', replies, hsettle, hanswers, hadvances⟩ :=
      settle_op hne hop (Op.arrives_send hop.issued)
    have hne' : ring' ≠ [] := by
      rw [← List.isEmpty_eq_false_iff, hadvances.isEmpty, List.isEmpty_eq_false_iff]
      exact hne
    exact ⟨task_closes hop.issued, cells ring', replies, hsettle, hanswers, ih hne'
      fun op' hop' => hadvances.admitted (hops op' (List.mem_cons_of_mem op hop'))⟩

inductive Ran : Forward ε → List Op → Forward ε → Prop
  | nil (ring : Forward ε) : Ran ring [] ring
  | cons {ring mid ring' : Forward ε} {op : Op} {ops : List Op} (first : Advances ring op mid)
    (rest : Ran mid ops ring') : Ran ring (op :: ops) ring'

theorem Advances.history (h : Advances ring op ring') :
    history ring' = List.zipWith (· ++ ·) (history ring) (expected ring [op]) ∧
      ∀ ops, expected ring' ops = expected ring ops := by
  induction ring generalizing ring' with
  | nil =>
    obtain rfl : ring' = [] := h
    exact ⟨rfl, fun _ => rfl⟩
  | cons stage rest ih =>
    obtain ⟨E, s⟩ := stage
    obtain ⟨s', rest', rfl, hcalls, hrest⟩ := h
    obtain ⟨hhistory, hexpected⟩ := ih hrest
    simp only [Ring.history, List.map_cons, expected, List.zipWith_cons_cons, hcalls,
      List.flatMap_cons, List.flatMap_nil, List.append_nil, hrest.isEmpty] at hhistory ⊢
    exact ⟨congrArg _ hhistory, fun ops => congrArg _ (hexpected ops)⟩

theorem zipWith_expected (ring : Forward ε) (op : Op) (ops : List Op) :
    List.zipWith (· ++ ·) (List.zipWith (· ++ ·) (history ring) (expected ring [op]))
        (expected ring ops) =
      List.zipWith (· ++ ·) (history ring) (expected ring (op :: ops)) := by
  induction ring with
  | nil => rfl
  | cons stage rest ih =>
    obtain ⟨E, s⟩ := stage
    simp only [history, List.map_cons, expected, List.zipWith_cons_cons, List.flatMap_cons,
      List.flatMap_nil, List.append_nil, List.append_assoc] at ih ⊢
    exact congrArg _ ih

theorem Ran.history {ops : List Op} (h : Ran ring ops ring') :
    history ring' = List.zipWith (· ++ ·) (history ring) (expected ring ops) := by
  induction h with
  | nil ring =>
    induction ring with
    | nil => rfl
    | cons stage rest ih =>
      obtain ⟨E, s⟩ := stage
      simp only [Ring.history, List.map_cons, expected, List.flatMap_nil, List.zipWith_cons_cons,
        List.append_nil] at ih ⊢
      exact congrArg _ ih
  | @cons ring mid ring' op ops first _ ih =>
    obtain ⟨hhistory, hexpected⟩ := first.history
    rw [ih, hhistory, hexpected, zipWith_expected]

theorem serve_ops {ops : List Op} (hne : ring ≠ [])
    (hops : ∀ op ∈ ops, op.Admitted ring) :
    ∃ ring' answers, serve (cells ring) (ops.map Op.task) = some (cells ring', answers) ∧
      List.Forall₂ (fun op replies => op.task.Answers replies) ops answers ∧
      Ran ring ops ring' := by
  induction ops generalizing ring with
  | nil => exact ⟨ring, [], rfl, List.Forall₂.nil, Ran.nil ring⟩
  | cons op ops ih =>
    have hop := hops op List.mem_cons_self
    obtain ⟨mid, replies, hsettle, hanswers, hadvances⟩ :=
      settle_op hne hop (Op.arrives_send hop.issued)
    have hne' : mid ≠ [] := by
      rw [← List.isEmpty_eq_false_iff, hadvances.isEmpty, List.isEmpty_eq_false_iff]
      exact hne
    obtain ⟨ring', answers, hserve, hall, hran⟩ := ih hne' fun op' hop' =>
      hadvances.admitted (hops op' (List.mem_cons_of_mem op hop'))
    refine ⟨ring', replies :: answers, ?_, List.Forall₂.cons hanswers hall, Ran.cons hadvances hran⟩
    simp only [List.map_cons, serve, hsettle, hserve, Option.bind_eq_bind, Option.bind_some]
    rfl

/-- An engine that does nothing, and succeeds. -/
def idleEngine : Engine Unit where
  firstLayer := 0
  lastLayer := 1
  reset := id
  applyMemory := fun e _ => some e
  getSequenceState := fun _ _ _ => some [0]
  setSequenceState := fun e _ _ _ => (e, true)
  executeBoundary := fun e _ => some (e, emptyTensor)
  encodeBoundary := fun e _ _ => some (e, emptyTensor)
  collectTerminals := fun _ => some emptyTensor
  decodeBoundary := fun e _ _ => some (e, emptyTensor)
  sampleArgmax := fun _ => 0

def idleStage : Stage Unit := ⟨(), Op.getWire 0 0, [], false, []⟩

theorem Op.send_execute (id : Word 8) {inv : Invocation} {input : BoundaryBundle}
    {payload : Bytes} (h : inv.request input = .ok payload) :
    (Op.execute id inv input).send = some [⟨.execute, id, 0, 0, payload⟩] := by
  simp only [Op.send, h, Except.toOption, Option.map_some]

theorem refused_request_unanswered {t : Pipeline.Task Frame} {payload : Bytes}
    (hframes : t.frames = [⟨.execute, 1, 0, 0, payload⟩])
    (hrefused : decodeExecuteBundle payload = .error .refused) : ∃ n,
    runs Net.step (Net.init (cells [(idleEngine, idleStage)]) [t]) [.start, .send, .sent] =
      some n ∧ n.phase = .waiting t [] ∧ ∀ m, n.step m = none := by
  have hstep : Stage.handle idleEngine true idleStage ⟨.execute, 1, 0, 0, payload⟩ = none := by
    simp only [Stage.handle, Stage.onExecute, hrefused]
  refine ⟨⟨⟨[⟨Stage.handle idleEngine true, idleStage,
    [⟨.execute, 1, 0, 0, payload⟩]⟩], []⟩, [], .waiting t [], []⟩, ?_, rfl, fun m => ?_⟩
  · simp only [runs, Net.step, Net.init, cells, List.isEmpty_nil, hframes, Option.bind_some,
      Line.push, List.nil_append]
  · cases m with
    | stage k =>
      cases k with
      | zero => simp only [Net.step, Line.stepAt, hstep, Option.map_none]
      | succ k => rfl
    | _ => rfl

end KvasirNet.Ring
