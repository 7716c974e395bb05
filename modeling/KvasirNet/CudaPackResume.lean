import KvasirNet.CudaPack

/-! An install with an honest server, from whatever a crash or a failure left behind. -/
namespace KvasirNet.CudaPack

section
variable {Entry Digest : Type} (P : Pack Digest) (sha256 : Bytes → Digest) (U : Unzip Entry)

/-- A server of the published archives: whether it takes a range, and how it cuts a body. -/
structure Server where
  archive : ℕ → Bytes
  ranges : Bool
  size : ℕ → ℕ → ℕ

/-- The archives that the pack pins, with all its files; and it has a worker. -/
structure Published (archive : ℕ → Bytes) : Prop where
  pinned : ∀ p < P.count, sha256 (archive p) = (P.part p).sha256
  size : ∀ p < P.count, (archive p).length = (P.part p).bytes ∧ 0 < (P.part p).bytes
  complete : ∀ p < P.count, ∃ es, U.entries (archive p) = some es ∧ es ≠ [] ∧
    (∀ e ∈ es, (U.extract (archive p) e).isSome = true) ∧
    ∀ f ∈ (P.part p).files, ∃ e ∈ es, ∃ data, U.extract (archive p) e = some (some (f, data))
  worker : ∃ k, P.workerPart = some k ∧ P.worker ∈ (P.part k).files

/-- What an install meets next, with this server on a machine that passes the check. -/
def Server.next (server : Server) : Pc Entry → Option Event
  | .checking => some (.checked none)
  | .starting _ => some .begins
  | .fetching _ held _ => some (.answered (if server.ranges && decide (0 < held) then 206 else 200))
  | .streaming p _ _ got _ =>
    if got < (server.archive p).length then
      some (.chunk (((server.archive p).drop got).take (max 1 (server.size p got))))
    else some .bodyEnds
  | .verifying _ _ => some .hashed
  | .extracting _ _ _ => some (.entry 0)
  | .writing _ _ _ _ _ => some .written
  | .replacing _ _ => some .renamed
  | .cleaning _ _ => some .cleaned
  | .linking [] => some .finishes
  | .linking (_ :: _) => some .linked
  | .copying _ _ _ => some .copied
  | .ended _ => none

def Over (s : World Entry) : Prop := ∀ pc ∈ s.tasks, ∃ result, pc = .ended result

/-- What is left of the download is a beginning of the archive, or too long and removed. -/
def Resumable (archive : ℕ → Bytes) (s : World Entry) (p : ℕ) : Prop :=
  ∀ content, s.zip p = some content →
    content <+: archive p ∨ (P.part p).bytes < content.length

/-- The part is still to install, and what is left of it is in the way. -/
def Blocked (archive : ℕ → Bytes) (s : World Entry) (p : ℕ) : Prop :=
  s.partInstalled P p = false ∧ ¬ Resumable P archive s p

def Collides (archive : ℕ → Bytes) (p : ℕ) : Prop :=
  ∃ content, content ≠ archive p ∧ sha256 content = (P.part p).sha256

end

section
variable {Entry Digest : Type} {P : Pack Digest} {s s' s'' : World Entry} {i p : ℕ} {pc : Pc Entry}

/-- Nothing but the part `p` is changed. -/
structure Beside (p : ℕ) (s s' : World Entry) : Prop where
  zip : ∀ q ≠ p, s'.zip q = s.zip q
  final : ∀ q ≠ p, s'.final q = s.final q

theorem Beside.trans (h : Beside p s s') (h' : Beside p s' s'') : Beside p s s'' :=
  ⟨fun q hq => (h'.zip q hq).trans (h.zip q hq), fun q hq => (h'.final q hq).trans (h.final q hq)⟩

theorem at_goTo (hi : s.tasks[i]? = some pc) {pc' : Pc Entry} (hs : s'.tasks = s.tasks.set i pc') :
    s'.tasks[i]? = some pc' := by
  rw [hs, List.getElem?_set_self', hi]
  rfl

theorem installed_congr (h : s'.final p = s.final p) : s'.partInstalled P p = s.partInstalled P p := by
  unfold World.partInstalled World.has
  rw [h]

theorem resumable_congr {archive : ℕ → Bytes} (h : s'.zip p = s.zip p) :
    Resumable P archive s' p ↔ Resumable P archive s p := by
  unfold Resumable
  rw [h]

theorem resumable_none {archive : ℕ → Bytes} (h : s.zip p = none) : Resumable P archive s p := by
  intro content hc
  rw [h] at hc
  cases hc

theorem writeAt_end (content chunk : Bytes) :
    writeAt content content.length chunk = content ++ chunk := by
  unfold writeAt
  rw [List.take_length, Nat.sub_self, List.drop_of_length_le (Nat.le_add_right _ _)]
  simp

def World.tmpHas (s : World Entry) (p : ℕ) (f : String) : Bool := ((s.tmp p).bind fun d => d f).isSome

theorem tmpHas_update {d : Option Dir} {f g : String} {data : Bytes}
    (h : (d.bind fun d => d g).isSome = true ∨ g = f) :
    (Function.update (d.getD fun _ => none) f (some data) g).isSome = true := by
  by_cases hgf : g = f
  · subst hgf
    rw [Function.update_self]
    rfl
  · rw [Function.update_of_ne hgf]
    cases d with
    | none => exact h.resolve_right hgf
    | some d => exact h.resolve_right hgf

end

variable {Entry Digest : Type} [DecidableEq Digest] (P : Pack Digest) (sha256 : Bytes → Digest)
  (U : Unzip Entry)

def serve (server : Server) (i : ℕ) (s : World Entry) : Option (World Entry) :=
  (s.tasks[i]?).bind fun pc => (server.next pc).bind fun e => step P sha256 U s (.task i e)

/-- So many steps of the install `i`. -/
def served (server : Server) (i : ℕ) : ℕ → World Entry → Option (World Entry)
  | 0, s => some s
  | n + 1, s => (serve P sha256 U server i s).bind (served server i n)

/-- The install that is called in `s` ends in `s'`. -/
def InstallEnds (server : Server) (s s' : World Entry) (result : Except String String) : Prop :=
  ∃ n, served P sha256 U server s.tasks.length n (s.install P) = some s' ∧
    s'.tasks[s.tasks.length]? = some (.ended result)

/-- Steps of the install `i`, any number of them. -/
def Serves (server : Server) (i : ℕ) (s s' : World Entry) : Prop :=
  ∃ n, served P sha256 U server i n s = some s'

variable {P sha256 U} {server : Server} {s s' s'' : World Entry} {i p : ℕ} {pc : Pc Entry}

theorem serves_refl (s : World Entry) : Serves P sha256 U server i s s := ⟨0, rfl⟩

theorem served_add (m n : ℕ) (s : World Entry) : served P sha256 U server i (m + n) s =
    (served P sha256 U server i m s).bind (served P sha256 U server i n) := by
  induction m generalizing s with
  | zero => rw [Nat.zero_add, served, Option.bind_some]
  | succ m ih =>
    rw [Nat.succ_add, served, served, Option.bind_assoc]
    exact congrArg _ (funext ih)

theorem Serves.trans (h : Serves P sha256 U server i s s') (h' : Serves P sha256 U server i s' s'') :
    Serves P sha256 U server i s s'' := by
  obtain ⟨m, hm⟩ := h
  obtain ⟨n, hn⟩ := h'
  refine ⟨m + n, ?_⟩
  rw [served_add, hm, Option.bind_some, hn]

theorem serves_one (hi : s.tasks[i]? = some pc) {e : Event} (he : server.next pc = some e)
    (hstep : s.resume P sha256 U i e pc = some s') : Serves P sha256 U server i s s' := by
  have hserve : serve P sha256 U server i s = some s' := by
    unfold serve
    rw [hi, Option.bind_some, he, Option.bind_some]
    change (s.tasks[i]?).bind _ = _
    rw [hi, Option.bind_some, hstep]
  exact ⟨1, by rw [served, hserve]; rfl⟩

/-! ### The body -/

theorem serves_body (hsize : (server.archive p).length = (P.part p).bytes) {append : Bool}
    {rest : List ℕ} (k : ℕ) {got : ℕ} {content : Bytes} {s : World Entry}
    (hi : s.tasks[i]? = some (.streaming p (s.gen p) append got rest))
    (hzip : s.zip p = some content) (hat : append = true ∨ content.length = got)
    (hgot : got + k = (server.archive p).length) :
    ∃ s', Serves P sha256 U server i s s' ∧ Beside p s s' ∧ s'.final p = s.final p ∧
      s'.tasks[i]? = some (.verifying p rest) ∧
      s'.zip p = some (content ++ (server.archive p).drop got) := by
  induction k using Nat.strongRecOn generalizing got content s with
  | ind k ih =>
    by_cases hmore : got < (server.archive p).length
    · -- a chunk of at least a byte
      set data := ((server.archive p).drop got).take (max 1 (server.size p got)) with hdata
      have hlen : 0 < data.length ∧ got + data.length ≤ (server.archive p).length := by
        rw [hdata, List.length_take, List.length_drop]
        omega
      have hwritten : (if append = true then content ++ data else writeAt content got data) =
          content ++ data := by
        split_ifs with happend
        · rfl
        · rw [← hat.resolve_left happend, writeAt_end]
      let s₁ : World Entry := World.goTo { s with
        zip := Function.update s.zip p ((s.zip p).map fun content =>
          if append then content ++ data else writeAt content got data) } i
            (.streaming p (s.gen p) append (got + data.length) rest)
      have hone : Serves P sha256 U server i s s₁ := by
        refine serves_one hi (e := .chunk data) (if_pos hmore) ?_
        change some (World.goTo (if s.gen p = s.gen p then _ else s) i _) = some s₁
        rw [if_pos rfl]
      have hzip₁ : s₁.zip p = some (content ++ data) := by
        change Function.update s.zip p _ p = _
        rw [Function.update_self, hzip, Option.map_some, hwritten]
      have hat₁ : append = true ∨ (content ++ data).length = got + data.length := by
        refine hat.imp_right fun hc => ?_
        rw [List.length_append, hc]
      obtain ⟨s', hserves, hbeside, hfinal, hi', hzip'⟩ := ih (k - data.length) (by omega)
        (at_goTo hi rfl : s₁.tasks[i]? = some (.streaming p (s₁.gen p) append (got + data.length) rest))
        hzip₁ hat₁ (by omega)
      have hfirst : Beside p s s₁ := ⟨fun q hq => Function.update_of_ne hq .., fun q _ => rfl⟩
      refine ⟨s', hone.trans hserves, hfirst.trans hbeside, hfinal, hi', ?_⟩
      have hrest : data ++ (server.archive p).drop (got + data.length) = (server.archive p).drop got := by
        obtain ⟨more, hcut⟩ := List.take_prefix (max 1 (server.size p got)) ((server.archive p).drop got)
        rw [← hdata] at hcut
        rw [← List.drop_drop, ← hcut, List.drop_left]
      rw [hzip', List.append_assoc, hrest]
    · have hall : got = (server.archive p).length := by omega
      refine ⟨World.goTo { s with phase := .verifying } i (.verifying p rest), ?_, ⟨fun _ _ => rfl,
        fun _ _ => rfl⟩, rfl, at_goTo hi rfl, ?_⟩
      · refine serves_one hi (e := .bodyEnds) (if_neg hmore) ?_
        change (if got = (P.part p).bytes then _ else _) = _
        rw [if_pos (hall.trans hsize)]
      · rw [hall, List.drop_length, List.append_nil]
        exact hzip

theorem serves_fetch (hsize : (server.archive p).length = (P.part p).bytes) {held : ℕ} {rest : List ℕ}
    (hi : s.tasks[i]? = some (.fetching p held rest)) (hheld : (s.zip p).elim 0 List.length = held)
    (hlt : held < (P.part p).bytes) :
    ∃ s' content, Serves P sha256 U server i s s' ∧ Beside p s s' ∧ s'.final p = s.final p ∧
      s'.tasks[i]? = some (.verifying p rest) ∧ s'.zip p = some content ∧
      (content = server.archive p ∨
        ∃ c, s.zip p = some c ∧ content = c ++ (server.archive p).drop c.length) := by
  by_cases hrange : server.ranges = true ∧ 0 < held
  · -- the rest of the file comes, and is appended
    obtain ⟨c, hc⟩ : ∃ c, s.zip p = some c := by
      cases hz : s.zip p with
      | none =>
        rw [hz] at hheld
        have : held = 0 := hheld.symm
        omega
      | some c => exact ⟨c, rfl⟩
    have hcheld : c.length = held := by
      rw [hc] at hheld
      exact hheld
    let s₁ : World Entry := (s.setZip p ((s.zip p).getD [])).goTo i
      (.streaming p (s.gen p) true held rest)
    have hone : Serves P sha256 U server i s s₁ := by
      refine serves_one hi (e := .answered 206) ?_ ?_
      · change some (Event.answered (if (server.ranges && decide (0 < held)) = true then 206 else 200)) = _
        rw [if_pos (by rw [hrange.1, decide_eq_true hrange.2]; rfl)]
      · unfold World.resume World.fetching
        dsimp only
        rw [if_neg (by decide), if_neg (by omega)]
    have hzip₁ : s₁.zip p = some c := by
      change Function.update s.zip p _ p = _
      rw [Function.update_self, hc]
      rfl
    obtain ⟨s', hserves, hbeside, hfinal, hi', hzip'⟩ := serves_body hsize
      ((server.archive p).length - held)
      (at_goTo hi rfl : s₁.tasks[i]? = some (.streaming p (s₁.gen p) true held rest)) hzip₁ (.inl rfl)
      (by omega)
    have hfirst : Beside p s s₁ := ⟨fun q hq => Function.update_of_ne hq .., fun q _ => rfl⟩
    exact ⟨s', _, hone.trans hserves, hfirst.trans hbeside, hfinal, hi', hzip',
      .inr ⟨c, hc, by rw [hcheld]⟩⟩
  · -- the file is made anew
    let s₁ : World Entry := (s.setZip p []).goTo i (.streaming p (s.gen p) false 0 rest)
    have hone : Serves P sha256 U server i s s₁ := by
      refine serves_one hi (e := .answered 200) ?_ ?_
      · change some (Event.answered (if (server.ranges && decide (0 < held)) = true then 206 else 200)) = _
        rw [if_neg (by rw [Bool.and_eq_true, decide_eq_true_eq]; exact hrange)]
      · unfold World.resume World.fetching
        dsimp only
        rw [if_neg (by decide), if_pos (.inl rfl)]
    have hzip₁ : s₁.zip p = some [] := Function.update_self ..
    obtain ⟨s', hserves, hbeside, hfinal, hi', hzip'⟩ := serves_body hsize
      (server.archive p).length
      (at_goTo hi rfl : s₁.tasks[i]? = some (.streaming p (s₁.gen p) false 0 rest)) hzip₁ (.inr rfl)
      (Nat.zero_add _)
    have hfirst : Beside p s s₁ := ⟨fun q hq => Function.update_of_ne hq .., fun q _ => rfl⟩
    exact ⟨s', _, hone.trans hserves, hfirst.trans hbeside, hfinal, hi', hzip', .inl rfl⟩

theorem serves_download (hsize : (server.archive p).length = (P.part p).bytes)
    (hpos : 0 < (P.part p).bytes) {rest : List ℕ} (hi : s.tasks[i]? = some (.starting (p :: rest))) :
    ∃ s' content, Serves P sha256 U server i s s' ∧ Beside p s s' ∧ s'.final p = s.final p ∧
      s'.tasks[i]? = some (.verifying p rest) ∧ s'.zip p = some content ∧
      (content = server.archive p ∨ ∃ c, s.zip p = some c ∧ c.length ≤ (P.part p).bytes ∧
        content = c ++ (server.archive p).drop c.length) := by
  by_cases hstale : (P.part p).bytes < (s.zip p).elim 0 List.length
  · let s₁ : World Entry := (World.rmZip { s with phase := .downloading } p).goTo i (.fetching p 0 rest)
    have hone : Serves P sha256 U server i s s₁ := by
      refine serves_one hi (e := .begins) rfl ?_
      unfold World.resume World.starting
      dsimp only
      simp only [hstale, if_true]
      rw [if_neg (by omega)]
    have hheld : (s₁.zip p).elim 0 List.length = 0 := by
      change (Function.update s.zip p none p).elim 0 List.length = 0
      rw [Function.update_self]
      rfl
    obtain ⟨s', content, hserves, hbeside, hfinal, hi', hzip', hcases⟩ := serves_fetch hsize
      (at_goTo hi rfl : s₁.tasks[i]? = some (.fetching p 0 rest)) hheld hpos
    have hfirst : Beside p s s₁ := ⟨fun q hq => Function.update_of_ne hq .., fun q _ => rfl⟩
    refine ⟨s', content, hone.trans hserves, hfirst.trans hbeside, hfinal, hi', hzip', .inl ?_⟩
    rcases hcases with harchive | ⟨c, hc, -⟩
    · exact harchive
    · have hnone : s₁.zip p = none := Function.update_self ..
      rw [hnone] at hc
      cases hc
  · by_cases hwhole : (s.zip p).elim 0 List.length = (P.part p).bytes
    · let s₁ : World Entry := World.goTo { s with phase := .verifying } i (.verifying p rest)
      have hone : Serves P sha256 U server i s s₁ := by
        refine serves_one hi (e := .begins) rfl ?_
        unfold World.resume World.starting
        dsimp only
        simp only [hstale, if_false]
        rw [if_pos hwhole]
      obtain ⟨c, hc⟩ : ∃ c, s.zip p = some c := by
        cases hz : s.zip p with
        | none =>
          rw [hz] at hwhole
          have : 0 = (P.part p).bytes := hwhole
          omega
        | some c => exact ⟨c, rfl⟩
      rw [hc] at hwhole
      have hlen : c.length = (P.part p).bytes := hwhole
      refine ⟨s₁, c, hone, ⟨fun _ _ => rfl, fun _ _ => rfl⟩, rfl, at_goTo hi rfl, hc,
        .inr ⟨c, hc, Nat.le_of_eq hlen, ?_⟩⟩
      rw [hlen, ← hsize, List.drop_length, List.append_nil]
    · let s₁ : World Entry := World.goTo { s with phase := .downloading } i
        (.fetching p ((s.zip p).elim 0 List.length) rest)
      have hone : Serves P sha256 U server i s s₁ := by
        refine serves_one hi (e := .begins) rfl ?_
        unfold World.resume World.starting
        dsimp only
        simp only [hstale, if_false]
        rw [if_neg hwhole]
      obtain ⟨s', content, hserves, hbeside, hfinal, hi', hzip', hcases⟩ := serves_fetch hsize
        (at_goTo hi rfl : s₁.tasks[i]? = some (.fetching p ((s.zip p).elim 0 List.length) rest)) rfl
        (by omega)
      have hfirst : Beside p s s₁ := ⟨fun q _ => rfl, fun q _ => rfl⟩
      refine ⟨s', content, hone.trans hserves, hfirst.trans hbeside, hfinal, hi', hzip', ?_⟩
      refine hcases.imp_right ?_
      rintro ⟨c, hc, rfl⟩
      have hc' : s.zip p = some c := hc
      refine ⟨c, hc', ?_, rfl⟩
      rw [hc'] at hstale
      exact Nat.le_of_not_lt hstale

/-! ### The files -/

theorem serves_entries {archive : Bytes} {rest : List ℕ} (es : List Entry) {s : World Entry}
    (hi : s.tasks[i]? = some (.extracting p es rest)) (hzip : s.zip p = some archive)
    (hes : ∀ e ∈ es, (U.extract archive e).isSome = true) :
    ∃ s', Serves P sha256 U server i s s' ∧ s'.zip = s.zip ∧ s'.final = s.final ∧
      s'.tasks[i]? = some (.extracting p [] rest) ∧
      ((s.tmp p).isSome = true ∨ es ≠ [] → (s'.tmp p).isSome = true) ∧
      ∀ f, (s.tmpHas p f = true ∨ ∃ e ∈ es, ∃ data, U.extract archive e = some (some (f, data))) →
        s'.tmpHas p f = true := by
  induction es generalizing s with
  | nil =>
    refine ⟨s, serves_refl s, rfl, rfl, hi, fun h => h.resolve_right fun hne => hne rfl, fun f h => ?_⟩
    rcases h with h | ⟨e, he, -⟩
    · exact h
    · cases he
  | cons e es ih =>
    have hrest : ∀ x ∈ es, (U.extract archive x).isSome = true :=
      fun x hx => hes x (List.mem_cons_of_mem e hx)
    have hread : (s.zip p).bind (fun content => U.extract content e) = U.extract archive e := by
      rw [hzip, Option.bind_some]
    obtain ⟨x, hx⟩ := Option.isSome_iff_exists.mp (hes e List.mem_cons_self)
    cases x with
    | none =>
      -- a directory
      let s₁ : World Entry := (s.setTmp p (some ((s.tmp p).getD fun _ => none))).goTo i
        (.extracting p es rest)
      have hone : Serves P sha256 U server i s s₁ := by
        refine serves_one hi (e := .entry 0) rfl ?_
        unfold World.resume World.extracting
        dsimp only
        rw [hread, hx]
      have htmp₁ : s₁.tmp p = some ((s.tmp p).getD fun _ => none) := Function.update_self ..
      obtain ⟨s', hserves, hzip', hfinal, hi', hsome, hhas⟩ := ih
        (at_goTo hi rfl : s₁.tasks[i]? = some (.extracting p es rest)) hzip hrest
      refine ⟨s', hone.trans hserves, hzip', hfinal, hi', fun _ => hsome (.inl ?_), fun f h => hhas f ?_⟩
      · rw [htmp₁]
        rfl
      · rcases h with h | ⟨y, hy, data, hdata⟩
        · refine .inl ?_
          unfold World.tmpHas at h ⊢
          rw [htmp₁]
          cases hd : s.tmp p with
          | none =>
            rw [hd] at h
            cases h
          | some d =>
            rw [hd] at h
            exact h
        · rcases List.mem_cons.mp hy with rfl | hy
          · cases hx.symm.trans hdata
          · exact .inr ⟨y, hy, data, hdata⟩
    | some file =>
      obtain ⟨f, data⟩ := file
      let s₁ : World Entry := (s.setTmp p (some (Function.update ((s.tmp p).getD fun _ => none) f
        (some (data.take 0))))).goTo i (.writing p f data es rest)
      have hone : Serves P sha256 U server i s s₁ := by
        refine serves_one hi (e := .entry 0) rfl ?_
        unfold World.resume World.extracting
        dsimp only
        rw [hread, hx]
      have htmp₁ : s₁.tmp p = some (Function.update ((s.tmp p).getD fun _ => none) f
        (some (data.take 0))) := Function.update_self ..
      let s₂ : World Entry := (s₁.setTmp p (some (Function.update
        (Function.update ((s.tmp p).getD fun _ => none) f (some (data.take 0))) f (some data)))).goTo i
          (.extracting p es rest)
      have htwo : Serves P sha256 U server i s₁ s₂ := by
        refine serves_one (at_goTo hi rfl : s₁.tasks[i]? = some (.writing p f data es rest))
          (e := .written) rfl ?_
        unfold World.resume World.writing
        dsimp only
        rw [htmp₁]
      have htmp₂ : s₂.tmp p = some (Function.update ((s.tmp p).getD fun _ => none) f (some data)) := by
        change Function.update s₁.tmp p _ p = _
        rw [Function.update_self, Function.update_idem]
      have hi₂ : s₂.tasks[i]? = some (.extracting p es rest) :=
        at_goTo (at_goTo hi rfl : s₁.tasks[i]? = some (.writing p f data es rest)) rfl
      obtain ⟨s', hserves, hzip', hfinal, hi', hsome, hhas⟩ := ih hi₂ hzip hrest
      refine ⟨s', (hone.trans htwo).trans hserves, hzip', hfinal, hi', fun _ => hsome (.inl ?_),
        fun g h => hhas g ?_⟩
      · rw [htmp₂]
        rfl
      · rcases h with h | ⟨y, hy, bytes, hbytes⟩
        · refine .inl ?_
          unfold World.tmpHas at h ⊢
          rw [htmp₂]
          exact tmpHas_update (.inl h)
        · rcases List.mem_cons.mp hy with rfl | hy
          · have hgf : g = f := by
              rw [hx] at hbytes
              exact (congrArg Prod.fst (Option.some.inj (Option.some.inj hbytes))).symm
            refine .inl ?_
            unfold World.tmpHas
            rw [htmp₂]
            exact tmpHas_update (.inr hgf)
          · exact .inr ⟨y, hy, bytes, hbytes⟩

theorem serves_place (hpub : Published P sha256 U server.archive) (hp : p < P.count) {rest : List ℕ}
    (hi : s.tasks[i]? = some (.verifying p rest)) (hzip : s.zip p = some (server.archive p)) :
    ∃ s', Serves P sha256 U server i s s' ∧ Beside p s s' ∧ s'.tasks[i]? = some (.starting rest) ∧
      s'.zip p = none ∧ s'.partInstalled P p = true := by
  obtain ⟨es, hes, hne, hextract, hfiles⟩ := hpub.complete p hp
  let s₁ : World Entry := (World.setTmp { s with phase := .installing } p none).goTo i
    (.extracting p es rest)
  have hone : Serves P sha256 U server i s s₁ := by
    refine serves_one hi (e := .hashed) rfl ?_
    unfold World.resume World.verifying
    dsimp only
    rw [hzip]
    dsimp only
    rw [if_pos (hpub.pinned p hp), hes]
  obtain ⟨s₂, htwo, hzip₂, hfinal₂, hi₂, hsome₂, hhas₂⟩ := @serves_entries _ _ _ P sha256 _ server _ _ _
    _ es _ (at_goTo hi rfl : s₁.tasks[i]? = some (.extracting p es rest)) hzip hextract
  have hall : ((P.part p).files.all fun f => s₂.tmpHas p f) = true := by
    apply List.all_eq_true.mpr
    intro f hf
    exact hhas₂ f (.inr (hfiles f hf))
  obtain ⟨d, hd⟩ := Option.isSome_iff_exists.mp (hsome₂ (.inr hne))
  let s₃ : World Entry := s₂.goTo i (.replacing p rest)
  have hthree : Serves P sha256 U server i s₂ s₃ := by
    refine serves_one hi₂ (e := .entry 0) rfl ?_
    unfold World.resume World.extracting
    exact if_pos hall
  have hi₃ : s₃.tasks[i]? = some (.replacing p rest) := at_goTo hi₂ rfl
  let s₄ : World Entry := ((s₃.setFinal p (some d)).setTmp p none).goTo i (.cleaning p rest)
  have hfour : Serves P sha256 U server i s₃ s₄ := by
    refine serves_one hi₃ (e := .renamed) rfl ?_
    unfold World.resume World.replacing
    dsimp only
    have hd₃ : s₃.tmp p = some d := hd
    rw [hd₃]
  have hi₄ : s₄.tasks[i]? = some (.cleaning p rest) := at_goTo hi₃ rfl
  let s₅ : World Entry := (s₄.rmZip p).goTo i (.starting rest)
  have hfive : Serves P sha256 U server i s₄ s₅ := serves_one hi₄ (e := .cleaned) rfl rfl
  refine ⟨s₅, (((hone.trans htwo).trans hthree).trans hfour).trans hfive, ⟨fun q hq => ?_, fun q hq => ?_⟩,
    at_goTo hi₄ rfl, Function.update_self .., ?_⟩
  · change Function.update s₂.zip p none q = _
    rw [Function.update_of_ne hq, hzip₂]
    rfl
  · change Function.update s₂.final p (some d) q = _
    rw [Function.update_of_ne hq, hfinal₂]
    rfl
  · unfold World.partInstalled
    apply List.all_eq_true.mpr
    intro f hf
    have hf' := List.all_eq_true.mp hall f hf
    unfold World.tmpHas at hf'
    rw [hd] at hf'
    have hfinal₅ : s₅.final p = some d := Function.update_self ..
    unfold World.has
    rw [hfinal₅]
    exact hf'

/-- A part, with what was left of it: it is installed, or what was left was not of its archive and
is removed. -/
theorem serves_part (hpub : Published P sha256 U server.archive) (hp : p < P.count) {rest : List ℕ}
    (hi : s.tasks[i]? = some (.starting (p :: rest))) :
    ∃ s', Serves P sha256 U server i s s' ∧ Beside p s s' ∧
      ((s'.tasks[i]? = some (.starting rest) ∧ s'.zip p = none ∧ s'.partInstalled P p = true) ∨
        ¬ Resumable P server.archive s p ∧ (Collides P sha256 server.archive p ∨
          s'.zip p = none ∧ s'.final p = s.final p ∧ s'.phase.busy = false ∧
            ∃ message, s'.tasks[i]? = some (.ended (.error message)))) := by
  obtain ⟨hsize, hpos⟩ := hpub.size p hp
  obtain ⟨s₁, content, hone, hbeside, hfinal, hi₁, hzip₁, hcases⟩ :=
    @serves_download _ _ _ _ sha256 U _ _ _ _ hsize hpos _ hi
  by_cases harchive : content = server.archive p
  · subst harchive
    obtain ⟨s', hserves, hbeside', hi', hzip', hinstalled⟩ := serves_place hpub hp hi₁ hzip₁
    exact ⟨s', hone.trans hserves, hbeside.trans hbeside', .inl ⟨hi', hzip', hinstalled⟩⟩
  · obtain ⟨c, hc, hle, hcontent⟩ := hcases.resolve_left harchive
    have hnot : ¬ Resumable P server.archive s p := by
      intro hres
      rcases hres c hc with ⟨more, hmore⟩ | hlong
      · refine harchive ?_
        rw [hcontent, ← hmore, List.drop_left]
      · omega
    by_cases hsha : sha256 content = (P.part p).sha256
    · exact ⟨s₁, hone, hbeside, .inr ⟨hnot, .inl ⟨content, harchive, hsha⟩⟩⟩
    · let s₂ : World Entry := (s₁.rmZip p).failPart i p
        s!"the downloaded {(P.part p).id} does not match its expected hash"
      have htwo : Serves P sha256 U server i s₁ s₂ := by
        refine serves_one hi₁ (e := .hashed) rfl ?_
        unfold World.resume World.verifying
        dsimp only
        rw [hzip₁]
        exact if_neg hsha
      have hbeside₂ : Beside p s₁ s₂ := ⟨fun q hq => Function.update_of_ne hq .., fun q _ => rfl⟩
      exact ⟨s₂, hone.trans htwo, hbeside.trans hbeside₂, .inr ⟨hnot, .inr ⟨Function.update_self ..,
        hfinal, rfl, _, at_goTo hi₁ rfl⟩⟩⟩

theorem serves_todo (hpub : Published P sha256 U server.archive) (todo : List ℕ)
    (htodo : ∀ p ∈ todo, p < P.count) (hnodup : todo.Nodup) {s : World Entry}
    (hmissing : ∀ p ∈ todo, s.partInstalled P p = false)
    (hi : s.tasks[i]? = some (.starting todo)) :
    ∃ s', Serves P sha256 U server i s s' ∧
      ((s'.tasks[i]? = some (.starting []) ∧
          ∀ q, s.partInstalled P q = true ∨ q ∈ todo → s'.partInstalled P q = true) ∨
        ∃ p < P.count, Blocked P server.archive s p ∧ (Collides P sha256 server.archive p ∨
          (¬ Blocked P server.archive s' p ∧
            (∀ q, Blocked P server.archive s' q → Blocked P server.archive s q) ∧
            s'.phase.busy = false ∧ ∃ message, s'.tasks[i]? = some (.ended (.error message))))) := by
  induction todo generalizing s with
  | nil => exact ⟨s, serves_refl s, .inl ⟨hi, fun q hq => hq.resolve_right fun hq => by cases hq⟩⟩
  | cons p rest ih =>
    have hp := htodo p List.mem_cons_self
    obtain ⟨hnotin, hrest⟩ := List.nodup_cons.mp hnodup
    obtain ⟨s₁, hone, hbeside, hcases⟩ := serves_part hpub hp hi
    have hothers : ∀ q ≠ p, Blocked P server.archive s₁ q ↔ Blocked P server.archive s q := by
      intro q hq
      unfold Blocked
      rw [installed_congr (hbeside.final q hq), resumable_congr (hbeside.zip q hq)]
    rcases hcases with ⟨hi₁, hzip₁, hinstalled⟩ | ⟨hnot, hend⟩
    · have hmissing₁ : ∀ q ∈ rest, s₁.partInstalled P q = false := by
        intro q hq
        have hqp : q ≠ p := fun hqp => hnotin (hqp ▸ hq)
        rw [installed_congr (hbeside.final q hqp)]
        exact hmissing q (List.mem_cons_of_mem p hq)
      obtain ⟨s', hserves, hdone⟩ := ih (fun q hq => htodo q (List.mem_cons_of_mem p hq)) hrest hmissing₁
        hi₁
      refine ⟨s', hone.trans hserves, ?_⟩
      have hfree : ¬ Blocked P server.archive s₁ p := by
        rintro ⟨hno, -⟩
        rw [hinstalled] at hno
        cases hno
      rcases hdone with ⟨hi', hall⟩ | ⟨q, hq, hblocked, hend⟩
      · refine .inl ⟨hi', fun q hq => hall q ?_⟩
        by_cases hqp : q = p
        · subst hqp
          exact .inl hinstalled
        · refine hq.imp (fun h => ?_) fun h => (List.mem_cons.mp h).resolve_left hqp
          rw [installed_congr (hbeside.final q hqp)]
          exact h
      · have hqp : q ≠ p := by
          rintro rfl
          exact hfree hblocked
        refine .inr ⟨q, hq, (hothers q hqp).mp hblocked, hend.imp_right ?_⟩
        rintro ⟨hgone, hfewer, hidle⟩
        refine ⟨hgone, fun r hr => ?_, hidle⟩
        have hr₁ := hfewer r hr
        have hrp : r ≠ p := by
          rintro rfl
          exact hfree hr₁
        exact (hothers r hrp).mp hr₁
    · refine ⟨s₁, hone, .inr ⟨p, hp, ⟨hmissing p List.mem_cons_self, hnot⟩, hend.imp_right ?_⟩⟩
      rintro ⟨hzip₁, -, hidle, hended⟩
      refine ⟨fun hb => hb.2 (resumable_none hzip₁), fun q hb => ?_, hidle, hended⟩
      have hqp : q ≠ p := by
        rintro rfl
        exact hb.2 (resumable_none hzip₁)
      exact (hothers q hqp).mp hb

theorem serves_links {k : ℕ} (hk : P.workerPart = some k) (left : List (ℕ × String)) {s : World Entry}
    (hi : s.tasks[i]? = some (.linking left)) (hdir : (s.final k).isSome = true)
    (hleft : ∀ x ∈ left, s.has x.1 x.2 = true) :
    ∃ s', Serves P sha256 U server i s s' ∧ s'.tasks[i]? = some (.linking []) ∧
      (∀ q f, s.has q f = true → s'.has q f = true) ∧ ∀ x ∈ left, s'.has k x.2 = true := by
  induction left generalizing s with
  | nil => exact ⟨s, serves_refl s, hi, fun _ _ h => h, fun x hx => by cases hx⟩
  | cons x left ih =>
    obtain ⟨q, f⟩ := x
    -- one file: it is there already, or it is linked
    have hstep : ∃ s₁, Serves P sha256 U server i s s₁ ∧ s₁.tasks[i]? = some (.linking left) ∧
        (s₁.final k).isSome = true ∧ (∀ q f, s.has q f = true → s₁.has q f = true) ∧
        s₁.has k f = true := by
      by_cases hhas : s.has k f = true
      · refine ⟨s.goTo i (.linking left), ?_, at_goTo hi rfl, hdir, fun _ _ h => h, hhas⟩
        refine serves_one hi (e := .linked) rfl ?_
        change P.workerPart.bind _ = _
        rw [hk]
        exact if_pos hhas
      · obtain ⟨d, hd⟩ := Option.isSome_iff_exists.mp hdir
        obtain ⟨data, hdata⟩ : ∃ data, ((s.final q).bind fun d => d f) = some data := by
          have hq : s.has q f = true := hleft (q, f) List.mem_cons_self
          unfold World.has at hq
          cases hfinal : s.final q with
          | none =>
            rw [hfinal] at hq
            cases hq
          | some d' =>
            rw [hfinal] at hq
            exact Option.isSome_iff_exists.mp hq
        let s₁ : World Entry := (s.setFinal k (some (Function.update d f (some data)))).goTo i
          (.linking left)
        have hfinal₁ : s₁.final k = some (Function.update d f (some data)) := Function.update_self ..
        refine ⟨s₁, ?_, at_goTo hi rfl, by rw [hfinal₁]; rfl, fun r g hr => ?_, ?_⟩
        · refine serves_one hi (e := .linked) rfl ?_
          change P.workerPart.bind _ = _
          rw [hk, Option.bind_some]
          unfold World.linking
          dsimp only
          rw [if_neg hhas, hd, hdata]
        · by_cases hrk : r = k
          · subst hrk
            unfold World.has at hr ⊢
            rw [hd] at hr
            rw [hfinal₁]
            by_cases hgf : g = f
            · subst hgf
              change (Function.update d g (some data) g).isSome = true
              rw [Function.update_self]
              rfl
            · change (Function.update d f (some data) g).isSome = true
              rw [Function.update_of_ne hgf]
              exact hr
          · have hsame : s₁.final r = s.final r := Function.update_of_ne hrk ..
            unfold World.has at hr ⊢
            rw [hsame]
            exact hr
        · unfold World.has
          rw [hfinal₁]
          change (Function.update d f (some data) f).isSome = true
          rw [Function.update_self]
          rfl
    obtain ⟨s₁, hone, hi₁, hdir₁, hmore, hhas₁⟩ := hstep
    obtain ⟨s', hserves, hi', hmore', hall⟩ := ih hi₁ hdir₁ fun x hx =>
      hmore _ _ (hleft x (List.mem_cons_of_mem _ hx))
    refine ⟨s', hone.trans hserves, hi', fun r g hr => hmore' r g (hmore r g hr), fun x hx => ?_⟩
    rcases List.mem_cons.mp hx with rfl | hx
    · exact hmore' k f hhas₁
    · exact hall x hx

theorem serves_finish (hpub : Published P sha256 U server.archive)
    (hi : s.tasks[i]? = some (.starting [])) (hall : ∀ p < P.count, s.partInstalled P p = true) :
    ∃ s' path, Serves P sha256 U server i s s' ∧ s'.tasks[i]? = some (.ended (.ok path)) ∧
      s'.workerPath P = some path := by
  obtain ⟨k, hk, hworker⟩ := hpub.worker
  have hlt : k < P.count := List.mem_range.mp (List.mem_of_find?_eq_some hk)
  have hhas : ∀ p < P.count, ∀ f ∈ (P.part p).files, s.has p f = true :=
    fun p hp f hf => List.all_eq_true.mp (hall p hp) f hf
  have hdir : (s.final k).isSome = true := by
    have hself := hhas k hlt P.worker hworker
    unfold World.has at hself
    cases hfinal : s.final k with
    | none =>
      rw [hfinal] at hself
      cases hself
    | some d => rfl
  have hone : Serves P sha256 U server i s (s.goTo i (.linking (P.beside k))) := by
    refine serves_one hi (e := .begins) rfl ?_
    unfold World.resume World.starting
    dsimp only
    rw [hk]
  have hbeside : ∀ x ∈ P.beside k, s.has x.1 x.2 = true := by
    intro x hx
    obtain ⟨q, hq, hx⟩ := List.mem_flatMap.mp hx
    obtain ⟨f, hf, rfl⟩ := List.mem_map.mp hx
    exact hhas q (List.mem_range.mp (List.mem_filter.mp hq).1) f hf
  obtain ⟨s₁, htwo, hi₁, hmore, hlinked⟩ := @serves_links _ _ _ P sha256 U server _ _ hk (P.beside k) _ (at_goTo hi rfl :
      (s.goTo i (.linking (P.beside k))).tasks[i]? = some (.linking (P.beside k))) hdir hbeside
  have hpath : s₁.workerPath P = some s!"{P.partDir k}/{P.worker}" := by
    have hparts : (List.range P.count).all (s₁.partInstalled P) = true := by
      apply List.all_eq_true.mpr
      intro p hp
      apply List.all_eq_true.mpr
      intro f hf
      exact hmore p f (hhas p (List.mem_range.mp hp) f hf)
    have hlinks : ((P.beside k).all fun x => s₁.has k x.2) = true := List.all_eq_true.mpr hlinked
    have hself : s₁.has k P.worker = true := hmore k P.worker (hhas k hlt P.worker hworker)
    unfold World.workerPath
    rw [hk]
    dsimp only
    rw [hparts, hlinks, hself]
    rfl
  let s₂ : World Entry := World.goTo { s₁ with
    phase := .installed
    error := none
    tmp := if P.split then fun _ => none else s₁.tmp } i (.ended (.ok s!"{P.partDir k}/{P.worker}"))
  have hthree : Serves P sha256 U server i s₁ s₂ := by
    refine serves_one hi₁ (e := .finishes) rfl ?_
    change P.workerPart.bind _ = _
    rw [hk, Option.bind_some]
    unfold World.linking
    dsimp only
    rw [hpath]
  exact ⟨s₂, _, (hone.trans htwo).trans hthree, at_goTo hi₁ rfl, hpath⟩

theorem install_honest (hpub : Published P sha256 U server.archive) (hidle : s.phase.busy = false) :
    (∃ s' path, InstallEnds P sha256 U server s s' (.ok path) ∧ s'.workerPath P = some path) ∨
    ∃ p < P.count, Blocked P server.archive s p ∧ (Collides P sha256 server.archive p ∨
      ∃ s' message, InstallEnds P sha256 U server s s' (.error message) ∧
        ¬ Blocked P server.archive s' p ∧
        (∀ q, Blocked P server.archive s' q → Blocked P server.archive s q) ∧
        s'.phase.busy = false) := by
  cases hpath : s.workerPath P with
  | some path =>
    have hinstall : s.install P = { s with tasks := s.tasks ++ [.ended (.ok path)] } := by
      unfold World.install
      rw [hpath]
    refine .inl ⟨_, path, ⟨0, congrArg some hinstall, List.getElem?_concat_length⟩, hpath⟩
  | none =>
    have hinstall : s.install P = { s with tasks := s.tasks ++ [.checking] } := by
      unfold World.install
      rw [hpath]
      dsimp only
      rw [hidle]
      rfl
    have hi : (s.install P).tasks[s.tasks.length]? = some .checking := by
      rw [hinstall]
      exact List.getElem?_concat_length
    let todo := (List.range P.count).filter fun p => !s.partInstalled P p
    let s₁ : World Entry := World.goTo { s.install P with
      phase := .downloading
      error := none } s.tasks.length (.starting todo)
    have hone : Serves P sha256 U server s.tasks.length (s.install P) s₁ := by
      refine serves_one hi (e := .checked none) rfl ?_
      have hsame : (s.install P).partInstalled P = s.partInstalled P := by rw [hinstall]; rfl
      unfold World.resume World.checking
      dsimp only
      rw [hsame]
    have hzip₁ : s₁.zip = s.zip := by
      change (s.install P).zip = _
      rw [hinstall]
    have hfinal₁ : s₁.final = s.final := by
      change (s.install P).final = _
      rw [hinstall]
    have hparts₁ : ∀ p, s₁.partInstalled P p = s.partInstalled P p :=
      fun p => installed_congr (congrFun hfinal₁ p)
    have hblocked₁ : ∀ p, Blocked P server.archive s₁ p ↔ Blocked P server.archive s p := by
      intro p
      unfold Blocked
      rw [hparts₁, resumable_congr (congrFun hzip₁ p)]
    obtain ⟨s₂, htwo, hend⟩ := serves_todo hpub todo
      (fun p hp => List.mem_range.mp (List.mem_filter.mp hp).1) (List.nodup_range.filter _)
      (fun p hp => by simpa [hparts₁] using (List.mem_filter.mp hp).2)
      (at_goTo hi rfl : s₁.tasks[s.tasks.length]? = some (.starting todo))
    rcases hend with ⟨hi₂, hall⟩ | ⟨p, hp, hblocked, hend⟩
    · have hevery : ∀ p < P.count, s₂.partInstalled P p = true := by
        intro p hp
        refine hall p ?_
        by_cases hinstalled : s.partInstalled P p = true
        · exact .inl ((hparts₁ p).trans hinstalled)
        · refine .inr (List.mem_filter.mpr ⟨List.mem_range.mpr hp, ?_⟩)
          simpa using hinstalled
      obtain ⟨s', path, hthree, hi', hpath'⟩ := serves_finish hpub hi₂ hevery
      obtain ⟨n, hn⟩ := (hone.trans htwo).trans hthree
      exact .inl ⟨s', path, ⟨n, hn, hi'⟩, hpath'⟩
    · refine .inr ⟨p, hp, (hblocked₁ p).mp hblocked, hend.imp_right ?_⟩
      rintro ⟨hgone, hfewer, hidle₂, message, hi₂⟩
      obtain ⟨n, hn⟩ := hone.trans htwo
      exact ⟨s₂, message, ⟨n, hn, hi₂⟩, hgone, fun q hq => (hblocked₁ q).mp (hfewer q hq), hidle₂⟩

inductive Succeeds (P : Pack Digest) (sha256 : Bytes → Digest) (U : Unzip Entry) (server : Server) :
    World Entry → Prop
  | now {s s' : World Entry} {path : String} (ends : InstallEnds P sha256 U server s s' (.ok path))
      (installed : s'.workerPath P = some path) : Succeeds P sha256 U server s
  | later {s s' : World Entry} {message : String}
      (ends : InstallEnds P sha256 U server s s' (.error message))
      (next : Succeeds P sha256 U server s') : Succeeds P sha256 U server s

theorem succeeds (hpub : Published P sha256 U server.archive)
    (hunique : ∀ p < P.count, ¬ Collides P sha256 server.archive p) (hidle : s.phase.busy = false) :
    Succeeds P sha256 U server s := by
  classical
  induction hn : ((List.range P.count).filter fun p => Blocked P server.archive s p).length
    using Nat.strongRecOn generalizing s with
  | ind n ih =>
    subst hn
    rcases install_honest hpub hidle with ⟨s', path, hends, hpath⟩ | ⟨p, hp, hblocked, hend⟩
    · exact .now hends hpath
    · obtain ⟨s', message, hends, hgone, hfewer, hidle'⟩ := hend.resolve_left (hunique p hp)
      refine .later hends (ih _ ?_ hidle' rfl)
      have hsub : ((List.range P.count).filter fun q => Blocked P server.archive s' q).Sublist
          ((List.range P.count).filter fun q => Blocked P server.archive s q) := by
        apply List.monotone_filter_right
        intro q hq
        exact decide_eq_true (hfewer q (of_decide_eq_true hq))
      refine Nat.lt_of_le_of_ne hsub.length_le fun hlen => ?_
      have hsame := hsub.eq_of_length hlen
      have hmem : p ∈ (List.range P.count).filter fun q => Blocked P server.archive s q :=
        List.mem_filter.mpr ⟨List.mem_range.mpr hp, decide_eq_true hblocked⟩
      rw [← hsame] at hmem
      exact hgone (of_decide_eq_true (List.mem_filter.mp hmem).2)

/-- The archive of a file "w" of one byte, that is stored. -/
def smallZip (crc : Bytes) (data : UInt8) : Bytes :=
  [80, 75, 3, 4, 20, 0, 0, 0, 0, 0, 0, 0, 33, 0] ++ crc ++
    [1, 0, 0, 0, 1, 0, 0, 0, 1, 0, 0, 0, 119, data] ++
    [80, 75, 1, 2, 20, 0, 20, 0, 0, 0, 0, 0, 0, 0, 33, 0] ++ crc ++
    [1, 0, 0, 0, 1, 0, 0, 0, 1, 0, 0, 0, 0, 0, 0, 0, 0, 0, 0, 0, 128, 1, 0, 0, 0, 0, 119] ++
    [80, 75, 5, 6, 0, 0, 0, 0, 1, 0, 1, 0, 47, 0, 0, 0, 32, 0, 0, 0, 0, 0]

def pinnedZip : Bytes := smallZip [139, 158, 217, 211] 65

def otherZip : Bytes := smallZip [49, 207, 208, 74] 66

def smallUnzip : Unzip Unit where
  entries content := if content = pinnedZip ∨ content = otherZip then some [()] else none
  extract content _ :=
    if content = pinnedZip then some (some ("w", [65]))
    else if content = otherZip then some (some ("w", [66]))
    else none

def smallSha256 (content : Bytes) : String :=
  if content = pinnedZip then "52d6ee22c3e20634cd7184a109cc7a0d6a35beaad2969eb65fae84ab0af4365d"
  else if content = otherZip then "d65ca9c45e5774b5821da82b00a680dd97304e2a86ff1c0690b114bfa08cc23e"
  else if content = 0 :: pinnedZip.drop 1 then
    "f621f549ca585bb39e399bcc0b96d2aa3c5d011c70b651cd89b0bbe78b850011"
  else ""

def smallPack : Pack String where
  dir := "cuda-pack"
  version := "1"
  worker := "w"
  split := false
  count := 1
  part _ := ⟨"worker", "1", "52d6ee22c3e20634cd7184a109cc7a0d6a35beaad2969eb65fae84ab0af4365d", 101,
    ["w"]⟩
  disjoint := by
    intro p hp q hq f _ _
    omega

/-- The pinned archive comes whole, is verified, extracted and put in its place. -/
def wholeInstall (i : ℕ) : List Action :=
  [.task i (.checked none), .task i .begins, .task i (.answered 200), .task i (.chunk pinnedZip),
    .task i .bodyEnds, .task i .hashed, .task i (.entry 0), .task i .written, .task i (.entry 0),
    .task i .renamed, .task i .cleaned, .task i .begins, .task i .finishes]

theorem small_published : Published smallPack smallSha256 smallUnzip fun _ => pinnedZip where
  pinned _ _ := if_pos rfl
  size _ _ := by
    change pinnedZip.length = 101 ∧ 0 < 101
    decide
  complete _ _ := by
    refine ⟨[()], by decide +kernel, List.cons_ne_nil _ _, by decide +kernel, fun f hf => ?_⟩
    obtain rfl := List.mem_singleton.mp hf
    exact ⟨(), List.mem_singleton_self _, [65], by decide +kernel⟩
  worker := ⟨0, by decide +kernel, List.mem_singleton_self _⟩

def cutDownload : List Action :=
  [.install, .task 0 (.checked none), .task 0 .begins, .task 0 (.answered 200),
    .task 0 (.chunk (pinnedZip.take 40)), .crash fun _ => none]

def Pc.failed {Entry : Type} : Pc Entry → Bool
  | .ended (.error _) => true
  | _ => false

theorem failed_inv {Entry : Type} {pc : Pc Entry} (h : pc.failed = true) :
    ∃ message, pc = .ended (.error message) := by
  unfold Pc.failed at h
  split at h
  next message => exact ⟨message, rfl⟩
  next => cases h

/-- Two installs, called before the first is past its check; while the first extracts the archive
that it has verified, the second opens it anew and writes another one. -/
def overtaken : List Action :=
  [.install, .install, .task 0 (.checked none), .task 1 (.checked none), .task 0 .begins,
    .task 1 .begins, .task 0 (.answered 200), .task 0 (.chunk pinnedZip), .task 0 .bodyEnds,
    .task 0 .hashed, .task 1 (.answered 200), .task 1 (.chunk otherZip), .task 0 (.entry 0),
    .task 0 .written, .task 0 (.entry 0), .task 0 .renamed, .task 0 .cleaned, .task 0 .begins,
    .task 0 .finishes]

/-- A download that begins with another byte, and fails. -/
def wrongStart : List Action :=
  [.install, .task 0 (.checked none), .task 0 .begins, .task 0 (.answered 200),
    .task 0 (.chunk [0]), .task 0 (.failed "terminated")]

end KvasirNet.CudaPack
