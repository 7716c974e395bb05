import KvasirNet.ByteFormat
import KvasirNet.Runs
import Mathlib.Logic.Function.Basic

/-! The CUDA pack: each part is downloaded, verified against its pinned hash, extracted beside its
place and renamed into it. Two installs may be under way at once, and a crash may come anywhere. -/
namespace KvasirNet.CudaPack

structure Part (Digest : Type) where
  id : String
  version : String
  sha256 : Digest
  bytes : ℕ
  files : List String

/-- The pack of a platform; no two of its parts have a file of one name. -/
structure Pack (Digest : Type) where
  dir : String
  version : String
  worker : String
  split : Bool
  count : ℕ
  part : ℕ → Part Digest
  disjoint : ∀ p < count, ∀ q < count, ∀ f ∈ (part p).files, f ∈ (part q).files → p = q

/-- What is read of an archive: its entries, and of each one a directory or a file. -/
structure Unzip (Entry : Type) where
  entries : Bytes → Option (List Entry)
  extract : Bytes → Entry → Option (Option (String × Bytes))

abbrev Dir := String → Option Bytes

inductive Phase
  | idle
  | downloading
  | verifying
  | installing
  | installed
  | failed
  deriving DecidableEq, Repr

def Phase.busy : Phase → Bool
  | .downloading | .verifying | .installing => true
  | .idle | .installed | .failed => false

/-- Where an `install` is; `rest` are the parts after `p`. -/
inductive Pc (Entry : Type)
  | checking
  | starting (todo : List ℕ)
  | fetching (p held : ℕ) (rest : List ℕ)
  | streaming (p gen : ℕ) (append : Bool) (got : ℕ) (rest : List ℕ)
  | verifying (p : ℕ) (rest : List ℕ)
  | extracting (p : ℕ) (es : List Entry) (rest : List ℕ)
  | writing (p : ℕ) (f : String) (data : Bytes) (es : List Entry) (rest : List ℕ)
  | replacing (p : ℕ) (rest : List ℕ)
  | cleaning (p : ℕ) (rest : List ℕ)
  | linking (left : List (ℕ × String))
  | copying (f : String) (data : Bytes) (left : List (ℕ × String))
  | ended (result : Except String String)

/-- The files of the install directory for each part, and what is in memory. A `.part` file that
is removed has another generation afterwards, and a stream writes to the generation it opened. -/
structure World (Entry : Type) where
  zip : ℕ → Option Bytes
  gen : ℕ → ℕ
  tmp : ℕ → Option Dir
  final : ℕ → Option Dir
  phase : Phase
  error : Option String
  tasks : List (Pc Entry)

inductive Event
  | checked (reason : Option String)
  | begins
  | answered (status : ℕ)
  | chunk (data : Bytes)
  | bodyEnds
  | failed (message : String)
  | hashed
  | entry (cut : ℕ)
  | written
  | unlinked (f : String)
  | renamed
  | cleaned
  | linked
  | copyBegins (cut : ℕ)
  | copied
  | finishes

/-- An abort makes the fetch or the body of a task fail, which may happen at any time. After a
crash the `.tmp` directories may hold anything. -/
inductive Action
  | install
  | cancel
  | crash (tmp : ℕ → Option Dir)
  | task (i : ℕ) (e : Event)

def World.initial (Entry : Type) : World Entry :=
  ⟨fun _ => none, fun _ => 0, fun _ => none, fun _ => none, .idle, none, []⟩

def writeAt (content : Bytes) (pos : ℕ) (chunk : Bytes) : Bytes :=
  content.take pos ++ List.replicate (pos - content.length) 0 ++ chunk ++
    content.drop (pos + chunk.length)

section
variable {Entry Digest : Type} [DecidableEq Digest] (P : Pack Digest) (sha256 : Bytes → Digest)
  (U : Unzip Entry)

def Pack.partDir (p : ℕ) : String :=
  if P.split then s!"{P.dir}/{(P.part p).id}/{(P.part p).version}"
  else s!"{P.dir}/{(P.part p).version}"

/-- `fs.existsSync` of a file of a part's directory. -/
def World.has (s : World Entry) (p : ℕ) (f : String) : Bool := (s.final p).any fun d => (d f).isSome

def World.partInstalled (s : World Entry) (p : ℕ) : Bool := (P.part p).files.all fun f => s.has p f

def Pack.workerPart : Option ℕ := (List.range P.count).find? fun p => (P.part p).id = "worker"

/-- The files of the other parts, that go beside the worker `k`. -/
def Pack.beside (k : ℕ) : List (ℕ × String) :=
  ((List.range P.count).filter (· ≠ k)).flatMap fun p => (P.part p).files.map fun f => (p, f)

def World.workerPath (s : World Entry) : Option String :=
  match P.workerPart with
  | none => none
  | some k =>
    if (List.range P.count).all (s.partInstalled P) && (P.beside k).all (fun x => s.has k x.2) &&
        s.has k P.worker then
      some s!"{P.partDir k}/{P.worker}"
    else none

namespace World

def goTo (s : World Entry) (i : ℕ) (pc : Pc Entry) : World Entry := { s with tasks := s.tasks.set i pc }

/-- The `catch` of `install`. -/
def fail (s : World Entry) (i : ℕ) (message : String) : World Entry :=
  goTo { s with
    phase := .failed
    error := some message } i (.ended (.error message))

/-- The `catch` of `installPart`, and then that of `install`. -/
def failPart (s : World Entry) (i p : ℕ) (message : String) : World Entry :=
  fail { s with tmp := Function.update s.tmp p none } i message

def setZip (s : World Entry) (p : ℕ) (content : Bytes) : World Entry :=
  { s with zip := Function.update s.zip p (some content) }

def rmZip (s : World Entry) (p : ℕ) : World Entry :=
  { s with
    zip := Function.update s.zip p none
    gen := Function.update s.gen p (s.gen p + 1) }

def setTmp (s : World Entry) (p : ℕ) (d : Option Dir) : World Entry :=
  { s with tmp := Function.update s.tmp p d }

def setFinal (s : World Entry) (p : ℕ) (d : Option Dir) : World Entry :=
  { s with final := Function.update s.final p d }

/-- `install`, up to the check of the machine. -/
def install (s : World Entry) : World Entry :=
  match s.workerPath P with
  | some path => { s with tasks := s.tasks ++ [.ended (.ok path)] }
  | none =>
    if s.phase.busy then { s with tasks := s.tasks ++ [.ended (.error "already installing")] }
    else { s with tasks := s.tasks ++ [.checking] }

def checking (s : World Entry) (i : ℕ) : Event → Option (World Entry)
  | .checked none =>
    some (goTo { s with
      phase := .downloading
      error := none } i
      (.starting ((List.range P.count).filter fun p => !s.partInstalled P p)))
  | .checked (some reason) => some (s.fail i reason)
  | _ => none

/-- The next part, up to its request; or the links. -/
def starting (s : World Entry) (i : ℕ) : List ℕ → Event → Option (World Entry)
  | [], .begins =>
    match P.workerPart with
    | none => some (s.fail i "no worker part")
    | some k => some (s.goTo i (.linking (P.beside k)))
  | p :: rest, .begins =>
    let s := { s with phase := .downloading }
    let size := (s.zip p).elim 0 List.length
    let stale := (P.part p).bytes < size
    let s := if stale then s.rmZip p else s
    let held := if stale then 0 else size
    if held = (P.part p).bytes then some (goTo { s with phase := .verifying } i (.verifying p rest))
    else some (s.goTo i (.fetching p held rest))
  | _, _ => none

def fetching (s : World Entry) (i p held : ℕ) (rest : List ℕ) : Event → Option (World Entry)
  | .answered status =>
    if ¬ (status = 200 ∨ status = 206) then
      some (s.failPart i p s!"{(P.part p).id} download answered {status}")
    else if status = 200 ∨ held = 0 then
      some ((s.setZip p []).goTo i (.streaming p (s.gen p) false 0 rest))
    else some ((s.setZip p ((s.zip p).getD [])).goTo i (.streaming p (s.gen p) true held rest))
  | .failed message => some (s.failPart i p message)
  | _ => none

def streaming (s : World Entry) (i p gen : ℕ) (append : Bool) (got : ℕ) (rest : List ℕ) :
    Event → Option (World Entry)
  | .chunk data =>
    let s := if s.gen p = gen then
        { s with
          zip := Function.update s.zip p ((s.zip p).map fun content =>
            if append then content ++ data else writeAt content got data) }
      else s
    some (s.goTo i (.streaming p gen append (got + data.length) rest))
  | .bodyEnds =>
    if got = (P.part p).bytes then some (goTo { s with phase := .verifying } i (.verifying p rest))
    else
      some (s.failPart i p s!"download ended at {got} of {(P.part p).bytes} bytes; try again to resume")
  | .failed message => some (s.failPart i p message)
  | _ => none

def verifying (s : World Entry) (i p : ℕ) (rest : List ℕ) : Event → Option (World Entry)
  | .hashed =>
    match s.zip p with
    | none => some (s.failPart i p "ENOENT")
    | some content =>
      if sha256 content = (P.part p).sha256 then
        let s := setTmp { s with phase := .installing } p none
        match U.entries content with
        | none => some (s.failPart i p "not a zip file")
        | some es => some (s.goTo i (.extracting p es rest))
      else
        some ((s.rmZip p).failPart i p
          s!"the downloaded {(P.part p).id} does not match its expected hash")
  | _ => none

/-- The next entry, of which `cut` bytes are written at first; or the check after the last. -/
def extracting (s : World Entry) (i p : ℕ) (rest : List ℕ) :
    List Entry → Event → Option (World Entry)
  | e :: es, .entry cut =>
    match (s.zip p).bind fun content => U.extract content e with
    | none => some (s.failPart i p "corrupt archive")
    | some none => some ((s.setTmp p (some ((s.tmp p).getD fun _ => none))).goTo i (.extracting p es rest))
    | some (some (f, data)) =>
      some ((s.setTmp p (some (Function.update ((s.tmp p).getD fun _ => none) f
        (some (data.take cut))))).goTo i (.writing p f data es rest))
  | [], .entry _ =>
    if (P.part p).files.all fun f => ((s.tmp p).bind fun d => d f).isSome then
      some (s.goTo i (.replacing p rest))
    else some (s.failPart i p s!"the {(P.part p).id} archive lacks a file")
  | _, _ => none

def writing (s : World Entry) (i p : ℕ) (f : String) (data : Bytes) (es : List Entry) (rest : List ℕ) :
    Event → Option (World Entry)
  | .written =>
    match s.tmp p with
    | none => some (s.failPart i p "ENOENT")
    | some d => some ((s.setTmp p (some (Function.update d f (some data)))).goTo i (.extracting p es rest))
  | _ => none

/-- The part's directory is removed, file by file, and the extracted one takes its name. -/
def replacing (s : World Entry) (i p : ℕ) (rest : List ℕ) : Event → Option (World Entry)
  | .unlinked f => some (s.setFinal p ((s.final p).map fun d => Function.update d f none))
  | .renamed =>
    match s.tmp p with
    | none => some ((s.setFinal p none).failPart i p "ENOENT")
    | some d => some (((s.setFinal p (some d)).setTmp p none).goTo i (.cleaning p rest))
  | _ => none

def cleaning (s : World Entry) (i p : ℕ) (rest : List ℕ) : Event → Option (World Entry)
  | .cleaned => some ((s.rmZip p).goTo i (.starting rest))
  | _ => none

/-- `linkRuntime`, and what `install` does after it. -/
def linking (s : World Entry) (i k : ℕ) : List (ℕ × String) → Event → Option (World Entry)
  | (q, f) :: left, .linked =>
    if s.has k f then some (s.goTo i (.linking left))
    else
      match s.final k, (s.final q).bind fun d => d f with
      | some d, some data =>
        some ((s.setFinal k (some (Function.update d f (some data)))).goTo i (.linking left))
      | _, _ => some (s.fail i "ENOENT")
  | (q, f) :: left, .copyBegins cut =>
    if s.has k f then none
    else
      match s.final k, (s.final q).bind fun d => d f with
      | some d, some data =>
        some ((s.setFinal k (some (Function.update d f (some (data.take cut))))).goTo i
          (.copying f data left))
      | _, _ => none
  | [], .finishes =>
    match s.workerPath P with
    | none => some (s.fail i "the pack installed but its worker is not complete")
    | some path =>
      some (goTo { s with
        phase := .installed
        error := none
        tmp := if P.split then fun _ => none else s.tmp } i (.ended (.ok path)))
  | _, _ => none

def copying (s : World Entry) (i k : ℕ) (f : String) (data : Bytes) (left : List (ℕ × String)) :
    Event → Option (World Entry)
  | .copied =>
    match s.final k with
    | none => some (s.goTo i (.linking left))
    | some d => some ((s.setFinal k (some (Function.update d f (some data)))).goTo i (.linking left))
  | _ => none

/-- One step of the install `i`, from where it is. -/
def resume (s : World Entry) (i : ℕ) (e : Event) : Pc Entry → Option (World Entry)
  | .checking => s.checking P i e
  | .starting todo => s.starting P i todo e
  | .fetching p held rest => s.fetching P i p held rest e
  | .streaming p gen append got rest => s.streaming P i p gen append got rest e
  | .verifying p rest => s.verifying P sha256 U i p rest e
  | .extracting p es rest => s.extracting P U i p rest es e
  | .writing p f data es rest => s.writing i p f data es rest e
  | .replacing p rest => s.replacing i p rest e
  | .cleaning p rest => s.cleaning i p rest e
  | .linking left => P.workerPart.bind fun k => s.linking P i k left e
  | .copying f data left => P.workerPart.bind fun k => s.copying i k f data left e
  | .ended _ => none

end World

def step (s : World Entry) : Action → Option (World Entry)
  | .install => some (s.install P)
  | .cancel => some s
  | .crash tmp =>
    some { s with
      tmp := tmp
      phase := .idle
      error := none
      tasks := [] }
  | .task i e => (s.tasks[i]?).bind (s.resume P sha256 U i e)

/-! ### Who touches what -/

def Pc.part : Pc Entry → Option ℕ
  | .fetching p _ _ | .streaming p _ _ _ _ | .verifying p _ | .extracting p _ _ | .writing p _ _ _ _
  | .replacing p _ | .cleaning p _ => some p
  | .checking | .starting _ | .linking _ | .copying _ _ _ | .ended _ => none

/-- The part whose archive it reads, after the check of its hash. -/
def Pc.reading : Pc Entry → Option ℕ
  | .extracting p _ _ | .writing p _ _ _ _ => some p
  | _ => none

def Pc.filling : Pc Entry → Option ℕ
  | .extracting p _ _ | .writing p _ _ _ _ | .replacing p _ => some p
  | _ => none

/-- Past the check of the machine, and not over. -/
def Pc.active : Pc Entry → Bool
  | .checking | .ended _ => false
  | _ => true

def World.verified (s : World Entry) (p : ℕ) : Bool :=
  (s.zip p).any fun content => sha256 content = (P.part p).sha256

/-- An archive is opened or written while no other install extracts from it, and is extracted
while no other install extracts the same part. -/
def Orderly (s : World Entry) : Action → Bool
  | .task i (.answered _) | .task i (.chunk _) =>
    (s.tasks[i]?).all fun pc => s.tasks.all fun x => x.reading ≠ pc.part
  | .task i .hashed =>
    (s.tasks[i]?).all fun pc => pc.part.all fun p =>
      !s.verified P sha256 p || s.tasks.all fun x => x.filling ≠ some p
  | _ => true

/-! ### What is verified -/

/-- The file is one of an archive that has the part's hash. -/
def Good (p : ℕ) (f : String) (data : Bytes) : Prop :=
  ∃ archive es e, sha256 archive = (P.part p).sha256 ∧ U.entries archive = some es ∧ e ∈ es ∧
    U.extract archive e = some (some (f, data))

/-- What is at the archive's name is the archive whose entries are left to extract. -/
def Reading (s : World Entry) (p : ℕ) (es : List Entry) : Prop :=
  ∃ archive all, sha256 archive = (P.part p).sha256 ∧ U.entries archive = some all ∧
    (∀ e ∈ es, e ∈ all) ∧ ∀ content, s.zip p = some content → content = archive

/-- The files of a directory, but for one of them, are verified. -/
def GoodDir (p : ℕ) (but : Option String) (d : Option Dir) : Prop :=
  ∀ dir f data, d = some dir → some f ≠ but → dir f = some data → Good P sha256 U p f data

/-- What goes beside the worker is another part's file. -/
def Elsewhere (f : String) : Prop :=
  ∀ k, P.workerPart = some k → ∃ q < P.count, f ∈ (P.part q).files ∧ q ≠ k

def Fits (s : World Entry) : Pc Entry → Prop
  | .extracting p es _ => Reading P sha256 U s p es ∧ GoodDir P sha256 U p none (s.tmp p)
  | .writing p f data es _ =>
    Reading P sha256 U s p es ∧ Good P sha256 U p f data ∧ GoodDir P sha256 U p (some f) (s.tmp p)
  | .replacing p _ => GoodDir P sha256 U p none (s.tmp p)
  | .linking left => ∀ x ∈ left, Elsewhere P x.2
  | .copying f _ left => Elsewhere P f ∧ ∀ x ∈ left, Elsewhere P x.2
  | _ => True

/-- Every file in its place is of an archive with the pinned hash. -/
def Verified (s : World Entry) : Prop :=
  ∀ p < P.count, ∀ f ∈ (P.part p).files, ∀ dir data, s.final p = some dir → dir f = some data →
    Good P sha256 U p f data

structure Sound (s : World Entry) : Prop where
  final : Verified P sha256 U s
  fits : ∀ (i : ℕ) (pc : Pc Entry), s.tasks[i]? = some pc → Fits P sha256 U s pc
  unique : ∀ (i j : ℕ) (x y : Pc Entry) (p : ℕ), s.tasks[i]? = some x → s.tasks[j]? = some y →
    x.filling = some p → y.filling = some p → i = j
  busy : s.phase.busy = true → ∃ (i : ℕ) (pc : Pc Entry), s.tasks[i]? = some pc ∧ pc.active = true

end

section
variable {Entry Digest : Type} {P : Pack Digest} {sha256 : Bytes → Digest} {U : Unzip Entry}
  {s s' : World Entry} {i p : ℕ} {pc pc' : Pc Entry}

theorem sound_initial : Sound P sha256 U (.initial Entry) where
  final p _ f _ dir data h := by cases h
  fits i pc h := by cases h
  unique i j x y p h := by cases h
  busy h := by cases h

/-! ### A step of one install and the others -/

/-- No more files than before, and the same ones. -/
def Sub (d' d : Option Dir) : Prop :=
  ∀ dir' f data, d' = some dir' → dir' f = some data → ∃ dir, d = some dir ∧ dir f = some data

theorem sub_refl (d : Option Dir) : Sub d d := fun dir _ _ h hf => ⟨dir, h, hf⟩

theorem sub_none (d : Option Dir) : Sub none d := fun _ _ _ h => by cases h

theorem GoodDir.sub {but : Option String} {d d' : Option Dir} (h : GoodDir P sha256 U p but d)
    (hsub : Sub d' d) : GoodDir P sha256 U p but d' := by
  intro dir' f data hdir hbut hf
  obtain ⟨dir, hd, hf'⟩ := hsub dir' f data hdir hf
  exact h dir f data hd hbut hf'

theorem goodDir_none (but : Option String) : GoodDir P sha256 U p but none := fun _ _ _ h => by cases h

theorem Reading.mono {es : List Entry} (h : Reading P sha256 U s p es)
    (hzip : s'.zip p = none ∨ s'.zip p = s.zip p) : Reading P sha256 U s' p es := by
  obtain ⟨archive, all, hsha, hall, hes, hcontent⟩ := h
  refine ⟨archive, all, hsha, hall, hes, fun content hc => ?_⟩
  rcases hzip with hnone | hsame
  · rw [hnone] at hc
    cases hc
  · exact hcontent content (hsame ▸ hc)

theorem Fits.mono (h : Fits P sha256 U s pc)
    (hzip : ∀ p, pc.reading = some p → s'.zip p = none ∨ s'.zip p = s.zip p)
    (htmp : ∀ p, pc.filling = some p → Sub (s'.tmp p) (s.tmp p)) : Fits P sha256 U s' pc := by
  cases pc with
  | extracting p es rest => exact ⟨h.1.mono (hzip p rfl), h.2.sub (htmp p rfl)⟩
  | writing p f data es rest => exact ⟨h.1.mono (hzip p rfl), h.2.1, h.2.2.sub (htmp p rfl)⟩
  | replacing p rest => exact GoodDir.sub h (htmp p rfl)
  | linking left => exact h
  | copying f data left => exact h
  | _ => trivial

theorem getElem_set_inv {xs : List (Pc Entry)} {j : ℕ} {x : Pc Entry}
    (h : (xs.set i pc')[j]? = some x) : (j = i ∧ x = pc') ∨ (j ≠ i ∧ xs[j]? = some x) := by
  by_cases hij : i = j
  · subst hij
    rw [List.getElem?_set_self'] at h
    obtain ⟨_, -, hx⟩ := Option.map_eq_some_iff.mp h
    exact .inl ⟨rfl, hx.symm⟩
  · rw [List.getElem?_set_ne hij] at h
    exact .inr ⟨fun hji => hij hji.symm, h⟩

theorem Sound.goes (h : Sound P sha256 U s) (hi : s.tasks[i]? = some pc)
    (htasks : s'.tasks = s.tasks.set i pc') (hfinal : Verified P sha256 U s')
    (hzip : ∀ (j : ℕ) (x : Pc Entry) (p : ℕ), j ≠ i → s.tasks[j]? = some x → x.reading = some p →
      s'.zip p = none ∨ s'.zip p = s.zip p)
    (htmp : ∀ (j : ℕ) (x : Pc Entry) (p : ℕ), j ≠ i → s.tasks[j]? = some x → x.filling = some p →
      Sub (s'.tmp p) (s.tmp p))
    (hfits : Fits P sha256 U s' pc')
    (hfills : ∀ p, pc'.filling = some p →
      pc.filling = some p ∨ ∀ (j : ℕ) (x : Pc Entry), s.tasks[j]? = some x → x.filling ≠ some p)
    (hbusy : pc'.active = true ∨ s'.phase.busy = false) : Sound P sha256 U s' := by
  have hself : s'.tasks[i]? = some pc' := by
    rw [htasks, List.getElem?_set_self', hi]
    rfl
  have hothers : ∀ j x y p, s.tasks[j]? = some x → j ≠ i → x.filling = some p →
      y = pc' → y.filling = some p → False := by
    rintro j x y p hj hji hx rfl hy
    rcases hfills p hy with hold | hnone
    · exact hji (h.unique j i x pc p hj hi hx hold)
    · exact hnone j x hj hx
  refine ⟨hfinal, fun j x hj => ?_, fun j k x y p hj hk hx hy => ?_, fun hb => ?_⟩
  · rw [htasks] at hj
    rcases getElem_set_inv hj with ⟨-, rfl⟩ | ⟨hji, hj⟩
    · exact hfits
    · exact (h.fits j x hj).mono (fun p hp => hzip j x p hji hj hp) fun p hp => htmp j x p hji hj hp
  · rw [htasks] at hj hk
    rcases getElem_set_inv hj with ⟨hji, hx'⟩ | ⟨hji, hj'⟩
    · rcases getElem_set_inv hk with ⟨hki, -⟩ | ⟨hki, hk'⟩
      · rw [hji, hki]
      · exact (hothers k y x p hk' hki hy hx' hx).elim
    · rcases getElem_set_inv hk with ⟨hki, hy'⟩ | ⟨hki, hk'⟩
      · exact (hothers j x y p hj' hji hx hy' hy).elim
      · exact h.unique j k x y p hj' hk' hx hy
  · rcases hbusy with hactive | hidle
    · exact ⟨i, pc', hself, hactive⟩
    · rw [hidle] at hb
      cases hb

theorem Sound.moves (h : Sound P sha256 U s) (hi : s.tasks[i]? = some pc)
    (htasks : s'.tasks = s.tasks.set i pc') (hfinal : s'.final = s.final) (hzip : s'.zip = s.zip)
    (htmp : s'.tmp = s.tmp) (hfits : Fits P sha256 U s' pc')
    (hfills : ∀ p, pc'.filling = some p → pc.filling = some p)
    (hbusy : pc'.active = true ∨ s'.phase.busy = false) : Sound P sha256 U s' := by
  refine h.goes hi htasks ?_ ?_ ?_ hfits (fun p hp => .inl (hfills p hp)) hbusy
  · intro p hp f hf dir data hdir
    rw [hfinal] at hdir
    exact h.final p hp f hf dir data hdir
  · intro j x p _ _ _
    exact .inr (congrFun hzip p)
  · intro j x p _ _ _
    rw [htmp]
    exact sub_refl _

theorem Sound.failPart (h : Sound P sha256 U s) (hi : s.tasks[i]? = some pc) (p : ℕ)
    (message : String) : Sound P sha256 U (s.failPart i p message) := by
  refine @Sound.goes _ _ _ _ _ _ _ _ _ (.ended (.error message)) h hi rfl h.final (fun j x q _ _ _ => .inr rfl)
    (fun j x q _ _ _ => ?_) trivial (fun q hq => by cases hq) (.inr rfl)
  change Sub (Function.update s.tmp p none q) _
  by_cases hpq : q = p
  · rw [hpq, Function.update_self]
    exact sub_none _
  · rw [Function.update_of_ne hpq]
    exact sub_refl _

theorem Sound.fail (h : Sound P sha256 U s) (hi : s.tasks[i]? = some pc) (message : String) :
    Sound P sha256 U (s.fail i message) :=
  @Sound.moves _ _ _ _ _ _ _ _ _ (.ended (.error message)) h hi rfl rfl rfl rfl trivial
    (fun q hq => by cases hq) (.inr rfl)

theorem Sound.zips (h : Sound P sha256 U s) (hi : s.tasks[i]? = some pc)
    (htasks : s'.tasks = s.tasks.set i pc') (hfinal : s'.final = s.final) (htmp : s'.tmp = s.tmp)
    (hzip : ∀ q ≠ p, s'.zip q = s.zip q)
    (hreads : s'.zip p = none ∨ ∀ (j : ℕ) (x : Pc Entry), s.tasks[j]? = some x → x.reading ≠ some p)
    (hfits : Fits P sha256 U s' pc') (hfills : pc'.filling = none)
    (hbusy : pc'.active = true ∨ s'.phase.busy = false) : Sound P sha256 U s' := by
  refine h.goes hi htasks ?_ ?_ ?_ hfits (fun q hq => ?_) hbusy
  · intro q hq f hf dir data hdir
    rw [hfinal] at hdir
    exact h.final q hq f hf dir data hdir
  · intro j x q _ hx hread
    by_cases hqp : q = p
    · subst hqp
      exact .inl (hreads.resolve_right fun hnone => hnone j x hx hread)
    · exact .inr (hzip q hqp)
  · intro j x q _ _ _
    rw [htmp]
    exact sub_refl _
  · rw [hfills] at hq
    cases hq

theorem Sound.rmZip (h : Sound P sha256 U s) : Sound P sha256 U (s.rmZip p) := by
  refine ⟨h.final, fun j x hj => ?_, h.unique, h.busy⟩
  refine (h.fits j x hj).mono (fun q _ => ?_) fun q _ => sub_refl _
  by_cases hqp : q = p
  · subst hqp
    exact .inl (Function.update_self ..)
  · exact .inr (Function.update_of_ne hqp ..)

theorem beside_elsewhere {k : ℕ} (hk : P.workerPart = some k) :
    ∀ x ∈ P.beside k, Elsewhere P x.2 := by
  intro x hx k' hk'
  obtain rfl := Option.some.inj (hk.symm.trans hk')
  unfold Pack.beside at hx
  obtain ⟨q, hq, hx⟩ := List.mem_flatMap.mp hx
  obtain ⟨hq, hne⟩ := List.mem_filter.mp hq
  obtain ⟨f, hf, rfl⟩ := List.mem_map.mp hx
  exact ⟨q, List.mem_range.mp hq, hf, of_decide_eq_true hne⟩

/-! ### Each place -/

theorem Sound.checking (h : Sound P sha256 U s) (hi : s.tasks[i]? = some .checking) {e : Event}
    (hstep : s.checking P i e = some s') : Sound P sha256 U s' := by
  unfold World.checking at hstep
  split at hstep
  next =>
    obtain rfl := Option.some.inj hstep
    exact h.moves hi rfl rfl rfl rfl trivial (fun q hq => by cases hq) (.inl rfl)
  next =>
    obtain rfl := Option.some.inj hstep
    exact h.fail hi _
  next => cases hstep

theorem Sound.starting (h : Sound P sha256 U s) {todo : List ℕ}
    (hi : s.tasks[i]? = some (.starting todo)) {e : Event}
    (hstep : s.starting P i todo e = some s') : Sound P sha256 U s' := by
  unfold World.starting at hstep
  split at hstep
  next =>
    split at hstep
    next =>
      obtain rfl := Option.some.inj hstep
      exact h.fail hi _
    next k hk =>
      obtain rfl := Option.some.inj hstep
      exact h.moves hi rfl rfl rfl rfl (beside_elsewhere hk) (fun q hq => by cases hq) (.inl rfl)
  next p rest =>
    dsimp only at hstep
    have hbusy : ∃ (j : ℕ) (x : Pc Entry), s.tasks[j]? = some x ∧ x.active = true := ⟨i, _, hi, rfl⟩
    have hdown : Sound P sha256 U { s with phase := .downloading } :=
      ⟨h.final, h.fits, h.unique, fun _ => hbusy⟩
    by_cases hstale : (P.part p).bytes < (s.zip p).elim 0 List.length
    · simp only [hstale, if_true] at hstep
      split_ifs at hstep
      · obtain rfl := Option.some.inj hstep
        exact (hdown.rmZip (p := p)).moves hi rfl rfl rfl rfl trivial (fun q hq => by cases hq)
          (.inl rfl)
      · obtain rfl := Option.some.inj hstep
        exact (hdown.rmZip (p := p)).moves hi rfl rfl rfl rfl trivial (fun q hq => by cases hq)
          (.inl rfl)
    · simp only [hstale, if_false] at hstep
      split_ifs at hstep
      · obtain rfl := Option.some.inj hstep
        exact hdown.moves hi rfl rfl rfl rfl trivial (fun q hq => by cases hq) (.inl rfl)
      · obtain rfl := Option.some.inj hstep
        exact hdown.moves hi rfl rfl rfl rfl trivial (fun q hq => by cases hq) (.inl rfl)
  next => cases hstep

theorem goodDir_set {but : Option String} {d : Option Dir} (h : GoodDir P sha256 U p but d) {f : String}
    {data : Bytes} (hgood : but = some f ∨ Good P sha256 U p f data) :
    GoodDir P sha256 U p but (some (Function.update (d.getD fun _ => none) f (some data))) := by
  intro dir g bytes hdir hbut hg
  obtain rfl := Option.some.inj hdir
  by_cases hgf : g = f
  · subst hgf
    rw [Function.update_self] at hg
    obtain rfl := Option.some.inj hg
    exact hgood.resolve_left fun hf => hbut hf.symm
  · rw [Function.update_of_ne hgf] at hg
    cases d with
    | none => cases hg
    | some old => exact h old g bytes rfl hbut hg

theorem Sound.tmps (h : Sound P sha256 U s) (hi : s.tasks[i]? = some pc)
    (htasks : s'.tasks = s.tasks.set i pc') (hfinal : s'.final = s.final) (hzip : s'.zip = s.zip)
    (htmp : ∀ q ≠ p, s'.tmp q = s.tmp q)
    (hfree : ∀ (j : ℕ) (x : Pc Entry), j ≠ i → s.tasks[j]? = some x → x.filling ≠ some p)
    (hfits : Fits P sha256 U s' pc')
    (hfills : ∀ q, pc'.filling = some q →
      pc.filling = some q ∨ ∀ (j : ℕ) (x : Pc Entry), s.tasks[j]? = some x → x.filling ≠ some q)
    (hactive : pc'.active = true) : Sound P sha256 U s' := by
  refine h.goes hi htasks ?_ ?_ ?_ hfits hfills (.inl hactive)
  · intro q hq f hf dir data hdir
    rw [hfinal] at hdir
    exact h.final q hq f hf dir data hdir
  · intro j x q _ _ _
    exact .inr (congrFun hzip q)
  · intro j x q hj hx hfill
    by_cases hqp : q = p
    · subst hqp
      exact absurd hfill (hfree j x hj hx)
    · rw [htmp q hqp]
      exact sub_refl _

theorem not_filling (h : Sound P sha256 U s) (hi : s.tasks[i]? = some pc) (hfill : pc.filling = some p) :
    ∀ (j : ℕ) (x : Pc Entry), j ≠ i → s.tasks[j]? = some x → x.filling ≠ some p :=
  fun j x hj hx hp => hj (h.unique j i x pc p hx hi hp hfill)

theorem Sound.extracting (h : Sound P sha256 U s) {es : List Entry} {rest : List ℕ}
    (hi : s.tasks[i]? = some (.extracting p es rest)) {e : Event}
    (hstep : s.extracting P U i p rest es e = some s') : Sound P sha256 U s' := by
  have hfree := not_filling h hi rfl
  obtain ⟨⟨archive, all, hsha, hall, hes, hcontent⟩, hdir⟩ := h.fits i _ hi
  have hfills : ∀ q, some p = some q → (Pc.extracting p es rest).filling = some q ∨
      ∀ (j : ℕ) (x : Pc Entry), s.tasks[j]? = some x → x.filling ≠ some q := fun q hq => .inl hq
  unfold World.extracting at hstep
  split at hstep
  next e' es' cut =>
    have hrest : ∀ x ∈ es', x ∈ all := fun x hx => hes x (List.mem_cons_of_mem e' hx)
    split at hstep
    next =>
      obtain rfl := Option.some.inj hstep
      exact h.failPart hi p _
    next =>
      obtain rfl := Option.some.inj hstep
      refine h.tmps (p := p) hi rfl rfl rfl (fun q hq => Function.update_of_ne hq ..) hfree ?_ hfills
        rfl
      refine ⟨⟨archive, all, hsha, hall, hrest, hcontent⟩, ?_⟩
      change GoodDir P sha256 U p none (Function.update s.tmp p _ p)
      rw [Function.update_self]
      intro dir f data hd hbut hf
      obtain rfl := Option.some.inj hd
      cases htmp : s.tmp p with
      | none =>
        rw [htmp] at hf
        cases hf
      | some old =>
        rw [htmp] at hf
        exact hdir old f data htmp hbut hf
    next f data hextract =>
      obtain rfl := Option.some.inj hstep
      obtain ⟨content, hc, hx⟩ := Option.bind_eq_some_iff.mp hextract
      have hgood : Good P sha256 U p f data :=
        ⟨archive, all, e', hsha, hall, hes e' List.mem_cons_self, hcontent content hc ▸ hx⟩
      refine h.tmps (p := p) hi rfl rfl rfl (fun q hq => Function.update_of_ne hq ..) hfree ?_ hfills
        rfl
      refine ⟨⟨archive, all, hsha, hall, hrest, hcontent⟩, hgood, ?_⟩
      change GoodDir P sha256 U p (some f) (Function.update s.tmp p _ p)
      rw [Function.update_self]
      refine @goodDir_set _ _ _ _ _ _ (some f) _ ?_ _ _ (.inl rfl)
      exact fun dir g bytes hd _ hg => hdir dir g bytes hd (Option.some_ne_none g) hg
  next =>
    split_ifs at hstep
    · obtain rfl := Option.some.inj hstep
      exact h.moves hi rfl rfl rfl rfl hdir (fun q hq => hq) (.inl rfl)
    · obtain rfl := Option.some.inj hstep
      exact h.failPart hi p _
  next => cases hstep

theorem Sound.writing (h : Sound P sha256 U s) {f : String} {data : Bytes} {es : List Entry}
    {rest : List ℕ} (hi : s.tasks[i]? = some (.writing p f data es rest)) {e : Event}
    (hstep : s.writing i p f data es rest e = some s') : Sound P sha256 U s' := by
  obtain ⟨hreading, hgood, hdir⟩ := h.fits i _ hi
  unfold World.writing at hstep
  split at hstep
  next =>
    split at hstep
    next =>
      obtain rfl := Option.some.inj hstep
      exact h.failPart hi p _
    next d hd =>
      obtain rfl := Option.some.inj hstep
      refine h.tmps (p := p) hi rfl rfl rfl (fun q hq => Function.update_of_ne hq ..)
        (not_filling h hi rfl) ⟨hreading, ?_⟩ (fun q hq => .inl hq) rfl
      change GoodDir P sha256 U p none (Function.update s.tmp p _ p)
      rw [Function.update_self]
      intro dir g bytes hdir' hbut hg
      obtain rfl := Option.some.inj hdir'
      by_cases hgf : g = f
      · subst hgf
        rw [Function.update_self] at hg
        obtain rfl := Option.some.inj hg
        exact hgood
      · rw [Function.update_of_ne hgf] at hg
        exact hdir d g bytes hd (fun hsame => hgf (Option.some.inj hsame)) hg
  next => cases hstep

theorem verified_setFinal (h : Verified P sha256 U s) {d : Option Dir}
    (hd : p < P.count → ∀ f ∈ (P.part p).files, ∀ dir data, d = some dir → dir f = some data →
      Good P sha256 U p f data) : Verified P sha256 U (s.setFinal p d) := by
  intro q hq f hf dir data hdir hdata
  have hdir' : Function.update s.final p d q = some dir := hdir
  by_cases hqp : q = p
  · subst hqp
    rw [Function.update_self] at hdir'
    exact hd hq f hf dir data hdir' hdata
  · rw [Function.update_of_ne hqp] at hdir'
    exact h q hq f hf dir data hdir' hdata

theorem Sound.setFinal (h : Sound P sha256 U s) {d : Option Dir}
    (hd : p < P.count → ∀ f ∈ (P.part p).files, ∀ dir data, d = some dir → dir f = some data →
      Good P sha256 U p f data) : Sound P sha256 U (s.setFinal p d) :=
  ⟨verified_setFinal h.final hd, fun j x hj => (h.fits j x hj).mono (fun _ _ => .inr rfl)
    fun _ _ => sub_refl _, h.unique, h.busy⟩

theorem Sound.replacing (h : Sound P sha256 U s) {rest : List ℕ}
    (hi : s.tasks[i]? = some (.replacing p rest)) {e : Event}
    (hstep : s.replacing i p rest e = some s') : Sound P sha256 U s' := by
  unfold World.replacing at hstep
  split at hstep
  next f =>
    obtain rfl := Option.some.inj hstep
    refine h.setFinal fun hp g hg dir data hdir hdata => ?_
    obtain ⟨old, hold, rfl⟩ := Option.map_eq_some_iff.mp hdir
    by_cases hgf : g = f
    · subst hgf
      rw [Function.update_self] at hdata
      cases hdata
    · rw [Function.update_of_ne hgf] at hdata
      exact h.final p hp g hg old data hold hdata
  next =>
    have hdir : GoodDir P sha256 U p none (s.tmp p) := h.fits i _ hi
    split at hstep
    next =>
      obtain rfl := Option.some.inj hstep
      have hgone := h.setFinal (p := p) (d := none) fun _ f _ dir data hd => by cases hd
      exact hgone.failPart hi p _
    next d hd =>
      obtain rfl := Option.some.inj hstep
      have hplaced := h.setFinal (p := p) (d := some d) fun _ f _ dir data hdir' hdata => by
        obtain rfl := Option.some.inj hdir'
        exact hdir d f data hd (Option.some_ne_none f) hdata
      exact @Sound.tmps _ _ _ _ _ _ _ _ p _ (.cleaning p rest) hplaced hi rfl rfl rfl
        (fun q hq => Function.update_of_ne hq ..) (not_filling hplaced hi rfl) trivial
        (fun q hq => by cases hq) rfl
  next => cases hstep

theorem Sound.cleaning (h : Sound P sha256 U s) {rest : List ℕ}
    (hi : s.tasks[i]? = some (.cleaning p rest)) {e : Event}
    (hstep : s.cleaning i p rest e = some s') : Sound P sha256 U s' := by
  unfold World.cleaning at hstep
  split at hstep
  next =>
    obtain rfl := Option.some.inj hstep
    exact (h.rmZip (p := p)).moves hi rfl rfl rfl rfl trivial (fun q hq => by cases hq) (.inl rfl)
  next => cases hstep

theorem Sound.besides (h : Sound P sha256 U s) {k : ℕ} (hk : P.workerPart = some k) {f : String}
    (hf : Elsewhere P f) {d : Dir} (hd : s.final k = some d) (data : Bytes) :
    Sound P sha256 U (s.setFinal k (some (Function.update d f (some data)))) := by
  refine h.setFinal fun hlt g hg dir bytes hdir hbytes => ?_
  obtain rfl := Option.some.inj hdir
  obtain ⟨q, hq, hfq, hne⟩ := hf k hk
  have hgf : g ≠ f := by
    rintro rfl
    exact hne (P.disjoint q hq k hlt g hfq hg)
  rw [Function.update_of_ne hgf] at hbytes
  exact h.final k hlt g hg d bytes hd hbytes

theorem Sound.linking (h : Sound P sha256 U s) {left : List (ℕ × String)}
    (hi : s.tasks[i]? = some (.linking left)) {k : ℕ} (hk : P.workerPart = some k) {e : Event}
    (hstep : s.linking P i k left e = some s') : Sound P sha256 U s' := by
  have hleft : ∀ x ∈ left, Elsewhere P x.2 := h.fits i _ hi
  unfold World.linking at hstep
  split at hstep
  next q f left =>
    have hrest : ∀ x ∈ left, Elsewhere P x.2 := fun x hx => hleft x (List.mem_cons_of_mem _ hx)
    split_ifs at hstep
    · obtain rfl := Option.some.inj hstep
      exact h.moves hi rfl rfl rfl rfl hrest (fun q hq => by cases hq) (.inl rfl)
    · split at hstep
      next d data hd hdata =>
        obtain rfl := Option.some.inj hstep
        exact (h.besides hk (hleft _ List.mem_cons_self) hd data).moves hi rfl rfl rfl rfl hrest
          (fun q hq => by cases hq) (.inl rfl)
      next =>
        obtain rfl := Option.some.inj hstep
        exact h.fail hi _
  next q f left cut =>
    have hrest : ∀ x ∈ left, Elsewhere P x.2 := fun x hx => hleft x (List.mem_cons_of_mem _ hx)
    have hf : Elsewhere P f := hleft _ List.mem_cons_self
    split_ifs at hstep
    split at hstep
    next d data hd hdata =>
      obtain rfl := Option.some.inj hstep
      exact (h.besides hk hf hd _).moves hi rfl rfl rfl rfl ⟨hf, hrest⟩ (fun q hq => by cases hq)
        (.inl rfl)
    next => cases hstep
  next =>
    split at hstep
    next =>
      obtain rfl := Option.some.inj hstep
      exact h.fail hi _
    next path hpath =>
      obtain rfl := Option.some.inj hstep
      refine @Sound.goes _ _ _ _ _ _ _ _ _ (.ended (.ok path)) h hi rfl h.final (fun j x q _ _ _ => .inr rfl)
        (fun j x q _ _ _ => ?_) trivial (fun q hq => by cases hq) (.inr rfl)
      change Sub ((if P.split = true then fun _ => none else s.tmp) q) _
      split_ifs
      · exact sub_none _
      · exact sub_refl _
  next => cases hstep

theorem Sound.copying (h : Sound P sha256 U s) {f : String} {data : Bytes} {left : List (ℕ × String)}
    (hi : s.tasks[i]? = some (.copying f data left)) {k : ℕ} (hk : P.workerPart = some k) {e : Event}
    (hstep : s.copying i k f data left e = some s') : Sound P sha256 U s' := by
  obtain ⟨hf, hrest⟩ := h.fits i _ hi
  unfold World.copying at hstep
  split at hstep
  next =>
    split at hstep
    next =>
      obtain rfl := Option.some.inj hstep
      exact h.moves hi rfl rfl rfl rfl hrest (fun q hq => by cases hq) (.inl rfl)
    next d hd =>
      obtain rfl := Option.some.inj hstep
      exact (h.besides hk hf hd data).moves hi rfl rfl rfl rfl hrest (fun q hq => by cases hq)
        (.inl rfl)
  next => cases hstep

theorem Sound.install (h : Sound P sha256 U s) : Sound P sha256 U (s.install P) := by
  have hnew : ∀ pc : Pc Entry, pc.filling = none → (∀ s : World Entry, Fits P sha256 U s pc) →
      Sound P sha256 U { s with tasks := s.tasks ++ [pc] } := by
    intro pc hfill hfits
    have hcases : ∀ (j : ℕ) (x : Pc Entry), (s.tasks ++ [pc])[j]? = some x →
        s.tasks[j]? = some x ∨ x = pc := by
      intro j x hj
      rcases Nat.lt_trichotomy j s.tasks.length with hlt | rfl | hgt
      · rw [List.getElem?_append_left hlt] at hj
        exact .inl hj
      · rw [List.getElem?_concat_length] at hj
        exact .inr (Option.some.inj hj).symm
      · rw [List.getElem?_eq_none (by rw [List.length_append, List.length_singleton]; omega)] at hj
        cases hj
    refine ⟨h.final, fun j x hj => ?_, fun j k x y p hj hk hx hy => ?_, fun hb => ?_⟩
    · rcases hcases j x hj with hj | rfl
      · exact (h.fits j x hj).mono (fun _ _ => .inr rfl) fun _ _ => sub_refl _
      · exact hfits _
    · rcases hcases j x hj with hj | rfl
      · rcases hcases k y hk with hk | rfl
        · exact h.unique j k x y p hj hk hx hy
        · cases hfill.symm.trans hy
      · cases hfill.symm.trans hx
    · obtain ⟨j, x, hj, hx⟩ := h.busy hb
      have hlt : j < s.tasks.length := (List.getElem?_eq_some_iff.mp hj).1
      exact ⟨j, x, (List.getElem?_append_left hlt).trans hj, hx⟩
  unfold World.install
  split
  · exact hnew _ rfl fun _ => trivial
  · split_ifs
    · exact hnew _ rfl fun _ => trivial
    · exact hnew _ rfl fun _ => trivial

variable [DecidableEq Digest]

theorem not_reading (hi : s.tasks[i]? = some pc) (hpart : pc.part = some p)
    (horderly : ((s.tasks[i]?).all fun pc => s.tasks.all fun x => x.reading ≠ pc.part) = true) :
    ∀ (j : ℕ) (x : Pc Entry), s.tasks[j]? = some x → x.reading ≠ some p := by
  intro j x hj
  rw [hi] at horderly
  have hx := List.all_eq_true.mp horderly x (List.mem_of_getElem? hj)
  rw [hpart] at hx
  exact of_decide_eq_true hx

theorem Sound.fetching (h : Sound P sha256 U s) {held : ℕ} {rest : List ℕ}
    (hi : s.tasks[i]? = some (.fetching p held rest)) {e : Event}
    (horderly : Orderly P sha256 s (.task i e) = true)
    (hstep : s.fetching P i p held rest e = some s') : Sound P sha256 U s' := by
  unfold World.fetching at hstep
  split at hstep
  next status =>
    have hreads := not_reading hi (p := p) rfl horderly
    have hzip : ∀ content q, q ≠ p → (s.setZip p content).zip q = s.zip q :=
      fun content q hq => Function.update_of_ne hq ..
    split_ifs at hstep
    · obtain rfl := Option.some.inj hstep
      exact h.zips (p := p) hi rfl rfl rfl (hzip _) (.inr hreads) trivial rfl (.inl rfl)
    · obtain rfl := Option.some.inj hstep
      exact h.zips (p := p) hi rfl rfl rfl (hzip _) (.inr hreads) trivial rfl (.inl rfl)
    · obtain rfl := Option.some.inj hstep
      exact h.failPart hi p _
  next =>
    obtain rfl := Option.some.inj hstep
    exact h.failPart hi p _
  next => cases hstep

theorem Sound.streaming (h : Sound P sha256 U s) {gen got : ℕ} {append : Bool} {rest : List ℕ}
    (hi : s.tasks[i]? = some (.streaming p gen append got rest)) {e : Event}
    (horderly : Orderly P sha256 s (.task i e) = true)
    (hstep : s.streaming P i p gen append got rest e = some s') : Sound P sha256 U s' := by
  unfold World.streaming at hstep
  split at hstep
  next data =>
    have hreads := not_reading hi (p := p) rfl horderly
    obtain rfl := Option.some.inj hstep
    by_cases hgen : s.gen p = gen
    · rw [if_pos hgen]
      exact h.zips (p := p) hi rfl rfl rfl (fun q hq => Function.update_of_ne hq ..) (.inr hreads)
        trivial rfl (.inl rfl)
    · rw [if_neg hgen]
      exact h.moves hi rfl rfl rfl rfl trivial (fun q hq => by cases hq) (.inl rfl)
  next =>
    split_ifs at hstep
    · obtain rfl := Option.some.inj hstep
      exact h.moves hi rfl rfl rfl rfl trivial (fun q hq => by cases hq) (.inl rfl)
    · obtain rfl := Option.some.inj hstep
      exact h.failPart hi p _
  next =>
    obtain rfl := Option.some.inj hstep
    exact h.failPart hi p _
  next => cases hstep

theorem Sound.verifying (h : Sound P sha256 U s) {rest : List ℕ}
    (hi : s.tasks[i]? = some (.verifying p rest)) {e : Event}
    (horderly : Orderly P sha256 s (.task i e) = true)
    (hstep : s.verifying P sha256 U i p rest e = some s') : Sound P sha256 U s' := by
  unfold World.verifying at hstep
  split at hstep
  next =>
    split at hstep
    next =>
      obtain rfl := Option.some.inj hstep
      exact h.failPart hi p _
    next content hcontent =>
      split_ifs at hstep with hsha
      · have hnone : ∀ (j : ℕ) (x : Pc Entry), s.tasks[j]? = some x → x.filling ≠ some p := by
          intro j x hj
          have hverified : s.verified P sha256 p = true := by
            unfold World.verified
            rw [hcontent]
            exact decide_eq_true hsha
          have hall : s.tasks.all (fun x => x.filling ≠ some p) = true := by
            have hstep' : ((s.tasks[i]?).all fun pc => pc.part.all fun p =>
                !s.verified P sha256 p || s.tasks.all fun x => x.filling ≠ some p) = true := horderly
            rw [hi] at hstep'
            dsimp only [Option.all, Pc.part] at hstep'
            rw [hverified] at hstep'
            exact hstep'
          exact of_decide_eq_true (List.all_eq_true.mp hall x (List.mem_of_getElem? hj))
        have htmp : ∀ q ≠ p, (World.setTmp { s with phase := .installing } p none).tmp q = s.tmp q :=
          fun q hq => Function.update_of_ne hq ..
        dsimp only at hstep
        split at hstep
        next =>
          obtain rfl := Option.some.inj hstep
          have hbusy : ∃ (j : ℕ) (x : Pc Entry), s.tasks[j]? = some x ∧ x.active = true :=
            ⟨i, _, hi, rfl⟩
          have hcleared : Sound P sha256 U (World.setTmp { s with phase := .installing } p none) := by
            refine ⟨h.final, fun j x hj => ?_, h.unique, fun _ => hbusy⟩
            refine (h.fits j x hj).mono (fun q _ => .inr rfl) fun q hq => ?_
            by_cases hqp : q = p
            · subst hqp
              exact absurd hq (hnone j x hj)
            · rw [htmp q hqp]
              exact sub_refl _
          exact hcleared.failPart hi p _
        next es hes =>
          obtain rfl := Option.some.inj hstep
          refine h.tmps (p := p) hi rfl rfl rfl htmp (fun j x _ => hnone j x) ?_ ?_ rfl
          · refine ⟨⟨content, es, hsha, hes, fun e he => he, fun c hc => ?_⟩, ?_⟩
            · exact Option.some.inj (hc.symm.trans hcontent)
            · change GoodDir P sha256 U p none (Function.update s.tmp p none p)
              rw [Function.update_self]
              exact goodDir_none none
          · intro q hq
            obtain rfl := Option.some.inj hq
            exact .inr hnone
      · obtain rfl := Option.some.inj hstep
        exact (h.rmZip (p := p)).failPart hi p _
  next => cases hstep

theorem sound_step (h : Sound P sha256 U s) {a : Action} (horderly : Orderly P sha256 s a = true)
    (hstep : step P sha256 U s a = some s') : Sound P sha256 U s' := by
  cases a with
  | install =>
    obtain rfl := Option.some.inj hstep
    exact h.install
  | cancel =>
    obtain rfl := Option.some.inj hstep
    exact h
  | crash tmp =>
    obtain rfl := Option.some.inj hstep
    exact ⟨h.final, fun j x hj => (by cases hj), fun j k x y p hj => (by cases hj),
      fun hb => (by cases hb)⟩
  | task i e =>
    obtain ⟨pc, hi, hresume⟩ := Option.bind_eq_some_iff.mp hstep
    cases pc with
    | checking => exact h.checking hi hresume
    | starting todo => exact h.starting hi hresume
    | fetching p held rest => exact h.fetching hi horderly hresume
    | streaming p gen append got rest => exact h.streaming hi horderly hresume
    | verifying p rest => exact h.verifying hi horderly hresume
    | extracting p es rest => exact h.extracting hi hresume
    | writing p f data es rest => exact h.writing hi hresume
    | replacing p rest => exact h.replacing hi hresume
    | cleaning p rest => exact h.cleaning hi hresume
    | linking left =>
      obtain ⟨k, hk, hlinking⟩ := Option.bind_eq_some_iff.mp hresume
      exact h.linking hi hk hlinking
    | copying f data left =>
      obtain ⟨k, hk, hcopying⟩ := Option.bind_eq_some_iff.mp hresume
      exact h.copying hi hk hcopying
    | ended result => cases hresume

end

end KvasirNet.CudaPack
