import KvasirNet.GatewayMigration
import KvasirNet.Runs

/-! The node endpoints on JavaScript objects. `db.nodes` is indexed with the node id of the request,
so an id that it has no row under may still find what every object inherits. -/
namespace KvasirNet.Gateway.Prototypes

/-- The fields of node records that an object has. -/
structure Fields where
  owner : Option Wallet := none
  contributedUnits : Option ℚ := none
  effectiveUnits : Option ℚ := none
  pendingRewards : Option ℚ := none
  claimedTotal : Option ℚ := none
  hostsGateway : Option Bool := none
  hostsBridge : Option Bool := none
  hostsHub : Option Bool := none
  uptimeRewards : Option ℚ := none
  creditedUnits : Option ℚ := none
  registeredAt : Option ℕ := none
  lastReport : Option ℕ := none
  lastUptimeAt : Option ℕ := none
  os : Option String := none
  deviceKind : Option String := none
  accelerator : Option String := none
  label : Option String := none
  perfScore : Option ℚ := none
  backend : Option String := none
  mode : Option String := none
  tier : Option Tier := none
  perfMultiplier : Option ℚ := none
  deriving DecidableEq

/-- An object's own fields, and for the others those of its prototype. -/
def Fields.or (f root : Fields) : Fields where
  owner := f.owner.or root.owner
  contributedUnits := f.contributedUnits.or root.contributedUnits
  effectiveUnits := f.effectiveUnits.or root.effectiveUnits
  pendingRewards := f.pendingRewards.or root.pendingRewards
  claimedTotal := f.claimedTotal.or root.claimedTotal
  hostsGateway := f.hostsGateway.or root.hostsGateway
  hostsBridge := f.hostsBridge.or root.hostsBridge
  hostsHub := f.hostsHub.or root.hostsHub
  uptimeRewards := f.uptimeRewards.or root.uptimeRewards
  creditedUnits := f.creditedUnits.or root.creditedUnits
  registeredAt := f.registeredAt.or root.registeredAt
  lastReport := f.lastReport.or root.lastReport
  lastUptimeAt := f.lastUptimeAt.or root.lastUptimeAt
  os := f.os.or root.os
  deviceKind := f.deviceKind.or root.deviceKind
  accelerator := f.accelerator.or root.accelerator
  label := f.label.or root.label
  perfScore := f.perfScore.or root.perfScore
  backend := f.backend.or root.backend
  mode := f.mode.or root.mode
  tier := f.tier.or root.tier
  perfMultiplier := f.perfMultiplier.or root.perfMultiplier

/-- The row that the handlers see in the fields they read. -/
def Fields.row (f : Fields) : NodeRow where
  owner := f.owner.getD ""
  contributedUnits := f.contributedUnits.getD 0
  effectiveUnits := f.effectiveUnits.getD 0
  pendingRewards := f.pendingRewards.getD 0
  claimedTotal := f.claimedTotal.getD 0
  hostsGateway := f.hostsGateway.getD false
  hostsBridge := f.hostsBridge
  hostsHub := f.hostsHub
  uptimeRewards := f.uptimeRewards.getD 0
  creditedUnits := f.creditedUnits.getD 0
  registeredAt := f.registeredAt.getD 0
  lastReport := f.lastReport
  lastUptimeAt := f.lastUptimeAt.getD 0
  os := f.os
  deviceKind := f.deviceKind
  accelerator := f.accelerator
  label := f.label
  perfScore := f.perfScore
  backend := f.backend
  mode := f.mode
  tier := f.tier
  perfMultiplier := f.perfMultiplier

/-- Whether the field of this name holds a truthy value. -/
def Fields.truthy (f : Fields) (name : String) : Bool :=
  let text (v : Option String) := v.any (· != "")
  let number (v : Option ℚ) := v.any (· != 0)
  let time (v : Option ℕ) := v.any (· != 0)
  match name with
  | "owner" => text f.owner
  | "contributedUnits" => number f.contributedUnits
  | "effectiveUnits" => number f.effectiveUnits
  | "pendingRewards" => number f.pendingRewards
  | "claimedTotal" => number f.claimedTotal
  | "hostsGateway" => f.hostsGateway == some true
  | "hostsBridge" => f.hostsBridge == some true
  | "hostsHub" => f.hostsHub == some true
  | "uptimeRewards" => number f.uptimeRewards
  | "creditedUnits" => number f.creditedUnits
  | "registeredAt" => time f.registeredAt
  | "lastReport" => time f.lastReport
  | "lastUptimeAt" => time f.lastUptimeAt
  | "os" => text f.os
  | "deviceKind" => text f.deviceKind
  | "accelerator" => text f.accelerator
  | "label" => text f.label
  | "perfScore" => number f.perfScore
  | "backend" => text f.backend
  | "mode" => text f.mode
  | "tier" => f.tier.isSome
  | "perfMultiplier" => number f.perfMultiplier
  | _ => false

/-- `{ owner, contributedUnits: 0, … }` of `register`. -/
def fresh (owner : Wallet) (now : ℕ) : Fields where
  owner := some owner
  contributedUnits := some 0
  effectiveUnits := some 0
  pendingRewards := some 0
  claimedTotal := some 0
  hostsGateway := some false
  hostsBridge := some false
  uptimeRewards := some 0
  registeredAt := some now
  lastUptimeAt := some now

/-- The functions that `Object.prototype` gives every object. -/
def methodNames : List String :=
  ["constructor", "__defineGetter__", "__defineSetter__", "hasOwnProperty", "__lookupGetter__",
    "__lookupSetter__", "isPrototypeOf", "propertyIsEnumerable", "toString", "valueOf",
    "toLocaleString"]

/-- The names that every object answers to: the methods, and the accessor of the prototype. -/
def inheritedNames : List String := "__proto__" :: methodNames

/-- The objects that outlive a request and that all objects share. -/
inductive Shared
  | objectPrototype
  | method (name : String)
  deriving DecidableEq

/-- The fields put on the shared objects since the process started. -/
abbrev Realm := Shared → Fields

def Realm.boot : Realm := fun _ => {}

def Realm.root (realm : Realm) : Fields := realm .objectPrototype

/-- The process and the rows of its `positions.json`; the handlers here use nothing else of it. -/
structure Process where
  realm : Realm
  nodes : Table NodeId Fields

/-- The field half of `migrateHubVocabulary`, on an object with inherited fields. -/
def Fields.migrate (root f : Fields) : Fields :=
  let n := f.or root
  { f with
    hostsBridge := if n.hostsHub.isSome ∧ n.hostsBridge.isNone then n.hostsHub else f.hostsBridge
    deviceKind := if n.deviceKind = some "hub" then some "bridge" else f.deviceKind }

/-- `loadDB().nodes`. No name with the prefix of a renamed id is inherited, so the search for a free
one sees rows only. -/
def load (p : Process) : Table NodeId Fields :=
  hubRenaming.pass (Fields.migrate p.realm.root) p.nodes

/-- What `db.nodes[nodeId]` finds. -/
inductive Found
  | row (f : Fields)
  | shared (s : Shared)
  | primitive
  | nothing

def find (realm : Realm) (nodes : Table NodeId Fields) (nodeId : NodeId) : Found :=
  match nodes.lookup nodeId with
  | some f => .row f
  | none =>
    if nodeId = "__proto__" then .shared .objectPrototype
    else if nodeId ∈ methodNames then .shared (.method nodeId)
    -- a field put on `Object.prototype` is inherited too
    else if realm.root.truthy nodeId then .primitive
    else .nothing

/-- The fields that are read of a found value, its own or inherited. -/
def Found.seen (realm : Realm) : Found → Option Fields
  | .row f => some (f.or realm.root)
  | .shared s => some ((realm s).or realm.root)
  | .primitive => some realm.root
  | .nothing => none

inductive Failure
  | refused (r : Refusal)
  | typeError
  deriving DecidableEq

/-- `n.… = …; db.nodes[nodeId] = n; saveDB(db)` on the found value, or on a new object. -/
def put (p : Process) (nodeId : NodeId) (new : Fields) (write : Fields → Fields) :
    Found → Except Failure Process
  | .row f => .ok { p with nodes := (load p).insert nodeId (write f) }
  | .nothing => .ok { p with nodes := (load p).insert nodeId (write new) }
  -- `JSON.stringify` leaves functions out, and `__proto__` is set to the prototype it has
  | .shared s => .ok ⟨Function.update p.realm s (write (p.realm s)), load p⟩
  -- in strict mode a field of a string or a number cannot be written
  | .primitive => .error .typeError

/-- A JSON body: a property may be missing, which is then inherited, or `null`. -/
structure Body where
  nodeId : Option (Option String) := none
  owner : Option (Option Wallet) := none
  os : Option (Option String) := none
  deviceKind : Option (Option String) := none
  accelerator : Option (Option String) := none
  label : Option (Option String) := none
  perfScore : Option (Option ℚ) := none
  backend : Option (Option String) := none
  mode : Option (Option String) := none
  hostsGateway : Option (Option Bool) := none
  hostsBridge : Option (Option Bool) := none

/-- `const { nodeId, owner, … } = req.body || {}`. -/
def Body.request (root : Fields) (b : Body) : RegisterRequest where
  nodeId := (b.nodeId.getD none).getD ""
  owner := (b.owner.getD root.owner).getD ""
  os := b.os.getD root.os
  deviceKind := b.deviceKind.getD root.deviceKind
  accelerator := b.accelerator.getD root.accelerator
  label := b.label.getD root.label
  perfScore := b.perfScore.getD root.perfScore
  backend := b.backend.getD root.backend
  mode := b.mode.getD root.mode
  hostsGateway := b.hostsGateway.getD root.hostsGateway
  hostsBridge := b.hostsBridge.getD root.hostsBridge

/-- The assignments of `register`; the values are those of the row that is seen. -/
def Fields.register (cfg : Config) (root : Fields) (r : RegisterRequest) (trusted : Bool) (now : ℕ)
    (f : Fields) : Fields :=
  let n := registeredRow cfg r trusted now (some (f.or root).row)
  let pays := trusted ∧ 0 < uptimeCredit cfg (f.or root).row now
  { f with
    owner := some n.owner
    os := n.os
    deviceKind := n.deviceKind
    accelerator := n.accelerator
    label := n.label
    perfScore := if trusted then r.perfScore.or f.perfScore else f.perfScore
    backend := r.backend.or f.backend
    mode := r.mode.or f.mode
    uptimeRewards := if pays then some n.uptimeRewards else f.uptimeRewards
    pendingRewards := if pays then some n.pendingRewards else f.pendingRewards
    lastUptimeAt := if trusted then some now else f.lastUptimeAt
    hostsGateway := if trusted then r.hostsGateway.or f.hostsGateway else f.hostsGateway
    hostsBridge := if trusted then r.hostsBridge.or f.hostsBridge else f.hostsBridge
    tier := n.tier
    perfMultiplier := n.perfMultiplier }

/-- The assignments of `heartbeat`. -/
def Fields.heartbeat (cfg : Config) (root : Fields) (r : RegisterRequest) (trusted : Bool) (now : ℕ)
    (f : Fields) : Fields :=
  let n := heartbeatRow cfg r.hostsGateway r.hostsBridge trusted now (f.or root).row
  let pays := trusted ∧ 0 < uptimeCredit cfg (f.or root).row now
  { f with
    uptimeRewards := if pays then some n.uptimeRewards else f.uptimeRewards
    pendingRewards := if pays then some n.pendingRewards else f.pendingRewards
    lastUptimeAt := if trusted then some now else f.lastUptimeAt
    hostsGateway := if trusted then r.hostsGateway.or f.hostsGateway else f.hostsGateway
    hostsBridge := if trusted then r.hostsBridge.or f.hostsBridge else f.hostsBridge
    lastReport := some now }

inductive Endpoint
  | register
  | heartbeat
  | remove
  deriving DecidableEq

/-- A request with the answers of `trustedReporter` and `kvrBalance`, and the second it comes at. -/
structure Call where
  endpoint : Endpoint
  body : Body
  trusted : Bool
  balance : ℚ
  now : ℕ

def Call.nodeId (c : Call) : NodeId := (c.body.nodeId.getD none).getD ""

def register (cfg : Config) (p : Process) (c : Call) : Except Failure Process :=
  let r := c.body.request p.realm.root
  let found := find p.realm (load p) r.nodeId
  match registerRow cfg r c.trusted c.balance c.now ((found.seen p.realm).map Fields.row) with
  | .error e => .error (.refused e)
  | .ok _ =>
    put p r.nodeId (fresh r.owner c.now)
      (Fields.register cfg p.realm.root r c.trusted c.now) found

def heartbeat (cfg : Config) (p : Process) (c : Call) : Except Failure Process :=
  let r := c.body.request p.realm.root
  if r.nodeId = "" then .error (.refused (.required ["nodeId"]))
  else
    match find p.realm (load p) r.nodeId with
    | .nothing => .error (.refused .nodeNotRegistered)
    | found => put p r.nodeId {} (Fields.heartbeat cfg p.realm.root r c.trusted c.now) found

def remove (p : Process) (c : Call) : Except Failure Process :=
  let r := c.body.request p.realm.root
  if r.nodeId = "" ∨ r.owner = "" then .error (.refused (.required ["nodeId", "owner"]))
  else
    match (find p.realm (load p) r.nodeId).seen p.realm with
    | none => .error (.refused .nodeNotFound)
    | some n =>
      if n.owner ≠ some r.owner then .error (.refused .notNodeOwner)
      -- `delete` looks at own properties only
      else .ok { p with nodes := (load p).erase r.nodeId }

def handle (cfg : Config) (p : Process) (c : Call) : Except Failure Process :=
  match c.endpoint with
  | .register => register cfg p c
  | .heartbeat => heartbeat cfg p c
  | .remove => remove p c

/-- The process after a request; one that fails has written nothing. -/
def serve (cfg : Config) (p : Process) (c : Call) : Process :=
  match handle cfg p c with
  | .ok p' => p'
  | .error _ => p

def step (cfg : Config) (p : Process) (c : Call) : Option Process := some (serve cfg p c)

/-! ### The frame of a request -/

/-- The request writes nothing but the row it names, and a node it registers is loaded as the row
that registration makes of the one there was. -/
structure Framed (cfg : Config) (p : Process) (c : Call) : Prop where
  rows : ∀ p', handle cfg p c = .ok p' →
    ∀ id, id ≠ c.nodeId → p'.nodes.lookup id = (load p).lookup id
  objects : (serve cfg p c).realm = p.realm
  visible : c.endpoint = .register → ∀ p', handle cfg p c = .ok p' →
    ∃ f, (load p').lookup c.nodeId = some f ∧
      f.row = (registeredRow cfg (c.body.request p.realm.root) c.trusted c.now
        (((load p).lookup c.nodeId).map Fields.row)).migrate

/-- The id has a row of its own, or is a name that nothing is inherited under. -/
def Plain (p : Process) (nodeId : NodeId) : Prop :=
  ((load p).lookup nodeId).isSome = true ∨ nodeId ∉ inheritedNames

/-- The requests that are refused without a look at the rows, and those that look only at rows
and leave them where the next load finds them. -/
def Admissible (cfg : Config) (p : Process) (c : Call) : Prop :=
  match c.endpoint with
  | .register =>
    (c.body.request p.realm.root).owner = "" ∨
      (0 < cfg.minOperatorKvr ∧ c.balance < cfg.minOperatorKvr) ∨
      (Plain p c.nodeId ∧
        ∀ b, renamedHub c.nodeId = some b → ((load p).lookup b).isSome = true)
  | .heartbeat => Plain p c.nodeId
  | .remove => True

@[simp]
theorem boot_root : Realm.boot.root = {} := rfl

@[simp]
theorem Fields.or_boot (f : Fields) : f.or {} = f := by
  simp [Fields.or]

theorem migrate_row (f : Fields) : (Fields.migrate {} f).row = f.row.migrate := by
  simp only [Fields.migrate, Fields.or_boot]
  rfl

theorem accrueUptime_fields (cfg : Config) (n : NodeRow) (now : ℕ) :
    accrueUptime cfg n now = { n with
      uptimeRewards :=
        if 0 < uptimeCredit cfg n now then n.uptimeRewards + uptimeCredit cfg n now
        else n.uptimeRewards
      pendingRewards :=
        if 0 < uptimeCredit cfg n now then n.pendingRewards + uptimeCredit cfg n now
        else n.pendingRewards
      lastUptimeAt := now } := by
  unfold accrueUptime
  by_cases hcredit : 0 < uptimeCredit cfg n now
  · simp only [hcredit, if_true]
  · simp only [hcredit, if_false]

theorem getD_ite {α : Type} (p : Prop) [Decidable p] (a d : α) (f : Option α) :
    (if p then some a else f).getD d = if p then a else f.getD d := by
  split_ifs
  · rfl
  · rfl

theorem getD_or {α : Type} (a f : Option α) (d : α) : (a.or f).getD d = a.getD (f.getD d) := by
  cases a with
  | none => rfl
  | some a => rfl

/-- On a process whose shared objects are as at the start, the assignments of a registration leave
the row that the registration of a row leaves. -/
theorem register_row (cfg : Config) (r : RegisterRequest) (trusted : Bool) (now : ℕ) (f : Fields) :
    (Fields.register cfg {} r trusted now f).row = registeredRow cfg r trusted now (some f.row) := by
  cases trusted with
  | false =>
    simp only [Fields.register, Fields.or_boot, Bool.false_eq_true, false_and, if_false]
    rfl
  | true =>
    simp only [Fields.register, Fields.or_boot, true_and, if_true, Fields.row, getD_ite, getD_or,
      registeredRow, accrueUptime_fields, Option.getD_some]
    -- the credit is that of the stored row: the assignments before it touch no role and no clock
    split_ifs with hpays hcredit hcredit
    · rfl
    · exact absurd hpays hcredit
    · exact absurd hcredit hpays
    · rfl

/-! ### What a request finds -/

theorem truthy_boot (name : String) : Fields.truthy {} name = false := by
  unfold Fields.truthy
  split
  all_goals rfl

section
variable {cfg : Config} {p p' : Process} {c : Call} {id : NodeId}

theorem find_row {f : Fields} (hrow : (load p).lookup id = some f) :
    find p.realm (load p) id = .row f := by
  unfold find
  rw [hrow]

theorem find_nothing (hboot : p.realm = Realm.boot) (hrow : (load p).lookup id = none)
    (hid : id ∉ inheritedNames) : find p.realm (load p) id = .nothing := by
  rw [inheritedNames, List.mem_cons, not_or] at hid
  unfold find
  rw [hrow]
  dsimp only
  rw [if_neg hid.1, if_neg hid.2, hboot, boot_root, truthy_boot]
  rfl

theorem find_shared (hrow : (load p).lookup id = none) (hid : id ∈ inheritedNames) :
    ∃ s, find p.realm (load p) id = .shared s := by
  unfold find
  rw [hrow]
  dsimp only
  by_cases hproto : id = "__proto__"
  · exact ⟨.objectPrototype, if_pos hproto⟩
  · have hmethod : id ∈ methodNames := (List.mem_cons.mp hid).resolve_left hproto
    exact ⟨.method id, by rw [if_neg hproto, if_pos hmethod]⟩

theorem not_plain (h : ¬ Plain p id) :
    (load p).lookup id = none ∧ id ∈ inheritedNames := by
  rw [Plain, not_or, not_not] at h
  exact ⟨Option.not_isSome_iff_eq_none.mp h.1, h.2⟩

variable {nodes : Table NodeId Fields}

theorem load_insert (g : Fields)
    (hp : p.nodes = nodes.insert id g)
    (hstay : ∀ b, renamedHub id = some b → (nodes.lookup b).isSome = true) :
    (load p).lookup id = some (Fields.migrate p.realm.root g) := by
  unfold load
  rw [hp]
  refine Renaming.lookup_pass_stay (AList.lookup_insert _) fun b hb => ?_
  have hbid : b ≠ id := fun he => hubRenaming.ne hb he.symm
  rw [AList.lookup_insert_ne hbid]
  exact hstay b hb

theorem load_insert_retired {b : NodeId} (g : Fields)
    (hp : p.nodes = nodes.insert id g) (hb : renamedHub id = some b)
    (hfree : nodes.lookup b = none) : (load p).lookup id = none := by
  have hren : hubRenaming.rename id = some b := hb
  unfold load
  rw [hp]
  refine (Renaming.lookup_pass_move (AList.lookup_insert _) hren ?_).1
  rw [AList.lookup_insert_ne (hubRenaming.ne hren).symm, hfree]

/-! ### One request -/

theorem framed_of_refused {e : Failure} (h : handle cfg p c = .error e) : Framed cfg p c where
  rows p' hp' := by
    rw [h] at hp'
    cases hp'
  objects := by
    unfold serve
    rw [h]
  visible _ p' hp' := by
    rw [h] at hp'
    cases hp'

theorem framed_of_ok (h : handle cfg p c = .ok p') (hrealm : p'.realm = p.realm)
    (hrows : ∀ id, id ≠ c.nodeId → p'.nodes.lookup id = (load p).lookup id)
    (hvisible : c.endpoint = .register → ∃ f, (load p').lookup c.nodeId = some f ∧
      f.row = (registeredRow cfg (c.body.request p.realm.root) c.trusted c.now
        (((load p).lookup c.nodeId).map Fields.row)).migrate) : Framed cfg p c where
  rows q hq := by
    obtain rfl : p' = q := Except.ok.inj (h.symm.trans hq)
    exact hrows
  objects := by
    unfold serve
    rw [h]
    exact hrealm
  visible hregister q hq := by
    obtain rfl : p' = q := Except.ok.inj (h.symm.trans hq)
    exact hvisible hregister

theorem not_framed_of_shared {s : Shared} {write : Fields → Fields}
    (h : handle cfg p c = .ok ⟨Function.update p.realm s (write (p.realm s)), nodes⟩)
    (hwrite : write (p.realm s) ≠ p.realm s) : ¬ Framed cfg p c := by
  intro hframed
  have hobjects := hframed.objects
  unfold serve at hobjects
  rw [h] at hobjects
  dsimp only at hobjects
  have hs := congrFun hobjects s
  rw [Function.update_self] at hs
  exact hwrite hs

theorem remove_framed (h : c.endpoint = .remove) : Framed cfg p c := by
  have hhandle : handle cfg p c = remove p c := by
    unfold handle
    rw [h]
  unfold remove at hhandle
  by_cases hmissing : (c.body.request p.realm.root).nodeId = "" ∨
      (c.body.request p.realm.root).owner = ""
  · rw [if_pos hmissing] at hhandle
    exact framed_of_refused hhandle
  · rw [if_neg hmissing] at hhandle
    cases hseen : (find p.realm (load p) (c.body.request p.realm.root).nodeId).seen p.realm with
    | none =>
      rw [hseen] at hhandle
      exact framed_of_refused hhandle
    | some n =>
      rw [hseen] at hhandle
      dsimp only at hhandle
      by_cases howner : n.owner ≠ some (c.body.request p.realm.root).owner
      · rw [if_pos howner] at hhandle
        exact framed_of_refused hhandle
      · rw [if_neg howner] at hhandle
        refine framed_of_ok hhandle rfl (fun id hid => AList.lookup_erase_ne hid) fun hregister => ?_
        rw [h] at hregister
        cases hregister

theorem heartbeat_framed_iff (hboot : p.realm = Realm.boot) (h : c.endpoint = .heartbeat) :
    Framed cfg p c ↔ Plain p c.nodeId := by
  have hhandle : handle cfg p c = heartbeat cfg p c := by
    unfold handle
    rw [h]
  have hid : (c.body.request p.realm.root).nodeId = c.nodeId := rfl
  unfold heartbeat at hhandle
  by_cases hmissing : c.nodeId = ""
  · have hplain : Plain p c.nodeId := Or.inr (by rw [hmissing]; decide)
    dsimp only at hhandle
    rw [hid, if_pos hmissing] at hhandle
    exact iff_of_true (framed_of_refused hhandle) hplain
  · dsimp only at hhandle
    rw [hid, if_neg hmissing] at hhandle
    constructor
    · intro hframed
      by_contra hplain
      obtain ⟨hrow, hname⟩ := not_plain hplain
      obtain ⟨s, hs⟩ := find_shared hrow hname
      rw [hs] at hhandle
      refine not_framed_of_shared hhandle (fun hsame => ?_) hframed
      have hreport := congrArg Fields.lastReport hsame
      rw [hboot] at hreport
      cases hreport
    · intro hplain
      cases hrow : (load p).lookup c.nodeId with
      | some f =>
        rw [find_row hrow] at hhandle
        refine framed_of_ok hhandle rfl (fun id hne => AList.lookup_insert_ne hne) fun hregister => ?_
        rw [h] at hregister
        cases hregister
      | none =>
        have hname : c.nodeId ∉ inheritedNames := by
          refine hplain.resolve_left ?_
          rw [hrow]
          exact Bool.false_ne_true
        rw [find_nothing hboot hrow hname] at hhandle
        exact framed_of_refused hhandle

/-- A registration passes its checks when it is complete, the wallet holds enough, and the row there
is not another owner's. -/
theorem registerRow_cases (r : RegisterRequest) (trusted : Bool) (balance : ℚ) (now : ℕ)
    (e : Option NodeRow) (hid : r.nodeId ≠ "") (howner : r.owner ≠ "")
    (hbalance : ¬ (0 < cfg.minOperatorKvr ∧ balance < cfg.minOperatorKvr)) :
    registerRow cfg r trusted balance now e = .ok (registeredRow cfg r trusted now e) ∨
      (∃ n, e = some n ∧ n.owner ≠ "") ∧
        registerRow cfg r trusted balance now e = .error .nodeHeldByOther := by
  unfold registerRow
  rw [if_neg (not_or.mpr ⟨hid, howner⟩), if_neg hbalance]
  by_cases hheld : (e.any fun e => e.owner != "" && e.owner != r.owner && !trusted && e.holdsValue)
  · refine Or.inr ⟨?_, if_pos hheld⟩
    cases e with
    | none => cases hheld
    | some n =>
      refine ⟨n, rfl, fun hempty => ?_⟩
      rw [Option.any_some, hempty] at hheld
      cases hheld
  · exact Or.inl (if_neg hheld)

theorem registerRow_early (r : RegisterRequest) (trusted : Bool) (balance : ℚ) (now : ℕ)
    (e : Option NodeRow) (h : r.nodeId = "" ∨ r.owner = "" ∨
      (0 < cfg.minOperatorKvr ∧ balance < cfg.minOperatorKvr)) :
    ∃ refusal, registerRow cfg r trusted balance now e = .error refusal := by
  unfold registerRow
  by_cases hmissing : r.nodeId = "" ∨ r.owner = ""
  · exact ⟨_, if_pos hmissing⟩
  · have hbalance : 0 < cfg.minOperatorKvr ∧ balance < cfg.minOperatorKvr :=
      (or_assoc.mpr h).resolve_left hmissing
    exact ⟨_, by rw [if_neg hmissing, if_pos hbalance]⟩

theorem register_ok {r : RegisterRequest} {found : Found} {g : Fields}
    (hboot : p.realm = Realm.boot) (hr : r = c.body.request p.realm.root)
    (hhandle : handle cfg p c = put p c.nodeId (fresh r.owner c.now)
      (Fields.register cfg p.realm.root r c.trusted c.now) found)
    (hput : put p c.nodeId (fresh r.owner c.now)
      (Fields.register cfg p.realm.root r c.trusted c.now) found =
        .ok { p with nodes := (load p).insert c.nodeId (Fields.register cfg p.realm.root r c.trusted c.now g) })
    (hg : registeredRow cfg r c.trusted c.now (((load p).lookup c.nodeId).map Fields.row) =
      registeredRow cfg r c.trusted c.now (some g.row))
    (hstay : ∀ b, renamedHub c.nodeId = some b → ((load p).lookup b).isSome = true) :
    Framed cfg p c := by
  refine framed_of_ok (hhandle.trans hput) rfl (fun id hne => AList.lookup_insert_ne hne) fun _ => ?_
  refine ⟨_, load_insert _ rfl hstay, ?_⟩
  rw [← hr, hg, hboot, boot_root, migrate_row, register_row]

theorem register_framed_iff (hboot : p.realm = Realm.boot) (h : c.endpoint = .register) :
    Framed cfg p c ↔
      (c.body.request p.realm.root).owner = "" ∨
      (0 < cfg.minOperatorKvr ∧ c.balance < cfg.minOperatorKvr) ∨
      (Plain p c.nodeId ∧
        ∀ b, renamedHub c.nodeId = some b → ((load p).lookup b).isSome = true) := by
  have hhandle : handle cfg p c = register cfg p c := by
    unfold handle
    rw [h]
  unfold register at hhandle
  dsimp only at hhandle
  generalize hr : c.body.request p.realm.root = r at hhandle ⊢
  have hid : r.nodeId = c.nodeId := by
    rw [← hr]
    rfl
  by_cases hearly : r.nodeId = "" ∨ r.owner = "" ∨
      (0 < cfg.minOperatorKvr ∧ c.balance < cfg.minOperatorKvr)
  · obtain ⟨refusal, hrefused⟩ := registerRow_early r c.trusted c.balance c.now
      (((find p.realm (load p) r.nodeId).seen p.realm).map Fields.row) hearly
    rw [hrefused] at hhandle
    refine iff_of_true (framed_of_refused hhandle) ?_
    rcases hearly with hempty | howner | hbalance
    · rw [hid] at hempty
      refine Or.inr (Or.inr ⟨Or.inr (by rw [hempty]; decide), fun b hb => ?_⟩)
      rw [hempty] at hb
      cases hb
    · exact Or.inl howner
    · exact Or.inr (Or.inl hbalance)
  · simp only [not_or] at hearly
    obtain ⟨hempty, howner, hbalance⟩ := hearly
    rw [hid] at hhandle
    constructor
    · intro hframed
      refine Or.inr (Or.inr ?_)
      have hplain : Plain p c.nodeId := by
        by_contra hplain
        obtain ⟨hrow, hname⟩ := not_plain hplain
        obtain ⟨s, hs⟩ := find_shared hrow hname
        rw [hs, hboot] at hhandle
        obtain hok | ⟨⟨n, hn, hheld⟩, -⟩ := registerRow_cases r c.trusted c.balance c.now
          (((Found.shared s).seen Realm.boot).map Fields.row) hempty howner hbalance
        · rw [hok, ← hboot] at hhandle
          refine not_framed_of_shared hhandle (fun hsame => ?_) hframed
          have hwritten := congrArg Fields.owner hsame
          rw [hboot] at hwritten
          cases hwritten
        · -- a shared object has no owner yet
          obtain rfl := Option.some.inj hn
          exact hheld rfl
      refine ⟨hplain, fun b hb => ?_⟩
      by_contra hfree
      have hfree' : (load p).lookup b = none := Option.not_isSome_iff_eq_none.mp hfree
      have hrow : (load p).lookup c.nodeId = none := Renaming.lookup_pass_retired hb hfree'
      have hname : c.nodeId ∉ inheritedNames := by
        refine hplain.resolve_left ?_
        rw [hrow]
        exact Bool.false_ne_true
      rw [find_nothing hboot hrow hname] at hhandle
      obtain hok | ⟨⟨n, hn, -⟩, -⟩ := registerRow_cases r c.trusted c.balance c.now
        ((Found.nothing.seen p.realm).map Fields.row) hempty howner hbalance
      · rw [hok] at hhandle
        -- the next load moves the new row to its new id
        obtain ⟨f, hf, -⟩ := hframed.visible h _ hhandle
        rw [load_insert_retired _ rfl hb hfree'] at hf
        cases hf
      · cases hn
    · rintro (hmissing | hlow | ⟨hplain, hstay⟩)
      · exact absurd hmissing howner
      · exact absurd hlow hbalance
      · cases hrow : (load p).lookup c.nodeId with
        | some f =>
          rw [find_row hrow] at hhandle
          obtain hok | ⟨-, hheld⟩ := registerRow_cases r c.trusted c.balance c.now
            (((Found.row f).seen p.realm).map Fields.row) hempty howner hbalance
          · rw [hok] at hhandle
            refine register_ok hboot hr.symm hhandle rfl ?_ hstay
            rw [hrow]
            rfl
          · rw [hheld] at hhandle
            exact framed_of_refused hhandle
        | none =>
          have hname : c.nodeId ∉ inheritedNames := by
            refine hplain.resolve_left ?_
            rw [hrow]
            exact Bool.false_ne_true
          rw [find_nothing hboot hrow hname] at hhandle
          obtain hok | ⟨⟨n, hn, -⟩, -⟩ := registerRow_cases r c.trusted c.balance c.now
            ((Found.nothing.seen p.realm).map Fields.row) hempty howner hbalance
          · rw [hok] at hhandle
            refine register_ok hboot hr.symm hhandle rfl ?_ hstay
            rw [hrow]
            rfl
          · cases hn

theorem framed_iff (hboot : p.realm = Realm.boot) : Framed cfg p c ↔ Admissible cfg p c := by
  unfold Admissible
  cases h : c.endpoint with
  | register => exact register_framed_iff hboot h
  | heartbeat => exact heartbeat_framed_iff hboot h
  | remove => exact iff_of_true (remove_framed h) trivial

end

/-! ### Runs -/

/-- From the start of the process, with any stored rows, the requests of a run touch only the nodes
they name exactly when each of them is admissible where it comes. -/
theorem requests_framed_iff (cfg : Config) (nodes : Table NodeId Fields) (calls : List Call) :
    Along (step cfg) (Framed cfg) ⟨Realm.boot, nodes⟩ calls ↔
      Along (step cfg) (Admissible cfg) ⟨Realm.boot, nodes⟩ calls := by
  induction calls generalizing nodes with
  | nil => exact Iff.rfl
  | cons c calls ih =>
    have hfirst : Framed cfg ⟨Realm.boot, nodes⟩ c ↔ Admissible cfg ⟨Realm.boot, nodes⟩ c :=
      framed_iff rfl
    -- a framed request leaves the shared objects as at the start, so the rest is such a run again
    have hrest (hframed : Framed cfg ⟨Realm.boot, nodes⟩ c) :
        serve cfg ⟨Realm.boot, nodes⟩ c =
          ⟨Realm.boot, (serve cfg ⟨Realm.boot, nodes⟩ c).nodes⟩ := by
      have hrealm := hframed.objects
      generalize serve cfg ⟨Realm.boot, nodes⟩ c = p' at hrealm ⊢
      obtain ⟨realm, nodes'⟩ := p'
      obtain rfl : realm = Realm.boot := hrealm
      rfl
    constructor
    · rintro ⟨hframed, htail⟩
      refine ⟨hfirst.mp hframed, fun p' hp' => ?_⟩
      have hnext := htail p' hp'
      obtain rfl := Option.some.inj hp'
      rw [hrest hframed] at hnext ⊢
      exact (ih _).mp hnext
    · rintro ⟨hadmissible, htail⟩
      have hframed := hfirst.mpr hadmissible
      refine ⟨hframed, fun p' hp' => ?_⟩
      have hnext := htail p' hp'
      obtain rfl := Option.some.inj hp'
      rw [hrest hframed] at hnext ⊢
      exact (ih _).mpr hnext

/-- `POST /api/node/register` with a node id that every object inherits. -/
def registerConstructor : Call where
  endpoint := .register
  body := { nodeId := some (some "constructor"), owner := some (some "wallet") }
  trusted := false
  balance := 0
  now := 1000

/-- The registration is accepted; it writes into the function `Object` and stores no row. -/
theorem constructor_not_framed :
    ((serve defaultConfig ⟨Realm.boot, ∅⟩ registerConstructor).realm
        (.method "constructor")).owner = some "wallet" ∧
      (load (serve defaultConfig ⟨Realm.boot, ∅⟩ registerConstructor)).lookup "constructor" =
        none ∧
      ¬ Along (step defaultConfig) (Framed defaultConfig) ⟨Realm.boot, ∅⟩
        [registerConstructor] := by
  have hwritten : ((serve defaultConfig ⟨Realm.boot, ∅⟩ registerConstructor).realm
      (.method "constructor")).owner = some "wallet" := by decide +kernel
  refine ⟨hwritten, by decide +kernel, fun h => ?_⟩
  have hobjects := h.1.objects
  rw [hobjects] at hwritten
  cases hwritten

end KvasirNet.Gateway.Prototypes
