import KvasirNet.GatewaySystem
import KvasirNet.TableRenaming
import Mathlib.Algebra.Order.Group.Multiset

/-! The vocabulary upgrade that runs on every load. It rewrites rows and moves
them between ids, and keeps the rows themselves. -/
namespace KvasirNet.Gateway

variable {b : NodeId}

theorem renamedHub_renamed {h : NodeId} (hb : renamedHub h = some b) : renamedHub b = none := by
  unfold renamedHub at hb ⊢
  split_ifs at hb with hp
  obtain rfl := Option.some.inj hb
  rw [if_neg]
  intro hprefix
  have htake := List.prefix_iff_eq_take.mp hprefix
  rw [String.toList_ofList, List.take_append_of_le_length (by decide)] at htake
  exact absurd htake (by decide)

theorem renamedHub_injective {h h' : NodeId} (hb : renamedHub h = some b)
    (hb' : renamedHub h' = some b) : h = h' := by
  unfold renamedHub at hb hb'
  split_ifs at hb hb' with hp hp'
  have heq : String.ofList (bridgePrefix ++ h.toList.drop hubPrefix.length) =
      String.ofList (bridgePrefix ++ h'.toList.drop hubPrefix.length) :=
    Option.some.inj (hb.trans hb'.symm)
  have hdrop : h.toList.drop hubPrefix.length = h'.toList.drop hubPrefix.length := by
    have hlist := congrArg String.toList heq
    simpa only [String.toList_ofList, List.append_cancel_left_eq] using hlist
  have htake : h.toList.take hubPrefix.length = h'.toList.take hubPrefix.length :=
    (List.prefix_iff_eq_take.mp hp).symm.trans (List.prefix_iff_eq_take.mp hp')
  apply String.toList_injective
  calc
    h.toList = h.toList.take hubPrefix.length ++ h.toList.drop hubPrefix.length :=
      (List.take_append_drop _ _).symm
    _ = h'.toList.take hubPrefix.length ++ h'.toList.drop hubPrefix.length := by rw [htake, hdrop]
    _ = h'.toList := List.take_append_drop _ _

/-- The retired ids, and the id each is renamed to. -/
def hubRenaming : Renaming NodeId where
  rename := renamedHub
  injective := renamedHub_injective
  current := renamedHub_renamed

theorem migrateEntry_eq : migrateEntry = hubRenaming.turn NodeRow.migrate := by
  funext nodes id
  unfold migrateEntry Renaming.turn
  cases nodes.lookup id with
  | none => rfl
  | some n =>
    have hrename : hubRenaming.rename id = renamedHub id := rfl
    simp only [hrename]
    cases renamedHub id with
    | none => rfl
    | some renamed => rfl

theorem loadDB_nodes (db : DB) :
    (loadDB db).nodes = hubRenaming.pass NodeRow.migrate db.nodes := by
  unfold loadDB migrateHubVocabulary Renaming.pass
  rw [migrateEntry_eq]

theorem total_loadDB {M : Type} [AddCancelCommMonoid M] (f : NodeRow → M)
    (hf : ∀ n, f n.migrate = f n) (db : DB) :
    (loadDB db).nodes.total (fun _ n => f n) = db.nodes.total fun _ n => f n := by
  rw [loadDB_nodes]
  exact Renaming.total_pass f hf db.nodes

@[simp]
theorem ownerPending_loadDB (o : Wallet) (db : DB) :
    ownerPending o (loadDB db).nodes = ownerPending o db.nodes :=
  total_loadDB (fun n => if n.owner = o then n.pendingRewards else 0) (fun _ => rfl) db

@[simp]
theorem loadDB_positions (db : DB) : (loadDB db).positions = db.positions := rfl

@[simp]
theorem loadDB_usedSignatures (db : DB) : (loadDB db).usedSignatures = db.usedSignatures := rfl

@[simp]
theorem loadDB_requests (db : DB) : (loadDB db).requests = db.requests := rfl

@[simp]
theorem loadDB_credits (db : DB) : (loadDB db).credits = db.credits := rfl

variable {db : DB}

theorem loadDB_rows {Q : NodeRow → Prop} (hQ : ∀ n, Q n → Q n.migrate)
    (h : ∀ k n, db.nodes.lookup k = some n → Q n) :
    ∀ k n, (loadDB db).nodes.lookup k = some n → Q n := by
  rw [loadDB_nodes]
  exact Renaming.pass_rows hQ h

/-- The id a row is known under after the upgrade, when that id is free. -/
def canonicalId (id : NodeId) : NodeId := (renamedHub id).getD id

theorem canonicalId_renamed {h : NodeId} (hb : renamedHub h = some b) :
    canonicalId h = b ∧ canonicalId b = b := by
  simp [canonicalId, hb, renamedHub_renamed hb]

@[simp]
theorem NodeRow.migrate_migrate (n : NodeRow) : n.migrate.migrate = n.migrate := by
  unfold NodeRow.migrate
  cases hb : n.hostsBridge <;> cases hh : n.hostsHub <;> by_cases hk : n.deviceKind = some "hub" <;>
    simp [hk]

variable {k : NodeId}

theorem lookup_loadDB_stay {v : NodeRow} (h : db.nodes.lookup k = some v)
    (hstay : ∀ b, renamedHub k = some b → (db.nodes.lookup b).isSome = true) :
    (loadDB db).nodes.lookup k = some v.migrate := by
  rw [loadDB_nodes]
  exact Renaming.lookup_pass_stay h hstay

theorem lookup_loadDB_move {v : NodeRow} (h : db.nodes.lookup k = some v)
    (hb : renamedHub k = some b) (hfree : db.nodes.lookup b = none) :
    (loadDB db).nodes.lookup k = none ∧ (loadDB db).nodes.lookup b = some v.migrate := by
  rw [loadDB_nodes]
  exact Renaming.lookup_pass_move h hb hfree

theorem lookup_loadDB_free (h : db.nodes.lookup k = none)
    (hto : ∀ id, renamedHub id = some k → db.nodes.lookup id = none) :
    (loadDB db).nodes.lookup k = none := by
  rw [loadDB_nodes]
  exact Renaming.lookup_pass_free h hto

/-- What is loaded under an id depends on the row there, on whether its new id is
taken and, when there is no row, on the row that would be renamed to it. -/
theorem lookup_loadDB_congr {d d' : DB} (hk : d'.nodes.lookup k = d.nodes.lookup k)
    (hto : ∀ b, renamedHub k = some b → (d'.nodes.lookup b).isSome = (d.nodes.lookup b).isSome)
    (hof : d.nodes.lookup k = none → ∀ id, renamedHub id = some k →
      d'.nodes.lookup id = d.nodes.lookup id) :
    (loadDB d').nodes.lookup k = (loadDB d).nodes.lookup k := by
  rw [loadDB_nodes, loadDB_nodes]
  exact Renaming.lookup_pass_congr hk hto hof

theorem loadDB_upgraded (db : DB) :
    (∀ k v, (loadDB db).nodes.lookup k = some v → v.migrate = v) ∧
    ∀ h b, renamedHub h = some b → (loadDB db).nodes.lookup b = none →
      (loadDB db).nodes.lookup h = none := by
  rw [loadDB_nodes]
  constructor
  · intro k v hv
    obtain ⟨w, rfl, -⟩ := Renaming.lookup_pass_some hv
    exact w.migrate_migrate
  · intro h b hb hfree
    exact Renaming.lookup_pass_retired hb hfree

theorem lookup_loadDB_loadDB (db : DB) (k : NodeId) :
    (loadDB (loadDB db)).nodes.lookup k = (loadDB db).nodes.lookup k := by
  rw [loadDB_nodes, loadDB_nodes]
  exact Renaming.lookup_pass_pass NodeRow.migrate_migrate db.nodes k

theorem lookup_loadDB_of_canonicalId {d : DB} {nodes : Table NodeId NodeRow} {id : NodeId}
    (hne : canonicalId k ≠ canonicalId id) (h : ∀ j, j ≠ id → nodes.lookup j = d.nodes.lookup j) :
    (loadDB { d with nodes := nodes }).nodes.lookup k = (loadDB d).nodes.lookup k := by
  apply lookup_loadDB_congr
  · exact h k fun he => hne (he ▸ rfl)
  · intro b hb
    have hbid : b ≠ id := by
      rintro rfl
      exact hne ((canonicalId_renamed hb).1.trans (canonicalId_renamed hb).2.symm)
    rw [h b hbid]
  · intro _ j hj
    refine h j ?_
    rintro rfl
    exact hne ((canonicalId_renamed hj).2.trans (canonicalId_renamed hj).1.symm)

/-! ### The ledger -/

structure Account where
  owner : Wallet
  pendingRewards : ℚ
  claimedTotal : ℚ
  creditedUnits : ℚ
  uptimeRewards : ℚ
  deriving DecidableEq

def NodeRow.account (n : NodeRow) : Account :=
  ⟨n.owner, n.pendingRewards, n.claimedTotal, n.creditedUnits, n.uptimeRewards⟩

/-- The accounts of all records, whatever their ids. -/
def accounts (nodes : Table NodeId NodeRow) : Multiset Account :=
  (nodes.entries.map fun e => e.2.account : List Account)

theorem accounts_eq_total (nodes : Table NodeId NodeRow) :
    accounts nodes = nodes.total fun _ n => ({n.account} : Multiset Account) := by
  unfold accounts Table.total
  induction nodes.entries with
  | nil => rfl
  | cons e entries ih =>
    rw [List.map_cons, List.map_cons, List.sum_cons, ← ih, ← Multiset.cons_coe,
      ← Multiset.singleton_add]

theorem record_kept {v : NodeRow} (h : db.nodes.lookup k = some v) :
    (loadDB db).nodes.lookup k = some v.migrate ∨
      ∃ b, renamedHub k = some b ∧ db.nodes.lookup b = none ∧
        (loadDB db).nodes.lookup b = some v.migrate := by
  rcases hubRenaming.turn_cases db.nodes k with hn | ⟨n, -, hstay⟩ | ⟨n, b, -, hb, hfree⟩
  · rw [h] at hn
    cases hn
  · exact Or.inl (lookup_loadDB_stay h hstay)
  · exact Or.inr ⟨b, hb, hfree, (lookup_loadDB_move h hb hfree).2⟩

/-- The migration done twice is the migration done once; it keeps the accounts of the records as
they are, leaves a retired id only beside its new one, and loses and overwrites no record. -/
theorem migration_keeps_ledger (db : DB) :
    ({ migrateHubVocabulary (migrateHubVocabulary db) with nodes := ∅ } =
        { migrateHubVocabulary db with nodes := ∅ } ∧
      (migrateHubVocabulary (migrateHubVocabulary db)).nodes.entries.Perm
        (migrateHubVocabulary db).nodes.entries) ∧
    accounts (migrateHubVocabulary db).nodes = accounts db.nodes ∧
    (∀ h b, renamedHub h = some b → ((migrateHubVocabulary db).nodes.lookup h).isSome = true →
      ((migrateHubVocabulary db).nodes.lookup b).isSome = true) ∧
    ∀ k v, db.nodes.lookup k = some v → v.migrate.account = v.account ∧
      ((migrateHubVocabulary db).nodes.lookup k = some v.migrate ∨
        ∃ b, renamedHub k = some b ∧ db.nodes.lookup b = none ∧
          (migrateHubVocabulary db).nodes.lookup b = some v.migrate) := by
  refine ⟨⟨rfl, ?_⟩, ?_, ?_, ?_⟩
  · apply List.lookup_ext (AList.nodupKeys _) (AList.nodupKeys _)
    intro k v
    have hsame := lookup_loadDB_loadDB db k
    unfold loadDB AList.lookup at hsame
    rw [hsame]
  · rw [accounts_eq_total, accounts_eq_total]
    exact total_loadDB (fun n => ({n.account} : Multiset Account)) (fun _ => rfl) db
  · intro h b hb hsome
    by_contra hfree
    have hnone := (loadDB_upgraded db).2 h b hb (Option.not_isSome_iff_eq_none.mp hfree)
    unfold loadDB at hnone
    rw [hnone] at hsome
    cases hsome
  · intro k v hv
    exact ⟨rfl, record_kept hv⟩

end KvasirNet.Gateway
