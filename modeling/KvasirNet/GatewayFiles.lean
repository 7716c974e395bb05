import KvasirNet.Runs
import KvasirNet.GatewayStore

/-! The three files behind the database. `loadDB` reads `positions.json` and falls back to its
backup; `saveDB` writes a new file, copies the old one over the backup and renames the new one into
place. Any of its steps may be the last before a crash. -/
namespace KvasirNet.Gateway

/-- A file that is there holds a database or nothing that can be read as one. -/
inductive StoredFile
  | absent
  | unreadable
  | holding (db : DB)
  deriving DecidableEq

structure Disk where
  /-- `DB_FILE` -/
  main : StoredFile
  /-- `DB_TMP` -/
  tmp : StoredFile
  /-- `DB_BAK` -/
  bak : StoredFile
  deriving DecidableEq

def StoredFile.read : StoredFile → Option DB
  | .holding db => some db
  | _ => none

/-- `loadDB`: the first of the two files that can be read, else the empty database. -/
def Disk.load (d : Disk) : DB := ((d.main.read.or d.bak.read).map migrateHubVocabulary).getD DB.empty

/-- Where `saveDB` is. -/
inductive Saving
  | writing
  | copying
  | replacing
  | saved
  deriving DecidableEq, Repr

/-- How a system call goes on: it leaves a part of the file, it ends, or it throws. -/
inductive SaveMove
  | torn
  | ended
  | thrown
  deriving DecidableEq, Repr

structure SaveState where
  disk : Disk
  stage : Saving
  deriving DecidableEq

/-- One move of `saveDB(db)`. -/
def saveStep (db : DB) (s : SaveState) : SaveMove → Option SaveState
  | .torn =>
    match s.stage with
    | .writing => some { s with disk.tmp := .unreadable }
    | .copying => if s.disk.main = .absent then none else some { s with disk.bak := .unreadable }
    -- a rename is atomic
    | .replacing | .saved => none
  | .ended =>
    match s.stage with
    | .writing => some ⟨{ s.disk with tmp := .holding db }, .copying⟩
    | .copying =>
      -- nothing to back up
      if s.disk.main = .absent then some { s with stage := .replacing }
      else some ⟨{ s.disk with bak := s.disk.main }, .replacing⟩
    | .replacing => some ⟨{ s.disk with main := s.disk.tmp, tmp := .absent }, .saved⟩
    | .saved => none
  | .thrown =>
    match s.stage with
    -- "best-effort backup": the exception is caught
    | .copying => some { s with stage := .replacing }
    | _ => none

/-- The disk in the middle of a save that found `d`. -/
structure Midway (d : Disk) (db : DB) (s : SaveState) : Prop where
  main : s.stage ≠ .saved → s.disk.main = d.main
  tmp : s.stage ≠ .writing → s.stage ≠ .saved → s.disk.tmp = .holding db
  bak : s.disk.bak = d.bak ∨ d.main ≠ .absent ∧ (s.disk.bak = .unreadable ∨ s.disk.bak = d.main)
  saved : s.stage = .saved → s.disk.main = .holding db

section
variable {d : Disk} {db : DB} {s s' : SaveState} {m : SaveMove}

theorem Midway.start : Midway d db ⟨d, .writing⟩ where
  main := fun _ => rfl
  tmp := fun h => absurd rfl h
  bak := Or.inl rfl
  saved := by
    intro h
    cases h

theorem Midway.step (h : Midway d db s) (hs : saveStep db s m = some s') : Midway d db s' := by
  obtain ⟨disk, stage⟩ := s
  obtain ⟨hmain, htmp, hbak, hsaved⟩ := h
  cases stage with
  | writing =>
    have hmain' : disk.main = d.main := hmain Saving.noConfusion
    cases m with
    | torn =>
      obtain rfl := Option.some.inj hs
      exact ⟨fun _ => hmain', fun he => absurd rfl he, hbak, Saving.noConfusion⟩
    | ended =>
      obtain rfl := Option.some.inj hs
      exact ⟨fun _ => hmain', fun _ _ => rfl, hbak, Saving.noConfusion⟩
    | thrown => cases hs
  | copying =>
    have hmain' : disk.main = d.main := hmain Saving.noConfusion
    have htmp' : disk.tmp = .holding db := htmp Saving.noConfusion Saving.noConfusion
    cases m with
    | torn =>
      change (if disk.main = .absent then none
        else some (⟨{ disk with bak := .unreadable }, .copying⟩ : SaveState)) = some s' at hs
      split_ifs at hs with habsent
      obtain rfl := Option.some.inj hs
      rw [hmain'] at habsent
      exact ⟨fun _ => hmain', fun _ _ => htmp', Or.inr ⟨habsent, Or.inl rfl⟩, Saving.noConfusion⟩
    | ended =>
      change (if disk.main = .absent then some (⟨disk, .replacing⟩ : SaveState)
        else some ⟨{ disk with bak := disk.main }, .replacing⟩) = some s' at hs
      split_ifs at hs with habsent
      · obtain rfl := Option.some.inj hs
        exact ⟨fun _ => hmain', fun _ _ => htmp', hbak, Saving.noConfusion⟩
      · obtain rfl := Option.some.inj hs
        rw [hmain'] at habsent
        exact ⟨fun _ => hmain', fun _ _ => htmp', Or.inr ⟨habsent, Or.inr hmain'⟩,
          Saving.noConfusion⟩
    | thrown =>
      obtain rfl := Option.some.inj hs
      exact ⟨fun _ => hmain', fun _ _ => htmp', hbak, Saving.noConfusion⟩
  | replacing =>
    have htmp' : disk.tmp = .holding db := htmp Saving.noConfusion Saving.noConfusion
    cases m with
    | torn => cases hs
    | ended =>
      obtain rfl := Option.some.inj hs
      exact ⟨fun he => absurd rfl he, fun _ he => absurd rfl he, hbak, fun _ => htmp'⟩
    | thrown => cases hs
  | saved =>
    cases m with
    | torn => cases hs
    | ended => cases hs
    | thrown => cases hs

theorem midway_of_runs {moves : List SaveMove} (h : runs (saveStep db) ⟨d, .writing⟩ moves = some s) :
    Midway d db s :=
  runs_invariant (fun _ _ _ _ hmid hs => hmid.step hs)
    (along_of_forall (fun _ _ => trivial) _ _) h Midway.start

theorem load_of_main {db' : DB} (h : d.main = .holding db') : d.load = loadDB db' := by
  unfold Disk.load
  rw [h]
  rfl

theorem load_of_not_main (h : d.main.read = none) :
    d.load = (d.bak.read.map migrateHubVocabulary).getD DB.empty := by
  unfold Disk.load
  rw [h]
  rfl

/-- What a crash at any point leaves to be loaded: the new database, what was loaded before, or,
where there was an unreadable main file to copy over the backup, nothing. -/
theorem Midway.load (h : Midway d db s) : s.disk.load = loadDB db ∨ s.disk.load = d.load ∨
    d.main = .unreadable ∧ s.disk.load = DB.empty := by
  by_cases hstage : s.stage = .saved
  · exact Or.inl (load_of_main (h.saved hstage))
  · have hmain := h.main hstage
    cases hold : d.main with
    | holding db' =>
      right
      left
      rw [load_of_main hold, load_of_main (hmain.trans hold)]
    | absent =>
      right
      left
      rcases h.bak with hbak | ⟨hpresent, -⟩
      · unfold Disk.load
        rw [hmain, hbak]
      · exact absurd hold hpresent
    | unreadable =>
      right
      rcases h.bak with hbak | ⟨-, hlost⟩
      · left
        unfold Disk.load
        rw [hmain, hbak]
      · right
        refine ⟨rfl, ?_⟩
        have hread : s.disk.main.read = none := by
          rw [hmain, hold]
          rfl
        have hbak : s.disk.bak.read = none := by
          rcases hlost with hlost | hlost
          · rw [hlost]
            rfl
          · rw [hlost, hold]
            rfl
        rw [load_of_not_main hread, hbak]
        rfl

end

/-- A save survives a crash after any of its steps exactly when no unreadable main file stands
before a backup that is still needed. -/
theorem save_crash_atomic_iff (d : Disk) (db : DB) :
    (∀ moves s, runs (saveStep db) ⟨d, .writing⟩ moves = some s →
      s.disk.load = d.load ∨ s.disk.load = loadDB db) ↔
    (d.main = .unreadable → d.load = DB.empty ∨ loadDB db = DB.empty) := by
  constructor
  · intro h hmain
    -- the backup is copied over, and then the machine stops
    have hrun : runs (saveStep db) ⟨d, .writing⟩ [.ended, .ended] =
        some ⟨⟨.unreadable, .holding db, .unreadable⟩, .replacing⟩ := by
      obtain ⟨main, tmp, bak⟩ := d
      obtain rfl : main = .unreadable := hmain
      rfl
    rcases h _ _ hrun with hold | hnew
    · exact Or.inl hold.symm
    · exact Or.inr hnew.symm
  · intro h moves s hrun
    rcases (midway_of_runs hrun).load with hnew | hold | ⟨hmain, hempty⟩
    · exact Or.inr hnew
    · exact Or.inl hold
    · rcases h hmain with hold | hnew
      · exact Or.inl (hempty.trans hold.symm)
      · exact Or.inr (hempty.trans hnew.symm)

def keptDb : DB := { DB.empty with usedSignatures := AList.insert "s" (.stake "A" 1 5) ∅ }

/-- The backup that a load has fallen back to is overwritten with the unreadable file before the new
file is in place. -/
theorem backup_overwritten : ∃ s, runs (saveStep keptDb) ⟨⟨.unreadable, .absent, .holding keptDb⟩, .writing⟩
      [.ended, .ended] = some s ∧
    s.disk.load ≠ (⟨.unreadable, .absent, .holding keptDb⟩ : Disk).load ∧
    s.disk.load ≠ loadDB keptDb ∧ s.disk.load = DB.empty := by
  refine ⟨_, rfl, ?_, ?_, ?_⟩
  · decide +kernel
  · decide +kernel
  · decide +kernel

end KvasirNet.Gateway
