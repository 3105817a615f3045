import MarketRelay.CatalogService
import MarketRelay.Ledger
import MarketRelay.Lib.Statements
import MarketRelay.Redispatch
import MarketRelay.SchedulerCycle

/-!
# The Migrations

The five migrations of the schema, in both directions, on a database that has rows. What they do to
the catalog is to create it and to drop it; what they do to the other tables is here: the columns
that they add and drop, the keys that they fill in, and the triggers that make a table append-only,
which are lost whenever a dialect has to recreate the table.

SQLite also copies the rows when it recreates a table. A block that adds a column without NULLs and
drops its default again has nothing to copy into that column, so it fails unless the table is empty
(`Dialect.fillColumn`). A step is a migration that succeeds: one that fails on SQLite is not undone.

Between any two migrations any client may execute any statements (`Step`).

## Main results

* `append_only`: from `0003` on, no statement and no migration takes a stored observation back or
  changes it, and at `0005` the same holds of the policy decisions.
* `migrations_lossless`: which migrations can be executed in the states that a database can reach,
  what an upgrade keeps, and when a downgrade undoes it.
* `legacy_upgraded`: when rows that `0001` stores can be upgraded, and what the service then finds.
-/

open Relational Interaction

namespace MarketRelay

/-! ### Dialects and triggers -/

/-- The database engine. -/
inductive Dialect where
  | sqlite
  | postgresql
  | other (name : String)
deriving DecidableEq, Repr

/-- The triggers that the migrations create, one set of them for each table. -/
inductive Trigger where
  | noUpdate
  | noDelete
  | appendOnly
deriving DecidableEq, Repr

def Trigger.rejectsUpdate : Trigger → Bool
  | noUpdate | appendOnly => true
  | noDelete => false

def Trigger.rejectsDelete : Trigger → Bool
  | noDelete | appendOnly => true
  | noUpdate => false

/-- What the triggers of a table reject. -/
def rejectsOf (triggers : List Trigger) : Rejects where
  update := triggers.any Trigger.rejectsUpdate
  delete := triggers.any Trigger.rejectsDelete

/-- Why a migration is not executed. -/
inductive MigrationError where
  | noMigration
  | integrity
  | triggerExists (trigger : Trigger)
  | unsupportedDialect (name : String)
deriving DecidableEq, Repr

def createTrigger (trigger : Trigger) (triggers : List Trigger) :
    Except MigrationError (List Trigger) :=
  if trigger ∈ triggers then .error (.triggerExists trigger) else .ok (triggers ++ [trigger])

/-- `DROP TRIGGER IF EXISTS`. -/
def dropTrigger (trigger : Trigger) (triggers : List Trigger) : List Trigger :=
  triggers.filter (· ≠ trigger)

namespace Dialect

/-- The triggers of a table after a block of `batch_alter_table`: SQLite recreates the table. -/
def batch : Dialect → List Trigger → List Trigger
  | sqlite, _ => []
  | _, triggers => triggers

/-- Create the triggers that make a table append-only. -/
def createAppendOnly : Dialect → List Trigger → Except MigrationError (List Trigger)
  | sqlite, triggers => do createTrigger .noDelete (← createTrigger .noUpdate triggers)
  | postgresql, triggers => createTrigger .appendOnly triggers
  | other name, _ => .error (.unsupportedDialect name)

def dropAppendOnly : Dialect → List Trigger → Except MigrationError (List Trigger)
  | sqlite, triggers => .ok (dropTrigger .noDelete (dropTrigger .noUpdate triggers))
  | postgresql, triggers => .ok (dropTrigger .appendOnly triggers)
  | other name, _ => .error (.unsupportedDialect name)

/-- `0005` has no branch for a dialect that `0003` rejects. -/
def isSupported : Dialect → Bool
  | sqlite | postgresql => true
  | other _ => false

end Dialect

/-! ### The text of an identifier -/

/-- The digits of a UUID. -/
def hexDigits (id : ℕ) : List Char := (Nat.toDigits 16 id).leftpad 32 '0'

/-- `CAST(id AS VARCHAR)`: PostgreSQL has a type for a UUID, elsewhere it is stored as its digits.
-/
def Dialect.uuidText : Dialect → ℕ → String
  | postgresql, id =>
    let hex := hexDigits id
    String.ofList (hex.take 8 ++ '-' :: ((hex.drop 8).take 4 ++ '-' :: ((hex.drop 12).take 4 ++
      '-' :: ((hex.drop 16).take 4 ++ '-' :: hex.drop 20))))
  | _, id => String.ofList (hexDigits id)

theorem ofHex_concat (digits : List Char) (c : Char) :
    Json.ofHex (digits ++ [c]) = Json.ofHex digits * 16 + (Json.hexValue c).getD 0 := by
  simp [Json.ofHex]

theorem ofHex_toDigits (n : ℕ) : Json.ofHex (Nat.toDigits 16 n) = n := by
  have hdigit : ∀ m : Fin 16, (Json.hexValue (Nat.digitChar m)).getD 0 = m := by decide
  induction n using Nat.strong_induction_on with
  | _ n ih =>
      rw [Nat.toDigits_eq_if (by decide)]
      split
      · rename_i hsmall
        have hvalue := hdigit ⟨n, hsmall⟩
        simpa [Json.ofHex] using hvalue
      · have hvalue : (Json.hexValue (Nat.digitChar (n % 16))).getD 0 = n % 16 :=
          hdigit ⟨n % 16, Nat.mod_lt n (by decide)⟩
        rw [ofHex_concat, ih (n / 16) (by omega), hvalue]
        omega

theorem ofHex_replicate (k : ℕ) (digits : List Char) :
    Json.ofHex (List.replicate k '0' ++ digits) = Json.ofHex digits := by
  have hzero : (Json.hexValue '0').getD 0 = 0 := by decide
  induction k with
  | zero => rfl
  | succ k ih => simpa [Json.ofHex, List.replicate_succ, hzero] using ih

theorem hexDigits_injective : Function.Injective hexDigits := by
  have hleft : Function.LeftInverse Json.ofHex hexDigits := fun n => by
    rw [hexDigits, List.leftpad, ofHex_replicate, ofHex_toDigits]
  exact hleft.injective

theorem le_length_hexDigits (id : ℕ) : 32 ≤ (hexDigits id).length := by
  rw [hexDigits, List.length_leftpad]
  exact le_max_left _ _

/-- Dashes at fixed places hide nothing. -/
theorem Dialect.uuidText_injective (d : Dialect) : Function.Injective d.uuidText := by
  have hplain : ∀ {id id' : ℕ}, String.ofList (hexDigits id) = String.ofList (hexDigits id') →
      id = id' := fun h => hexDigits_injective (String.ofList_injective h)
  intro id id' h
  cases d with
  | sqlite => exact hplain h
  | other name => exact hplain h
  | postgresql =>
      have hlen := le_length_hexDigits id
      have hlen' := le_length_hexDigits id'
      have h := String.ofList_injective h
      obtain ⟨h₁, h⟩ := List.append_inj h (by simp only [List.length_take]; omega)
      obtain ⟨h₂, h⟩ := List.append_inj (List.cons.inj h).2
        (by simp only [List.length_take, List.length_drop]; omega)
      obtain ⟨h₃, h⟩ := List.append_inj (List.cons.inj h).2
        (by simp only [List.length_take, List.length_drop]; omega)
      obtain ⟨h₄, h⟩ := List.append_inj (List.cons.inj h).2
        (by simp only [List.length_take, List.length_drop]; omega)
      have h₅ := (List.cons.inj h).2
      have hsplit : ∀ l : List Char, l = l.take 8 ++ ((l.drop 8).take 4 ++ ((l.drop 12).take 4 ++
          ((l.drop 16).take 4 ++ l.drop 20))) := fun l => by
        rw [show l.drop 20 = (l.drop 16).drop 4 by rw [List.drop_drop], List.take_append_drop,
          show l.drop 16 = (l.drop 12).drop 4 by rw [List.drop_drop], List.take_append_drop,
          show l.drop 12 = (l.drop 8).drop 4 by rw [List.drop_drop], List.take_append_drop,
          List.take_append_drop]
      refine hexDigits_injective ?_
      rw [hsplit (hexDigits id), hsplit (hexDigits id'), h₁, h₂, h₃, h₄, h₅]

/-! ### The rows of each revision -/

/-- The columns that an observation has had from the beginning. -/
structure ObservationRow where
  id : ℕ
  listingId : ℕ
  key : NaturalKey
  value : ObservationValue
  retrievedAt : Instant
deriving DecidableEq

structure Observation0001 extends ObservationRow where
  isPublishable : Bool
deriving DecidableEq

structure Observation0002 extends ObservationRow where
  revision : ℕ
  isPublishable : Bool
deriving DecidableEq

structure Observation0003 extends ObservationRow where
  revision : ℕ
deriving DecidableEq

/-- A job before it had a deduplication key. -/
structure Job0001 where
  id : ℕ
  jobType : String
  source : String
  listingId : Option ℕ
  status : JobStatus
  cursor : Option String
  attemptCount : ℕ
  maxAttempts : ℕ
  nextRunAt : Instant
  claimedBy : Option String
  claimedAt : Option Instant
  generation : ℕ
  lastError : Option String
  createdAt : Instant
deriving DecidableEq, Repr

/-- `uq_observations_idempotency_key` as `0001` creates it. -/
instance : Schema Observation0001 ℕ where
  pk o := o.id
  Clash a b := a.id = b.id ∨ a.key = b.key
  clash_of_pk := Or.inl
  clash_symm := Or.imp Eq.symm Eq.symm

/-- `uq_observations_idempotency_key` as `0002` creates it. -/
instance : Schema Observation0002 ℕ where
  pk o := o.id
  Clash a b := a.id = b.id ∨ (a.key = b.key ∧ a.revision = b.revision)
  clash_of_pk := Or.inl
  clash_symm := Or.imp Eq.symm fun h => ⟨h.1.symm, h.2.symm⟩

instance : Schema Observation0003 ℕ where
  pk o := o.id
  Clash a b := a.id = b.id ∨ (a.key = b.key ∧ a.revision = b.revision)
  clash_of_pk := Or.inl
  clash_symm := Or.imp Eq.symm fun h => ⟨h.1.symm, h.2.symm⟩

instance : Schema Job0001 ℕ where
  pk := Job0001.id
  Clash a b := a.id = b.id
  clash_of_pk := id
  clash_symm := Eq.symm

/-- `server_default="1"`. -/
def Observation0001.upgrade (o : Observation0001) : Observation0002 := { o with revision := 1 }

def Observation0002.downgrade (o : Observation0002) : Observation0001 := { o with }

def Observation0002.upgrade (o : Observation0002) : Observation0003 := { o with }

/-- `server_default=sa.true()`. -/
def Observation0003.downgrade (o : Observation0003) : Observation0002 :=
  { o with isPublishable := true }

def Observation0003.upgrade (o : Observation0003) : Observation :=
  ⟨o.id, o.listingId, o.key, o.revision, o.value, o.retrievedAt, none, none⟩

def Observation.downgrade (o : Observation) : Observation0003 :=
  ⟨⟨o.id, o.listingId, o.key, o.value, o.retrievedAt⟩, o.revision⟩

/-! The constraints on the observations are the same from `0002` on. -/

theorem Observation0002.clash_of_upgrade (a b : Observation0002)
    (h : Schema.Clash a.upgrade b.upgrade) : Schema.Clash a b := h

theorem Observation0003.clash_of_downgrade (a b : Observation0003)
    (h : Schema.Clash a.downgrade b.downgrade) : Schema.Clash a b := h

theorem Observation0003.clash_of_upgrade (a b : Observation0003)
    (h : Schema.Clash a.upgrade b.upgrade) : Schema.Clash a b := h

theorem Observation.clash_of_downgrade (a b : Observation)
    (h : Schema.Clash a.downgrade b.downgrade) : Schema.Clash a b := h

/-- The column of the deduplication key, with its default. -/
def Job0001.upgrade (j : Job0001) : Job where
  id := j.id
  jobType := j.jobType
  dedupeKey := ""
  source := j.source
  listingId := j.listingId
  status := j.status
  cursor := j.cursor
  attemptCount := j.attemptCount
  maxAttempts := j.maxAttempts
  nextRunAt := j.nextRunAt
  claimedBy := j.claimedBy
  claimedAt := j.claimedAt
  generation := j.generation
  lastError := j.lastError
  createdAt := j.createdAt

def Job.downgrade (j : Job) : Job0001 where
  id := j.id
  jobType := j.jobType
  source := j.source
  listingId := j.listingId
  status := j.status
  cursor := j.cursor
  attemptCount := j.attemptCount
  maxAttempts := j.maxAttempts
  nextRunAt := j.nextRunAt
  claimedBy := j.claimedBy
  claimedAt := j.claimedAt
  generation := j.generation
  lastError := j.lastError
  createdAt := j.createdAt

theorem Job.clash_of_downgrade (a b : Job) (h : Schema.Clash a.downgrade b.downgrade) :
    Schema.Clash a b :=
  Or.inl h

def legacyKey (d : Dialect) (id : ℕ) : String := "legacy-job:" ++ d.uuidText id

/-- The backfill of the deduplication keys. -/
def Job.backfill (d : Dialect) (j : Job) : Job :=
  if j.dedupeKey = "" then { j with dedupeKey := legacyKey d j.id } else j

theorem legacyKey_injective (d : Dialect) : Function.Injective (legacyKey d) := by
  intro id id' h
  have h := congrArg String.toList h
  rw [legacyKey, legacyKey, String.toList_append, String.toList_append] at h
  exact d.uuidText_injective (String.toList_injective (List.append_cancel_left h))

/-- No dispatch asks for a key that has been filled in. -/
theorem legacyKey_ne_dedupeKey (d : Dialect) (id : ℕ) (series : SeriesKey) (range : PlannedRange) :
    legacyKey d id ≠ Dispatch.dedupeKey series range := by
  intro h
  have h := congrArg (fun s => s.toList.head?) h
  simp [legacyKey, Dispatch.dedupeKey, Dispatch.seriesText, Dispatch.jobTypeFetchRange,
    String.toList_append] at h

theorem Job0001.upgrade_backfill (j : Job0001) (d : Dialect) :
    j.upgrade.backfill d = { j.upgrade with dedupeKey := legacyKey d j.id } := if_pos rfl

/-! ### The migrations -/

/-- The tables, and the triggers of two of them. -/
structure Contents (ο β : Type) [Schema ο ℕ] [Schema β ℕ] where
  observations : Table ο
  jobs : Table β
  decisions : DecisionTable
  catalog : CatalogTables
  observationTriggers : List Trigger
  decisionTriggers : List Trigger

/-- A database, by the revision of its schema. -/
inductive Database where
  | base
  | r0001 (c : Contents Observation0001 Job0001)
  | r0002 (c : Contents Observation0002 Job)
  | r0003 (c : Contents Observation0003 Job)
  | r0004 (c : Contents Observation0003 Job) (runs : RunTable)
  | r0005 (c : Contents Observation Job) (runs : RunTable)

/-- A column without NULLs that is added with a default, which the same block of
`batch_alter_table` drops: SQLite copies the rows into a table that has no default for it. -/
def Dialect.fillColumn {ρ : Type} [Schema ρ ℕ] : Dialect → Table ρ → Except MigrationError Unit
  | sqlite, t => if t.rows.isEmpty then .ok () else .error .integrity
  | _, _ => .ok ()

theorem Dialect.fillColumn_eq_ok {ρ : Type} [Schema ρ ℕ] {d : Dialect} {t : Table ρ}
    (h : d = .sqlite → t.rows = []) : d.fillColumn t = .ok () := by
  cases d with
  | sqlite => simp [fillColumn, h rfl]
  | postgresql => rfl
  | other name => rfl

theorem Dialect.fillColumn_eq_error {ρ : Type} [Schema ρ ℕ] {d : Dialect} {t : Table ρ}
    (h : ¬ (d = .sqlite → t.rows = [])) : d.fillColumn t = .error .integrity := by
  obtain ⟨rfl, hrows⟩ := Classical.not_imp.mp h
  simp [fillColumn, hrows]

/-- `create_unique_constraint`. -/
def constrained {α : Type} : Option α → Except MigrationError α
  | some a => .ok a
  | none => .error .integrity

namespace Migration

def upgrade0002 (d : Dialect) (c : Contents Observation0001 Job0001) :
    Except MigrationError (Contents Observation0002 Job) := do
  d.fillColumn c.observations
  let observations ← constrained (c.observations.convert? Observation0001.upgrade)
  let jobs ← constrained (c.jobs.convert? fun j => j.upgrade.backfill d)
  return { c with observations, jobs, observationTriggers := d.batch c.observationTriggers }

def downgrade0002 (d : Dialect) (c : Contents Observation0002 Job) :
    Except MigrationError (Contents Observation0001 Job0001) := do
  let jobs := c.jobs.convert Job.downgrade Job.clash_of_downgrade
  let observations ← constrained (c.observations.convert? Observation0002.downgrade)
  return { c with observations, jobs, observationTriggers := d.batch c.observationTriggers }

def upgrade0003 (d : Dialect) (c : Contents Observation0002 Job) :
    Except MigrationError (Contents Observation0003 Job) := do
  let observations :=
    c.observations.convert Observation0002.upgrade Observation0002.clash_of_upgrade
  let observationTriggers ← d.createAppendOnly (d.batch c.observationTriggers)
  return { c with observations, observationTriggers }

def downgrade0003 (d : Dialect) (c : Contents Observation0003 Job) :
    Except MigrationError (Contents Observation0002 Job) := do
  let observationTriggers ← d.dropAppendOnly c.observationTriggers
  d.fillColumn c.observations
  let observations :=
    c.observations.convert Observation0003.downgrade Observation0003.clash_of_downgrade
  return { c with observations, observationTriggers := d.batch observationTriggers }

/-- SQLite has lost the triggers of the observations; PostgreSQL has kept them. -/
def restoreTriggers : Dialect → List Trigger → Except MigrationError (List Trigger)
  | .sqlite, triggers => Dialect.sqlite.createAppendOnly triggers
  | _, triggers => .ok triggers

def upgrade0005 (d : Dialect) (c : Contents Observation0003 Job) :
    Except MigrationError (Contents Observation Job) := do
  let observations :=
    c.observations.convert Observation0003.upgrade Observation0003.clash_of_upgrade
  let observationTriggers ← restoreTriggers d (d.batch c.observationTriggers)
  let decisionTriggers ←
    if d.isSupported then d.createAppendOnly c.decisionTriggers else .ok c.decisionTriggers
  return { c with observations, observationTriggers, decisionTriggers }

def downgrade0005 (d : Dialect) (c : Contents Observation Job) :
    Except MigrationError (Contents Observation0003 Job) := do
  let decisionTriggers ←
    if d.isSupported then d.dropAppendOnly c.decisionTriggers else .ok c.decisionTriggers
  let observations := c.observations.convert Observation.downgrade Observation.clash_of_downgrade
  let observationTriggers ← restoreTriggers d (d.batch c.observationTriggers)
  return { c with observations, observationTriggers, decisionTriggers }

/-- `0001` creates every table but that of the runs. -/
def upgrade (d : Dialect) : Database → Except MigrationError Database
  | .base => .ok (.r0001 ⟨.empty, .empty, .empty, .empty, [], []⟩)
  | .r0001 c => .r0002 <$> upgrade0002 d c
  | .r0002 c => .r0003 <$> upgrade0003 d c
  | .r0003 c => .ok (.r0004 c .empty)
  | .r0004 c runs => (.r0005 · runs) <$> upgrade0005 d c
  | .r0005 _ _ => .error .noMigration

def downgrade (d : Dialect) : Database → Except MigrationError Database
  | .base => .error .noMigration
  | .r0001 _ => .ok .base
  | .r0002 c => .r0001 <$> downgrade0002 d c
  | .r0003 c => .r0002 <$> downgrade0003 d c
  | .r0004 c _ => .ok (.r0003 c)
  | .r0005 c runs => (.r0004 · runs) <$> downgrade0005 d c

/-- A number of upgrades, one after another. -/
def upgradeBy (d : Dialect) : ℕ → Database → Except MigrationError Database
  | 0, db => .ok db
  | n + 1, db => upgrade d db >>= upgradeBy d n

theorem upgradeBy_succ {d : Dialect} {n : ℕ} {db db' : Database} (h : upgrade d db = .ok db') :
    upgradeBy d (n + 1) db = upgradeBy d n db' := by
  rw [upgradeBy, h]
  rfl

theorem upgradeBy_eq_error {d : Dialect} {n : ℕ} {db : Database} {e : MigrationError}
    (h : upgrade d db = .error e) : upgradeBy d (n + 1) db = .error e := by
  rw [upgradeBy, h]
  rfl

section

variable {d : Dialect} {runs : RunTable}

theorem upgrade_r0001 {c : Contents Observation0001 Job0001} {c' : Contents Observation0002 Job}
    (h : upgrade0002 d c = .ok c') : upgrade d (.r0001 c) = .ok (.r0002 c') := by
  rw [upgrade, h]
  rfl

theorem upgrade_r0002 {c : Contents Observation0002 Job} {c' : Contents Observation0003 Job}
    (h : upgrade0003 d c = .ok c') : upgrade d (.r0002 c) = .ok (.r0003 c') := by
  rw [upgrade, h]
  rfl

theorem upgrade_r0004 {c : Contents Observation0003 Job} {c' : Contents Observation Job}
    (h : upgrade0005 d c = .ok c') : upgrade d (.r0004 c runs) = .ok (.r0005 c' runs) := by
  rw [upgrade, h]
  rfl

theorem downgrade_r0003 {c : Contents Observation0003 Job} {c' : Contents Observation0002 Job}
    (h : downgrade0003 d c = .ok c') : downgrade d (.r0003 c) = .ok (.r0002 c') := by
  rw [downgrade, h]
  rfl

theorem downgrade_r0005 {c : Contents Observation Job} {c' : Contents Observation0003 Job}
    (h : downgrade0005 d c = .ok c') : downgrade d (.r0005 c runs) = .ok (.r0004 c' runs) := by
  rw [downgrade, h]
  rfl

end

end Migration

/-! ### What a database contains -/

namespace Database

/-- How many migrations its schema has gone through. -/
def level : Database → ℕ
  | base => 0
  | r0001 _ => 1
  | r0002 _ => 2
  | r0003 _ => 3
  | r0004 _ _ => 4
  | r0005 _ _ => 5

/-- The observations, in the columns that they have from `0003` on. -/
def history : Database → List Observation0003
  | base => []
  | r0001 c => c.observations.rows.map fun o => o.upgrade.upgrade
  | r0002 c => c.observations.rows.map Observation0002.upgrade
  | r0003 c => c.observations.rows
  | r0004 c _ => c.observations.rows
  | r0005 c _ => c.observations.rows.map Observation.downgrade

/-- The observations with the decisions that they refer to. -/
def observations : Database → List Observation
  | r0005 c _ => c.observations.rows
  | _ => []

def decisions : Database → List SourcePolicyDecision
  | base => []
  | r0001 c => c.decisions.rows
  | r0002 c => c.decisions.rows
  | r0003 c => c.decisions.rows
  | r0004 c _ => c.decisions.rows
  | r0005 c _ => c.decisions.rows

/-- The jobs, without their deduplication keys. -/
def jobs : Database → List Job0001
  | base => []
  | r0001 c => c.jobs.rows
  | r0002 c => c.jobs.rows.map Job.downgrade
  | r0003 c => c.jobs.rows.map Job.downgrade
  | r0004 c _ => c.jobs.rows.map Job.downgrade
  | r0005 c _ => c.jobs.rows.map Job.downgrade

def catalog : Database → CatalogTables
  | base => .empty
  | r0001 c => c.catalog
  | r0002 c => c.catalog
  | r0003 c => c.catalog
  | r0004 c _ => c.catalog
  | r0005 c _ => c.catalog

def runs : Database → List SchedulerRun
  | r0004 _ runs | r0005 _ runs => runs.rows
  | _ => []

/-- Two databases store the same. -/
structure Same (db db' : Database) : Prop where
  history : db'.history = db.history
  decisions : db'.decisions = db.decisions
  jobs : db'.jobs = db.jobs
  catalog : db'.catalog = db.catalog
  runs : db'.runs = db.runs

/-- `0003` drops a flag that is set in every row. -/
def AllPublishable : Database → Prop
  | r0002 c => ∀ o ∈ c.observations.rows, o.isPublishable = true
  | _ => True

/-- SQLite has no row to copy where the migration from this level adds a column without NULLs. -/
def NothingToFill (db : Database) (d : Dialect) (level : ℕ) : Prop :=
  d = .sqlite → db.level = level → db.history = []

/-- No observation has been corrected, where the downgrade leaves one row for each key. -/
def Uncorrected : Database → Prop
  | r0002 c => ∀ o ∈ c.observations.rows, ∀ o' ∈ c.observations.rows, o.key = o'.key → o = o'
  | _ => True

end Database

/-! ### Statements and steps -/

/-- What one statement of a client makes of the tables. -/
inductive Contents.Writes {ο β : Type} [Schema ο ℕ] [Schema β ℕ] (c : Contents ο β) :
    Contents ο β → Prop
  | observations {s : Statement ο} {t : Table ο}
      (h : c.observations.execute (rejectsOf c.observationTriggers) s = some t) :
      Writes c { c with observations := t }
  | decisions {s : Statement SourcePolicyDecision} {t : DecisionTable}
      (h : c.decisions.execute (rejectsOf c.decisionTriggers) s = some t) :
      Writes c { c with decisions := t }
  | jobs (t : Table β) : Writes c { c with jobs := t }
  | catalog (t : CatalogTables) : Writes c { c with catalog := t }

inductive Database.Writes : Database → Database → Prop
  | r0001 {c c' : Contents Observation0001 Job0001} (h : c.Writes c') :
      Writes (.r0001 c) (.r0001 c')
  | r0002 {c c' : Contents Observation0002 Job} (h : c.Writes c') : Writes (.r0002 c) (.r0002 c')
  | r0003 {c c' : Contents Observation0003 Job} (h : c.Writes c') : Writes (.r0003 c) (.r0003 c')
  | r0004 {c c' : Contents Observation0003 Job} {runs : RunTable} (h : c.Writes c') :
      Writes (.r0004 c runs) (.r0004 c' runs)
  | r0005 {c c' : Contents Observation Job} {runs : RunTable} (h : c.Writes c') :
      Writes (.r0005 c runs) (.r0005 c' runs)
  | runs0004 {c : Contents Observation0003 Job} {runs : RunTable} (runs' : RunTable) :
      Writes (.r0004 c runs) (.r0004 c runs')
  | runs0005 {c : Contents Observation Job} {runs : RunTable} (runs' : RunTable) :
      Writes (.r0005 c runs) (.r0005 c runs')

/-- A migration in either direction, or a statement of a client. -/
inductive Step (d : Dialect) : Database → Database → Prop
  | upgrade {db db' : Database} (h : Migration.upgrade d db = .ok db') : Step d db db'
  | downgrade {db db' : Database} (h : Migration.downgrade d db = .ok db') : Step d db db'
  | write {db db' : Database} (h : db.Writes db') : Step d db db'

namespace Contents

section

variable {ο β : Type} [Schema ο ℕ] [Schema β ℕ] {c c' : Contents ο β}

theorem Writes.triggers (h : c.Writes c') : c'.observationTriggers = c.observationTriggers ∧
    c'.decisionTriggers = c.decisionTriggers := by
  cases h <;> exact ⟨rfl, rfl⟩

/-- Observations that are protected are only added. -/
theorem Writes.observations_grow (h : c.Writes c')
    (hrejects : rejectsOf c.observationTriggers = ⟨true, true⟩) :
    c.observations.rows <+: c'.observations.rows := by
  cases h with
  | observations h => exact Table.execute_grows (by rw [hrejects]) (by rw [hrejects]) h
  | decisions h => exact List.prefix_rfl
  | jobs t => exact List.prefix_rfl
  | catalog t => exact List.prefix_rfl

/-- Decisions that are protected are only added. -/
theorem Writes.decisions_grow (h : c.Writes c')
    (hrejects : rejectsOf c.decisionTriggers = ⟨true, true⟩) :
    c.decisions.rows <+: c'.decisions.rows := by
  cases h with
  | decisions h => exact Table.execute_grows (by rw [hrejects]) (by rw [hrejects]) h
  | observations h => exact List.prefix_rfl
  | jobs t => exact List.prefix_rfl
  | catalog t => exact List.prefix_rfl

end

/-- The tables that a session of the service works on. -/
def db (c : Contents Observation Job) : Db := ⟨c.jobs, c.observations, c.decisions⟩

/-- What a migration makes of the rows. -/
structure Moved {ο β ο' β' : Type} [Schema ο ℕ] [Schema β ℕ] [Schema ο' ℕ] [Schema β' ℕ]
    (f : ο → ο') (g : β → β') (c : Contents ο β) (c' : Contents ο' β') : Prop where
  observations : c'.observations.rows = c.observations.rows.map f
  jobs : c'.jobs.rows = c.jobs.rows.map g
  decisions : c'.decisions = c.decisions
  catalog : c'.catalog = c.catalog

/-- The triggers of the two tables. -/
def Guarded {ο β : Type} [Schema ο ℕ] [Schema β ℕ] (c : Contents ο β)
    (observations decisions : List Trigger) : Prop :=
  c.observationTriggers = observations ∧ c.decisionTriggers = decisions

end Contents

/-! ### What each migration does -/

namespace Dialect

/-- The triggers that make a table append-only. -/
def appendOnlyTriggers : Dialect → List Trigger
  | sqlite => [.noUpdate, .noDelete]
  | postgresql => [.appendOnly]
  | other _ => []

variable {d : Dialect}

theorem batch_nil : d.batch [] = [] := by
  cases d <;> rfl

theorem createAppendOnly_nil (hd : d.isSupported = true) :
    d.createAppendOnly [] = .ok d.appendOnlyTriggers := by
  cases d with
  | other name => exact absurd hd (by simp [isSupported])
  | sqlite | postgresql => rfl

theorem dropAppendOnly_triggers (hd : d.isSupported = true) :
    d.dropAppendOnly d.appendOnlyTriggers = .ok [] := by
  cases d with
  | other name => exact absurd hd (by simp [isSupported])
  | sqlite | postgresql => rfl

/-- The triggers survive the recreation of their table. -/
theorem restoreTriggers_batch :
    Migration.restoreTriggers d (d.batch d.appendOnlyTriggers) = .ok d.appendOnlyTriggers := by
  cases d <;> rfl

theorem rejectsOf_triggers (hd : d.isSupported = true) :
    rejectsOf d.appendOnlyTriggers = ⟨true, true⟩ := by
  cases d with
  | other name => exact absurd hd (by simp [isSupported])
  | sqlite | postgresql => rfl

end Dialect

namespace Migration

variable {d : Dialect}

/-- `0002` finds no row that violates its constraints, and its downgrade undoes it. -/
theorem upgrade0002_spec {c : Contents Observation0001 Job0001} (hc : c.Guarded [] [])
    (hrows : d = .sqlite → c.observations.rows = []) :
    ∃ c', upgrade0002 d c = .ok c' ∧
      c.Moved Observation0001.upgrade (fun j => j.upgrade.backfill d) c' ∧
      c'.Guarded [] [] ∧ downgrade0002 d c' = .ok c := by
  obtain ⟨observations, jobs, decisions, catalog, observationTriggers, decisionTriggers⟩ := c
  obtain ⟨rfl, rfl⟩ : observationTriggers = [] ∧ decisionTriggers = [] := hc
  obtain ⟨observations', hobservations⟩ :
      ∃ t, observations.convert? Observation0001.upgrade = some t := by
    refine Option.isSome_iff_exists.mp (Table.convert?_isSome_iff.mpr fun a ha b hb h => ?_)
    exact Table.eq_of_clash ha hb (h.imp id And.left)
  obtain ⟨jobs', hjobs⟩ : ∃ t, jobs.convert? (fun j => j.upgrade.backfill d) = some t := by
    refine Option.isSome_iff_exists.mp (Table.convert?_isSome_iff.mpr fun a ha b hb h => ?_)
    rw [Job0001.upgrade_backfill, Job0001.upgrade_backfill] at h
    exact Table.eq_of_clash ha hb (h.elim id fun hkey => legacyKey_injective d hkey)
  have hmoved := Table.rows_of_convert? hobservations
  have hmoved' := Table.rows_of_convert? hjobs
  refine ⟨⟨observations', jobs', decisions, catalog, [], []⟩, ?_, ⟨hmoved, hmoved', rfl, rfl⟩,
    ⟨rfl, rfl⟩, ?_⟩
  · simp only [upgrade0002, Dialect.fillColumn_eq_ok hrows, hobservations, hjobs, Dialect.batch_nil]
    rfl
  · have hback : observations'.convert? Observation0002.downgrade = some observations :=
      Table.convert?_of_leftInverse (fun _ => rfl) hmoved
    have hjobsback : jobs'.convert Job.downgrade Job.clash_of_downgrade = jobs := by
      refine Table.ext ?_
      rw [Table.convert_rows, hmoved', List.map_map]
      refine (List.map_congr_left fun j _ => ?_).trans (List.map_id _)
      rw [Function.comp_apply, Job0001.upgrade_backfill]
      rfl
    simp only [downgrade0002, hback, hjobsback, Dialect.batch_nil]
    rfl

theorem upgrade_r0001_eq_error {c : Contents Observation0001 Job0001}
    (hrows : ¬ (d = .sqlite → c.observations.rows = [])) :
    upgrade d (.r0001 c) = .error .integrity := by
  simp only [upgrade, upgrade0002, Dialect.fillColumn_eq_error hrows]
  rfl

theorem upgrade_r0002_eq_error {c : Contents Observation0002 Job} (hd : d.isSupported = false) :
    ∃ e, upgrade d (.r0002 c) = .error e := by
  cases d with
  | sqlite | postgresql => exact absurd hd (by decide)
  | other name => exact ⟨_, rfl⟩

theorem downgrade0003_eq_error {c : Contents Observation0003 Job} (hd : d.isSupported = true)
    (hc : c.observationTriggers = d.appendOnlyTriggers)
    (hrows : ¬ (d = .sqlite → c.observations.rows = [])) :
    downgrade0003 d c = .error .integrity := by
  simp only [downgrade0003, hc, Dialect.dropAppendOnly_triggers hd,
    Dialect.fillColumn_eq_error hrows]
  rfl

/-- `0003` protects the observations. Its downgrade sets the flag in every row. -/
theorem upgrade0003_spec {c : Contents Observation0002 Job} (hd : d.isSupported = true)
    (hc : c.Guarded [] []) :
    ∃ c', upgrade0003 d c = .ok c' ∧ c.Moved Observation0002.upgrade id c' ∧
      c'.Guarded d.appendOnlyTriggers [] ∧
      (downgrade0003 d c' = .ok c ↔ (∀ o ∈ c.observations.rows, o.isPublishable = true) ∧
        (d = .sqlite → c.observations.rows = [])) := by
  obtain ⟨observations, jobs, decisions, catalog, observationTriggers, decisionTriggers⟩ := c
  obtain ⟨rfl, rfl⟩ : observationTriggers = [] ∧ decisionTriggers = [] := hc
  refine ⟨⟨observations.convert Observation0002.upgrade Observation0002.clash_of_upgrade, jobs,
    decisions, catalog, d.appendOnlyTriggers, []⟩, ?_, ⟨rfl, (List.map_id _).symm, rfl, rfl⟩,
    ⟨rfl, rfl⟩, ?_⟩
  · simp only [upgrade0003, Dialect.batch_nil, Dialect.createAppendOnly_nil hd]
    rfl
  · have hflag : ∀ o : Observation0002, o.upgrade.downgrade = o ↔ o.isPublishable = true := by
      rintro ⟨row, revision, isPublishable⟩
      exact ⟨fun h => (congrArg Observation0002.isPublishable h).symm, fun h => by
        obtain rfl : isPublishable = true := h
        rfl⟩
    have hempty : (observations.convert Observation0002.upgrade
        Observation0002.clash_of_upgrade).rows = [] ↔ observations.rows = [] := by
      rw [Table.convert_rows, List.map_eq_nil_iff]
    by_cases hrows : d = .sqlite → observations.rows = []
    case neg =>
      rw [downgrade0003_eq_error hd rfl (by rwa [hempty])]
      exact iff_of_false (by simp) fun h => hrows h.2
    refine Iff.trans ?_ (and_iff_left hrows).symm
    rw [← hempty] at hrows
    simp only [downgrade0003, Dialect.dropAppendOnly_triggers hd, Dialect.fillColumn_eq_ok hrows]
    change Except.ok (Contents.mk _ _ _ _ (d.batch []) _) = Except.ok _ ↔ _
    rw [Dialect.batch_nil, Except.ok.injEq, Contents.mk.injEq, Table.ext_iff, Table.convert_rows,
      Table.convert_rows, List.map_map, ← List.map_id observations.rows, List.map_map,
      List.map_inj_left]
    simp only [Function.comp_apply, id_eq, hflag, and_true, List.map_id]

/-- `0005` keeps the observations protected and protects the decisions. -/
theorem upgrade0005_spec {c : Contents Observation0003 Job} (hd : d.isSupported = true)
    (hc : c.Guarded d.appendOnlyTriggers []) :
    ∃ c', upgrade0005 d c = .ok c' ∧ c.Moved Observation0003.upgrade id c' ∧
      c'.Guarded d.appendOnlyTriggers d.appendOnlyTriggers ∧ downgrade0005 d c' = .ok c := by
  obtain ⟨observations, jobs, decisions, catalog, observationTriggers, decisionTriggers⟩ := c
  obtain ⟨rfl, rfl⟩ : observationTriggers = d.appendOnlyTriggers ∧ decisionTriggers = [] := hc
  refine ⟨⟨observations.convert Observation0003.upgrade Observation0003.clash_of_upgrade, jobs,
    decisions, catalog, d.appendOnlyTriggers, d.appendOnlyTriggers⟩, ?_,
    ⟨rfl, (List.map_id _).symm, rfl, rfl⟩, ⟨rfl, rfl⟩, ?_⟩
  · simp only [upgrade0005, Dialect.restoreTriggers_batch, hd, if_true,
      Dialect.createAppendOnly_nil hd]
    rfl
  · have hback : (observations.convert Observation0003.upgrade
        Observation0003.clash_of_upgrade).convert Observation.downgrade
          Observation.clash_of_downgrade = observations :=
      Table.ext ((List.map_map ..).trans (List.map_id _))
    simp only [downgrade0005, Dialect.restoreTriggers_batch, hd, if_true,
      Dialect.dropAppendOnly_triggers hd, hback]
    rfl

theorem downgrade0005_spec {c : Contents Observation Job} (hd : d.isSupported = true)
    (hc : c.Guarded d.appendOnlyTriggers d.appendOnlyTriggers) :
    ∃ c', downgrade0005 d c = .ok c' ∧ c.Moved Observation.downgrade id c' ∧
      c'.Guarded d.appendOnlyTriggers [] := by
  obtain ⟨observations, jobs, decisions, catalog, observationTriggers, decisionTriggers⟩ := c
  obtain ⟨rfl, rfl⟩ : observationTriggers = d.appendOnlyTriggers ∧
    decisionTriggers = d.appendOnlyTriggers := hc
  refine ⟨⟨observations.convert Observation.downgrade Observation.clash_of_downgrade, jobs,
    decisions, catalog, d.appendOnlyTriggers, []⟩, ?_, ⟨rfl, (List.map_id _).symm, rfl, rfl⟩,
    ⟨rfl, rfl⟩⟩
  simp only [downgrade0005, Dialect.restoreTriggers_batch, hd, if_true,
    Dialect.dropAppendOnly_triggers hd]
  rfl

theorem downgrade0003_spec {c : Contents Observation0003 Job} (hd : d.isSupported = true)
    (hc : c.Guarded d.appendOnlyTriggers []) (hrows : d = .sqlite → c.observations.rows = []) :
    ∃ c', downgrade0003 d c = .ok c' ∧ c.Moved Observation0003.downgrade id c' ∧
      c'.Guarded [] [] := by
  obtain ⟨observations, jobs, decisions, catalog, observationTriggers, decisionTriggers⟩ := c
  obtain ⟨rfl, rfl⟩ : observationTriggers = d.appendOnlyTriggers ∧ decisionTriggers = [] := hc
  refine ⟨⟨observations.convert Observation0003.downgrade Observation0003.clash_of_downgrade, jobs,
    decisions, catalog, [], []⟩, ?_, ⟨rfl, (List.map_id _).symm, rfl, rfl⟩, ⟨rfl, rfl⟩⟩
  simp only [downgrade0003, Dialect.dropAppendOnly_triggers hd, Dialect.fillColumn_eq_ok hrows]
  change Except.ok (Contents.mk _ _ _ _ (d.batch []) _) = _
  rw [Dialect.batch_nil]

/-- The downgrade of `0002` fails exactly when it would leave two rows of one key. -/
theorem downgrade0002_spec {c : Contents Observation0002 Job} (hc : c.Guarded [] []) :
    ((∃ c', downgrade0002 d c = .ok c') ↔ (Database.r0002 c).Uncorrected) ∧
      ∀ c', downgrade0002 d c = .ok c' → c'.Guarded [] [] := by
  obtain ⟨observations, jobs, decisions, catalog, observationTriggers, decisionTriggers⟩ := c
  obtain ⟨rfl, rfl⟩ : observationTriggers = [] ∧ decisionTriggers = [] := hc
  have hsome : (observations.convert? Observation0002.downgrade).isSome ↔
      ∀ o ∈ observations.rows, ∀ o' ∈ observations.rows, o.key = o'.key → o = o' := by
    rw [Table.convert?_isSome_iff]
    refine ⟨fun h o ho o' ho' hkey => h o ho o' ho' (Or.inr hkey), fun h o ho o' ho' hclash => ?_⟩
    rcases hclash with hid | hkey
    · exact Table.eq_of_clash ho ho' (Or.inl hid)
    · exact h o ho o' ho' hkey
  rw [Database.Uncorrected, ← hsome]
  cases hconvert : observations.convert? Observation0002.downgrade with
  | none =>
      have herror : downgrade0002 d ⟨observations, jobs, decisions, catalog, [], []⟩ =
          .error .integrity := by
        simp only [downgrade0002, hconvert]
        rfl
      rw [herror]
      simp
  | some observations' =>
      have hok : downgrade0002 d ⟨observations, jobs, decisions, catalog, [], []⟩ =
          .ok ⟨observations', jobs.convert Job.downgrade Job.clash_of_downgrade, decisions, catalog,
            [], []⟩ := by
        simp only [downgrade0002, hconvert, Dialect.batch_nil]
        rfl
      rw [hok]
      refine ⟨by simp, fun c' h => ?_⟩
      obtain rfl := Except.ok.inj h
      exact ⟨rfl, rfl⟩

end Migration

/-! ### What a migration keeps -/

theorem migrated_iff {ε α β : Type} {f : α → β} (hf : Function.Injective f) {x : Except ε α}
    {a : α} : f <$> x = .ok (f a) ↔ x = .ok a := by
  cases x with
  | error e => simp [Functor.map, Except.map]
  | ok b => simp [Functor.map, Except.map, hf.eq_iff]

theorem exists_migrated_iff {ε α β : Type} {f : α → β} {x : Except ε α} :
    (∃ b, f <$> x = .ok b) ↔ ∃ a, x = .ok a := by
  cases x with
  | error e => simp [Functor.map, Except.map]
  | ok b => simp [Functor.map, Except.map]

namespace Database

/-- The triggers are those that the migrations so far have created. -/
def Guarded (d : Dialect) : Database → Prop
  | base => True
  | r0001 c => c.Guarded [] []
  | r0002 c => c.Guarded [] []
  | r0003 c => d.isSupported = true ∧ c.Guarded d.appendOnlyTriggers []
  | r0004 c _ => d.isSupported = true ∧ c.Guarded d.appendOnlyTriggers []
  | r0005 c _ => d.isSupported = true ∧ c.Guarded d.appendOnlyTriggers d.appendOnlyTriggers

variable {d : Dialect} {db db' : Database}

theorem level_le (db : Database) : db.level ≤ 5 := by
  cases db <;> simp [level]

theorem nothingToFill_of_ne {level : ℕ} (h : db.level ≠ level) : db.NothingToFill d level :=
  fun _ hlevel => absurd hlevel h

/-- **What an upgrade does**: when it succeeds, what it keeps, and whether it can be undone. -/
theorem upgrade_spec (hg : db.Guarded d) :
    ((∃ db', Migration.upgrade d db = .ok db') ↔
      db.level < 5 ∧ (db.level = 2 → d.isSupported = true) ∧ db.NothingToFill d 1) ∧
    ∀ db', Migration.upgrade d db = .ok db' → db'.Guarded d ∧ db'.level = db.level + 1 ∧
      db.Same db' ∧
      (Migration.downgrade d db' = .ok db ↔ db.AllPublishable ∧ db.NothingToFill d 2) := by
  cases db with
  | base =>
      refine ⟨by simp [Migration.upgrade, NothingToFill, level], fun db' h => ?_⟩
      obtain rfl := Except.ok.inj h
      exact ⟨⟨rfl, rfl⟩, rfl, ⟨rfl, rfl, rfl, rfl, rfl⟩,
        iff_of_true rfl ⟨trivial, nothingToFill_of_ne (by simp [level])⟩⟩
  | r0001 c =>
      have hfill : (r0001 c).NothingToFill d 1 ↔ (d = .sqlite → c.observations.rows = []) := by
        simp [NothingToFill, level, history]
      rw [hfill]
      by_cases hrows : d = .sqlite → c.observations.rows = []
      case neg =>
        rw [Migration.upgrade_r0001_eq_error hrows]
        exact ⟨iff_of_false (by simp) fun h => hrows h.2.2, by simp⟩
      obtain ⟨c', hup, hmoved, hguarded, hdown⟩ := Migration.upgrade0002_spec hg hrows
      rw [Migration.upgrade_r0001 hup]
      refine ⟨iff_of_true ⟨_, rfl⟩ ⟨by simp [level], by simp [level], hrows⟩, fun db' h => ?_⟩
      obtain rfl := Except.ok.inj h
      refine ⟨hguarded, rfl, ⟨?_, congrArg Table.rows hmoved.decisions, ?_, hmoved.catalog, rfl⟩,
        iff_of_true ?_ ⟨trivial, nothingToFill_of_ne (by simp [level])⟩⟩
      · rw [history, history, hmoved.observations, List.map_map]
        rfl
      · rw [jobs, jobs, hmoved.jobs, List.map_map]
        refine (List.map_congr_left fun j _ => ?_).trans (List.map_id _)
        rw [Function.comp_apply, Job0001.upgrade_backfill]
        rfl
      · rw [Migration.downgrade, hdown]
        rfl
  | r0002 c =>
      cases hd : d.isSupported with
      | false =>
          obtain ⟨e, herror⟩ := Migration.upgrade_r0002_eq_error (c := c) hd
          rw [herror]
          simp [level]
      | true =>
          obtain ⟨c', hup, hmoved, hguarded, hdown⟩ := Migration.upgrade0003_spec hd hg
          rw [Migration.upgrade_r0002 hup]
          refine ⟨by simp [NothingToFill, level], fun db' h => ?_⟩
          obtain rfl := Except.ok.inj h
          refine ⟨⟨hd, hguarded⟩, rfl, ⟨?_, congrArg Table.rows hmoved.decisions, ?_,
            hmoved.catalog, rfl⟩, ?_⟩
          · rw [history, history, hmoved.observations]
          · rw [jobs, jobs, hmoved.jobs, List.map_id]
          · rw [Migration.downgrade, migrated_iff fun _ _ => Database.r0002.inj, hdown]
            simp [AllPublishable, NothingToFill, level, history]
  | r0003 c =>
      refine ⟨by simp [Migration.upgrade, NothingToFill, level], fun db' h => ?_⟩
      obtain rfl := Except.ok.inj h
      exact ⟨hg, rfl, ⟨rfl, rfl, rfl, rfl, rfl⟩,
        iff_of_true rfl ⟨trivial, nothingToFill_of_ne (by simp [level])⟩⟩
  | r0004 c runs =>
      obtain ⟨hd, hc⟩ := hg
      obtain ⟨c', hup, hmoved, hguarded, hdown⟩ := Migration.upgrade0005_spec hd hc
      rw [Migration.upgrade_r0004 hup]
      refine ⟨by simp [NothingToFill, level], fun db' h => ?_⟩
      obtain rfl := Except.ok.inj h
      refine ⟨⟨hd, hguarded⟩, rfl, ⟨?_, congrArg Table.rows hmoved.decisions, ?_, hmoved.catalog,
        rfl⟩, iff_of_true (Migration.downgrade_r0005 hdown)
          ⟨trivial, nothingToFill_of_ne (by simp [level])⟩⟩
      · rw [history, history, hmoved.observations, List.map_map]
        exact List.map_id _
      · rw [jobs, jobs, hmoved.jobs, List.map_id]
  | r0005 c runs => simp [Migration.upgrade, level]

/-- **What a downgrade does.** -/
theorem downgrade_spec (hg : db.Guarded d) :
    ((∃ db', Migration.downgrade d db = .ok db') ↔
      0 < db.level ∧ db.Uncorrected ∧ db.NothingToFill d 3) ∧
    ∀ db', Migration.downgrade d db = .ok db' → db'.Guarded d ∧ db'.level + 1 = db.level ∧
      (2 ≤ db'.level → db'.history = db.history) := by
  cases db with
  | base => simp [Migration.downgrade, level]
  | r0001 c =>
      refine ⟨iff_of_true ⟨_, rfl⟩ ⟨Nat.one_pos, trivial, nothingToFill_of_ne (by simp [level])⟩,
        fun db' h => ?_⟩
      obtain rfl := Except.ok.inj h
      exact ⟨trivial, rfl, fun hlevel => absurd hlevel (by decide)⟩
  | r0002 c =>
      obtain ⟨hexists, hguarded⟩ := Migration.downgrade0002_spec (d := d) hg
      rw [Migration.downgrade]
      refine ⟨exists_migrated_iff.trans (hexists.trans ⟨fun h => ⟨Nat.two_pos, h,
        nothingToFill_of_ne (by simp [level])⟩, fun h => h.2.1⟩), fun db' h => ?_⟩
      cases hdown : Migration.downgrade0002 d c with
      | error e =>
          rw [hdown] at h
          exact absurd h (by simp [Functor.map, Except.map])
      | ok c' =>
          rw [hdown] at h
          obtain rfl := Except.ok.inj h
          exact ⟨hguarded c' hdown, rfl, fun hlevel => absurd hlevel (by simp [level])⟩
  | r0003 c =>
      have hfill : (r0003 c).NothingToFill d 3 ↔ (d = .sqlite → c.observations.rows = []) := by
        simp [NothingToFill, level, history]
      rw [hfill]
      by_cases hrows : d = .sqlite → c.observations.rows = []
      case neg =>
        have herror : Migration.downgrade d (.r0003 c) = .error .integrity := by
          rw [Migration.downgrade, Migration.downgrade0003_eq_error hg.1 hg.2.1 hrows]
          rfl
        rw [herror]
        exact ⟨iff_of_false (by simp) fun h => hrows h.2.2, by simp⟩
      obtain ⟨c', hdown, hmoved, hguarded⟩ := Migration.downgrade0003_spec hg.1 hg.2 hrows
      rw [Migration.downgrade_r0003 hdown]
      refine ⟨iff_of_true ⟨_, rfl⟩ ⟨Nat.succ_pos 2, trivial, hrows⟩, fun db' h => ?_⟩
      obtain rfl := Except.ok.inj h
      refine ⟨hguarded, rfl, fun _ => ?_⟩
      rw [history, history, hmoved.observations, List.map_map]
      exact List.map_id _
  | r0004 c runs =>
      refine ⟨iff_of_true ⟨_, rfl⟩ ⟨Nat.succ_pos 3, trivial, nothingToFill_of_ne (by simp [level])⟩,
        fun db' h => ?_⟩
      obtain rfl := Except.ok.inj h
      exact ⟨hg, rfl, fun _ => rfl⟩
  | r0005 c runs =>
      obtain ⟨c', hdown, hmoved, hguarded⟩ := Migration.downgrade0005_spec hg.1 hg.2
      rw [Migration.downgrade_r0005 hdown]
      refine ⟨iff_of_true ⟨_, rfl⟩ ⟨Nat.succ_pos 4, trivial, nothingToFill_of_ne (by simp [level])⟩,
        fun db' h => ?_⟩
      obtain rfl := Except.ok.inj h
      exact ⟨⟨hg.1, hguarded⟩, rfl, fun _ => hmoved.observations⟩

end Database

/-! ### Over a whole run -/

section Runs

variable {d : Dialect} {db db' : Database}

theorem Contents.Writes.guarded {ο β : Type} [Schema ο ℕ] [Schema β ℕ] {c c' : Contents ο β}
    {observations decisions : List Trigger} (h : c.Writes c')
    (hc : c.Guarded observations decisions) :
    c'.Guarded observations decisions :=
  ⟨h.triggers.1.trans hc.1, h.triggers.2.trans hc.2⟩

theorem Step.guarded (hg : db.Guarded d) (h : Step d db db') : db'.Guarded d := by
  cases h with
  | upgrade h => exact ((Database.upgrade_spec hg).2 _ h).1
  | downgrade h => exact ((Database.downgrade_spec hg).2 _ h).1
  | write h =>
      cases h with
      | r0001 h | r0002 h => exact h.guarded hg
      | r0003 h | r0004 h | r0005 h => exact ⟨hg.1, h.guarded hg.2⟩
      | runs0004 runs' | runs0005 runs' => exact hg

theorem guarded_of_reaches (h : Relation.ReflTransGen (Step d) .base db) : db.Guarded d := by
  induction h with
  | refl => exact trivial
  | tail _ hstep ih => exact hstep.guarded ih

/-- A step between two protected revisions only adds observations. -/
theorem Step.grows {n : ℕ} (hg : db.Guarded d) (h : Step d db db') (hn : 3 ≤ n)
    (hdb : n ≤ db.level) (hdb' : n ≤ db'.level) :
    db.history <+: db'.history ∧
      (5 ≤ n → db.observations <+: db'.observations ∧ db.decisions <+: db'.decisions) := by
  cases h with
  | upgrade h =>
      obtain ⟨-, -, hsame, -⟩ := (Database.upgrade_spec hg).2 _ h
      have hlevel := ((Database.upgrade_spec hg).1.mp ⟨_, h⟩).1
      exact ⟨hsame.history ▸ List.prefix_rfl, fun hn => by omega⟩
  | downgrade h =>
      obtain ⟨-, hlevel, hhistory⟩ := (Database.downgrade_spec hg).2 _ h
      have hle := db.level_le
      exact ⟨hhistory (by omega) ▸ List.prefix_rfl, fun hn => by omega⟩
  | write h =>
      cases h with
      | r0001 h | r0002 h =>
          rw [Database.level] at hdb
          omega
      | r0003 h | r0004 h =>
          rw [Database.level] at hdb
          have hrejects := hg.2.1 ▸ Dialect.rejectsOf_triggers hg.1
          exact ⟨h.observations_grow hrejects, fun hn => by omega⟩
      | r0005 h =>
          have hobservations := h.observations_grow (hg.2.1 ▸ Dialect.rejectsOf_triggers hg.1)
          have hdecisions := h.decisions_grow (hg.2.2 ▸ Dialect.rejectsOf_triggers hg.1)
          exact ⟨hobservations.map _, fun _ => ⟨hobservations, hdecisions⟩⟩
      | runs0004 runs' => exact ⟨List.prefix_rfl, fun _ => ⟨List.prefix_rfl, List.prefix_rfl⟩⟩
      | runs0005 runs' => exact ⟨List.prefix_rfl, fun _ => ⟨List.prefix_rfl, List.prefix_rfl⟩⟩

/-- **The history is append-only**: while a database that any migrations and statements have led to
stays at `0003` or above, no statement of any client and no migration takes a stored observation
back or changes it. While it stays at `0005`, this holds of the decisions that an observation
refers to, and of the policy decisions. -/
theorem append_only {n : ℕ} (hdb : Relation.ReflTransGen (Step d) .base db) (hn : 3 ≤ n)
    (hlevel : n ≤ db.level)
    (hrun : Relation.ReflTransGen (fun db db' => Step d db db' ∧ n ≤ db'.level) db db') :
    db.history <+: db'.history ∧
      (5 ≤ n → db.observations <+: db'.observations ∧ db.decisions <+: db'.decisions) := by
  have hstrong : db'.Guarded d ∧ n ≤ db'.level ∧ db.history <+: db'.history ∧
      (5 ≤ n → db.observations <+: db'.observations ∧ db.decisions <+: db'.decisions) := by
    induction hrun with
    | refl =>
        exact ⟨guarded_of_reaches hdb, hlevel, List.prefix_rfl,
          fun _ => ⟨List.prefix_rfl, List.prefix_rfl⟩⟩
    | tail _ hstep ih =>
        obtain ⟨hg, hmid, hhistory, hrows⟩ := ih
        obtain ⟨hstep, hlast⟩ := hstep
        obtain ⟨hhistory', hrows'⟩ := hstep.grows hg hn hmid hlast
        exact ⟨hstep.guarded hg, hlast, hhistory.trans hhistory', fun h5 =>
          ⟨(hrows h5).1.trans (hrows' h5).1, (hrows h5).2.trans (hrows' h5).2⟩⟩
  exact hstrong.2.2

/-- **The migrations lose nothing.** In every database that any migrations and statements have led
to, an upgrade succeeds unless there is none, the dialect has no triggers, or it is `0002` and
SQLite has observations; it keeps whatever is stored, and the downgrade right after it leads back
exactly, but for a flag that `0003` sets, on SQLite only where there is no observation. A downgrade
fails only there, or where two revisions of an observation would become one row. -/
theorem migrations_lossless (h : Relation.ReflTransGen (Step d) .base db) :
    ((∃ db', Migration.upgrade d db = .ok db') ↔
      db.level < 5 ∧ (db.level = 2 → d.isSupported = true) ∧ db.NothingToFill d 1) ∧
    (∀ db', Migration.upgrade d db = .ok db' → db.Same db' ∧
      (Migration.downgrade d db' = .ok db ↔ db.AllPublishable ∧ db.NothingToFill d 2)) ∧
    ((∃ db', Migration.downgrade d db = .ok db') ↔
      0 < db.level ∧ db.Uncorrected ∧ db.NothingToFill d 3) ∧
    ∀ db', Migration.downgrade d db = .ok db' → 2 ≤ db'.level → db'.history = db.history := by
  have hg := guarded_of_reaches h
  obtain ⟨hupgrade, hkeeps⟩ := Database.upgrade_spec hg
  obtain ⟨hdowngrade, hback⟩ := Database.downgrade_spec hg
  exact ⟨hupgrade, fun db' h => ⟨(hkeeps db' h).2.2.1, (hkeeps db' h).2.2.2⟩, hdowngrade,
    fun db' h => (hback db' h).2.2⟩

end Runs

/-! ### The rows of `0001` -/

/-- The only entry of an upgraded observation. -/
def Observation0001.entry (o : Observation0001) : ObservationCandidate :=
  ⟨o.listingId, o.key, 1, o.value, o.retrievedAt, none, none⟩

/-- What the service finds is the ledger of the rows of `0001`, each the first revision of its key.
-/
theorem history_of_upgraded {t : Table Observation0001} {t' : ObservationTable}
    (ht : t'.rows = t.rows.map fun o => o.upgrade.upgrade.upgrade) :
    History t' ∧ ∀ key, Ledger.of t' key =
      (t.rows.filter fun o => decide (o.key = key)).map Observation0001.entry := by
  have hrevisions : ∀ key, revisionsOf key t' =
      (t.rows.filter fun o => decide (o.key = key)).map fun o => o.upgrade.upgrade.upgrade := by
    intro key
    rw [revisionsOf, ht, List.filter_map]
    rfl
  have hone : ∀ o ∈ t'.rows, o.revision = 1 := by
    intro o ho
    rw [ht] at ho
    obtain ⟨o₀, -, rfl⟩ := List.mem_map.mp ho
    rfl
  refine ⟨⟨fun key => ?_, fun o ho o' ho' _ hnext => ?_⟩, fun key => ?_⟩
  · have hle : (t.rows.filter fun o => decide (o.key = key)).length ≤ 1 := by
      rw [← List.countP_eq_length_filter]
      exact t.count_le_one fun a b ha hb =>
        Or.inr ((of_decide_eq_true ha).trans (of_decide_eq_true hb).symm)
    rw [hrevisions]
    generalize (t.rows.filter fun o => decide (o.key = key)) = rows at hle
    cases rows with
    | nil => rfl
    | cons o rest =>
        obtain rfl : rest = [] := List.length_eq_zero_iff.mp (by simpa using hle)
        rfl
  · have hfirst := hone o ho
    have hfirst' := hone o' ho'
    omega
  · rw [Ledger.of, hrevisions, List.map_map]
    rfl

/-- **An upgrade of a database of `0001`** succeeds on PostgreSQL whatever it holds, and on SQLite
exactly when it has no observation. The service then finds the observations as if it had recorded
each of them once, it finds no run, and whatever it plans it can dispatch: no filled-in key stands
in the way of a job. -/
theorem legacy_upgraded {d : Dialect} {c : Contents Observation0001 Job0001}
    (h : Relation.ReflTransGen (Step d) .base (.r0001 c)) :
    ((∃ db, Migration.upgradeBy d 4 (.r0001 c) = .ok db) ↔
      d.isSupported = true ∧ (d = .sqlite → c.observations.rows = [])) ∧
    ∀ db, Migration.upgradeBy d 4 (.r0001 c) = .ok db → ∃ c', db = .r0005 c' .empty ∧
      History c'.observations ∧
      (∀ key, Ledger.of c'.observations key =
        (c.observations.rows.filter fun o => decide (o.key = key)).map Observation0001.entry) ∧
      ∀ calendar args plan l result db' l', Dispatch.planOf calendar args = .ok plan →
        (Dispatch.planAndEnqueue calendar args).Executes semantics c'.db l (.ok result) db' l' →
        ∀ range ∈ plan.ranges,
          result.reportsCreated (Dispatch.dedupeKey args.series range) = true := by
  have hg := guarded_of_reaches h
  by_cases hrows : d = .sqlite → c.observations.rows = []
  case neg =>
    have herror := Migration.upgradeBy_eq_error (n := 3) (Migration.upgrade_r0001_eq_error hrows)
    rw [herror]
    exact ⟨iff_of_false (by simp) fun h => hrows h.2, by simp⟩
  obtain ⟨c₂, h₂, hmoved₂, hguarded₂, -⟩ := Migration.upgrade0002_spec hg hrows
  rw [Migration.upgradeBy_succ (Migration.upgrade_r0001 h₂)]
  cases hd : d.isSupported with
  | false =>
      obtain ⟨e, he⟩ := Migration.upgrade_r0002_eq_error (c := c₂) hd
      rw [Migration.upgradeBy_eq_error he]
      simp
  | true =>
      obtain ⟨c₃, h₃, hmoved₃, hguarded₃, -⟩ := Migration.upgrade0003_spec hd hguarded₂
      obtain ⟨c₅, h₅, hmoved₅, -, -⟩ := Migration.upgrade0005_spec hd hguarded₃
      have hobservations : c₅.observations.rows =
          c.observations.rows.map fun o => o.upgrade.upgrade.upgrade := by
        rw [hmoved₅.observations, hmoved₃.observations, hmoved₂.observations, List.map_map,
          List.map_map]
        rfl
      have hjobs : c₅.jobs.rows = c.jobs.rows.map fun j => j.upgrade.backfill d := by
        rw [hmoved₅.jobs, hmoved₃.jobs, hmoved₂.jobs, List.map_id, List.map_id]
      obtain ⟨hhistory, hledger⟩ := history_of_upgraded hobservations
      have hdone : Migration.upgradeBy d 3 (.r0002 c₂) = .ok (.r0005 c₅ .empty) := by
        rw [Migration.upgradeBy_succ (Migration.upgrade_r0002 h₃), Migration.upgradeBy_succ rfl,
          Migration.upgradeBy_succ (Migration.upgrade_r0004 h₅)]
        rfl
      rw [hdone]
      refine ⟨iff_of_true ⟨_, rfl⟩ ⟨rfl, hrows⟩, fun db hdb => ?_⟩
      obtain rfl := Except.ok.inj hdb
      refine ⟨c₅, rfl, hhistory, hledger, ?_⟩
      intro calendar args plan l result db' l' hplan hexec range hrange
      obtain ⟨-, result', hresult, -, henq⟩ := Dispatch.planAndEnqueue_executes hplan hexec
      obtain rfl := Except.ok.inj hresult
      refine (henq.reportsCreated_iff hrange).mpr ?_
      rintro ⟨j, hj, hkey⟩
      rw [show c₅.db.jobs = c₅.jobs from rfl, hjobs] at hj
      obtain ⟨j₀, -, rfl⟩ := List.mem_map.mp hj
      rw [Job0001.upgrade_backfill] at hkey
      exact legacyKey_ne_dedupeKey d j₀.id args.series range hkey

/-! ### Concrete databases -/

/-- A database of SQLite without rows, after all migrations. -/
def emptyHead : Database :=
  .r0005 ⟨.empty, .empty, .empty, .empty, [.noUpdate, .noDelete], [.noUpdate, .noDelete]⟩ .empty

theorem emptyHead_reached : Relation.ReflTransGen (Step .sqlite) .base emptyHead :=
  .tail (.tail (.tail (.tail (.tail .refl (.upgrade rfl)) (.upgrade rfl)) (.upgrade rfl))
    (.upgrade rfl)) (.upgrade rfl)

def storedRow : Observation :=
  ⟨1, 1, ⟨"fake", "default", "BTC", today, .eodClose⟩, 1,
    ⟨"EUR", .finite 1, none, none, none, none, .ok⟩, 0, none, none⟩

/-- The same database with an observation. -/
def storedHead : Database :=
  .r0005 ⟨⟨[storedRow], List.pairwise_singleton _ _⟩, .empty, .empty, .empty,
    [.noUpdate, .noDelete], [.noUpdate, .noDelete]⟩ .empty

/-- An observation survives two downgrades. -/
theorem append_only_downgraded : ∃ db, Migration.downgrade .sqlite storedHead = .ok db ∧
    ∃ db', Migration.downgrade .sqlite db = .ok db' ∧ storedHead.history <+: db'.history := by
  have hstored : Relation.ReflTransGen (Step .sqlite) .base storedHead :=
    emptyHead_reached.tail (.write (.r0005 (.observations (s := .insert storedRow) rfl)))
  refine ⟨_, rfl, _, rfl, (append_only (n := 3) hstored le_rfl (by decide) ?_).1⟩
  exact .tail (.tail .refl ⟨.downgrade rfl, by decide⟩) ⟨.downgrade rfl, by decide⟩

/-- A database of `0001` with an observation. -/
def legacyContents : Contents Observation0001 Job0001 :=
  ⟨⟨[storedRow.downgrade.downgrade.downgrade], List.pairwise_singleton _ _⟩, .empty, .empty, .empty,
    [], []⟩

theorem legacy_reached (d : Dialect) :
    Relation.ReflTransGen (Step d) .base (.r0001 legacyContents) :=
  .tail (.single (.upgrade rfl)) (.write (.r0001 (.observations
    (s := .insert storedRow.downgrade.downgrade.downgrade) rfl)))

/-- With its observation the database can be upgraded on PostgreSQL, which keeps the observation and
can be undone, but not on SQLite. -/
theorem migrations_lossless_stored :
    (∃ db, Migration.upgrade .postgresql (.r0001 legacyContents) = .ok db ∧
      db.history = (Database.r0001 legacyContents).history ∧
      Migration.downgrade .postgresql db = .ok (.r0001 legacyContents)) ∧
    ¬ ∃ db, Migration.upgrade .sqlite (.r0001 legacyContents) = .ok db := by
  obtain ⟨hupgrade, hkeeps, -⟩ := migrations_lossless (legacy_reached .postgresql)
  obtain ⟨hlite, -⟩ := migrations_lossless (legacy_reached .sqlite)
  constructor
  · obtain ⟨db, hdb⟩ := hupgrade.mpr ⟨by decide, by decide, fun h => absurd h (by decide)⟩
    obtain ⟨hsame, hback⟩ := hkeeps db hdb
    exact ⟨db, hdb, hsame.history, hback.mpr ⟨trivial, fun h => absurd h (by decide)⟩⟩
  · intro h
    exact absurd ((hlite.mp h).2.2 rfl rfl) (by decide)

/-- After the upgrade the ledger of its key has one entry. -/
theorem legacy_upgraded_stored :
    ∃ c', Migration.upgradeBy .postgresql 4 (.r0001 legacyContents) = .ok (.r0005 c' .empty) ∧
      (Ledger.of c'.observations storedRow.key).length = 1 := by
  obtain ⟨hexists, hfinds⟩ := legacy_upgraded (legacy_reached .postgresql)
  obtain ⟨db, hdb⟩ := hexists.mpr ⟨rfl, fun h => absurd h (by decide)⟩
  obtain ⟨c', rfl, -, hledger, -⟩ := hfinds db hdb
  exact ⟨c', hdb, by rw [hledger]; decide⟩

end MarketRelay
