import Mathlib.Data.List.Sort
import MarketRelay.Lib.Interleaving
import MarketRelay.Ports
import MarketRelay.Queue

/-!
# Database Sessions

The commands through which the modelled code touches the world, and what each of them does
atomically: the statements it sends to the database, the reads of object attributes that
its ORM session answers from a cache, and the calls to adapters.

The session is a cache of job rows. A row is loaded when its object is fetched, and its
attributes are then read as loaded until the row is expired; the next read of an expired
row selects it again. Rows of the other two tables never change, so their cached copies
need no model.

A statement sees every statement executed before it, by whatever session. The commands
therefore interleave more freely than the transactions of either dialect do: what holds for
every interleaving here holds for those.

`Session.claims`, `stored`, `candidates` and `approved` are bookkeeping: the generations that
the session's own claim updates wrote, the rows that its own inserts added, the candidates
that it has still to try and the permissions that it has read as granted. No program reads
them.
-/

open Relational Interaction Gregorian

namespace MarketRelay

/-- The shared database. -/
structure Db where
  jobs : JobTable
  observations : ObservationTable
  decisions : DecisionTable

/-- An ORM session. -/
structure Session where
  /-- The loaded job rows; a row that is expired, or was never loaded, is absent. -/
  cache : ℕ → Option Job
  /-- The job and the generation of each successful claim update of this session. -/
  claims : List (ℕ × ℕ)
  /-- The observations inserted by this session. -/
  stored : List Observation
  /-- The rows of the last candidate selection that are still to be tried, and its
  instant. -/
  candidates : List (ℕ × Instant)
  /-- The sources and capabilities that the session has read as `APPROVED`. -/
  approved : List (String × PolicyCapability)

def Session.new : Session := ⟨fun _ => none, [], [], [], []⟩

/-- A candidate observation, before its identifier is drawn. -/
structure ObservationCandidate where
  listingId : ℕ
  key : NaturalKey
  revision : ℕ
  value : ObservationValue
  retrievedAt : Instant
  retrievalPolicyDecisionId : Option ℕ
  storagePolicyDecisionId : Option ℕ
deriving DecidableEq

/-- The row of a candidate. -/
def ObservationCandidate.row (c : ObservationCandidate) (id : ℕ) : Observation :=
  ⟨id, c.listingId, c.key, c.revision, c.value, c.retrievedAt, c.retrievalPolicyDecisionId,
    c.storagePolicyDecisionId⟩

/-- A candidate policy decision, before its identifier is drawn. -/
structure DecisionCandidate where
  source : String
  capability : PolicyCapability
  version : ℕ
  status : PolicyStatus
  evidenceReference : String
  reviewedBy : String
  reviewedAt : Instant
  notes : Option String
deriving DecidableEq, Repr

/-- The row of a candidate. -/
def DecisionCandidate.row (c : DecisionCandidate) (id : ℕ) : SourcePolicyDecision :=
  ⟨id, c.source, c.capability, c.version, c.status, c.evidenceReference, c.reviewedBy,
    c.reviewedAt, c.notes⟩

/-! ### Queries -/

/-- The order of `ORDER BY next_run_at, id`. -/
def Job.CandidateLe (a b : Job) : Prop :=
  a.nextRunAt < b.nextRunAt ∨ (a.nextRunAt = b.nextRunAt ∧ a.id ≤ b.id)

instance : DecidableRel Job.CandidateLe := fun _ _ => inferInstanceAs (Decidable (_ ∨ _))

/-- The candidates of `claim_next`: due pending jobs, oldest first, a bounded number. -/
def selectCandidates (now : Instant) (source : Option String) (limit : ℕ) (t : JobTable) :
    List ℕ :=
  (((t.rows.filter fun j =>
      decide (j.status = .pending) && decide (j.nextRunAt ≤ now) &&
        source.all fun s => decide (j.source = s)).insertionSort Job.CandidateLe).take
    limit).map Job.id

/-- The candidates are rows of the table, each once, pending and due. -/
theorem mem_selectCandidates {now : Instant} {source : Option String} {limit id : ℕ}
    {t : JobTable} (h : id ∈ selectCandidates now source limit t) :
    ∃ j, t.get? id = some j ∧ j.status = .pending ∧ j.nextRunAt ≤ now := by
  obtain ⟨j, hj, rfl⟩ := List.mem_map.mp h
  have hmem := List.mem_of_mem_take hj
  rw [List.mem_insertionSort, List.mem_filter] at hmem
  obtain ⟨hrow, hcond⟩ := hmem
  simp only [Bool.and_eq_true, decide_eq_true_eq] at hcond
  exact ⟨j, Table.get?_eq_some_iff.mpr ⟨hrow, rfl⟩, hcond.1.1, hcond.1.2⟩

theorem nodup_selectCandidates (now : Instant) (source : Option String) (limit : ℕ)
    (t : JobTable) : (selectCandidates now source limit t).Nodup := by
  have hpk : (t.rows.map Job.id).Nodup :=
    List.pairwise_map.mpr (t.unique.imp fun h he => h (Or.inl he))
  have hsort := (List.perm_insertionSort Job.CandidateLe (t.rows.filter fun j =>
    decide (j.status = .pending) && decide (j.nextRunAt ≤ now) &&
      source.all fun s => decide (j.source = s))).map Job.id
  refine ((hsort.nodup_iff.mpr ?_).sublist ((List.take_sublist _ _).map Job.id))
  exact hpk.sublist (List.filter_sublist.map Job.id)

/-- The revisions of a natural key. -/
def revisionsOf (key : NaturalKey) (t : ObservationTable) : List Observation :=
  t.rows.filter fun o => decide (o.key = key)

/-- The current revision of a natural key: the one with the highest number. -/
def currentRevision (key : NaturalKey) (t : ObservationTable) : Option Observation :=
  latestBy Observation.revision (revisionsOf key t)

/-- The last session date with a stored observation of the series. -/
def lastCompletedSession (series : SeriesKey) (t : ObservationTable) : Option Date :=
  ((t.rows.filter fun o =>
    decide (o.key.source = series.source) &&
      decide (o.key.credentialScope = series.credentialScope) &&
      decide (o.key.externalListingId = series.externalListingId) &&
      decide (o.key.observationType = series.observationType)).map fun o =>
    o.key.sessionDate).max?

/-- The decisions of a source for a capability. -/
def decisionsOf (source : String) (capability : PolicyCapability) (t : DecisionTable) :
    List SourcePolicyDecision :=
  t.rows.filter fun d => decide (d.source = source) && decide (d.capability = capability)

theorem mem_decisionsOf {source : String} {capability : PolicyCapability} {t : DecisionTable}
    {d : SourcePolicyDecision} :
    d ∈ decisionsOf source capability t ↔
      d ∈ t.rows ∧ d.source = source ∧ d.capability = capability := by
  simp [decisionsOf]

/-- The effective decision: the one with the highest version. -/
def effectiveDecision (source : String) (capability : PolicyCapability) (t : DecisionTable) :
    Option SourcePolicyDecision :=
  latestBy SourcePolicyDecision.version (decisionsOf source capability t)

/-! ### Commands -/

/-- The commands of the modelled programs. -/
inductive Cmd where
  /-- A conditional update of the job table; the response is its row count. -/
  | update (op : QueueOp)
  /-- `session.commit()` -/
  | commit
  | selectCandidates (now : Instant) (source : Option String) (limit : ℕ)
  /-- `session.get(Job, id, populate_existing=True)` -/
  | load (id : ℕ)
  /-- Read the attributes of a job object. -/
  | attributes (id : ℕ)
  /-- Read `job.generation`, to present it with a transition. -/
  | generation (id : ℕ)
  /-- `session.expire(job)` -/
  | expire (id : ℕ)
  /-- `session.expire_all()` -/
  | expireAll
  /-- The query of `assert_owned`. -/
  | selectOwned (id : ℕ) (workerId : String) (generation : ℕ)
  /-- Flush a new job inside a savepoint; the response is absent on `IntegrityError`. -/
  | insertJob (args : EnqueueArgs)
  /-- Assign `WAITING_FOR_PUBLICATION` to the status of a job; the session flushes the
  assignment by primary key. -/
  | markWaiting (id : ℕ)
  /-- The query of `enqueue_idempotent`. -/
  | selectJob (dedupeKey : String)
  /-- The query of `effective_decision`. -/
  | selectDecision (source : String) (capability : PolicyCapability)
  /-- The query of `_next_version`. -/
  | selectMaxVersion (source : String) (capability : PolicyCapability)
  /-- Flush a new decision; the response is absent on `IntegrityError`. -/
  | insertDecision (candidate : DecisionCandidate)
  /-- The query of `_current_revision`. -/
  | selectRevision (key : NaturalKey)
  /-- The query of `last_completed_session`. -/
  | selectLastCompleted (series : SeriesKey)
  /-- Flush a new observation inside a savepoint; the response is absent on
  `IntegrityError`. -/
  | insertObservation (candidate : ObservationCandidate)
  | getHistoricalPricePort (source : String)
  | getQuotaPort (source : String)
  | checkQuota (source : String)
  | consumeQuota (source : String) (cost : ℕ)
  /-- `run_with_deadline` around the provider's `fetch_range`; the listing is absent when
  the cursor does not name it by a text. -/
  | fetchRange (source : String) (externalListingId : Option String) (start «end» : Date)
  /-- The representation of the exception that a malformed cursor makes the decoder raise. -/
  | describeFault (raw : Option String)
deriving DecidableEq

/-- The calls to adapters and to library code. -/
def Cmd.IsPort : Cmd → Prop
  | getHistoricalPricePort _ | getQuotaPort _ | checkQuota _ | consumeQuota .. | fetchRange ..
  | describeFault _ => True
  | _ => False

/-- The response to a command. -/
abbrev Cmd.Resp : Cmd → Type
  | update _ => ℕ
  | commit | markWaiting _ | expire _ | expireAll => Unit
  | selectCandidates .. => List ℕ
  | load _ | attributes _ | insertJob _ | selectJob _ => Option Job
  | generation _ => Option ℕ
  | selectOwned .. => Bool
  | selectDecision .. | insertDecision _ => Option SourcePolicyDecision
  | selectMaxVersion .. => Option ℕ
  | selectRevision _ | insertObservation _ => Option Observation
  | selectLastCompleted _ => Option Date
  | getHistoricalPricePort _ | getQuotaPort _ => Except PyError Unit
  | checkQuota _ | consumeQuota .. => Except PyError QuotaStatus
  | fetchRange .. => Except PyError (List RawObservation)
  | describeFault _ => String

/-- What the environment contributes to one command: the identifier drawn for a new row and
the instant of its creation, the answers of the adapters, and the texts of library
exceptions. -/
structure Answers where
  uuid : ℕ
  clock : Instant
  port : Except PyError Unit
  quota : Except PyError QuotaStatus
  fetched : Except PyError (List RawObservation)
  cause : String

instance : Inhabited Answers := ⟨0, 0, .ok (), .ok ⟨"", 1, 1, none⟩, .ok [], ""⟩

/-- Read a row through the cache. -/
def Session.read (l : Session) (t : JobTable) (id : ℕ) : Option Job :=
  (l.cache id).or (t.get? id)

/-- The session after a claim update: it notes the generation that it wrote. -/
def Session.noteUpdate (l : Session) (op : QueueOp) (t : JobTable) : Session :=
  match op with
  | .claim id _ _ =>
    let l := { l with candidates := l.candidates.filter fun c => decide (c.1 ≠ id) }
    match t.get? id with
    | some j => if op.cond j then { l with claims := (id, (op.set j).generation) :: l.claims } else l
    | none => l
  | _ => l

@[simp] theorem Session.noteUpdate_cache (l : Session) (op : QueueOp) (t : JobTable) :
    (l.noteUpdate op t).cache = l.cache := by
  cases op <;> simp only [Session.noteUpdate]
  split
  · split <;> rfl
  · rfl

@[simp] theorem Session.noteUpdate_stored (l : Session) (op : QueueOp) (t : JobTable) :
    (l.noteUpdate op t).stored = l.stored := by
  cases op <;> simp only [Session.noteUpdate]
  split
  · split <;> rfl
  · rfl

/-- The session after a read of a decision: it notes what it has seen granted. -/
def Session.noteDecision (l : Session) (source : String) (capability : PolicyCapability)
    (decision : Option SourcePolicyDecision) : Session :=
  { l with
    approved :=
      if decision.any fun d => decide (d.status = .approved) then
        (source, capability) :: l.approved
      else l.approved }

/-- The atomic effect of each command. -/
def exec : (c : Cmd) → Answers → Db → Session → c.Resp × Db × Session
  | .update op, _, db, l =>
    (op.rowcount db.jobs, { db with jobs := op.run db.jobs }, l.noteUpdate op db.jobs)
  | .commit, _, db, l => ((), db, l)
  | .selectCandidates now source limit, _, db, l =>
    let ids := selectCandidates now source limit db.jobs
    (ids, db, { l with candidates := ids.map fun id => (id, now) })
  | .load id, _, db, l =>
    (db.jobs.get? id, db, { l with cache := Function.update l.cache id (db.jobs.get? id) })
  | .attributes id, _, db, l =>
    (l.read db.jobs id, db, { l with cache := Function.update l.cache id (l.read db.jobs id) })
  | .generation id, _, db, l =>
    ((l.read db.jobs id).map Job.generation, db,
      { l with cache := Function.update l.cache id (l.read db.jobs id) })
  | .expire id, _, db, l => ((), db, { l with cache := Function.update l.cache id none })
  | .expireAll, _, db, l => ((), db, { l with cache := fun _ => none })
  | .selectOwned id workerId generation, _, db, l =>
    (db.jobs.rows.any fun j => decide (j.id = id) && (j.status.held &&
      decide (j.claimedBy = some workerId) && decide (j.generation = generation)), db, l)
  | .insertJob args, e, db, l =>
    let j := newJob args (db.jobs.draw e.uuid) e.clock
    match db.jobs.insert? j with
    | some t => (some j, { db with jobs := t },
        { l with cache := Function.update l.cache j.id (some j) })
    | none => (none, db, l)
  | .markWaiting id, _, db, l =>
    let t := db.jobs.update (fun j => decide (j.id = id)) Job.waitEdit
    ((), { db with jobs := t }, { l with cache := Function.update l.cache id (t.get? id) })
  | .selectJob dedupeKey, _, db, l =>
    match db.jobs.rows.find? fun j => decide (j.dedupeKey = dedupeKey) with
    | some j => (l.read db.jobs j.id, db,
        { l with cache := Function.update l.cache j.id (l.read db.jobs j.id) })
    | none => (none, db, l)
  | .selectDecision source capability, _, db, l =>
    let decision := effectiveDecision source capability db.decisions
    (decision, db, l.noteDecision source capability decision)
  | .selectMaxVersion source capability, _, db, l =>
    ((effectiveDecision source capability db.decisions).map SourcePolicyDecision.version, db, l)
  | .insertDecision candidate, e, db, l =>
    let d := candidate.row (db.decisions.draw e.uuid)
    match db.decisions.insert? d with
    | some t => (some d, { db with decisions := t }, l)
    | none => (none, db, l)
  | .selectRevision key, _, db, l => (currentRevision key db.observations, db, l)
  | .selectLastCompleted series, _, db, l => (lastCompletedSession series db.observations, db, l)
  | .insertObservation candidate, e, db, l =>
    let o := candidate.row (db.observations.draw e.uuid)
    match db.observations.insert? o with
    | some t => (some o, { db with observations := t }, { l with stored := l.stored ++ [o] })
    | none => (none, db, l)
  | .getHistoricalPricePort _, e, db, l => (e.port, db, l)
  | .getQuotaPort _, e, db, l => (e.port, db, l)
  | .checkQuota _, e, db, l => (e.quota, db, l)
  | .consumeQuota .., e, db, l => (e.quota, db, l)
  | .fetchRange .., e, db, l => (e.fetched, db, l)
  | .describeFault _, e, db, l => (e.cause, db, l)

/-- What a command does to a job row that exists. -/
def Cmd.row : Cmd → Job → Job
  | update op, j => op.row j
  | markWaiting id, j => if j.id = id then j.wait else j
  | _, j => j

attribute [local simp] Cmd.row exec

@[simp] theorem Cmd.row_id (c : Cmd) (j : Job) : (c.row j).id = j.id := by
  cases c with
  | markWaiting id =>
      rw [Cmd.row]
      split <;> rfl
  | _ => simp [Cmd.row]

@[simp] theorem Cmd.row_source (c : Cmd) (j : Job) : (c.row j).source = j.source := by
  cases c with
  | markWaiting id =>
      rw [Cmd.row]
      split <;> rfl
  | _ => simp [Cmd.row]

@[simp] theorem Cmd.row_cursor (c : Cmd) (j : Job) : (c.row j).cursor = j.cursor := by
  cases c with
  | markWaiting id =>
      rw [Cmd.row]
      split <;> rfl
  | _ => simp [Cmd.row]

@[simp] theorem Cmd.row_dedupeKey (c : Cmd) (j : Job) : (c.row j).dedupeKey = j.dedupeKey := by
  cases c with
  | markWaiting id =>
      rw [Cmd.row]
      split <;> rfl
  | _ => simp [Cmd.row]

theorem Cmd.generation_le_row (c : Cmd) (j : Job) : j.generation ≤ (c.row j).generation := by
  cases c with
  | update op => exact op.generation_le_row j
  | markWaiting id =>
      rw [Cmd.row]
      split <;> exact le_rfl
  | _ => exact le_rfl

/-- A command acts on each job row separately. -/
theorem get?_exec {c : Cmd} {e : Answers} {db : Db} {l : Session} {id : ℕ} {j : Job}
    (h : db.jobs.get? id = some j) : (exec c e db l).2.1.jobs.get? id = some (c.row j) := by
  cases c with
  | update op =>
      change (op.run db.jobs).get? id = _
      rw [QueueOp.get?_run, h]
      rfl
  | markWaiting id' =>
      change (db.jobs.update _ Job.waitEdit).get? id = _
      rw [Table.get?_update, h, Option.map_some]
      simp only [Table.updateRow, Cmd.row, decide_eq_true_eq]
      rfl
  | insertJob args =>
      rw [exec]
      split
      · rename_i t ht
        change t.get? id = some j
        rw [Table.get?_insert? ht id]
        rw [h]
        split
        · rename_i hid
          have hdraw := db.jobs.get?_draw e.uuid
          rw [← hid] at h
          exact absurd (hdraw.symm.trans h) (by simp)
        · rfl
      · exact h
  | selectJob key => rw [exec]; split <;> exact h
  | insertDecision d => rw [exec]; split <;> exact h
  | insertObservation o => rw [exec]; split <;> exact h
  | _ => exact h

theorem row_mem_exec {c : Cmd} {e : Answers} {db : Db} {l : Session} {j : Job}
    (h : j ∈ db.jobs.rows) : c.row j ∈ (exec c e db l).2.1.jobs.rows :=
  (Table.mem_of_get? (get?_exec (Table.get?_eq_some_iff.mpr ⟨h, rfl⟩))).1

/-- A job row after a command was there before, or it has just been inserted. -/
theorem mem_jobs_exec {c : Cmd} {e : Answers} {db : Db} {l : Session} {j : Job}
    (h : j ∈ (exec c e db l).2.1.jobs.rows) :
    (∃ j₀ ∈ db.jobs.rows, j = c.row j₀) ∨
      ∃ args, c = .insertJob args ∧ j = newJob args (db.jobs.draw e.uuid) e.clock := by
  have hold : ∀ j₀, db.jobs.get? j.id = some j₀ → c.row j₀ = j →
      ∃ j₀ ∈ db.jobs.rows, j = c.row j₀ := fun j₀ hj₀ hrow =>
    ⟨j₀, (Table.mem_of_get? hj₀).1, hrow.symm⟩
  have hget : (exec c e db l).2.1.jobs.get? j.id = some j :=
    Table.get?_eq_some_iff.mpr ⟨h, rfl⟩
  cases hj₀ : db.jobs.get? j.id with
  | some j₀ =>
      exact Or.inl (hold j₀ hj₀ (Option.some.inj ((get?_exec hj₀).symm.trans hget)))
  | none =>
      cases c with
      | update op =>
          change (op.run db.jobs).get? j.id = _ at hget
          rw [QueueOp.get?_run, hj₀] at hget
          exact absurd hget (by simp)
      | markWaiting id =>
          change (db.jobs.update _ Job.waitEdit).get? j.id = _ at hget
          rw [Table.get?_update, hj₀] at hget
          exact absurd hget (by simp)
      | insertJob args =>
          rw [exec] at h
          split at h
          · rename_i t ht
            obtain ⟨-, hrows⟩ := Table.insert?_eq_some_iff.mp ht
            rw [show _ = t.rows from rfl, hrows] at h
            rcases List.mem_append.mp h with h | h
            · exact Or.inl ⟨j, h, rfl⟩
            · exact Or.inr ⟨args, rfl, List.mem_singleton.mp h⟩
          · exact Or.inl ⟨j, h, rfl⟩
      | selectJob key | insertDecision d | insertObservation o =>
          rw [exec] at h
          split at h <;> exact Or.inl ⟨j, h, rfl⟩
      | _ => exact Or.inl ⟨j, h, rfl⟩

/-- The query of `enqueue_idempotent` finds the job that has taken the key. -/
theorem exec_selectJob {key : String} {db : Db} (h : ∃ j ∈ db.jobs.rows, j.dedupeKey = key)
    (e : Answers) (l : Session) :
    ∃ existing, (exec (.selectJob key) e db l).1 = some existing ∧
      (exec (.selectJob key) e db l).2.1 = db := by
  obtain ⟨j, hj, hkey⟩ := h
  cases hfind : db.jobs.rows.find? fun j => decide (j.dedupeKey = key) with
  | none => exact absurd hkey (by simpa using List.find?_eq_none.mp hfind j hj)
  | some j' =>
      have hget : db.jobs.get? j'.id = some j' :=
        Table.get?_eq_some_iff.mpr ⟨List.mem_of_find?_eq_some hfind, rfl⟩
      simp only [exec, hfind, Session.read, hget]
      cases l.cache j'.id with
      | none => exact ⟨j', rfl, trivial⟩
      | some copy => exact ⟨copy, rfl, trivial⟩

/-- An insert of a job fails exactly when its deduplication key is taken. -/
theorem exec_insertJob (args : EnqueueArgs) (e : Answers) (db : Db) (l : Session) :
    (∃ t j, j = newJob args (db.jobs.draw e.uuid) e.clock ∧ db.jobs.insert? j = some t ∧
      exec (.insertJob args) e db l = (some j, { db with jobs := t },
        { l with cache := Function.update l.cache j.id (some j) })) ∨
    (∃ j ∈ db.jobs.rows, j.dedupeKey = args.dedupeKey) ∧
      exec (.insertJob args) e db l = (none, db, l) := by
  cases hins : db.jobs.insert? (newJob args (db.jobs.draw e.uuid) e.clock) with
  | some t => exact Or.inl ⟨t, _, rfl, hins, by simp only [exec, hins]⟩
  | none =>
      refine Or.inr ⟨?_, by simp only [exec, hins]⟩
      obtain ⟨j, hj, hid | hkey⟩ := Table.insert?_eq_none_iff.mp hins
      · exact absurd hid (Table.get?_eq_none_iff.mp (db.jobs.get?_draw e.uuid) j hj)
      · exact ⟨j, hj, hkey⟩

/-- The observations are append-only. -/
theorem observations_exec (c : Cmd) (e : Answers) (db : Db) (l : Session) :
    db.observations.rows <+: (exec c e db l).2.1.observations.rows := by
  cases c with
  | insertObservation o =>
      rw [exec]
      split
      · rename_i t ht
        exact ⟨_, (Table.insert?_eq_some_iff.mp ht).2.symm⟩
      · exact List.prefix_rfl
  | insertDecision d | insertJob args | selectJob key =>
      rw [exec]
      split <;> exact List.prefix_rfl
  | _ => exact List.prefix_rfl

/-- Only an insert changes the decisions, and it adds its row. -/
theorem decisions_exec (c : Cmd) (e : Answers) (db : Db) (l : Session) :
    (exec c e db l).2.1.decisions = db.decisions ∨
      ∃ d, c = .insertDecision d ∧
        db.decisions.insert? (d.row (db.decisions.draw e.uuid)) =
          some (exec c e db l).2.1.decisions := by
  cases c with
  | insertDecision d =>
      rw [exec]
      split
      · rename_i t ht
        exact Or.inr ⟨d, rfl, ht⟩
      · exact Or.inl rfl
  | insertObservation o | insertJob args | selectJob key =>
      rw [exec]
      split <;> exact Or.inl rfl
  | _ => exact Or.inl rfl

/-- A stored observation was stored before, or it is the one that has just been inserted. -/
theorem stored_exec {c : Cmd} {e : Answers} {db : Db} {l : Session} {o : Observation}
    (h : o ∈ (exec c e db l).2.2.stored) :
    o ∈ l.stored ∨ ∃ candidate id, c = .insertObservation candidate ∧ o = candidate.row id := by
  cases c with
  | update op => exact Or.inl (by simpa [exec] using h)
  | insertObservation candidate =>
      rw [exec] at h
      split at h
      · rcases List.mem_append.mp h with h | h
        · exact Or.inl h
        · exact Or.inr ⟨candidate, _, rfl, List.mem_singleton.mp h⟩
      · exact Or.inl h
  | insertDecision d | insertJob args | selectJob key =>
      rw [exec] at h
      split at h <;> exact Or.inl h
  | _ => exact Or.inl h

/-- A cached row was cached before, or it is the row of the table. -/
theorem cache_exec {c : Cmd} {e : Answers} {db : Db} {l : Session} {id : ℕ} {j : Job}
    (h : (exec c e db l).2.2.cache id = some j) :
    l.cache id = some j ∨ (exec c e db l).2.1.jobs.get? id = some j := by
  have hupdate : ∀ (id' : ℕ) (r : Option Job) (t : JobTable),
      (id = id' → r = some j → l.cache id = some j ∨ t.get? id = some j) →
      Function.update l.cache id' r id = some j →
      l.cache id = some j ∨ t.get? id = some j := by
    intro id' r t hr h
    by_cases hid : id = id'
    · subst hid
      rw [Function.update_self] at h
      exact hr rfl h
    · rw [Function.update_of_ne hid] at h
      exact Or.inl h
  have hread : ∀ id', id = id' → l.read db.jobs id' = some j →
      l.cache id = some j ∨ db.jobs.get? id = some j := by
    rintro id' rfl hr
    rcases Option.or_eq_some_iff.mp hr with hr | ⟨-, hr⟩
    · exact Or.inl hr
    · exact Or.inr hr
  cases c with
  | update op => exact Or.inl (by simpa [exec] using h)
  | load id' => exact hupdate id' _ db.jobs (fun hid hr => Or.inr (hid ▸ hr)) h
  | attributes id' | generation id' => exact hupdate id' _ db.jobs (hread id') h
  | expire id' => exact hupdate id' none db.jobs (fun _ hr => absurd hr (by simp)) h
  | expireAll => simp [exec] at h
  | markWaiting id' =>
      refine hupdate id' _ _ (fun hid hr => Or.inr ?_) h
      subst hid
      exact hr
  | insertJob args =>
      rw [exec] at h ⊢
      split at h
      · rename_i t ht
        exact hupdate _ _ t (fun hid hr =>
          Or.inr ((Table.get?_insert? ht id).trans ((if_pos hid.symm).trans hr))) h
      · exact Or.inl h
  | selectJob key =>
      rw [exec] at h ⊢
      split at h
      · exact hupdate _ _ db.jobs (hread _) h
      · exact Or.inl h
  | insertDecision d | insertObservation o =>
      rw [exec] at h
      split at h <;> exact Or.inl h
  | _ => exact Or.inl h

/-- Every cached row is a copy of a row of the table, at most as new. -/
def Session.Reflects (l : Session) (t : JobTable) : Prop :=
  ∀ id j, l.cache id = some j → j.id = id ∧
    ∃ j', t.get? id = some j' ∧ j'.source = j.source ∧ j.generation ≤ j'.generation

namespace Session.Reflects

variable {l : Session} {db : Db}

theorem new (t : JobTable) : Session.new.Reflects t := fun _ _ h => absurd h (by simp [Session.new])

/-- So is every row that is read. -/
theorem read (h : l.Reflects db.jobs) {id : ℕ} {j : Job} (hj : l.read db.jobs id = some j) :
    j.id = id ∧ ∃ j', db.jobs.get? id = some j' ∧ j'.source = j.source ∧
      j.generation ≤ j'.generation := by
  rcases Option.or_eq_some_iff.mp hj with hj | ⟨-, hj⟩
  · exact h id j hj
  · exact ⟨(Table.get?_eq_some_iff.mp hj).2, j, hj, rfl, le_rfl⟩

/-- Copies stay copies, whatever command is executed. -/
theorem stable (h : l.Reflects db.jobs) (c : Cmd) (e : Answers) (l' : Session) :
    l.Reflects (exec c e db l').2.1.jobs := by
  intro id j hj
  obtain ⟨hid, j', hj', hs, hg⟩ := h id j hj
  refine ⟨hid, c.row j', get?_exec hj', ?_, hg.trans (c.generation_le_row j')⟩
  rw [Cmd.row_source, hs]

theorem step (h : l.Reflects db.jobs) (c : Cmd) (e : Answers) :
    (exec c e db l).2.2.Reflects (exec c e db l).2.1.jobs := by
  intro id j hj
  rcases cache_exec hj with hj | hj
  · exact h.stable c e l id j hj
  · exact ⟨(Table.get?_eq_some_iff.mp hj).2, j, hj, rfl, le_rfl⟩

end Session.Reflects

/-- The atomic effects of the commands, as the semantics of interleaved programs. -/
def semantics : Semantics Cmd Cmd.Resp Answers Db Session := ⟨exec⟩

@[simp] theorem semantics_exec (c : Cmd) (e : Answers) (db : Db) (l : Session) :
    semantics.exec c e db l = exec c e db l := rfl

/-- The programs of the service. -/
abbrev App (α : Type) := Script Cmd Cmd.Resp PyError α

/-- Issue a command. -/
def issue (c : Cmd) : App c.Resp := Script.op c

theorem meets_issue {G : Type} {K : Contract Cmd Cmd.Resp G} {c : Cmd}
    {Q : c.Resp → G → Prop} {X : PyError → G → Prop} {g : G} :
    Script.Meets K (issue c) Q X g ↔ K.pre c g ∧ ∀ r g', K.post c g r g' → Q r g' :=
  Script.meets_op

/-- Read the attributes of a job object. -/
def attributes (id : ℕ) : App Job := do
  match ← issue (.attributes id) with
  | some j => pure j
  | none => throw .objectDeleted

/-- Read the generation of a job object. -/
def generation (id : ℕ) : App ℕ := do
  match ← issue (.generation id) with
  | some g => pure g
  | none => throw .objectDeleted

/-- Raise what an adapter raises. -/
def orRaise {α : Type} (r : Except PyError α) : App α :=
  match r with
  | .ok a => pure a
  | .error e => throw e

end MarketRelay
