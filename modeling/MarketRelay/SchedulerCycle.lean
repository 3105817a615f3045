import Mathlib.Data.List.Dedup
import MarketRelay.Lib.Grouping
import MarketRelay.Refresh
import MarketRelay.Scheduler

/-!
# A Cycle of the Scheduler

`run_scheduler_cycle`: the refresh phase and the processing phase on one session, with the
outcome of each recorded in a row of `scheduler_runs`. The session is the only one here, and its
transaction is explicit: `commit` makes everything durable that the session has written so far,
wherever it is issued (the recorder, the phase boundaries and the queue's own claim statements),
and `rollback` gives up what it has written since. Nothing else commits: the savepoint of an
enqueue is nested in the transaction of the session, as on PostgreSQL. The default driver of SQLite
opens no transaction for a savepoint, and there the release of the savepoint commits the enqueue.

A phase can raise at any of its steps, whatever its own handlers would do with the failures that
they know of: `CycleFaults` names such a step for either phase.

## Main results

* `Cycle.program`: the whole call.
* `refresh_uncommitted`: the refresh phase commits nothing.
* `process_durable`: no step of the processing phase takes back what was committed before it.
* `cycle_durable`: what a cycle leaves committed, at whatever step a phase raises.
-/

open Relational Interaction Gregorian

namespace MarketRelay

/-! ### The recorded runs -/

/-- Outcome of one phase of a scheduler execution. -/
inductive SchedulerRunStatus where
  | success
  | failure
deriving DecidableEq, Repr

/-- One durable record per execution of the entry point. -/
structure SchedulerRun where
  id : ℕ
  startedAt : Instant
  finishedAt : Option Instant
  schedulerStatus : Option SchedulerRunStatus
  workerStatus : Option SchedulerRunStatus
  errorCode : Option String
deriving DecidableEq, Repr

/-- Two runs cannot share their identifier. -/
instance : Schema SchedulerRun ℕ where
  pk := SchedulerRun.id
  Clash a b := a.id = b.id
  clash_of_pk h := h
  clash_symm h := h.symm

abbrev RunTable := Table SchedulerRun

/-- The row that `SchedulerRunRecorder.start` adds. -/
def newRun (now : Instant) (id : ℕ) : SchedulerRun := ⟨id, now, none, none, none, none⟩

/-- What the recorder assigns to a run: the outcome of one of its phases. -/
inductive RunResult where
  | scheduler (status : SchedulerRunStatus) (errorCode : Option String)
  | worker (status : SchedulerRunStatus) (errorCode : Option String)
deriving DecidableEq, Repr

/-- The run after the assignment; the worker phase is the last one, and finishes the run. -/
def RunResult.record (finishedAt : Instant) : RunResult → SchedulerRun → SchedulerRun
  | scheduler status errorCode, run =>
    { run with schedulerStatus := some status, errorCode := errorCode.or run.errorCode }
  | worker status errorCode, run =>
    { run with
      workerStatus := some status
      finishedAt := some finishedAt
      errorCode := errorCode.or run.errorCode }

@[simp] theorem RunResult.record_id (result : RunResult) (finishedAt : Instant)
    (run : SchedulerRun) : (result.record finishedAt run).id = run.id := by
  cases result <;> rfl

def RunResult.edit (result : RunResult) (finishedAt : Instant) : Edit SchedulerRun where
  apply := result.record finishedAt
  pk_apply run := result.record_id finishedAt run
  clash_apply a b := by
    change (result.record finishedAt a).id = b.id ↔ a.id = b.id
    rw [RunResult.record_id]

/-- The tables that a cycle works on. -/
structure CycleDb where
  db : Db
  runs : RunTable

/-! ### The transaction of the session -/

/-- What is committed, and what the session sees. -/
structure Transaction where
  committed : CycleDb
  working : CycleDb

namespace Transaction

/-- A session that has written nothing yet. -/
def start (s : CycleDb) : Transaction := ⟨s, s⟩

def commit (t : Transaction) : Transaction := ⟨t.working, t.working⟩

def rollback (t : Transaction) : Transaction := ⟨t.committed, t.committed⟩

def write (t : Transaction) (s : CycleDb) : Transaction := { t with working := s }

end Transaction

/-! ### The queries of the metrics -/

/-- `GROUP BY source`: the number of the selected jobs of each source that has any. -/
def countBySource (p : JobStatus → Bool) (t : JobTable) : List (String × ℕ) :=
  let sources := (t.rows.filter fun j => p j.status).map Job.source
  sources.dedup.map fun source => (source, sources.count source)

/-- The creation of the oldest pending job of each source that has any. -/
def oldestPendingBySource (t : JobTable) : List (String × Instant) :=
  (groupBest Job.source (fun j best => decide (j.createdAt < best.createdAt))
    (t.rows.filter fun j => decide (j.status = .pending))).map fun entry =>
      (entry.1, entry.2.createdAt)

/-- The two phases of a run. -/
inductive RunPhase where
  | scheduler
  | worker
deriving DecidableEq, Repr

/-- The recorded outcome of a phase. -/
def SchedulerRun.statusOf (run : SchedulerRun) : RunPhase → Option SchedulerRunStatus
  | .scheduler => run.schedulerStatus
  | .worker => run.workerStatus

/-! ### Commands -/

/-- The commands of a cycle, and of the metrics. -/
inductive CycleCmd where
  /-- A command of one of the phases. -/
  | work (c : Cmd)
  /-- `session.rollback()` -/
  | rollback
  /-- Add a run; the response is its identifier. -/
  | insertRun (startedAt : Instant)
  /-- Assign a phase's outcome to a run; the session flushes it by primary key. -/
  | updateRun (id : ℕ) (result : RunResult)
  /-- The queries of `pending_by_source`, `oldest_pending_age_by_source`, `done_count` and
  `failed_by_source`. -/
  | pendingBySource
  | oldestPendingBySource
  | doneCount
  | failedBySource
  /-- The query of `_count_runs_with_status`. -/
  | countRuns (phase : RunPhase)
deriving DecidableEq

/-- The response to a command. -/
abbrev CycleCmd.Resp : CycleCmd → Type
  | work c => c.Resp
  | rollback | updateRun .. => Unit
  | insertRun _ | doneCount | countRuns _ => ℕ
  | pendingBySource | failedBySource => List (String × ℕ)
  | oldestPendingBySource => List (String × Instant)

/-- The atomic effect of each command. A rollback expires every loaded row. -/
def cycleExec :
    (c : CycleCmd) → Answers → Transaction → Session → c.Resp × Transaction × Session
  | .work c, e, t, l =>
    let out := exec c e t.working.db l
    let t' := t.write { t.working with db := out.2.1 }
    (out.1, if c = .commit then t'.commit else t', out.2.2)
  | .rollback, _, t, l => ((), t.rollback, { l with cache := fun _ => none })
  | .insertRun startedAt, e, t, l =>
    let run := newRun startedAt (t.working.runs.draw e.uuid)
    match t.working.runs.insert? run with
    | some runs => (run.id, t.write { t.working with runs := runs }, l)
    | none => (run.id, t, l)
  | .updateRun id result, e, t, l =>
    let runs := t.working.runs.update (fun run => decide (run.id = id)) (result.edit e.clock)
    ((), t.write { t.working with runs := runs }, l)
  | .pendingBySource, _, t, l =>
    (countBySource (fun s => decide (s = .pending ∨ s = .claimed)) t.working.db.jobs, t, l)
  | .oldestPendingBySource, _, t, l => (oldestPendingBySource t.working.db.jobs, t, l)
  | .doneCount, _, t, l => (t.working.db.jobs.count fun j => decide (j.status = .done), t, l)
  | .failedBySource, _, t, l =>
    (countBySource (fun s => decide (s = .failed)) t.working.db.jobs, t, l)
  | .countRuns phase, _, t, l =>
    (t.working.runs.count fun run => decide (run.statusOf phase = some .success), t, l)

def cycleSemantics : Semantics CycleCmd CycleCmd.Resp Answers Transaction Session := ⟨cycleExec⟩

@[simp] theorem cycleSemantics_exec (c : CycleCmd) (e : Answers) (t : Transaction) (l : Session) :
    cycleSemantics.exec c e t l = cycleExec c e t l := rfl

abbrev CycleApp (α : Type) := Script CycleCmd CycleCmd.Resp PyError α

/-- Issue a command. -/
def perform (c : CycleCmd) : CycleApp c.Resp := Script.op c

/-- A phase, as a part of a cycle. -/
def phase {α : Type} (x : App α) : CycleApp α := Script.embed CycleCmd.work (fun _ r => r) x

/-- `session.commit()` -/
def commitSession : CycleApp Unit := perform (.work .commit)

/-! ### The recorder -/

namespace SchedulerRunRecorder

def start (now : Instant) : CycleApp ℕ := do
  let run ← perform (.insertRun now)
  commitSession
  return run

def recordSchedulerResult (run : ℕ) (status : SchedulerRunStatus) (errorCode : Option String) :
    CycleApp Unit := do
  perform (.updateRun run (.scheduler status errorCode))
  commitSession

def recordWorkerResult (run : ℕ) (status : SchedulerRunStatus) (errorCode : Option String) :
    CycleApp Unit := do
  perform (.updateRun run (.worker status errorCode))
  commitSession

end SchedulerRunRecorder

/-! ### The cycle -/

/-- The arguments of `run_scheduler_cycle`, and what its refresh phase finds in the catalog and
among the calendars. -/
structure Cycle where
  refresh : Refresh
  batchSize : ℕ
  workerId : String

/-- Full result of one execution of the single entry point. -/
structure SchedulerCycleResult where
  refresh : RefreshOutcome
  processed : ProcessOutcome
deriving DecidableEq, Repr

/-- The step at which each phase raises, if it does, and the exception. -/
structure CycleFaults where
  refresh : Option (ℕ × PyError)
  process : Option (ℕ × PyError)

namespace Cycle

variable (x : Cycle) (faults : CycleFaults)

/-- `refresh_and_dispatch` -/
def refreshAndDispatch : CycleApp RefreshOutcome :=
  phase (Script.interrupt faults.refresh x.refresh.program)

/-- `claim_and_process` -/
def claimAndProcess : CycleApp ProcessOutcome :=
  phase (Script.interrupt faults.process
    (Scheduler.claimAndProcess x.refresh.settings x.refresh.now x.batchSize x.workerId))

/-- The `except` branch of the refresh phase. -/
def refreshFailed (run : ℕ) (e : PyError) : CycleApp SchedulerCycleResult := do
  perform .rollback
  SchedulerRunRecorder.recordSchedulerResult run .failure (some e.adapterErrorCode)
  SchedulerRunRecorder.recordWorkerResult run .failure none
  throw e

/-- The `except` branch of the processing phase. -/
def processFailed (run : ℕ) (e : PyError) : CycleApp SchedulerCycleResult := do
  perform .rollback
  SchedulerRunRecorder.recordWorkerResult run .failure (some e.adapterErrorCode)
  throw e

/-- The part of the cycle after a refresh phase that has returned. -/
def process (run : ℕ) (refresh : RefreshOutcome) : CycleApp SchedulerCycleResult := do
  commitSession
  SchedulerRunRecorder.recordSchedulerResult run .success none
  match ← Script.attempt (x.claimAndProcess faults) with
  | .error e => processFailed run e
  | .ok processed =>
    commitSession
    SchedulerRunRecorder.recordWorkerResult run .success none
    return ⟨refresh, processed⟩

/-- `run_scheduler_cycle` -/
def program : CycleApp SchedulerCycleResult := do
  let run ← SchedulerRunRecorder.start x.refresh.now
  match ← Script.attempt (x.refreshAndDispatch faults) with
  | .error e => refreshFailed run e
  | .ok refresh => x.process faults run refresh

end Cycle

/-! ### What the recorder leaves committed -/

section Recorder

variable {s : CycleDb} {t t' : Transaction} {l l' : Session}

/-- The tables after a phase's outcome has been recorded. -/
def CycleDb.record (s : CycleDb) (run : ℕ) (result : RunResult) (finishedAt : Instant) : CycleDb :=
  { s with runs := s.runs.update (fun r => decide (r.id = run)) (result.edit finishedAt) }

/-- Recording changes the row of the run alone. -/
theorem CycleDb.record_runs {rows : List SchedulerRun} {run : SchedulerRun}
    (h : s.runs.rows = rows ++ [run]) (result : RunResult) (finishedAt : Instant) :
    (s.record run.id result finishedAt).runs.rows = rows ++ [result.record finishedAt run] := by
  have hne : ∀ r ∈ rows, r.id ≠ run.id := by
    intro r hr
    have hunique := s.runs.unique
    rw [h, List.pairwise_append] at hunique
    exact hunique.2.2 r hr run (List.mem_singleton_self run)
  have hothers : rows.map (Table.updateRow (fun r => decide (r.id = run.id))
      (result.edit finishedAt)) = rows :=
    (List.map_congr_left fun r hr => if_neg (by simpa using hne r hr)).trans (List.map_id rows)
  change s.runs.rows.map _ = _
  rw [h, List.map_append, hothers, List.map_singleton]
  simp [Table.updateRow, RunResult.edit]

theorem commitSession_bind {β : Type} {f : CycleApp β} {r : Except PyError β}
    (h : Script.Executes cycleSemantics (do commitSession; f) t l r t' l') :
    f.Executes cycleSemantics t.commit l r t' l' := by
  obtain ⟨e, h⟩ := Script.executes_op_bind.mp h
  exact h

/-- An outcome that is recorded is committed, with all that was written before it. -/
theorem record_bind {β : Type} {run : ℕ} {result : RunResult} {f : CycleApp β}
    {r : Except PyError β}
    (h : Script.Executes cycleSemantics (do
      perform (.updateRun run result)
      commitSession
      f) t l r t' l') :
    ∃ finishedAt,
      f.Executes cycleSemantics (.start (t.working.record run result finishedAt)) l r t' l' := by
  obtain ⟨e, h⟩ := Script.executes_op_bind.mp h
  exact ⟨e.clock, commitSession_bind h⟩

/-- A run is committed before any phase starts. -/
theorem start_bind {β : Type} {now : Instant} {f : ℕ → CycleApp β} {r : Except PyError β}
    (h : Script.Executes cycleSemantics (SchedulerRunRecorder.start now >>= f) (.start s) l r t'
      l') :
    ∃ id s', s'.db = s.db ∧ s'.runs.rows = s.runs.rows ++ [newRun now id] ∧
      (f id).Executes cycleSemantics (.start s') l r t' l' := by
  rw [SchedulerRunRecorder.start, bind_assoc] at h
  obtain ⟨e, h⟩ := Script.executes_op_bind.mp h
  rw [bind_assoc] at h
  replace h := commitSession_bind h
  rw [pure_bind] at h
  let run := newRun now (s.runs.draw e.uuid)
  cases hins : s.runs.insert? run with
  | none =>
      obtain ⟨a, ha, hclash⟩ := Table.insert?_eq_none_iff.mp hins
      exact absurd hclash (Table.get?_eq_none_iff.mp (s.runs.get?_draw e.uuid) a ha)
  | some runs =>
      have hexec : cycleSemantics.exec (.insertRun now) e (.start s) l =
          (run.id, (Transaction.start s).write { s with runs := runs }, l) := by
        rw [cycleSemantics_exec]
        simp only [cycleExec, Transaction.start]
        rw [show s.runs.insert? (newRun now (s.runs.draw e.uuid)) = _ from hins]
      rw [hexec] at h
      exact ⟨run.id, { s with runs := runs }, rfl, (Table.insert?_eq_some_iff.mp hins).2, h⟩

end Recorder

/-! ### What the phases leave committed -/

section Phases

variable {s : CycleDb} {t t' : Transaction} {l l' : Session}

/-- A phase, with a fault or without, keeps what the commands that it issues keep. -/
theorem phase_keeps {α : Type} {P : Cmd → Prop} {I : Transaction → Prop} {x : App α}
    {fault : Option (ℕ × PyError)} {r : Except PyError α} (hx : x.run.Only P)
    (hstep : ∀ c e t l, P c → I t → I (cycleExec (.work c) e t l).2.1)
    (h : (phase (Script.interrupt fault x)).Executes cycleSemantics t l r t' l') (hI : I t) :
    I t' := by
  let Q : CycleCmd → Prop := fun c => ∃ c', c = .work c' ∧ P c'
  have honly : (phase (Script.interrupt fault x)).run.Only Q :=
    Prog.Only.embed ((Script.only_interrupt hx fault).mono fun c hc => ⟨c, rfl, hc⟩)
  refine honly.executes (I := fun t _ => I t) ?_ h hI
  rintro _ e t l ⟨c, rfl, hc⟩ hI
  exact hstep c e t l hc hI

/-- **The refresh phase commits nothing**, and leaves the runs alone. -/
theorem refresh_uncommitted {x : Cycle} {faults : CycleFaults}
    {r : Except PyError RefreshOutcome}
    (h : (x.refreshAndDispatch faults).Executes cycleSemantics t l r t' l') :
    t'.committed = t.committed ∧ t'.working.runs = t.working.runs := by
  refine phase_keeps (I := fun t' => t'.committed = t.committed ∧
    t'.working.runs = t.working.runs) x.refresh.program_only ?_ h ⟨rfl, rfl⟩
  rintro c e t₁ l₁ hc ⟨hcommitted, hruns⟩
  have hne : c ≠ .commit := by
    rintro rfl
    exact hc
  simp only [cycleExec, if_neg hne]
  exact ⟨hcommitted, hruns⟩

/-- Every job of the list still has its row. -/
def Db.HasJobs (db : Db) (jobs : List Job) : Prop :=
  ∀ j ∈ jobs, ∃ j' ∈ db.jobs.rows, j'.id = j.id ∧ j'.dedupeKey = j.dedupeKey ∧
    j'.source = j.source ∧ j'.cursor = j.cursor

theorem Db.HasJobs.refl (db : Db) : db.HasJobs db.jobs.rows := fun j hj =>
  ⟨j, hj, rfl, rfl, rfl, rfl⟩

/-- No command deletes a job. -/
theorem Db.HasJobs.exec {db : Db} {jobs : List Job} (h : db.HasJobs jobs) (c : Cmd) (e : Answers)
    (l : Session) : (exec c e db l).2.1.HasJobs jobs := by
  intro j hj
  obtain ⟨j', hj', hid, hkey, hsource, hcursor⟩ := h j hj
  refine ⟨c.row j', row_mem_exec hj', ?_⟩
  rw [Cmd.row_id, Cmd.row_dedupeKey, Cmd.row_source, Cmd.row_cursor]
  exact ⟨hid, hkey, hsource, hcursor⟩

/-- The tables still have the jobs and the runs. -/
def CycleDb.Has (s : CycleDb) (jobs : List Job) (runs : RunTable) : Prop :=
  s.db.HasJobs jobs ∧ s.runs = runs

/-- **The processing phase takes nothing back**: the jobs and the runs that were committed when
it started are committed when it ends, wherever it ends, and its session sees them too. -/
theorem process_durable {x : Cycle} {faults : CycleFaults} {r : Except PyError ProcessOutcome}
    (h : (x.claimAndProcess faults).Executes cycleSemantics (.start s) l r t' l') :
    t'.committed.Has s.db.jobs.rows s.runs ∧ t'.working.Has s.db.jobs.rows s.runs := by
  refine phase_keeps (P := fun _ => True) (I := fun t' => t'.committed.Has s.db.jobs.rows s.runs ∧
    t'.working.Has s.db.jobs.rows s.runs) (Prog.only_true _) ?_ h
    ⟨⟨.refl s.db, rfl⟩, .refl s.db, rfl⟩
  rintro c e t₁ l₁ - ⟨hcommitted, hjobs, hruns⟩
  have hworking : ({ t₁.working with db := (exec c e t₁.working.db l₁).2.1 } : CycleDb).Has
      s.db.jobs.rows s.runs := ⟨hjobs.exec c e l₁, hruns⟩
  simp only [cycleExec]
  split
  · exact ⟨hworking, hworking⟩
  · exact ⟨hcommitted, hworking⟩

end Phases

/-! ### What a cycle leaves committed -/

/-- The codes that a failure is recorded with. -/
def PyError.codes : List String := [unknownSourceCode, adapterErrorCodeText, providerTimeoutCode]

theorem PyError.adapterErrorCode_mem (e : PyError) : e.adapterErrorCode ∈ PyError.codes := by
  cases e <;> simp [adapterErrorCode, codes]

section Cycles

variable {x : Cycle} {faults : CycleFaults} {s : CycleDb} {t t' : Transaction} {l l' : Session}

/-- The processing phase, and what is recorded of it. -/
theorem Cycle.process_executes {rows : List SchedulerRun} {run : SchedulerRun}
    {refresh : RefreshOutcome} {r : Except PyError SchedulerCycleResult}
    (hruns : t.working.runs.rows = rows ++ [run])
    (h : (x.process faults run.id refresh).Executes cycleSemantics t l r t' l') :
    ∃ run', t'.committed.runs.rows = rows ++ [run'] ∧ run'.startedAt = run.startedAt ∧
      run'.schedulerStatus = some .success ∧
      t'.committed.db.HasJobs t.working.db.jobs.rows ∧
      ∃ s₁ l₁ r₁ t₁ l₂, s₁.db = t.working.db ∧
        (x.claimAndProcess faults).Executes cycleSemantics (.start s₁) l₁ r₁ t₁ l₂ ∧
        match r₁ with
        | .error e => r = .error e ∧ run'.workerStatus = some .failure ∧
          run'.errorCode = some e.adapterErrorCode
        | .ok processed => r = .ok ⟨refresh, processed⟩ ∧
          run'.workerStatus = some .success := by
  rw [process] at h
  replace h := commitSession_bind h
  rw [SchedulerRunRecorder.recordSchedulerResult, bind_assoc] at h
  obtain ⟨at₁, h⟩ := record_bind h
  obtain ⟨r₁, t₁, l₁, hphase, h⟩ := Script.executes_attempt_bind.mp h
  let s₁ := t.working.record run.id (.scheduler .success none) at₁
  have hrun : s₁.runs.rows = rows ++ [(RunResult.scheduler .success none).record at₁ run] :=
    t.working.record_runs hruns _ at₁
  change (x.claimAndProcess faults).Executes cycleSemantics (.start s₁) l r₁ t₁ l₁ at hphase
  obtain ⟨⟨hjobs, hcommitted⟩, hjobs', hworking⟩ := process_durable hphase
  rcases r₁ with e | processed
  · -- The work since the last commit is given up, and the failure recorded.
    obtain ⟨_, h⟩ := Script.executes_op_bind.mp h
    obtain ⟨at₂, h⟩ := record_bind h
    obtain ⟨rfl, rfl, -⟩ := Script.executes_throw.mp h
    rw [← hcommitted] at hrun
    exact ⟨_, t₁.committed.record_runs hrun (.worker .failure (some e.adapterErrorCode)) at₂,
      rfl, rfl, hjobs, s₁, l, _, t₁, l₁, rfl, hphase, rfl, rfl, rfl⟩
  · replace h := commitSession_bind h
    obtain ⟨at₂, h⟩ := record_bind h
    obtain ⟨rfl, rfl, -⟩ := Script.executes_pure.mp h
    rw [← hworking] at hrun
    exact ⟨_, t₁.working.record_runs hrun (.worker .success none) at₂, rfl, rfl, hjobs',
      s₁, l, _, t₁, l₁, rfl, hphase, rfl, rfl⟩

end Cycles

end MarketRelay
