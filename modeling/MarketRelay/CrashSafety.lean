import MarketRelay.Lib.Stopping
import MarketRelay.SchedulerCycle

/-!
# Crashes and Restarts

The process of a cycle can be killed after any of its commands. No handler runs then, and what the
session has written since its last commit is gone: the next invocation of the entry point finds
what is committed. The recorder commits at the boundary of each phase, so that what a row of
`scheduler_runs` says has happened, and no later crash takes it back. As in a cycle that runs to its
end, only `commit` commits, and the release of a savepoint does not.

## Main results

* `stopped_cycle`: what a cycle leaves committed, wherever it is stopped.
* `restarts_lose_nothing`: what any sequence of invocations leaves, each of them stopped anywhere.
-/

open Relational Interaction

namespace MarketRelay

/-! ### Phases that are cut short -/

section Phases

variable {x : Cycle} {faults : CycleFaults} {s : CycleDb} {t t' : Transaction} {l l' : Session}

/-- A phase that is cut short has kept what the commands that it issues keep. -/
theorem phase_stops {α : Type} {P : Cmd → Prop} {I : Transaction → Prop} {x : App α}
    {fault : Option (ℕ × PyError)} (hx : x.run.Only P)
    (hstep : ∀ c e t l, P c → I t → I (cycleExec (.work c) e t l).2.1)
    (h : (phase (Script.interrupt fault x)).Stops cycleSemantics t l t' l') (hI : I t) : I t' := by
  have honly : (phase (Script.interrupt fault x)).run.Only fun c => ∃ c', c = .work c' ∧ P c' :=
    Prog.Only.embed ((Script.only_interrupt hx fault).mono fun c hc => ⟨c, rfl, hc⟩)
  refine honly.stops (I := fun t _ => I t) ?_ h hI
  rintro _ e t l ⟨c, rfl, hc⟩ hI
  exact hstep c e t l hc hI

/-- The refresh phase has committed nothing. -/
theorem refresh_stops (h : (x.refreshAndDispatch faults).Stops cycleSemantics t l t' l') :
    t'.committed = t.committed := by
  refine phase_stops (I := fun t' => t'.committed = t.committed) x.refresh.program_only ?_ h rfl
  intro c e t₁ l₁ hc hcommitted
  have hne : c ≠ .commit := by
    rintro rfl
    exact hc
  simp only [cycleExec, if_neg hne]
  exact hcommitted

/-- The processing phase has taken nothing back. -/
theorem process_stops (h : (x.claimAndProcess faults).Stops cycleSemantics (.start s) l t' l') :
    t'.committed.Has s.db.jobs.rows s.runs := by
  refine (phase_stops (P := fun _ => True) (I := fun t' =>
    t'.committed.Has s.db.jobs.rows s.runs ∧ t'.working.Has s.db.jobs.rows s.runs)
    (Prog.only_true _) ?_ h ⟨⟨.refl s.db, rfl⟩, .refl s.db, rfl⟩).1
  rintro c e t₁ l₁ - ⟨hcommitted, hjobs, hruns⟩
  have hworking : ({ t₁.working with db := (exec c e t₁.working.db l₁).2.1 } : CycleDb).Has
      s.db.jobs.rows s.runs := ⟨hjobs.exec c e l₁, hruns⟩
  simp only [cycleExec]
  split
  · exact ⟨hworking, hworking⟩
  · exact ⟨hcommitted, hworking⟩

/-! ### The recorder, cut short -/

theorem commitSession_stops {β : Type} {f : CycleApp β}
    (h : Script.Stops cycleSemantics (do commitSession; f) t l t' l') :
    t'.committed = t.committed ∨ f.Stops cycleSemantics t.commit l t' l' := by
  rcases Script.stops_op_bind.mp h with ⟨rfl, -⟩ | ⟨e, h⟩
  · exact Or.inl rfl
  · exact Or.inr h

/-- An outcome has been committed, or nothing has since. -/
theorem record_stops {β : Type} {run : ℕ} {result : RunResult} {f : CycleApp β}
    (h : Script.Stops cycleSemantics (do
      perform (.updateRun run result)
      commitSession
      f) t l t' l') :
    t'.committed = t.committed ∨ ∃ finishedAt,
      f.Stops cycleSemantics (.start (t.working.record run result finishedAt)) l t' l' := by
  rcases Script.stops_op_bind.mp h with ⟨rfl, -⟩ | ⟨e, h⟩
  · exact Or.inl rfl
  · rcases commitSession_stops h with hcommitted | h
    · exact Or.inl hcommitted
    · exact Or.inr ⟨e.clock, h⟩

/-- A run is always inserted: its identifier is a new one. -/
theorem insertRun_exec (now : Instant) (e : Answers) (s : CycleDb) (l : Session) :
    ∃ id s', cycleExec (.insertRun now) e (.start s) l = (id, (Transaction.start s).write s', l) ∧
      s'.db = s.db ∧ s'.runs.rows = s.runs.rows ++ [newRun now id] := by
  let run := newRun now (s.runs.draw e.uuid)
  cases hins : s.runs.insert? run with
  | none =>
      obtain ⟨a, ha, hclash⟩ := Table.insert?_eq_none_iff.mp hins
      exact absurd hclash (Table.get?_eq_none_iff.mp (s.runs.get?_draw e.uuid) a ha)
  | some runs =>
      refine ⟨run.id, { s with runs := runs }, ?_, rfl, (Table.insert?_eq_some_iff.mp hins).2⟩
      simp only [cycleExec, Transaction.start]
      rw [show s.runs.insert? (newRun now (s.runs.draw e.uuid)) = _ from hins]

/-- The run has been committed, or nothing has been. -/
theorem start_stops {β : Type} {now : Instant} {f : ℕ → CycleApp β}
    (h : Script.Stops cycleSemantics (SchedulerRunRecorder.start now >>= f) (.start s) l t' l') :
    t'.committed = s ∨ ∃ id s', s'.db = s.db ∧ s'.runs.rows = s.runs.rows ++ [newRun now id] ∧
      (f id).Stops cycleSemantics (.start s') l t' l' := by
  rw [SchedulerRunRecorder.start, bind_assoc] at h
  rcases Script.stops_op_bind.mp h with ⟨rfl, -⟩ | ⟨e, h⟩
  · exact Or.inl rfl
  · obtain ⟨id, s', hexec, hdb, hruns⟩ := insertRun_exec now e s l
    rw [cycleSemantics_exec, hexec, bind_assoc] at h
    rcases commitSession_stops h with hcommitted | h
    · exact Or.inl hcommitted
    · rw [pure_bind] at h
      exact Or.inr ⟨id, s', hdb, hruns, h⟩

end Phases

/-! ### What a row says -/

/-- The jobs that are still there stay so. -/
theorem Db.HasJobs.trans {db db' : Db} {jobs : List Job} (h : db.HasJobs jobs)
    (h' : db'.HasJobs db.jobs.rows) : db'.HasJobs jobs := by
  intro j hj
  obtain ⟨j', hj', hid, hkey, hsource, hcursor⟩ := h j hj
  obtain ⟨j'', hj'', hid', hkey', hsource', hcursor'⟩ := h' j' hj'
  exact ⟨j'', hj'', hid'.trans hid, hkey'.trans hkey, hsource'.trans hsource,
    hcursor'.trans hcursor⟩

/-- The outcomes of a row fit together: a run is finished when its worker phase is over, a worker
phase only follows a refresh phase, and the error code is that of a failure. -/
structure SchedulerRun.Coherent (run : SchedulerRun) : Prop where
  finished : run.finishedAt.isSome = run.workerStatus.isSome
  follows : run.workerStatus = some .success → run.schedulerStatus = some .success
  started : run.workerStatus ≠ none → run.schedulerStatus ≠ none
  code : run.errorCode ≠ none ↔
    run.schedulerStatus = some .failure ∨ run.workerStatus = some .failure

/-- What a row says of its cycle is true: the refresh phase that it records as a success has
returned, and the jobs that it has left are still there, and so it is with the worker phase. -/
structure SchedulerRun.Holds (x : Cycle) (faults : CycleFaults) (s : CycleDb) (run : SchedulerRun)
    (db : Db) : Prop where
  coherent : run.Coherent
  startedAt : run.startedAt = x.refresh.now
  refreshed : run.schedulerStatus = some .success → ∃ s₁ l₁ outcome t₂ l₂, s₁.db = s.db ∧
    (x.refreshAndDispatch faults).Executes cycleSemantics (.start s₁) l₁ (.ok outcome) t₂ l₂ ∧
    db.HasJobs t₂.working.db.jobs.rows
  processed : run.workerStatus = some .success → ∃ s₁ l₁ outcome t₂ l₂,
    (x.claimAndProcess faults).Executes cycleSemantics (.start s₁) l₁ (.ok outcome) t₂ l₂ ∧
    db.HasJobs t₂.working.db.jobs.rows

/-- No later work makes it false. -/
theorem SchedulerRun.Holds.mono {x : Cycle} {faults : CycleFaults} {s : CycleDb}
    {run : SchedulerRun} {db db' : Db} (h : run.Holds x faults s db)
    (hjobs : db'.HasJobs db.jobs.rows) : run.Holds x faults s db' := by
  refine ⟨h.coherent, h.startedAt, fun hs => ?_, fun hs => ?_⟩
  · obtain ⟨s₁, l₁, outcome, t₂, l₂, hdb, hphase, hhas⟩ := h.refreshed hs
    exact ⟨s₁, l₁, outcome, t₂, l₂, hdb, hphase, hhas.trans hjobs⟩
  · obtain ⟨s₁, l₁, outcome, t₂, l₂, hphase, hhas⟩ := h.processed hs
    exact ⟨s₁, l₁, outcome, t₂, l₂, hphase, hhas.trans hjobs⟩

section Cycles

variable {x : Cycle} {faults : CycleFaults} {s s' : CycleDb} {t t' : Transaction} {l l' : Session}

variable (x faults s) in
/-- A refresh phase of the cycle has returned, and left the tables. -/
def Refreshed (db : Db) : Prop :=
  ∃ s₁ l₁ outcome t₂ l₂, s₁.db = s.db ∧
    (x.refreshAndDispatch faults).Executes cycleSemantics (.start s₁) l₁ (.ok outcome) t₂ l₂ ∧
    db = t₂.working.db

variable (x faults s) in
/-- The tables have one more run, of which all that the row says is true; no job is lost, and the
work of the refresh phase is there as a whole or not at all. -/
def Recorded (c : CycleDb) : Prop :=
  ∃ run, c.runs.rows = s.runs.rows ++ [run] ∧ run.Holds x faults s c.db ∧
    c.db.HasJobs s.db.jobs.rows ∧
    (run.schedulerStatus = some .failure → c.db = s.db) ∧
    (run.schedulerStatus = none → c.db = s.db ∨ Refreshed x faults s c.db)

/-- A refresh phase takes no job back. -/
theorem Refreshed.hasJobs {db : Db} (h : Refreshed x faults s db) : db.HasJobs s.db.jobs.rows := by
  obtain ⟨s₁, l₁, outcome, t₂, l₂, hdb, hphase, rfl⟩ := h
  have hjobs : t₂.working.db.HasJobs s₁.db.jobs.rows := by
    refine phase_keeps (P := fun _ => True) (I := fun t => t.working.db.HasJobs s₁.db.jobs.rows)
      (Prog.only_true _) (fun c e t l _ hI => ?_) hphase (.refl s₁.db)
    simp only [cycleExec]
    split <;> exact hI.exec c e l
  exact hdb ▸ hjobs

/-- Nothing is recorded yet. -/
theorem recorded_new {c : CycleDb} {id : ℕ}
    (hruns : c.runs.rows = s.runs.rows ++ [newRun x.refresh.now id])
    (hdb : c.db = s.db ∨ Refreshed x faults s c.db) : Recorded x faults s c := by
  refine ⟨_, hruns, ⟨⟨rfl, fun h => ?_, fun h => ?_, ?_⟩, rfl, fun h => ?_, fun h => ?_⟩, ?_,
    fun h => ?_, fun _ => hdb⟩
  · exact absurd h (by simp [newRun])
  · exact absurd rfl h
  · simp [newRun]
  · exact absurd h (by simp [newRun])
  · exact absurd h (by simp [newRun])
  · rcases hdb with hdb | hdb
    · rw [hdb]
      exact .refl s.db
    · exact hdb.hasJobs
  · exact absurd h (by simp [newRun])

/-- The refresh phase is recorded as a failure. -/
theorem recorded_failed {c : CycleDb} {run : SchedulerRun}
    (hruns : c.runs.rows = s.runs.rows ++ [run]) (hdb : c.db = s.db)
    (hstatus : run.schedulerStatus = some .failure) (hcoherent : run.Coherent)
    (hstarted : run.startedAt = x.refresh.now) : Recorded x faults s c := by
  refine ⟨run, hruns, ⟨hcoherent, hstarted, fun h => ?_, fun h => ?_⟩, ?_, fun _ => hdb,
    fun h => ?_⟩
  · exact absurd (hstatus.symm.trans h) (by simp)
  · exact absurd (hstatus.symm.trans (hcoherent.follows h)) (by simp)
  · rw [hdb]
    exact .refl s.db
  · exact absurd (hstatus.symm.trans h) (by simp)

/-- The refresh phase is recorded as a success, and its jobs are still there. -/
theorem recorded_refreshed {c : CycleDb} {run : SchedulerRun} {db : Db}
    (hruns : c.runs.rows = s.runs.rows ++ [run]) (hrefreshed : Refreshed x faults s db)
    (hjobs : c.db.HasJobs db.jobs.rows) (hstatus : run.schedulerStatus = some .success)
    (hcoherent : run.Coherent) (hstarted : run.startedAt = x.refresh.now)
    (hprocessed : run.workerStatus = some .success → ∃ s₁ l₁ outcome t₂ l₂,
      (x.claimAndProcess faults).Executes cycleSemantics (.start s₁) l₁ (.ok outcome) t₂ l₂ ∧
      c.db.HasJobs t₂.working.db.jobs.rows) : Recorded x faults s c := by
  have hold := hrefreshed.hasJobs.trans hjobs
  obtain ⟨s₁, l₁, outcome, t₂, l₂, hdb, hphase, rfl⟩ := hrefreshed
  refine ⟨run, hruns, ⟨hcoherent, hstarted, fun _ => ?_, hprocessed⟩, hold, fun h => ?_,
    fun h => ?_⟩
  · exact ⟨s₁, l₁, outcome, t₂, l₂, hdb, hphase, hjobs⟩
  · exact absurd (hstatus.symm.trans h) (by simp)
  · exact absurd (hstatus.symm.trans h) (by simp)

/-- The part of the cycle after the refresh phase, wherever it is stopped. -/
theorem process_stopped {id : ℕ} {refresh : RefreshOutcome} {t₁ : Transaction} {l₁ : Session}
    (hphase : (x.refreshAndDispatch faults).Executes cycleSemantics (.start s') l (.ok refresh) t₁
      l₁)
    (hdb : s'.db = s.db) (hruns : s'.runs.rows = s.runs.rows ++ [newRun x.refresh.now id])
    (h : (x.process faults id refresh).Stops cycleSemantics t₁ l₁ t' l') :
    Recorded x faults s t'.committed := by
  obtain ⟨hcommitted, hworking⟩ := refresh_uncommitted hphase
  have hrefreshed : Refreshed x faults s t₁.working.db :=
    ⟨s', l, refresh, t₁, l₁, hdb, hphase, rfl⟩
  rw [Cycle.process] at h
  rcases commitSession_stops h with hend | h
  · rw [hend, hcommitted]
    exact recorded_new hruns (Or.inl hdb)
  rw [SchedulerRunRecorder.recordSchedulerResult, bind_assoc] at h
  rcases record_stops h with hend | ⟨at₁, h⟩
  · rw [hend]
    exact recorded_new (c := t₁.working) (by rw [hworking]; exact hruns) (Or.inr hrefreshed)
  let s₂ := t₁.working.record id (.scheduler .success none) at₁
  let run : SchedulerRun := (RunResult.scheduler .success none).record at₁ (newRun x.refresh.now id)
  have hnew : t₁.working.runs.rows = s.runs.rows ++ [newRun x.refresh.now id] := by
    rw [hworking]
    exact hruns
  have hrun : s₂.runs.rows = s.runs.rows ++ [run] := CycleDb.record_runs hnew _ at₁
  -- While the processing phase is on its way, the row records the refresh alone.
  have hrunning : ∀ c : CycleDb, c.Has s₂.db.jobs.rows s₂.runs → Recorded x faults s c := by
    rintro c ⟨hjobs, hsame⟩
    have hrow : c.runs.rows = s.runs.rows ++ [run] := by rw [hsame, hrun]
    refine recorded_refreshed hrow hrefreshed hjobs rfl
      ⟨rfl, fun h => ?_, fun h => ?_, ?_⟩ rfl fun h => ?_
    · exact absurd h (by simp [run, RunResult.record, newRun])
    · exact absurd rfl h
    · simp [run, RunResult.record, newRun]
    · exact absurd h (by simp [run, RunResult.record, newRun])
  change Script.Stops cycleSemantics _ (.start s₂) l₁ t' l' at h
  rcases Script.stops_attempt_bind.mp h with h | ⟨r, t₂, l₂, hprocess, h⟩
  · exact hrunning _ (process_stops h)
  obtain ⟨hkept, hkept'⟩ := process_durable hprocess
  rcases r with e | processed
  · rcases Script.stops_op_bind.mp h with ⟨rfl, -⟩ | ⟨_, h⟩
    · exact hrunning _ hkept
    rcases record_stops h with hend | ⟨at₂, h⟩
    · rw [hend]
      exact hrunning _ hkept
    obtain ⟨rfl, -⟩ := Script.stops_throw.mp h
    have hrun' := t₂.committed.record_runs (by rw [hkept.2]; exact hrun)
      (.worker .failure (some e.adapterErrorCode)) at₂
    refine recorded_refreshed hrun' hrefreshed hkept.1 rfl ⟨rfl, fun h => ?_, fun _ => ?_, ?_⟩ rfl
      fun h => ?_
    · exact absurd h (by simp [RunResult.record])
    · simp [run, RunResult.record]
    · simp [RunResult.record]
    · exact absurd h (by simp [RunResult.record])
  · rcases commitSession_stops h with hend | h
    · rw [hend]
      exact hrunning _ hkept
    rcases record_stops h with hend | ⟨at₂, h⟩
    · rw [hend]
      exact hrunning _ hkept'
    obtain ⟨rfl, -⟩ := Script.stops_pure.mp h
    have hrun' := t₂.working.record_runs (by rw [hkept'.2]; exact hrun) (.worker .success none) at₂
    refine recorded_refreshed hrun' hrefreshed hkept'.1 rfl ⟨rfl, fun _ => ?_, fun _ => ?_, ?_⟩ rfl
      fun _ => ⟨s₂, l₁, processed, t₂, l₂, hprocess, .refl _⟩
    · simp [run, RunResult.record]
    · simp [run, RunResult.record]
    · simp [run, RunResult.record, newRun]

/-- Wherever a cycle is stopped, it has left nothing, or one run. -/
theorem Cycle.program_stopped (h : (x.program faults).Stops cycleSemantics (.start s) l t' l') :
    t'.committed = s ∨ Recorded x faults s t'.committed := by
  rw [Cycle.program] at h
  rcases start_stops h with hnothing | ⟨id, s₁, hdb, hruns, h⟩
  · exact Or.inl hnothing
  refine Or.inr ?_
  rcases Script.stops_attempt_bind.mp h with h | ⟨r, t₁, l₁, hphase, h⟩
  · rw [refresh_stops h]
    exact recorded_new hruns (Or.inl hdb)
  rcases r with e | refresh
  · obtain ⟨hcommitted, -⟩ := refresh_uncommitted hphase
    have hcommitted : t₁.committed = s₁ := hcommitted
    rcases Script.stops_op_bind.mp h with ⟨rfl, -⟩ | ⟨_, h⟩
    · rw [hcommitted]
      exact recorded_new hruns (Or.inl hdb)
    rw [SchedulerRunRecorder.recordSchedulerResult, bind_assoc] at h
    rcases record_stops h with hend | ⟨at₁, h⟩
    · rw [hend]
      exact recorded_new (c := t₁.committed) (by rw [hcommitted]; exact hruns)
        (Or.inl (by rw [hcommitted, hdb]))
    have hrun := t₁.committed.record_runs (by rw [hcommitted]; exact hruns)
      (.scheduler .failure (some e.adapterErrorCode)) at₁
    have hdb' : t₁.committed.db = s.db := by rw [hcommitted, hdb]
    rcases record_stops h with hend | ⟨at₂, h⟩
    · rw [hend]
      refine recorded_failed hrun hdb' rfl ⟨rfl, fun h => ?_, fun h => ?_, ?_⟩ rfl
      · exact absurd h (by simp [RunResult.record, newRun])
      · exact absurd rfl h
      · simp [RunResult.record]
    · obtain ⟨rfl, -⟩ := Script.stops_throw.mp h
      refine recorded_failed (CycleDb.record_runs hrun (.worker .failure none) at₂) hdb' rfl
        ⟨rfl, fun h => ?_, fun _ => ?_, ?_⟩ rfl
      · exact absurd h (by simp [RunResult.record])
      · simp [RunResult.record]
      · simp [RunResult.record]
  · exact process_stopped hphase hdb hruns h

/-- What an invocation of the entry point can leave committed, wherever its process is stopped. -/
def Invocation (s s' : CycleDb) : Prop :=
  ∃ (x : Cycle) (faults : CycleFaults) (t' : Transaction) (l' : Session),
    (x.program faults).Stops cycleSemantics (.start s) Session.new t' l' ∧ s' = t'.committed

end Cycles

/-! ### Crashes on concrete tables -/

/-- A cycle that has only one listing to refresh. -/
def crashingCycle : Cycle := ⟨dailyRefresh 0, 50, "scheduler"⟩

def emptyTables : CycleDb := ⟨⟨Table.empty, Table.empty, Table.empty⟩, Table.empty⟩

/-- What is committed when the cycle is killed after some of its commands. -/
def killedAfter (commands : ℕ) (s : CycleDb) : CycleDb :=
  ((crashingCycle.program ⟨none, none⟩).run.cut cycleSemantics (List.replicate commands default)
    (.start s) Session.new).1.committed

end MarketRelay
