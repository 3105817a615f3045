import Mathlib.Data.Rat.Defs
import MarketRelay.SchedulerCycle

/-!
# Operational Metrics

`collect_scheduler_metrics`: aggregate counts and ages of the queue, the quota that each source
reports, and how many executions of either phase have succeeded. A quota adapter that is missing
or fails leaves its counters empty, with a code in their place, and does not stop the rest.

## Main results

* `collectSchedulerMetrics_snapshot`: the snapshot is always produced, with one entry for each
  source, and nothing is changed.
-/

open Relational Interaction Gregorian

namespace MarketRelay

/-- Quota state of a single source. -/
structure SourceQuotaSnapshot where
  source : String
  remaining : Option ℤ
  limit : Option ℤ
  exhausted : Bool
  error : Option String
deriving DecidableEq, Repr

/-- Snapshot of the queue, the sources and the recorded runs. -/
structure SchedulerMetricsSnapshot where
  pendingJobs : ℕ
  pendingJobsBySource : List (String × ℕ)
  oldestPendingSeconds : Option ℚ
  doneJobs : ℕ
  failedJobsBySource : List (String × ℕ)
  quotaBySource : List SourceQuotaSnapshot
  stalledSources : List String
  schedulerSuccessCount : ℕ
  workerSuccessCount : ℕ
deriving DecidableEq, Repr

/-- `timedelta.total_seconds()` -/
def totalSeconds (span : Instant) : ℚ := span / 1000000

/-- `get_quota_port(source).check(source)` -/
def checkSource (source : String) : App QuotaStatus := do
  orRaise (← issue (.getQuotaPort source))
  orRaise (← issue (.checkQuota source))

/-- The quota of one source, or the code of the failure to read it. -/
def sourceQuota (source : String) : CycleApp SourceQuotaSnapshot := do
  match ← Script.attempt (phase (checkSource source)) with
  | .error e => return ⟨source, none, none, false, some e.adapterErrorCode⟩
  | .ok status =>
    return ⟨source, some status.remaining, some status.limit, status.exhausted, none⟩

/-- The loop over the sources. -/
def quotaSnapshots : List String → CycleApp (List SourceQuotaSnapshot)
  | [] => return []
  | source :: rest => do
    let snapshot ← sourceQuota source
    let snapshots ← quotaSnapshots rest
    return snapshot :: snapshots

/-- `collect_scheduler_metrics` -/
def collectSchedulerMetrics (now : Instant) (stalledThresholdSeconds : ℤ)
    (sources : List String) : CycleApp SchedulerMetricsSnapshot := do
  let pendingBySource ← perform .pendingBySource
  let oldest ← perform .oldestPendingBySource
  let ageBySource := oldest.map fun entry => (entry.1, totalSeconds (now - entry.2))
  let quotaBySource ← quotaSnapshots sources
  let doneJobs ← perform .doneCount
  let failedBySource ← perform .failedBySource
  let schedulerSuccessCount ← perform (.countRuns .scheduler)
  let workerSuccessCount ← perform (.countRuns .worker)
  return {
    pendingJobs := (pendingBySource.map Prod.snd).sum
    pendingJobsBySource := pendingBySource
    oldestPendingSeconds := (ageBySource.map Prod.snd).max?
    doneJobs := doneJobs
    failedJobsBySource := failedBySource
    quotaBySource := quotaBySource
    stalledSources := ((ageBySource.filter fun entry =>
      decide ((stalledThresholdSeconds : ℚ) < entry.2)).map Prod.fst).insertionSort (· ≤ ·)
    schedulerSuccessCount := schedulerSuccessCount
    workerSuccessCount := workerSuccessCount }

/-! ### The snapshot, run alone -/

section Executes

variable {t t' : Transaction} {l l' : Session}

theorem checkSource_only (source : String) : (checkSource source).run.Only Cmd.IsPort := by
  refine ⟨trivial, fun port => ?_⟩
  cases port with
  | error e => trivial
  | ok u =>
      refine ⟨trivial, fun status => ?_⟩
      cases status <;> trivial

/-- Reading a quota changes nothing, and always gives an entry. -/
theorem sourceQuota_executes {source : String} {r : Except PyError SourceQuotaSnapshot}
    (h : (sourceQuota source).Executes cycleSemantics t l r t' l') :
    t' = t ∧ ∃ snapshot, r = .ok snapshot ∧ snapshot.source = source := by
  obtain ⟨r₁, t₁, l₁, hphase, h⟩ := Script.executes_attempt_bind.mp h
  have ht : t₁ = t := by
    change (phase (Script.interrupt none (checkSource source))).Executes cycleSemantics t l r₁ t₁
      l₁ at hphase
    refine phase_keeps (I := fun t₁ => t₁ = t) (checkSource_only source) ?_ hphase rfl
    rintro c e t₁ l₁ hc rfl
    cases c <;> first | rfl | exact hc.elim
  rcases r₁ with e | status <;>
  · obtain ⟨rfl, rfl, -⟩ := Script.executes_pure.mp h
    exact ⟨ht, _, rfl, rfl⟩

theorem quotaSnapshots_executes {sources : List String}
    {r : Except PyError (List SourceQuotaSnapshot)}
    (h : (quotaSnapshots sources).Executes cycleSemantics t l r t' l') :
    t' = t ∧ ∃ snapshots, r = .ok snapshots ∧
      snapshots.map SourceQuotaSnapshot.source = sources := by
  induction sources generalizing t t' l l' r with
  | nil =>
      obtain ⟨rfl, rfl, -⟩ := Script.executes_pure.mp h
      exact ⟨rfl, [], rfl, rfl⟩
  | cons source rest ih =>
      rw [quotaSnapshots] at h
      obtain ⟨snapshot, t₁, l₁, hfirst, h₁⟩ := Script.executes_bind_of_returns
        (fun e t₁ l₁ hfail => by
          obtain ⟨-, _, hr, -⟩ := sourceQuota_executes hfail
          exact absurd hr (by simp)) h
      obtain ⟨snapshots, t₂, l₂, hrest, h₂⟩ := Script.executes_bind_of_returns
        (fun e t₂ l₂ hfail => by
          obtain ⟨-, _, hr, -⟩ := ih hfail
          exact absurd hr (by simp)) h₁
      obtain ⟨ht₁, snapshot', hr, hsource⟩ := sourceQuota_executes hfirst
      obtain rfl := Except.ok.inj hr
      obtain ⟨ht₂, snapshots', hr, hsources⟩ := ih hrest
      obtain rfl := Except.ok.inj hr
      obtain ⟨rfl, rfl, -⟩ := Script.executes_pure.mp h₂
      exact ⟨ht₂.trans ht₁, _, rfl, by rw [List.map_cons, hsource, hsources]⟩

/-- The snapshot of the tables, given the quota of each source. -/
def CycleDb.metrics (now : Instant) (stalledThresholdSeconds : ℤ)
    (quotaBySource : List SourceQuotaSnapshot) (s : CycleDb) : SchedulerMetricsSnapshot :=
  let pendingBySource := countBySource (fun s => decide (s = .pending ∨ s = .claimed)) s.db.jobs
  let ageBySource := (oldestPendingBySource s.db.jobs).map fun entry =>
    (entry.1, totalSeconds (now - entry.2))
  { pendingJobs := (pendingBySource.map Prod.snd).sum
    pendingJobsBySource := pendingBySource
    oldestPendingSeconds := (ageBySource.map Prod.snd).max?
    doneJobs := s.db.jobs.count fun j => decide (j.status = .done)
    failedJobsBySource := countBySource (fun s => decide (s = .failed)) s.db.jobs
    quotaBySource := quotaBySource
    stalledSources := ((ageBySource.filter fun entry =>
      decide ((stalledThresholdSeconds : ℚ) < entry.2)).map Prod.fst).insertionSort (· ≤ ·)
    schedulerSuccessCount := s.runs.count fun run =>
      decide (run.statusOf .scheduler = some .success)
    workerSuccessCount := s.runs.count fun run =>
      decide (run.statusOf .worker = some .success) }

/-- **The snapshot is always produced**, whatever the quota adapters do: it is that of the tables,
with one entry for each source. Nothing is changed. -/
theorem collectSchedulerMetrics_snapshot {now : Instant} {threshold : ℤ} {sources : List String}
    {r : Except PyError SchedulerMetricsSnapshot}
    (h : (collectSchedulerMetrics now threshold sources).Executes cycleSemantics t l r t' l') :
    t' = t ∧ ∃ quota : List SourceQuotaSnapshot, quota.map SourceQuotaSnapshot.source = sources ∧
      r = .ok (t.working.metrics now threshold quota) := by
  rw [collectSchedulerMetrics] at h
  obtain ⟨_, h⟩ := Script.executes_op_bind.mp h
  obtain ⟨_, h⟩ := Script.executes_op_bind.mp h
  obtain ⟨quota, t₁, l₁, hquota, h⟩ := Script.executes_bind_of_returns (fun e t₁ l₁ hfail => by
    obtain ⟨-, _, hr, -⟩ := quotaSnapshots_executes hfail
    exact absurd hr (by simp)) h
  obtain ⟨ht, quota', hr, hsources⟩ := quotaSnapshots_executes hquota
  obtain rfl := Except.ok.inj hr
  obtain rfl : t₁ = t := ht
  obtain ⟨_, h⟩ := Script.executes_op_bind.mp h
  obtain ⟨_, h⟩ := Script.executes_op_bind.mp h
  obtain ⟨_, h⟩ := Script.executes_op_bind.mp h
  obtain ⟨_, h⟩ := Script.executes_op_bind.mp h
  obtain ⟨rfl, rfl, -⟩ := Script.executes_pure.mp h
  exact ⟨rfl, quota, hsources, rfl⟩

/-- It never fails, and changes nothing. -/
theorem collectSchedulerMetrics_executes {now : Instant} {threshold : ℤ} {sources : List String}
    {r : Except PyError SchedulerMetricsSnapshot}
    (h : (collectSchedulerMetrics now threshold sources).Executes cycleSemantics t l r t' l') :
    t' = t ∧ ∃ snapshot, r = .ok snapshot ∧
      snapshot.quotaBySource.map SourceQuotaSnapshot.source = sources := by
  obtain ⟨ht, quota, hsources, rfl⟩ := collectSchedulerMetrics_snapshot h
  exact ⟨ht, _, rfl, hsources⟩

end Executes

end MarketRelay
