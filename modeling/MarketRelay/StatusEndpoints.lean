import Mathlib.Algebra.BigOperators.Group.List.Lemmas
import Mathlib.Algebra.Order.Floor.Ring
import Mathlib.Data.Finset.Max
import Mathlib.Data.Rat.Floor
import MarketRelay.Metrics

/-!
# The Two Status Endpoints

`/status/operations` reports on the whole queue what `/status/metrics` reports for each source. The
depth and the age of the oldest pending job agree for every job table. The stalled flags do not: the
metrics compare the exact age of a job with the threshold, and the operational status the age in
whole seconds, cut off. A job that has passed the threshold by less than a second stalls its source,
and not the service.

## Main results

* `JobQueue.oldestPendingAgeSeconds_eq_some_iff`: what the oldest age is.
* `operationalStatus_stalled_iff`, `CycleDb.exists_stalled_iff`: when either endpoint reports a stall.
* `status_endpoints_agree_iff`: exactly when the endpoints agree.
* `status_endpoints_disagree`: a job that is half a second over the threshold.
-/

open Relational Interaction Gregorian

namespace MarketRelay

/-! ### The operational status -/

namespace JobQueue

/-- The number of pending and claimed jobs, of all sources or of one. -/
def depth (source : Option String) (t : JobTable) : ℕ :=
  (t.rows.filter fun j => decide (j.status = .pending ∨ j.status = .claimed) &&
    source.all fun s => decide (j.source = s)).length

/-- `ORDER BY created_at LIMIT 1` over the pending jobs. -/
def oldestPendingAgeSeconds (now : Instant) (t : JobTable) : Option ℚ :=
  let created := (t.rows.filter fun j => decide (j.status = .pending)).map Job.createdAt
  (created.insertionSort (· ≤ ·)).head?.map fun oldest => totalSeconds (now - oldest)

end JobQueue

/-- The response of `/status/operations`. -/
structure OperationalStatus where
  environment : String
  pendingJobs : ℕ
  oldestPendingSeconds : Option ℤ
  stalled : Bool
deriving DecidableEq, Repr

/-- `int(...)` of a number of seconds: the fraction is cut off. -/
def truncate (x : ℚ) : ℤ := if 0 ≤ x then ⌊x⌋ else ⌈x⌉

/-- `operational_status` -/
def operationalStatus (environment : String) (stalledJobThresholdSeconds : ℤ) (now : Instant)
    (t : JobTable) : OperationalStatus :=
  let oldestPendingSeconds := (JobQueue.oldestPendingAgeSeconds now t).map fun age =>
    max (truncate age) 0
  { environment := environment
    pendingJobs := JobQueue.depth none t
    oldestPendingSeconds := oldestPendingSeconds
    stalled := oldestPendingSeconds.any fun age => decide (stalledJobThresholdSeconds < age) }

/-! ### The oldest pending job -/

/-- The job is pending, and no pending job is older. -/
structure Job.OldestPending (t : JobTable) (j : Job) : Prop where
  row : j ∈ t.rows
  pending : j.status = .pending
  oldest : ∀ j' ∈ t.rows, j'.status = .pending → j.createdAt ≤ j'.createdAt

section

variable {t : JobTable} {now : Instant}

/-- All oldest pending jobs are of the same age. -/
theorem Job.OldestPending.createdAt_eq {j j' : Job} (h : j.OldestPending t)
    (h' : j'.OldestPending t) : j.createdAt = j'.createdAt :=
  (h.oldest j' h'.row h'.pending).antisymm (h'.oldest j h.row h.pending)

/-- **The oldest age** is that of an oldest pending job. -/
theorem JobQueue.oldestPendingAgeSeconds_eq_some_iff {age : ℚ} :
    oldestPendingAgeSeconds now t = some age ↔
      ∃ j : Job, j.OldestPending t ∧ totalSeconds (now - j.createdAt) = age := by
  have hmem : ∀ c, c ∈ (((t.rows.filter fun j => decide (j.status = .pending)).map
      Job.createdAt).insertionSort (· ≤ ·)) ↔ ∃ j ∈ t.rows, j.status = .pending ∧ j.createdAt = c := by
    intro c
    simp only [List.mem_insertionSort, List.mem_map, List.mem_filter, decide_eq_true_eq, and_assoc]
  have hsorted := List.pairwise_insertionSort (· ≤ ·)
    ((t.rows.filter fun j => decide (j.status = .pending)).map Job.createdAt)
  simp only [oldestPendingAgeSeconds]
  generalize ((t.rows.filter fun j => decide (j.status = .pending)).map Job.createdAt).insertionSort
    (· ≤ ·) = created at hmem hsorted ⊢
  rw [Option.map_eq_some_iff]
  cases created with
  | nil =>
      simp only [List.head?_nil, reduceCtorEq, false_and, exists_false, false_iff]
      rintro ⟨j, hj, -⟩
      exact absurd ((hmem j.createdAt).mpr ⟨j, hj.row, hj.pending, rfl⟩) List.not_mem_nil
  | cons first rest =>
      obtain ⟨j, hj, hpending, hcreated⟩ := (hmem first).mp List.mem_cons_self
      have holdest : j.OldestPending t := ⟨hj, hpending, fun j' hj' hpending' => by
        rw [hcreated]
        rcases List.mem_cons.mp ((hmem j'.createdAt).mpr ⟨j', hj', hpending', rfl⟩) with heq | hrest
        · exact heq.ge
        · exact List.rel_of_pairwise_cons hsorted hrest⟩
      simp only [List.head?_cons, Option.some.injEq, exists_eq_left']
      constructor
      · rintro rfl
        exact ⟨j, holdest, by rw [hcreated]⟩
      · rintro ⟨j', hj', rfl⟩
        rw [← hcreated, holdest.createdAt_eq hj']

/-- Where there is a pending job, there is an oldest one. -/
theorem exists_oldestPending {j : Job} (hj : j ∈ t.rows) (hpending : j.status = .pending) :
    ∃ j₀ : Job, j₀.OldestPending t := by
  have hmem : ∀ j : Job, j ∈ (t.rows.filter fun j => decide (j.status = .pending)).toFinset ↔
      j ∈ t.rows ∧ j.status = .pending := fun j => by
    rw [List.mem_toFinset, List.mem_filter, decide_eq_true_eq]
  obtain ⟨j₀, hj₀, hle⟩ := Finset.exists_min_image _ Job.createdAt ⟨j, (hmem j).mpr ⟨hj, hpending⟩⟩
  obtain ⟨hrow, hpending₀⟩ := (hmem j₀).mp hj₀
  exact ⟨j₀, hrow, hpending₀, fun j' hj' hpending' => hle j' ((hmem j').mpr ⟨hj', hpending'⟩)⟩

/-- The entries of a source are its oldest pending job. -/
theorem mem_oldestPendingBySource {entry : String × Instant}
    (h : entry ∈ oldestPendingBySource t) :
    (∃ j ∈ t.rows, j.status = .pending ∧ j.source = entry.1 ∧ j.createdAt = entry.2) ∧
      ∀ j ∈ t.rows, j.status = .pending → j.source = entry.1 → entry.2 ≤ j.createdAt := by
  obtain ⟨⟨source, best⟩, hbest, rfl⟩ := List.mem_map.mp h
  obtain ⟨hrow, hsource⟩ := mem_groupBest hbest
  rw [List.mem_filter, decide_eq_true_eq] at hrow
  refine ⟨⟨best, hrow.1, hrow.2, hsource.symm, rfl⟩, fun j hj hpending hof => ?_⟩
  exact le_of_mem_groupBest (f := fun j : Job => OrderDual.toDual j.createdAt)
    (fun _ _ => decide_eq_true_iff) hbest
    (List.mem_filter.mpr ⟨hj, by rw [hpending, decide_eq_true_eq]⟩) hof

/-- Every source with a pending job has an entry. -/
theorem exists_mem_oldestPendingBySource {j : Job} (hj : j ∈ t.rows) (hpending : j.status = .pending) :
    ∃ entry ∈ oldestPendingBySource t, entry.1 = j.source := by
  have hrow : j ∈ t.rows.filter fun j => decide (j.status = .pending) :=
    List.mem_filter.mpr ⟨hj, by rw [hpending, decide_eq_true_eq]⟩
  obtain ⟨best, hbest⟩ := (exists_groupBest_iff Job.source
    fun j best => decide (j.createdAt < best.createdAt)).mpr ⟨j, hrow, rfl⟩
  exact ⟨_, List.mem_map_of_mem hbest, rfl⟩

/-- An oldest pending job is the entry of its source, and no entry is older. -/
theorem oldestPendingBySource_of_oldest {j : Job} (h : j.OldestPending t) :
    (∃ entry ∈ oldestPendingBySource t, entry.2 = j.createdAt) ∧
      ∀ entry ∈ oldestPendingBySource t, j.createdAt ≤ entry.2 := by
  have hle : ∀ entry ∈ oldestPendingBySource t, j.createdAt ≤ entry.2 := by
    intro entry hentry
    obtain ⟨⟨j', hj', hpending', -, hcreated⟩, -⟩ := mem_oldestPendingBySource hentry
    exact hcreated ▸ h.oldest j' hj' hpending'
  obtain ⟨entry, hentry, hsource⟩ := exists_mem_oldestPendingBySource h.row h.pending
  exact ⟨⟨entry, hentry, ((mem_oldestPendingBySource hentry).2 j h.row h.pending
    hsource.symm).antisymm (hle entry hentry)⟩, hle⟩

end

/-! ### The figures of both -/

theorem totalSeconds_le_iff {a b : Instant} : totalSeconds a ≤ totalSeconds b ↔ a ≤ b := by
  rw [totalSeconds, totalSeconds, div_le_div_iff_of_pos_right (by norm_num), Int.cast_le]

/-- An age exceeds a whole number of seconds, or reaches it, to the microsecond. -/
theorem lt_totalSeconds_iff {n : ℤ} {span : Instant} :
    (n : ℚ) < totalSeconds span ↔ seconds n < span := by
  rw [totalSeconds, lt_div_iff₀ (by norm_num), seconds]
  exact_mod_cast Iff.rfl

theorem le_totalSeconds_iff {n : ℤ} {span : Instant} :
    (n : ℚ) ≤ totalSeconds span ↔ seconds n ≤ span := by
  rw [totalSeconds, le_div_iff₀ (by norm_num), seconds]
  exact_mod_cast Iff.rfl

section

variable {s : CycleDb} {now : Instant} {threshold : ℤ} {quota : List SourceQuotaSnapshot}

/-- **The depths agree.** -/
theorem CycleDb.metrics_pendingJobs :
    (s.metrics now threshold quota).pendingJobs = JobQueue.depth none s.db.jobs := by
  have hsum := List.sum_map_count_dedup_eq_length ((s.db.jobs.rows.filter fun j =>
    decide (j.status = .pending ∨ j.status = .claimed)).map Job.source)
  simp only [metrics, countBySource, List.map_map, JobQueue.depth, Option.all_none, Bool.and_true]
  rw [List.length_map] at hsum
  exact hsum

/-- **The ages agree.** -/
theorem CycleDb.metrics_oldestPendingSeconds :
    (s.metrics now threshold quota).oldestPendingSeconds =
      JobQueue.oldestPendingAgeSeconds now s.db.jobs := by
  ext age
  rw [JobQueue.oldestPendingAgeSeconds_eq_some_iff]
  simp only [metrics, List.map_map, List.max?_eq_some_iff, List.mem_map, Function.comp_apply,
    forall_exists_index, and_imp, forall_apply_eq_imp_iff₂]
  constructor
  · rintro ⟨⟨entry, hentry, rfl⟩, hmax⟩
    obtain ⟨⟨j, hj, hpending, -, hcreated⟩, -⟩ := mem_oldestPendingBySource hentry
    refine ⟨j, ⟨hj, hpending, fun j' hj' hpending' => ?_⟩, by rw [hcreated]⟩
    obtain ⟨entry', hentry', hsource'⟩ := exists_mem_oldestPendingBySource hj' hpending'
    have hle := totalSeconds_le_iff.mp (hmax entry' hentry')
    have hbest := (mem_oldestPendingBySource hentry').2 j' hj' hpending' hsource'.symm
    rw [hcreated]
    linarith
  · rintro ⟨j, hoj, rfl⟩
    obtain ⟨⟨entry, hentry, heq⟩, hle⟩ := oldestPendingBySource_of_oldest hoj
    refine ⟨⟨entry, hentry, by rw [heq]⟩, fun entry' hentry' => totalSeconds_le_iff.mpr ?_⟩
    have := hle entry' hentry'
    linarith

/-- **A source is stalled** when the oldest pending job has passed the threshold. -/
theorem CycleDb.exists_stalled_iff :
    (s.metrics now threshold quota).stalledSources ≠ [] ↔
      ∃ j : Job, j.OldestPending s.db.jobs ∧ seconds threshold < now - j.createdAt := by
  have hmem : (s.metrics now threshold quota).stalledSources ≠ [] ↔
      ∃ entry ∈ oldestPendingBySource s.db.jobs, seconds threshold < now - entry.2 := by
    have hsource : ∀ source, source ∈ (s.metrics now threshold quota).stalledSources ↔
        ∃ entry ∈ oldestPendingBySource s.db.jobs,
          (threshold : ℚ) < totalSeconds (now - entry.2) ∧ entry.1 = source := by
      intro source
      simp only [metrics, List.mem_insertionSort, List.mem_map, List.mem_filter, decide_eq_true_eq]
      constructor
      · rintro ⟨-, ⟨⟨entry, hentry, rfl⟩, hlate⟩, hsource⟩
        exact ⟨entry, hentry, hlate, hsource⟩
      · rintro ⟨entry, hentry, hlate, hsource⟩
        exact ⟨_, ⟨⟨entry, hentry, rfl⟩, hlate⟩, hsource⟩
    constructor
    · intro hne
      obtain ⟨source, hstalled⟩ := List.exists_mem_of_ne_nil _ hne
      obtain ⟨entry, hentry, hlate, -⟩ := (hsource source).mp hstalled
      exact ⟨entry, hentry, lt_totalSeconds_iff.mp hlate⟩
    · rintro ⟨entry, hentry, hlate⟩
      exact List.ne_nil_of_mem ((hsource entry.1).mpr
        ⟨entry, hentry, lt_totalSeconds_iff.mpr hlate, rfl⟩)
  rw [hmem]
  constructor
  · rintro ⟨entry, hentry, hlate⟩
    obtain ⟨⟨j, hj, hpending, -, -⟩, -⟩ := mem_oldestPendingBySource hentry
    obtain ⟨j₀, hoj⟩ := exists_oldestPending hj hpending
    have hle := (oldestPendingBySource_of_oldest hoj).2 entry hentry
    exact ⟨j₀, hoj, by linarith⟩
  · rintro ⟨j, hoj, hlate⟩
    obtain ⟨⟨entry, hentry, heq⟩, -⟩ := oldestPendingBySource_of_oldest hoj
    exact ⟨entry, hentry, heq ▸ hlate⟩

end

/-! ### The stalled flag -/

/-- A whole number of seconds exceeds the threshold only from the next whole second on. -/
theorem lt_max_truncate_iff {threshold : ℤ} {age : ℚ} :
    threshold < max (truncate age) 0 ↔ threshold < 0 ∨ ((threshold + 1 : ℤ) : ℚ) ≤ age := by
  rw [lt_max_iff, truncate]
  split
  · rename_i hage
    rw [← Int.add_one_le_iff, Int.le_floor, or_comm]
  · rename_i hage
    have hceil : ⌈age⌉ ≤ 0 := Int.ceil_le.mpr (by exact_mod_cast (not_le.mp hage).le)
    constructor
    · rintro (hlt | hlt)
      · exact Or.inl (hlt.trans_le hceil)
      · exact Or.inl hlt
    · rintro (hlt | hle)
      · exact Or.inr hlt
      · have hneg : ((threshold + 1 : ℤ) : ℚ) < 0 := hle.trans_lt (not_le.mp hage)
        have : threshold + 1 < 0 := by exact_mod_cast hneg
        omega

/-- **The service is stalled** when the oldest pending job has passed the threshold by a whole
second. A negative threshold is always passed. -/
theorem operationalStatus_stalled_iff {environment : String} {threshold : ℤ} {now : Instant}
    {t : JobTable} :
    (operationalStatus environment threshold now t).stalled = true ↔
      ∃ j : Job, j.OldestPending t ∧
        (threshold < 0 ∨ seconds (threshold + 1) ≤ now - j.createdAt) := by
  simp only [operationalStatus, Option.any_eq_true, Option.map_eq_some_iff, decide_eq_true_eq,
    JobQueue.oldestPendingAgeSeconds_eq_some_iff]
  constructor
  · rintro ⟨_, ⟨_, ⟨j, hoj, rfl⟩, rfl⟩, hlt⟩
    exact ⟨j, hoj, (lt_max_truncate_iff.mp hlt).imp_right le_totalSeconds_iff.mp⟩
  · rintro ⟨j, hoj, h⟩
    exact ⟨_, ⟨_, ⟨j, hoj, rfl⟩, rfl⟩, lt_max_truncate_iff.mpr (h.imp_right le_totalSeconds_iff.mpr)⟩

/-! ### The agreement -/

/-- The figures of `/status/operations` are those of the metrics. -/
structure EndpointsAgree (now : Instant) (t : JobTable) (status : OperationalStatus)
    (snapshot : SchedulerMetricsSnapshot) : Prop where
  depth : JobQueue.depth none t = snapshot.pendingJobs
  bySource : JobQueue.depth none t = (snapshot.pendingJobsBySource.map Prod.snd).sum
  age : JobQueue.oldestPendingAgeSeconds now t = snapshot.oldestPendingSeconds
  stalled : status.stalled = true ↔ snapshot.stalledSources ≠ []

/-- The oldest pending job is not within the second after the threshold. Of a negative threshold:
the oldest pending job has passed it. -/
def ClearOfThreshold (threshold : ℤ) (now : Instant) (t : JobTable) : Prop :=
  ∀ j : Job, j.OldestPending t →
    if 0 ≤ threshold then
      now - j.createdAt ≤ seconds threshold ∨ seconds (threshold + 1) ≤ now - j.createdAt
    else seconds threshold < now - j.createdAt

theorem clearOfThreshold_iff {threshold : ℤ} {now : Instant} {t : JobTable} :
    ClearOfThreshold threshold now t ↔
      ((∃ j : Job, j.OldestPending t ∧
          (threshold < 0 ∨ seconds (threshold + 1) ≤ now - j.createdAt)) ↔
        ∃ j : Job, j.OldestPending t ∧ seconds threshold < now - j.createdAt) := by
  have hstep : seconds threshold < seconds (threshold + 1) := by simp only [seconds]; omega
  constructor
  · intro h
    constructor
    · rintro ⟨j, hoj, hlate⟩
      have hclear := h j hoj
      refine ⟨j, hoj, ?_⟩
      split at hclear
      · rename_i hthreshold
        exact hstep.trans_le (hlate.resolve_left (by omega))
      · exact hclear
    · rintro ⟨j, hoj, hlate⟩
      have hclear := h j hoj
      refine ⟨j, hoj, ?_⟩
      split at hclear
      · exact Or.inr (hclear.resolve_left hlate.not_ge)
      · rename_i hthreshold
        exact Or.inl (not_le.mp hthreshold)
  · intro h j hoj
    split
    · rename_i hthreshold
      rcases le_or_gt (now - j.createdAt) (seconds threshold) with hle | hlt
      · exact Or.inl hle
      · obtain ⟨j', hoj', hlate⟩ := h.mpr ⟨j, hoj, hlt⟩
        rw [← hoj.createdAt_eq hoj'] at hlate
        exact Or.inr (hlate.resolve_left (by omega))
    · rename_i hthreshold
      obtain ⟨j', hoj', hlate⟩ := h.mp ⟨j, hoj, Or.inl (not_le.mp hthreshold)⟩
      rwa [hoj.createdAt_eq hoj']

/-- **The endpoints agree exactly when** the oldest pending job is clear of the threshold: for every
job table, instant and threshold, and whatever the quota adapters do. -/
theorem status_endpoints_agree_iff (environment : String) {threshold : ℤ} {now : Instant}
    {sources : List String} {t t' : Transaction} {l l' : Session}
    {r : Except PyError SchedulerMetricsSnapshot}
    (h : (collectSchedulerMetrics now threshold sources).Executes cycleSemantics t l r t' l') :
    ∃ snapshot, r = .ok snapshot ∧
      (EndpointsAgree now t.working.db.jobs
          (operationalStatus environment threshold now t.working.db.jobs) snapshot ↔
        ClearOfThreshold threshold now t.working.db.jobs) := by
  obtain ⟨-, quota, -, rfl⟩ := collectSchedulerMetrics_snapshot h
  refine ⟨_, rfl, ?_⟩
  have hflags : ClearOfThreshold threshold now t.working.db.jobs ↔
      ((operationalStatus environment threshold now t.working.db.jobs).stalled = true ↔
        (t.working.metrics now threshold quota).stalledSources ≠ []) := by
    rw [operationalStatus_stalled_iff, CycleDb.exists_stalled_iff, clearOfThreshold_iff]
  rw [hflags]
  constructor
  · exact EndpointsAgree.stalled
  · intro hstalled
    have hdepth : (t.working.metrics now threshold quota).pendingJobs =
        JobQueue.depth none t.working.db.jobs := CycleDb.metrics_pendingJobs
    exact ⟨hdepth.symm, hdepth.symm, CycleDb.metrics_oldestPendingSeconds.symm, hstalled⟩

/-- A job that was created at the instant 0 and is still pending. -/
def pendingJob : Job := newJob ⟨"fetch_range", "fake", "BTC", some 1, none, 0, 5⟩ 1 0

def pendingStart : Transaction :=
  .start ⟨⟨⟨[pendingJob], by decide⟩, Table.empty, Table.empty⟩, Table.empty⟩

theorem pendingJob_oldestPending_iff {j : Job} :
    j.OldestPending pendingStart.working.db.jobs ↔ j = pendingJob := by
  constructor
  · exact fun h => List.mem_singleton.mp h.row
  · rintro rfl
    exact ⟨List.mem_singleton_self _, rfl, fun j' hj' _ => by rw [List.mem_singleton.mp hj']⟩

/-- At the threshold, the endpoints agree. -/
theorem status_endpoints_agree_at_threshold :
    ∃ snapshot t' l',
      (collectSchedulerMetrics (seconds 3600) 3600 ["fake"]).Executes cycleSemantics pendingStart
          Session.new (.ok snapshot) t' l' ∧
        EndpointsAgree (seconds 3600) pendingStart.working.db.jobs
          (operationalStatus "local" 3600 (seconds 3600) pendingStart.working.db.jobs) snapshot := by
  obtain ⟨r, t', l', h⟩ := Prog.exists_executes cycleSemantics
    (collectSchedulerMetrics (seconds 3600) 3600 ["fake"]).run pendingStart Session.new
  obtain ⟨snapshot, rfl, hagree⟩ := status_endpoints_agree_iff "local" h
  refine ⟨snapshot, t', l', h, hagree.mpr fun j hj => ?_⟩
  obtain rfl := pendingJob_oldestPending_iff.mp hj
  exact Or.inl (by decide)

/-- **The endpoints disagree** on a job that is half a second over the threshold: its source is
stalled, and the service is not. -/
theorem status_endpoints_disagree :
    ¬ ∀ (environment : String) (threshold : ℤ) (now : Instant) (sources : List String)
      (t t' : Transaction) (l l' : Session) (snapshot : SchedulerMetricsSnapshot),
      (collectSchedulerMetrics now threshold sources).Executes cycleSemantics t l (.ok snapshot) t' l' →
        EndpointsAgree now t.working.db.jobs
          (operationalStatus environment threshold now t.working.db.jobs) snapshot := by
  intro hall
  let now : Instant := seconds 3600 + 500000
  obtain ⟨r, t', l', h⟩ := Prog.exists_executes cycleSemantics
    (collectSchedulerMetrics now 3600 []).run pendingStart Session.new
  obtain ⟨-, quota, -, rfl⟩ := collectSchedulerMetrics_snapshot h
  have hagree := hall "local" 3600 now [] pendingStart t' Session.new l' _ h
  have hsource : (pendingStart.working.metrics now 3600 quota).stalledSources ≠ [] :=
    CycleDb.exists_stalled_iff.mpr ⟨pendingJob, pendingJob_oldestPending_iff.mpr rfl, by decide⟩
  obtain ⟨j, hj, hlate⟩ := operationalStatus_stalled_iff.mp (hagree.stalled.mpr hsource)
  obtain rfl := pendingJob_oldestPending_iff.mp hj
  revert hlate
  decide

end MarketRelay
