import MarketRelay.BatchIsolation
import MarketRelay.ClaimAlone
import MarketRelay.RoundAlone

/-!
# A Batch Run Alone

What `claim_and_process` makes of the job table when no other worker is active: it sweeps the table,
claims the oldest eligible jobs and gives each of them a round. Since the rounds concern one job each,
the call is described job by job. Its counters are then a count of the rows that it leaves.

## Main results

* `Scheduler.claimAndProcess_traces`: what a call makes of every job.
* `claim_and_process_counts`: the counters of a call are those of its jobs.
-/

open Relational Interaction Gregorian

namespace MarketRelay

/-! ### A call run alone -/

/-- A job as a call claims it. -/
def Job.claimedAs (workerId : String) (now : Instant) (j : Job) : Job :=
  (QueueOp.claim j.id workerId now).set j

@[simp] theorem Job.claimedAs_id (workerId : String) (now : Instant) (j : Job) :
    (j.claimedAs workerId now).id = j.id := rfl

theorem Job.claimedAs_heldBy (workerId : String) (now : Instant) (j : Job) :
    (j.claimedAs workerId now).HeldBy workerId (j.claimedAs workerId now).generation :=
  ⟨rfl, rfl, rfl⟩

/-- The jobs that a call claims, as the sweep has left them. -/
def JobTable.batch (now : Instant) (leaseSeconds : ℤ) (limit : ℕ) (t : JobTable) : List Job :=
  ((t.swept now leaseSeconds).eligible now none).take limit

section Batch

variable {now : Instant} {leaseSeconds : ℤ} {limit : ℕ} {workerId : String} {t : JobTable}

theorem JobTable.mem_batch {j : Job} (hj : j ∈ t.batch now leaseSeconds limit) :
    (t.swept now leaseSeconds).get? j.id = some j ∧ j.status = .pending ∧ j.nextRunAt ≤ now := by
  obtain ⟨hrow, hpending, hdue, -⟩ := JobTable.mem_eligible.mp (List.mem_of_mem_take hj)
  exact ⟨Table.get?_eq_some_iff.mpr ⟨hrow, rfl⟩, hpending, hdue⟩

theorem JobTable.nodup_batch : ((t.batch now leaseSeconds limit).map Job.id).Nodup := by
  have hnd := nodup_selectCandidates now none limit (t.swept now leaseSeconds)
  rwa [selectCandidates_eq] at hnd

theorem JobTable.pending_batch :
    (t.swept now leaseSeconds).Pending ((t.batch now leaseSeconds limit).map Job.id) := by
  intro id hid
  obtain ⟨j, hj, rfl⟩ := List.mem_map.mp hid
  obtain ⟨hrow, hpending, -⟩ := JobTable.mem_batch hj
  exact ⟨j, hrow, hpending⟩

@[simp] theorem JobTable.keys_swept : (t.swept now leaseSeconds).keys = t.keys := by
  rw [JobTable.swept, QueueOp.run, Table.keys_update, QueueOp.run, Table.keys_update]

@[simp] theorem JobTable.keys_claimAll (ids : List ℕ) :
    (t.claimAll workerId now ids).keys = t.keys := by
  induction ids generalizing t with
  | nil => rfl
  | cons id rest ih =>
      rw [JobTable.claimAll, List.foldl_cons, ← JobTable.claimAll, ih, QueueOp.run,
        Table.keys_update]

end Batch

namespace Scheduler

variable {settings : Settings} {now : Instant} {batchSize : ℕ} {workerId : String} {db db' : Db}
  {l l' : Session} {events : List (Event Cmd Cmd.Resp)} {r : Except PyError ProcessOutcome}

/-- The batch is loaded as it is claimed. -/
theorem claimNext_inStep {leaseSeconds : ℤ} {result : Except PyError (List ℕ)}
    (h : (JobQueue.claimNext workerId now none batchSize leaseSeconds).Executes semantics db l result
      db' l') {j : Job} (hj : j ∈ db.jobs.batch now leaseSeconds batchSize) :
    l'.InStep db' (j.claimedAs workerId now) := by
  obtain ⟨hresult, hdb⟩ := JobQueue.claimNext_executes h
  have hid : j.id ∈ (db.jobs.batch now leaseSeconds batchSize).map Job.id :=
    List.mem_map_of_mem hj
  have hrow : db'.jobs.get? j.id = some (j.claimedAs workerId now) := by
    rw [hdb]
    refine (JobTable.get?_claimAll JobTable.nodup_batch JobTable.pending_batch j.id).trans ?_
    rw [(JobTable.mem_batch hj).1, Option.map_some, if_pos hid]
    rfl
  have hrun := fun hstep => Prog.Meets.executes (I := ClaimingIn workerId) hstep
    (JobQueue.claimNext_claims (g := ⟨[], []⟩) rfl) h
    ⟨fun id hid => absurd hid List.not_mem_nil, fun id hid => absurd hid List.not_mem_nil⟩
  obtain ⟨g, hbatch, hclaiming⟩ := hrun fun c e db l g hc hI => hI.exec hc e
  rw [hresult] at hbatch
  obtain ⟨c, hc, hcopy⟩ := hclaiming.waits j.id (hbatch.2.symm ▸ hid)
  obtain rfl := Option.some.inj (hrow.symm.trans hc)
  exact ⟨hrow, fun copy hcached => (hcopy copy hcached).row.resolve_right fun hlost =>
    hlost ⟨rfl, rfl⟩⟩

/-- **What a call run alone makes of every job**: those of its batch have had their rounds, and the
sweep is all that has happened to the others. The call always returns. -/
theorem claimAndProcess_traces
    (hx : (claimAndProcess settings now batchSize workerId).Traces semantics db l events r db' l') :
    ∃ ends,
      r = .ok (countAll ends
        (.start (db.jobs.batch now settings.jobLeaseSeconds batchSize).length)) ∧
      List.Forall₂ (fun j last => RoundEnd now (j.claimedAs workerId now) events last.1 last.2 ∧
        db'.jobs.get? j.id = some last.2) (db.jobs.batch now settings.jobLeaseSeconds batchSize)
        ends ∧
      db'.jobs.keys = db.jobs.keys ∧
      ∀ i ∉ (db.jobs.batch now settings.jobLeaseSeconds batchSize).map Job.id,
        db'.jobs.get? i = (db.jobs.get? i).map (Job.swept now settings.jobLeaseSeconds) := by
  set first := db.jobs.batch now settings.jobLeaseSeconds batchSize with hfirst
  obtain ⟨ids, db₁, l₁, claims, rounds, rfl, hclaim, hloop⟩ := Script.traces_bind_of_returns
    (fun e s' l' he => absurd (JobQueue.claimNext_executes he).1 (by simp)) hx
  obtain ⟨hids, hdb⟩ := JobQueue.claimNext_executes hclaim.executes
  have hids' : ids = (first.map (Job.claimedAs workerId now)).map Job.id := by
    rw [Except.ok.inj hids, List.map_map]
    rfl
  have hlength : ids.length = first.length := by rw [hids', List.length_map, List.length_map]
  rw [hlength, hids'] at hloop
  have hnodup : ((first.map (Job.claimedAs workerId now)).map Job.id).Nodup := by
    rw [List.map_map]
    exact JobTable.nodup_batch
  obtain ⟨ends, rfl, hall, hkeys, hframe⟩ := processJobs_traces hnodup (fun c hc => by
    obtain ⟨j, hj, rfl⟩ := List.mem_map.mp hc
    exact ⟨claimNext_inStep hclaim.executes hj, Job.claimedAs_heldBy workerId now j, rfl⟩) hloop
  refine ⟨ends, rfl, ?_, ?_, fun i hi => ?_⟩
  · refine (List.forall₂_map_left_iff.mp hall).imp fun j last h => ?_
    exact ⟨h.1.mono (List.subset_append_right ..), h.2⟩
  · rw [hkeys, hdb, JobTable.keys_claimAll, JobTable.keys_swept]
  · rw [hframe i (by rwa [List.map_map]), hdb]
    refine (JobTable.get?_claimAll JobTable.nodup_batch JobTable.pending_batch i).trans ?_
    rw [JobTable.get?_swept]
    cases db.jobs.get? i with
    | none => rfl
    | some j => exact congrArg some (if_neg hi)

end Scheduler

/-! ### The counters -/

section Counters

variable {now : Instant} {workerId : String} {events : List (Event Cmd Cmd.Resp)}

/-- How many of some jobs a table has in a status. -/
def JobTable.countIn (t : JobTable) (jobs : List Job) (status : JobStatus) : ℕ :=
  jobs.countP fun j => (t.get? j.id).any fun row => decide (row.status = status)

theorem JobTable.countIn_cons {t : JobTable} {j row : Job} {jobs : List Job} {status : JobStatus}
    (hrow : t.get? j.id = some row) :
    t.countIn (j :: jobs) status = t.countIn jobs status + if row.status = status then 1 else 0 := by
  rw [JobTable.countIn, List.countP_cons, hrow, Option.any_some]
  simp only [decide_eq_true_eq]
  rfl

/-- What a round counts is the status in which it leaves the job. -/
theorem RoundEnd.counts {j j' : Job} {count : ProcessOutcome → ProcessOutcome}
    (h : RoundEnd now (j.claimedAs workerId now) events count j') (outcome : ProcessOutcome) :
    (count outcome).jobsClaimed = outcome.jobsClaimed ∧
      (count outcome).jobsDone = outcome.jobsDone + (if j'.status = .done then 1 else 0) ∧
      (count outcome).jobsWaiting = outcome.jobsWaiting ∧
      (count outcome).jobsFailedTerminal =
        outcome.jobsFailedTerminal + (if j'.status = .failed then 1 else 0) ∧
      (count outcome).jobsRetrying + (count outcome).jobsDeferredQuota =
        outcome.jobsRetrying + outcome.jobsDeferredQuota +
          (if j'.status = .pending then 1 else 0) ∧
      j'.status ≠ .waitingForPublication := by
  cases h with
  | done => simp [ProcessOutcome.count, Transition.values]
  | deferred => simp [Transition.quota, Transition.values]; omega
  | failed =>
      simp only [Transition.failure, Transition.values]
      split <;> simp [ProcessOutcome.count]; omega
  | abandoned hbegun =>
      rcases hbegun with rfl | rfl
      · simp [Job.claimedAs, QueueOp.set]
      · simp [Transition.values]

/-- What the loop counts. -/
theorem Scheduler.countAll_counts {t : JobTable} {jobs : List Job}
    {ends : List ((ProcessOutcome → ProcessOutcome) × Job)}
    (h : List.Forall₂ (fun j last => RoundEnd now (j.claimedAs workerId now) events last.1 last.2 ∧
      t.get? j.id = some last.2) jobs ends) (outcome : ProcessOutcome) :
    (Scheduler.countAll ends outcome).jobsClaimed = outcome.jobsClaimed ∧
      (Scheduler.countAll ends outcome).jobsDone = outcome.jobsDone + t.countIn jobs .done ∧
      (Scheduler.countAll ends outcome).jobsWaiting = outcome.jobsWaiting ∧
      (Scheduler.countAll ends outcome).jobsFailedTerminal =
        outcome.jobsFailedTerminal + t.countIn jobs .failed ∧
      (Scheduler.countAll ends outcome).jobsRetrying + (Scheduler.countAll ends outcome).jobsDeferredQuota =
        outcome.jobsRetrying + outcome.jobsDeferredQuota + t.countIn jobs .pending ∧
      t.countIn jobs .done + t.countIn jobs .failed + t.countIn jobs .pending +
        t.countIn jobs .claimed + t.countIn jobs .running = jobs.length := by
  induction h generalizing outcome with
  | nil => simp [Scheduler.countAll, JobTable.countIn]
  | @cons j last jobs ends hj _ ih =>
      obtain ⟨hend, hrow⟩ := hj
      obtain ⟨hclaimed, hdone, hwaiting, hfailed, hpending, hnot⟩ := hend.counts outcome
      obtain ⟨ihclaimed, ihdone, ihwaiting, ihfailed, ihpending, ihall⟩ := ih (last.1 outcome)
      have hcount : Scheduler.countAll (last :: ends) outcome = Scheduler.countAll ends (last.1 outcome) := rfl
      simp only [hcount, JobTable.countIn_cons hrow, List.length_cons]
      refine ⟨by omega, by omega, by omega, by omega, by omega, ?_⟩
      cases hstatus : last.2.status with
      | waitingForPublication => exact absurd hstatus hnot
      | _ => simp only [reduceCtorEq, if_true, if_false]; omega

/-- **The counters of a call are those of its jobs**: run alone, a call reports exactly how many of the
jobs that it has claimed are done, failed and pending once it is over; none of them waits. A job that
it reports nowhere has been abandoned, and is still claimed or running. -/
theorem claim_and_process_counts {settings : Settings} {batchSize : ℕ} {db db' : Db}
    {l l' : Session} {r : Except PyError ProcessOutcome}
    (hx : (Scheduler.claimAndProcess settings now batchSize workerId).Traces semantics db l events r db' l') :
    let batch := db.jobs.batch now settings.jobLeaseSeconds batchSize
    ∃ outcome, r = .ok outcome ∧ outcome.jobsClaimed = batch.length ∧
      outcome.jobsDone = db'.jobs.countIn batch .done ∧
      outcome.jobsWaiting = 0 ∧
      outcome.jobsFailedTerminal = db'.jobs.countIn batch .failed ∧
      outcome.jobsRetrying + outcome.jobsDeferredQuota = db'.jobs.countIn batch .pending ∧
      outcome.jobsClaimed = outcome.jobsDone + outcome.jobsFailedTerminal + outcome.jobsRetrying +
        outcome.jobsDeferredQuota + db'.jobs.countIn batch .claimed +
        db'.jobs.countIn batch .running := by
  intro batch
  obtain ⟨ends, hr, hall, -, -⟩ := Scheduler.claimAndProcess_traces hx
  replace hall : List.Forall₂ _ batch ends := hall
  obtain ⟨hclaimed, hdone, hwaiting, hfailed, hpending, hlength⟩ :=
    Scheduler.countAll_counts hall (.start batch.length)
  refine ⟨Scheduler.countAll ends (.start batch.length), hr, ?_⟩
  generalize Scheduler.countAll ends (.start batch.length) = outcome at *
  simp only [ProcessOutcome.start, Nat.zero_add] at hclaimed hdone hwaiting hfailed hpending
  exact ⟨hclaimed, hdone, hwaiting, hfailed, hpending, by omega⟩

end Counters

/-- A call that claims one job reports it once, unless it has been abandoned. -/
theorem claim_and_process_counts_single :
    let db : Db := ⟨⟨[newJob ⟨"fetch_range", "fake", "single", none, none, 0, 1⟩ 7 0], by decide⟩,
      Table.empty, Table.empty⟩
    ∃ db' outcome, (∃ events l', (Scheduler.claimAndProcess ⟨["fake"], 300, 3600⟩ 0 10
        "scheduler").Traces semantics db Session.new events (.ok outcome) db' l') ∧
      1 = outcome.jobsDone + outcome.jobsFailedTerminal + outcome.jobsRetrying +
        outcome.jobsDeferredQuota + db'.jobs.countIn (db.jobs.batch 0 300 10) .claimed +
        db'.jobs.countIn (db.jobs.batch 0 300 10) .running := by
  intro db
  obtain ⟨events, r, db', l', hx, -⟩ := Prog.exists_traces semantics default
    (Scheduler.claimAndProcess ⟨["fake"], 300, 3600⟩ 0 10 "scheduler").run db Session.new
  obtain ⟨outcome, rfl, hclaimed, -, -, -, -, hsum⟩ := claim_and_process_counts hx
  have hone : (db.jobs.batch 0 300 10).length = 1 := by decide +kernel
  exact ⟨db', outcome, ⟨events, l', hx⟩, (hclaimed.trans hone).symm.trans hsum⟩

end MarketRelay
