import MarketRelay.Runner

/-!
# The Scheduler

The processing phase of the scheduled entry point, as programs over the commands of a
session: a batch of jobs is claimed, and each job is processed in turn, isolated by two
handlers. A stale claim is left to its new owner; any other exception fails the job under
the generation that its object carries at that point.

## Main results

* `claimAndProcess`: the whole phase.
* `processJob_keeps`: one job of the batch keeps what its transitions, gate and rows keep.
-/

open Relational Interaction Gregorian

namespace MarketRelay

/-- Result of the bounded job-processing phase. -/
structure ProcessOutcome where
  jobsClaimed : ℕ
  jobsDone : ℕ
  jobsWaiting : ℕ
  jobsDeferredQuota : ℕ
  jobsFailedTerminal : ℕ
  jobsRetrying : ℕ
deriving DecidableEq, Repr

/-- Nothing has been counted yet but the claimed jobs. -/
def ProcessOutcome.start (claimed : ℕ) : ProcessOutcome := ⟨claimed, 0, 0, 0, 0, 0⟩

/-- Count a job by the status in which `process` has left it; `CLAIMED` and `RUNNING` are
not counted. -/
def ProcessOutcome.count (outcome : ProcessOutcome) : JobStatus → ProcessOutcome
  | .done => { outcome with jobsDone := outcome.jobsDone + 1 }
  | .waitingForPublication => { outcome with jobsWaiting := outcome.jobsWaiting + 1 }
  | .failed => { outcome with jobsFailedTerminal := outcome.jobsFailedTerminal + 1 }
  | .pending => { outcome with jobsRetrying := outcome.jobsRetrying + 1 }
  | .claimed | .running => outcome

/-- Count a job that the `except` branch has failed. -/
def ProcessOutcome.countFailure (outcome : ProcessOutcome) : JobStatus → ProcessOutcome
  | .failed => { outcome with jobsFailedTerminal := outcome.jobsFailedTerminal + 1 }
  | .pending => { outcome with jobsRetrying := outcome.jobsRetrying + 1 }
  | _ => outcome

namespace Scheduler

/-- `_WORKER_ID` of the entry point, and the default of `claim_and_process`. -/
def workerId : String := "scheduler"

/-- The body of the `try`: the adapters of the job's source, and its processing. -/
def runJob (id : ℕ) (workerId : String) (now : Instant) : App JobOutcome := do
  let job ← attributes id
  let historical ← issue (.getHistoricalPricePort job.source)
  orRaise historical
  let job ← attributes id
  let quota ← issue (.getQuotaPort job.source)
  orRaise quota
  IngestionRunner.process id workerId now

/-- The `except` branch for an unforeseen failure. -/
def isolate (id : ℕ) (workerId : String) (now : Instant) (e : PyError)
    (outcome : ProcessOutcome) : App ProcessOutcome := do
  let generation ← generation id
  JobQueue.markFailed id workerId generation e.adapterErrorCode now
  let job ← attributes id
  return outcome.countFailure job.status

/-- The counters after a job that was processed. -/
def tally (id : ℕ) (result : JobOutcome) (outcome : ProcessOutcome) : App ProcessOutcome := do
  if result.detail = "quota_exhausted" then
    return { outcome with jobsDeferredQuota := outcome.jobsDeferredQuota + 1 }
  else
    let job ← attributes id
    return outcome.count job.status

/-- One round of the loop. -/
def processJob (id : ℕ) (workerId : String) (now : Instant) (outcome : ProcessOutcome) :
    App ProcessOutcome := do
  match ← Script.attempt (runJob id workerId now) with
  | .ok result => tally id result outcome
  | .error e => if e.isStaleJobClaim then return outcome else isolate id workerId now e outcome

/-- The loop over the claimed jobs. -/
def processJobs (workerId : String) (now : Instant) :
    List ℕ → ProcessOutcome → App ProcessOutcome
  | [], outcome => return outcome
  | id :: rest, outcome => do
    let outcome ← processJob id workerId now outcome
    processJobs workerId now rest outcome

/-- Claim and process up to `batch_size` eligible jobs. -/
def claimAndProcess (settings : Settings) (now : Instant) (batchSize : ℕ) (workerId : String) :
    App ProcessOutcome := do
  let claimed ← JobQueue.claimNext workerId now none batchSize settings.jobLeaseSeconds
  processJobs workerId now claimed (.start claimed.length)

/-! ### What the parts of the loop keep -/

section Keeps

variable {G : Type} {K : Contract Cmd Cmd.Resp G} {I : G → Prop} {J : ℕ → G → Prop}
  {id : ℕ} {workerId : String} {now : Instant}

/-- One round of the loop keeps what processing and failing the job keep. -/
theorem processJob_keeps_of (h : ∀ c, JobQueue.IsJobCmd c → Script.Keeps K I (issue c))
    (hhistorical : ∀ source, Script.Keeps K I (issue (.getHistoricalPricePort source)))
    (hquota : ∀ source, Script.Keeps K I (issue (.getQuotaPort source)))
    (hprocess : Script.Keeps K I (IngestionRunner.process id workerId now))
    (hfail : ∀ error, Script.Keeps K I (do
      let generation ← generation id
      JobQueue.markFailed id workerId generation error now))
    (outcome : ProcessOutcome) : Script.Keeps K I (processJob id workerId now outcome) := by
  have hattributes := JobQueue.attributes_keeps h id
  have hrun : Script.Keeps K I (runJob id workerId now) :=
    hattributes.bind fun job => (hhistorical job.source).bind fun historical =>
      (IngestionRunner.orRaise_keeps historical).bind fun _ => hattributes.bind fun job =>
        (hquota job.source).bind fun quota =>
          (IngestionRunner.orRaise_keeps quota).bind fun _ => hprocess
  refine hrun.attempt.bind ?_
  rintro (e | result)
  · dsimp only
    split
    · exact Script.keeps_pure _
    · have hisolate : isolate id workerId now e outcome = (do
          (do
            let generation ← generation id
            JobQueue.markFailed id workerId generation e.adapterErrorCode now)
          let job ← attributes id
          return outcome.countFailure job.status) := by
        rw [isolate, bind_assoc]
      rw [hisolate]
      exact (hfail _).bind fun _ => hattributes.bind fun _ => Script.keeps_pure _
  · change Script.Keeps K I (tally id result outcome)
    rw [tally]
    split
    · exact Script.keeps_pure _
    · exact hattributes.bind fun job => Script.keeps_pure _

/-- One round of the loop keeps what the job's transitions, gate and rows keep. -/
theorem processJob_keeps (F : IngestionRunner.Fenced K I J id workerId)
    (hload : ∀ id g r g', K.post (.load id) g r g' → ∀ j ∈ r, j.id = id)
    (hgate : ∀ source, Script.Keeps K I (PolicyGate.authorizeIngestion source))
    (hrow : ∀ authorization generation cursor raw, Script.Keeps K (J generation)
      (IngestionRunner.recordRow id cursor authorization now raw)) (outcome : ProcessOutcome) :
    Script.Keeps K I (processJob id workerId now outcome) :=
  processJob_keeps_of F.job (fun source => F.port (.getHistoricalPricePort source) trivial)
    (fun source => F.port (.getQuotaPort source) trivial) (F.process_keeps hload hgate hrow)
    (fun error => F.meets fun generation =>
      JobQueue.markFailed_keeps (F.fencedJob generation) F.attributes (F.owned generation) error
        now) outcome

/-- The loop keeps what each of its rounds keeps. -/
theorem processJobs_keeps (ids : List ℕ)
    (hjob : ∀ id ∈ ids, ∀ outcome, Script.Keeps K I (processJob id workerId now outcome))
    (outcome : ProcessOutcome) : Script.Keeps K I (processJobs workerId now ids outcome) := by
  induction ids generalizing outcome with
  | nil => exact Script.keeps_pure _
  | cons id rest ih =>
      exact (hjob id List.mem_cons_self outcome).bind fun outcome =>
        ih (fun id hid => hjob id (List.mem_cons_of_mem _ hid)) outcome

end Keeps

end Scheduler

end MarketRelay
