import MarketRelay.Scheduler

/-!
# The Commands of a Round

One round of the loop over a claimed batch names no job but its own: the job whose identifier the
loop is at is the one that is read, claimed, changed and reported. The identifiers that the round
presents are read from the session's copy of the job, so that this rests on what the reads return
(`Cmd.Names`).

## Main results

* `Scheduler.processJobs_cons`: the loop is a sequence of rounds.
* `Scheduler.round_concerns`: every command of a round concerns its own job, or none.
-/

open Relational Interaction Gregorian

namespace MarketRelay

/-- The command names the job, or no job at all, and a round may issue it. -/
def Cmd.Concerns (id : ℕ) : Cmd → Prop
  | update (.claim i ..) | update (.owned i ..) | load i | attributes i | generation i | expire i
  | selectOwned i .. => i = id
  | commit | expireAll | selectDecision .. | selectRevision _ | insertObservation _
  | getHistoricalPricePort _ | getQuotaPort _ | checkQuota _ | consumeQuota .. | fetchRange ..
  | describeFault _ => True
  | _ => False

/-- A row that is read has the identifier that it was asked for by. -/
def Cmd.Names : (c : Cmd) → c.Resp → Prop
  | attributes id, r | load id, r => ∀ j ∈ r, j.id = id
  | _, _ => True

/-- The contract of a round: it concerns one job, and reads are answered by name. -/
def roundContract (id : ℕ) : Contract Cmd Cmd.Resp Unit :=
  ⟨fun c _ => c.Concerns id, fun c _ r _ => c.Names r⟩

/-- Every command of the program concerns the job. -/
abbrev App.Concerns {α : Type} (id : ℕ) (x : App α) : Prop :=
  Script.Keeps (roundContract id) (fun _ => True) x

section

variable {α : Type} {id : ℕ} {workerId : String} {now : Instant}

/-- A command that concerns the job. -/
theorem issue_concerns {c : Cmd} (hc : c.Concerns id) : App.Concerns id (issue c) :=
  Script.keeps_op fun _ _ => ⟨hc, fun _ _ _ => trivial⟩

/-- What follows a read of the job is about a row with its identifier. -/
theorem attributes_concerns {f : Job → App α} (hf : ∀ j, j.id = id → App.Concerns id (f j)) :
    App.Concerns id (attributes id >>= f) := by
  intro g _
  rw [attributes, bind_assoc, Script.meets_bind, meets_issue]
  refine ⟨rfl, fun r g' hnames => ?_⟩
  cases r with
  | none => exact Script.meets_throw.mpr trivial
  | some j => exact hf j (hnames j rfl) g' trivial

theorem generation_concerns : App.Concerns id (generation id) :=
  (issue_concerns (c := .generation id) rfl).bind fun r => by
    cases r with
    | some g => exact Script.keeps_pure g
    | none => exact Script.keeps_throw _

theorem orRaise_concerns {β : Type} (r : Except PyError β) : App.Concerns id (orRaise r) :=
  IngestionRunner.orRaise_keeps r

namespace JobQueue

/-- A claim of the job returns the identifier of the job. -/
theorem claimJob_meets (g : Unit) :
    (claimJob id workerId now).Meets (roundContract id) (fun id' _ => id' = id) (fun _ _ => True)
      g := by
  have hstale : ∀ g, Script.Meets (roundContract id) (do
      let job ← attributes id
      throw (.staleJobClaim job.id none workerId) : App ℕ)
      (fun id' _ => id' = id) (fun _ _ => True) g := by
    intro g
    rw [attributes, bind_assoc, Script.meets_bind, meets_issue]
    refine ⟨rfl, fun r g' _ => ?_⟩
    cases r with
    | none => exact Script.meets_throw.mpr trivial
    | some j => exact Script.meets_throw.mpr trivial
  rw [claimJob, attributes, bind_assoc, Script.meets_bind, meets_issue]
  refine ⟨rfl, fun r g₁ hnames => ?_⟩
  cases r with
  | none => exact Script.meets_throw.mpr trivial
  | some j =>
      obtain rfl : j.id = id := hnames j rfl
      rw [pure_bind, Script.meets_bind, tryClaimOne, Script.meets_bind, meets_issue]
      refine ⟨rfl, fun rowcount g₂ _ => ?_⟩
      rw [Script.meets_bind, meets_issue]
      refine ⟨trivial, fun _ g₃ _ => ?_⟩
      split
      · exact hstale g₃
      · rw [Script.meets_bind, meets_issue]
        refine ⟨rfl, fun r g₄ hload => ?_⟩
        cases r with
        | none => exact hstale g₄
        | some j' => exact hload j' rfl

theorem ownedTransition_concerns {generation : ℕ} {w : Transition} :
    App.Concerns id (ownedTransition id workerId generation w) := by
  refine attributes_concerns fun j hj => ?_
  rw [hj]
  refine (issue_concerns (c := .update (.owned id workerId generation w)) rfl).bind fun rowcount =>
    ?_
  split
  · exact (issue_concerns (c := .expireAll) trivial).bind fun _ =>
      attributes_concerns fun j _ => Script.keeps_throw _
  · exact issue_concerns (c := .expire id) rfl

theorem markFailed_concerns {generation : ℕ} {error : String} :
    App.Concerns id (markFailed id workerId generation error now) :=
  attributes_concerns fun _ _ => ownedTransition_concerns

theorem assertOwned_concerns {generation : ℕ} :
    App.Concerns id (assertOwned id workerId generation) := by
  refine attributes_concerns fun j hj => ?_
  rw [hj]
  refine (issue_concerns (c := .selectOwned id workerId generation) rfl).bind fun owned => ?_
  split
  · exact Script.keeps_pure _
  · exact attributes_concerns fun j _ => Script.keeps_throw _

end JobQueue

namespace IngestionRunner

variable {generation : ℕ} {cursor : FetchCursor Json} {authorization : IngestionAuthorization}

theorem fail_concerns {error detail : String} {recorded rejected : ℕ} :
    App.Concerns id (fail id workerId generation error now recorded rejected detail) :=
  JobQueue.markFailed_concerns.bind fun _ => attributes_concerns fun _ _ => Script.keeps_pure _

theorem recordRow_concerns (raw : RawObservation) :
    App.Concerns id (recordRow id cursor authorization now raw) := by
  refine attributes_concerns fun job _ => ?_
  split
  · exact Script.keeps_throw _
  · split
    · exact Script.keeps_throw _
    · exact (ObservationStore.record_keeps (issue_concerns (c := .selectRevision _) trivial)
        fun _ => issue_concerns (c := .insertObservation _) trivial).bind fun _ =>
          Script.keeps_pure _

theorem store_concerns (raws : List RawObservation) :
    App.Concerns id (store id workerId generation now cursor authorization raws) := by
  refine JobQueue.assertOwned_concerns.bind fun _ => attributes_concerns fun job _ => ?_
  refine (issue_concerns (c := .consumeQuota job.source 1) trivial).bind fun consumed =>
    (orRaise_concerns consumed).bind fun _ =>
      (recordRows_keeps recordRow_concerns raws 0 0).bind ?_
  rintro ⟨recorded, rejected⟩
  dsimp only
  split
  · exact fail_concerns
  · exact JobQueue.ownedTransition_concerns.bind fun _ =>
      attributes_concerns fun _ _ => Script.keeps_pure _

theorem fetch_concerns : App.Concerns id (fetch id workerId now cursor authorization) := by
  refine generation_concerns.bind fun generation => attributes_concerns fun job _ => ?_
  refine (issue_concerns (c := .checkQuota job.source) trivial).bind fun status =>
    (orRaise_concerns status).bind fun quotaStatus => ?_
  split
  · exact JobQueue.ownedTransition_concerns.bind fun _ =>
      attributes_concerns fun _ _ => Script.keeps_pure _
  · refine JobQueue.ownedTransition_concerns.bind fun _ =>
      (issue_concerns (c := .fetchRange ..) trivial).bind fun fetched => ?_
    cases fetched with
    | error e => exact fail_concerns
    | ok raws => exact store_concerns raws

theorem resume_concerns : App.Concerns id (resume id workerId now authorization) := by
  refine attributes_concerns fun job _ => ?_
  split
  · exact fetch_concerns
  · exact (issue_concerns (c := .describeFault _) trivial).bind fun _ =>
      generation_concerns.bind fun _ => fail_concerns

theorem authorize_concerns : App.Concerns id (authorize id workerId now) := by
  refine attributes_concerns fun job _ => ?_
  have hgate : App.Concerns id (PolicyGate.authorizeIngestion job.source) :=
    PolicyGate.authorizeIngestion_keeps fun _ => issue_concerns (c := .selectDecision ..) trivial
  refine hgate.attempt.bind ?_
  rintro (e | authorization)
  · cases e with
    | policyNotAuthorized source blocking => exact generation_concerns.bind fun _ => fail_concerns
    | _ => exact Script.keeps_throw _
  · exact resume_concerns

theorem process_concerns : App.Concerns id (process id workerId now) := by
  rw [process, claim, bind_assoc]
  refine attributes_concerns fun job _ => ?_
  split
  · exact fun g _ => Script.meets_bind.mpr ((JobQueue.claimJob_meets g).mono
      (fun id' g' hid => hid ▸ authorize_concerns g' trivial) fun _ _ h => h)
  · rw [pure_bind]
    exact authorize_concerns

end IngestionRunner

namespace Scheduler

/-- The part of the `try` after the first read of the job. -/
def runRead (id : ℕ) (workerId : String) (now : Instant) (job : Job) : App JobOutcome := do
  let historical ← issue (.getHistoricalPricePort job.source)
  orRaise historical
  let job ← attributes id
  let quota ← issue (.getQuotaPort job.source)
  orRaise quota
  IngestionRunner.process id workerId now

theorem runJob_eq : runJob id workerId now = attributes id >>= runRead id workerId now := rfl

theorem runRead_concerns (job : Job) : App.Concerns id (runRead id workerId now job) :=
  (issue_concerns (c := .getHistoricalPricePort _) trivial).bind fun historical =>
    (orRaise_concerns historical).bind fun _ => attributes_concerns fun _ _ =>
      (issue_concerns (c := .getQuotaPort _) trivial).bind fun quota =>
        (orRaise_concerns quota).bind fun _ => IngestionRunner.process_concerns

theorem runJob_concerns : App.Concerns id (runJob id workerId now) := by
  rw [runJob_eq]
  exact attributes_concerns fun job _ => runRead_concerns job

/-- How a round ends, given the outcome of the `try`: what happens to the counters. -/
def settle (id : ℕ) (workerId : String) (now : Instant) :
    Except PyError JobOutcome → App (ProcessOutcome → ProcessOutcome)
  | .ok result =>
    if result.detail = "quota_exhausted" then
      return fun outcome => { outcome with jobsDeferredQuota := outcome.jobsDeferredQuota + 1 }
    else do
      let job ← attributes id
      return fun outcome => outcome.count job.status
  | .error e =>
    if e.isStaleJobClaim then
      return fun outcome => outcome
    else do
      let generation ← generation id
      JobQueue.markFailed id workerId generation e.adapterErrorCode now
      let job ← attributes id
      return fun outcome => outcome.countFailure job.status

/-- One round of the loop: what happens to the counters. -/
def round (id : ℕ) (workerId : String) (now : Instant) : App (ProcessOutcome → ProcessOutcome) :=
  Script.attempt (runJob id workerId now) >>= settle id workerId now

theorem processJob_eq {outcome : ProcessOutcome} :
    processJob id workerId now outcome =
      round id workerId now >>= fun count => pure (count outcome) := by
  rw [processJob, round, bind_assoc]
  congr 1
  funext r
  rcases r with e | result
  · change (if e.isStaleJobClaim then pure outcome else isolate id workerId now e outcome) = _
    rw [settle]
    split
    · rw [pure_bind]
    · simp only [isolate, bind_assoc, pure_bind]
  · change tally id result outcome = _
    rw [settle, tally]
    split
    · rw [pure_bind]
    · simp only [bind_assoc, pure_bind]

/-- The loop is a sequence of rounds. -/
theorem processJobs_cons {rest : List ℕ} {outcome : ProcessOutcome} :
    processJobs workerId now (id :: rest) outcome =
      round id workerId now >>= fun count => processJobs workerId now rest (count outcome) := by
  rw [processJobs, processJob_eq, bind_assoc]
  simp only [pure_bind]

theorem settle_concerns (r : Except PyError JobOutcome) :
    App.Concerns id (settle id workerId now r) := by
  rcases r with e | result <;> rw [settle]
  · split
    · exact Script.keeps_pure _
    · exact generation_concerns.bind fun _ => JobQueue.markFailed_concerns.bind fun _ =>
        attributes_concerns fun _ _ => Script.keeps_pure _
  · split
    · exact Script.keeps_pure _
    · exact attributes_concerns fun _ _ => Script.keeps_pure _

/-- **Every command of a round concerns its own job**, or none. -/
theorem round_concerns : App.Concerns id (round id workerId now) :=
  runJob_concerns.attempt.bind settle_concerns

end Scheduler

end

end MarketRelay
