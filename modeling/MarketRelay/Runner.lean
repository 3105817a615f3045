import MarketRelay.Cursor
import MarketRelay.JobQueue
import MarketRelay.ObservationStore
import MarketRelay.PolicyGate

/-!
# Processing a Job

`IngestionRunner.process`: authorization, cursor, quota, fetch, validation and recording of
one job, up to a terminal or retry state. A job object is represented by the identifier of
its row; each `job.x` of the source is an `attributes` command where the row may have been
expired since the last one.

The provider's `fetch_range` and the quota port are commands of the environment, which may
answer anything. Rows are validated one by one: a malformed row is counted and skipped, any
other exception ends the call.

## Main results

* `validateRawObservation_eq_ok_iff`: which rows are accepted.
* `IngestionRunner.process`: the whole call.
-/

open Relational Interaction Gregorian

namespace MarketRelay

/-! ### Validation -/

/-- `^[A-Z]{3}$`, where `$` also matches before a final newline. -/
def currencyMatches (s : String) : Bool :=
  match s.toList with
  | [a, b, c] => [a, b, c].all fun x => decide ('A' ≤ x) && decide (x ≤ 'Z')
  | [a, b, c, '\n'] => [a, b, c].all fun x => decide ('A' ≤ x) && decide (x ≤ 'Z')
  | _ => false

/-- Schema validation of a raw row against what was requested. -/
def validateRawObservation (raw : RawObservation) (expectedExternalListingId : Json)
    (expectedStart expectedEnd : Date) : Except PyError Unit :=
  if expectedExternalListingId.text? ≠ some raw.externalListingId then
    .error (.malformedObservation "external_listing_id does not match the requested one.")
  else if ¬ (expectedStart ≤ raw.sessionDate ∧ raw.sessionDate ≤ expectedEnd) then
    .error (.malformedObservation "session_date is outside the requested range.")
  else if ¬ currencyMatches raw.currency then
    .error (.malformedObservation "currency is not a 3-letter ISO-4217 code.")
  else
    match raw.close.nonpos with
    | none => .error .invalidOperation
    | some nonpos =>
      if nonpos ∨ ¬ raw.close.isFinite then
        .error (.malformedObservation "close is not a positive, finite decimal value.")
      else .ok ()

/-- **The rows that are accepted**: of the requested listing and range, in a currency of
three capital letters, with a positive finite close. -/
theorem validateRawObservation_eq_ok_iff {raw : RawObservation} {listing : Json}
    {first last : Date} :
    validateRawObservation raw listing first last = .ok () ↔
      listing.text? = some raw.externalListingId ∧
        (first ≤ raw.sessionDate ∧ raw.sessionDate ≤ last) ∧
        currencyMatches raw.currency = true ∧ ∃ q, raw.close = .finite q ∧ 0 < q := by
  rw [validateRawObservation]
  by_cases hid : listing.text? = some raw.externalListingId
  swap
  · rw [if_pos hid]
    simp [hid]
  rw [if_neg (by simpa using hid)]
  by_cases hdate : first ≤ raw.sessionDate ∧ raw.sessionDate ≤ last
  swap
  · rw [if_pos hdate]
    simp [hdate]
  rw [if_neg (by simpa using hdate)]
  by_cases hcur : currencyMatches raw.currency = true
  swap
  · rw [if_pos hcur]
    simp [hcur]
  rw [if_neg (by simpa using hcur)]
  cases hclose : raw.close with
  | finite q =>
      by_cases hq : q ≤ 0
      · simp [Decimal.nonpos, Decimal.isFinite, hq]
      · simp [Decimal.nonpos, Decimal.isFinite, hq, hid, hdate, hcur, not_le.mp hq]
  | infinity negative => cases negative <;> simp [Decimal.nonpos, Decimal.isFinite]
  | nan signaling => simp [Decimal.nonpos]

/-! ### Processing -/

structure JobOutcome where
  status : JobStatus
  observationsRecorded : ℕ
  observationsRejected : ℕ
  detail : String
deriving DecidableEq, Repr

namespace IngestionRunner

/-- The candidate observation of a raw row. -/
def observationInput (raw : RawObservation) (listingId : ℕ) (source credentialScope : String)
    (authorization : IngestionAuthorization) (now : Instant) : ObservationInput where
  listingId := listingId
  key := ⟨source, credentialScope, raw.externalListingId, raw.sessionDate, raw.observationType⟩
  value := ⟨raw.currency, raw.close, raw.open, raw.high, raw.low, raw.adjustedClose, .ok⟩
  retrievedAt := now
  retrievalPolicyDecisionId := some authorization.retrievalDecision.id
  storagePolicyDecisionId := some authorization.storageDecision.id

/-- Record one row that has passed validation; whether it added an observation. -/
def recordRow (id : ℕ) (cursor : FetchCursor Json) (authorization : IngestionAuthorization)
    (now : Instant) (raw : RawObservation) : App Bool := do
  let job ← attributes id
  match job.listingId with
  | none => throw .assertion
  | some listingId =>
    match cursor.credentialScope.text? with
    | none => throw .statement
    | some credentialScope =>
      let outcome ← ObservationStore.record
        (observationInput raw listingId job.source credentialScope authorization now)
      return outcome.created

/-- The loop over the rows, with the numbers recorded and rejected so far. -/
def recordRows (id : ℕ) (cursor : FetchCursor Json) (authorization : IngestionAuthorization)
    (now : Instant) : List RawObservation → ℕ → ℕ → App (ℕ × ℕ)
  | [], recorded, rejected => return (recorded, rejected)
  | raw :: rest, recorded, rejected =>
    match validateRawObservation raw cursor.externalListingId cursor.start cursor.end with
    | .error (.malformedObservation _) =>
      recordRows id cursor authorization now rest recorded (rejected + 1)
    | .error e => throw e
    | .ok () => do
      let created ← recordRow id cursor authorization now raw
      recordRows id cursor authorization now rest (if created then recorded + 1 else recorded)
        rejected

/-- Fail the job under a generation, and report its status after that. -/
def fail (id : ℕ) (workerId : String) (generation : ℕ) (error : String) (now : Instant)
    (recorded rejected : ℕ) (detail : String) : App JobOutcome := do
  JobQueue.markFailed id workerId generation error now
  let job ← attributes id
  return ⟨job.status, recorded, rejected, detail⟩

/-- The part of `process` after the fetch: ownership, quota, recording, completion. -/
def store (id : ℕ) (workerId : String) (generation : ℕ) (now : Instant)
    (cursor : FetchCursor Json) (authorization : IngestionAuthorization)
    (rawObservations : List RawObservation) : App JobOutcome := do
  JobQueue.assertOwned id workerId generation
  let job ← attributes id
  let consumed ← issue (.consumeQuota job.source 1)
  let _ ← orRaise consumed
  let (recorded, rejected) ← recordRows id cursor authorization now rawObservations 0 0
  if 0 < rejected ∧ recorded = 0 then
    fail id workerId generation
      (toString rejected ++ " malformed observations out of " ++
        toString rawObservations.length ++ " received.")
      now recorded rejected "all_malformed"
  else
    JobQueue.markDone id workerId generation
    let job ← attributes id
    return ⟨job.status, recorded, rejected, "done"⟩

/-- The part of `process` after the cursor: quota, start, fetch. -/
def fetch (id : ℕ) (workerId : String) (now : Instant) (cursor : FetchCursor Json)
    (authorization : IngestionAuthorization) : App JobOutcome := do
  let generation ← generation id
  let job ← attributes id
  let quotaStatus ← orRaise (← issue (.checkQuota job.source))
  if quotaStatus.exhausted then
    JobQueue.deferForQuota id workerId generation quotaStatus.resetAt now
    let job ← attributes id
    return ⟨job.status, 0, 0, "quota_exhausted"⟩
  else
    JobQueue.markRunning id workerId generation
    match ← issue (.fetchRange job.source cursor.externalListingId.text? cursor.start
        cursor.end) with
    | .error e => fail id workerId generation e.adapterErrorCode now 0 0 "fetch_error"
    | .ok rawObservations =>
      store id workerId generation now cursor authorization rawObservations

/-- `FetchCursor.parse` of the job's cursor, and the branch for an invalid one. -/
def resume (id : ℕ) (workerId : String) (now : Instant)
    (authorization : IngestionAuthorization) : App JobOutcome := do
  let job ← attributes id
  match FetchCursor.parse job.cursor with
  | .ok cursor => fetch id workerId now cursor authorization
  | .error fault =>
    let cause ← issue (.describeFault job.cursor)
    let generation ← generation id
    fail id workerId generation (sanitizeMessage (fault.message cause) []) now 0 0
      "invalid_cursor"

/-- Claim a job that is passed in pending. -/
def claim (id : ℕ) (workerId : String) (now : Instant) : App ℕ := do
  let job ← attributes id
  if job.status = .pending then JobQueue.claimJob id workerId now else return id

/-- The part of `process` after the claim: the gate, and the branch for a blocked source. -/
def authorize (id : ℕ) (workerId : String) (now : Instant) : App JobOutcome := do
  let job ← attributes id
  match ← Script.attempt (PolicyGate.authorizeIngestion job.source) with
  | .ok authorization => resume id workerId now authorization
  | .error (.policyNotAuthorized source blocking) =>
    let generation ← generation id
    fail id workerId generation (sanitizeMessage (notAuthorizedText source blocking) []) now
      0 0 "policy_not_authorized"
  | .error e => throw e

/-- Process a single job up to a terminal or retry state. -/
def process (id : ℕ) (workerId : String) (now : Instant) : App JobOutcome := do
  let id ← claim id workerId now
  authorize id workerId now

/-! ### What the parts of a call keep -/

section Keeps

variable {G : Type} {K : Contract Cmd Cmd.Resp G} {I : G → Prop}
  (h : ∀ c, JobQueue.IsJobCmd c → Script.Keeps K I (issue c))

theorem orRaise_keeps {α : Type} (r : Except PyError α) : Script.Keeps K I (orRaise r) := by
  cases r with
  | ok a => exact Script.keeps_pure a
  | error e => exact Script.keeps_throw e

/-- Recording one row keeps what its commands keep. -/
theorem recordRow_keeps {id : ℕ} {cursor : FetchCursor Json}
    {authorization : IngestionAuthorization} {now : Instant}
    (hattributes : Script.Keeps K I (attributes id))
    (hselect : ∀ key, Script.Keeps K I (issue (.selectRevision key)))
    (hinsert : ∀ candidate, Script.Keeps K I (issue (.insertObservation candidate)))
    (raw : RawObservation) : Script.Keeps K I (recordRow id cursor authorization now raw) := by
  refine hattributes.bind fun job => ?_
  split
  · exact Script.keeps_throw _
  · split
    · exact Script.keeps_throw _
    · exact (ObservationStore.record_keeps (hselect _) fun _ => hinsert _).bind fun outcome =>
        Script.keeps_pure _

/-- The loop keeps what recording one row keeps. -/
theorem recordRows_keeps {id : ℕ} {cursor : FetchCursor Json}
    {authorization : IngestionAuthorization} {now : Instant}
    (hrow : ∀ raw, Script.Keeps K I (recordRow id cursor authorization now raw))
    (raws : List RawObservation) (recorded rejected : ℕ) :
    Script.Keeps K I (recordRows id cursor authorization now raws recorded rejected) := by
  induction raws generalizing recorded rejected with
  | nil => exact Script.keeps_pure _
  | cons raw rest ih =>
      rw [recordRows]
      split
      · exact ih _ _
      · exact Script.keeps_throw _
      · exact (hrow raw).bind fun created => ih _ _

variable (hattributes : ∀ id g r g', K.post (.attributes id) g r g' → ∀ j ∈ r, j.id = id)

include h hattributes in
/-- The claim of a job leads to the job itself. -/
theorem claim_returns
    (hload : ∀ id g r g', K.post (.load id) g r g' → ∀ j ∈ r, j.id = id)
    (id : ℕ) (workerId : String) (now : Instant) {g : G} (hg : I g) :
    Script.Meets K (claim id workerId now) (fun id' g' => id' = id ∧ I g') (fun _ => I) g := by
  rw [claim, Script.meets_bind]
  refine (JobQueue.attributes_keeps h id g hg).mono (fun job g₁ hg₁ => ?_) fun _ _ h => h
  split
  · exact JobQueue.claimJob_returns h hattributes hload id workerId now hg₁
  · exact Script.meets_pure.mpr ⟨rfl, hg₁⟩

include h hattributes in
theorem fail_keeps {id : ℕ} {workerId : String} {generation : ℕ} {now : Instant}
    (howned : ∀ w, Script.Keeps K I (issue (.update (.owned id workerId generation w))))
    (error : String) (recorded rejected : ℕ) (detail : String) :
    Script.Keeps K I (fail id workerId generation error now recorded rejected detail) :=
  (JobQueue.markFailed_keeps h hattributes howned error now).bind fun _ =>
    (JobQueue.attributes_keeps h id).bind fun _ => Script.keeps_pure _

section Parts

variable {id : ℕ} {workerId : String} {now : Instant}
  (hfail : ∀ error detail, Script.Keeps K I (do
    let generation ← generation id
    fail id workerId generation error now 0 0 detail))

include h hfail

/-- The part after the gate keeps what its two branches keep. -/
theorem resume_keeps_of {authorization : IngestionAuthorization}
    (hfault : ∀ raw, Script.Keeps K I (issue (.describeFault raw)))
    (hfetch : ∀ cursor, Script.Keeps K I (fetch id workerId now cursor authorization)) :
    Script.Keeps K I (resume id workerId now authorization) := by
  refine (JobQueue.attributes_keeps h id).bind fun job => ?_
  split
  · exact hfetch _
  · exact (hfault job.cursor).bind fun _ => hfail _ _

/-- The part after the claim keeps what the gate and the rest keep. -/
theorem authorize_keeps_of
    (hgate : ∀ source, Script.Keeps K I (PolicyGate.authorizeIngestion source))
    (hresume : ∀ authorization, Script.Keeps K I (resume id workerId now authorization)) :
    Script.Keeps K I (authorize id workerId now) := by
  refine (JobQueue.attributes_keeps h id).bind fun job => (hgate job.source).attempt.bind ?_
  rintro (e | authorization)
  · cases e with
    | policyNotAuthorized source blocking => exact hfail _ _
    | _ => exact Script.keeps_throw _
  · exact hresume authorization

end Parts

include h hattributes in
/-- The whole call keeps what it keeps after the claim. -/
theorem process_keeps_of
    (hload : ∀ id g r g', K.post (.load id) g r g' → ∀ j ∈ r, j.id = id)
    {id : ℕ} {workerId : String} {now : Instant}
    (hauthorize : Script.Keeps K I (authorize id workerId now)) :
    Script.Keeps K I (process id workerId now) := by
  intro g hg
  rw [process, Script.meets_bind]
  refine (claim_returns h hattributes hload id workerId now hg).mono ?_ fun _ _ h => h
  rintro _ g₁ ⟨rfl, hg₁⟩
  exact hauthorize g₁ hg₁

/-- What is known through the parts of a call: `I` throughout, and `J generation` once
`generation` has been read, to be presented with every transition from there on. -/
structure Fenced (K : Contract Cmd Cmd.Resp G) (I : G → Prop) (J : ℕ → G → Prop) (id : ℕ)
    (workerId : String) : Prop where
  job : ∀ c, JobQueue.IsJobCmd c → Script.Keeps K I (issue c)
  port : ∀ c, c.IsPort → Script.Keeps K I (issue c)
  generation : ∀ g, I g → Script.Meets K (generation id) J (fun _ => I) g
  forget : ∀ generation g, J generation g → I g
  fencedJob : ∀ generation c, JobQueue.IsJobCmd c → Script.Keeps K (J generation) (issue c)
  fencedPort : ∀ generation c, c.IsPort → Script.Keeps K (J generation) (issue c)
  owned : ∀ generation w,
    Script.Keeps K (J generation) (issue (.update (.owned id workerId generation w)))
  attributes : ∀ id g r g', K.post (.attributes id) g r g' → ∀ j ∈ r, j.id = id

namespace Fenced

variable {J : ℕ → G → Prop} {id : ℕ} {workerId : String} {now : Instant}

/-- What is kept once a generation has been read, from there on. -/
theorem meets {α : Type} (F : Fenced K I J id workerId) {f : ℕ → App α}
    (hf : ∀ generation, Script.Keeps K (J generation) (f generation)) :
    Script.Keeps K I (MarketRelay.generation id >>= f) := by
  intro g hg
  rw [Script.meets_bind]
  refine (F.generation g hg).mono (fun generation g' hg' => ?_) fun _ _ h => h
  exact (hf generation g' hg').mono (fun _ _ h => F.forget _ _ h) fun _ _ h => F.forget _ _ h

theorem fail_keeps (F : Fenced K I J id workerId) (generation : ℕ) (error : String)
    (recorded rejected : ℕ) (detail : String) :
    Script.Keeps K (J generation)
      (fail id workerId generation error now recorded rejected detail) :=
  IngestionRunner.fail_keeps (F.fencedJob generation) F.attributes (F.owned generation) error
    recorded rejected detail

variable {cursor : FetchCursor Json} {authorization : IngestionAuthorization}

/-- The part after the fetch keeps what its rows keep. -/
theorem store_keeps (F : Fenced K I J id workerId) {generation : ℕ}
    (hrow : ∀ raw, Script.Keeps K (J generation) (recordRow id cursor authorization now raw))
    (raws : List RawObservation) :
    Script.Keeps K (J generation)
      (store id workerId generation now cursor authorization raws) := by
  have hattributes := JobQueue.attributes_keeps (F.fencedJob generation) id
  refine (JobQueue.assertOwned_keeps (F.fencedJob generation) _ _ _).bind fun _ =>
    hattributes.bind fun job => (F.fencedPort generation (.consumeQuota job.source 1) trivial).bind
      fun consumed => (orRaise_keeps consumed).bind fun _ =>
        (recordRows_keeps hrow raws 0 0).bind ?_
  rintro ⟨recorded, rejected⟩
  dsimp only
  split
  · exact F.fail_keeps _ _ _ _ _
  · exact (JobQueue.ownedTransition_keeps (F.fencedJob generation) F.attributes
      (F.owned generation _)).bind fun _ => hattributes.bind fun _ => Script.keeps_pure _

/-- The part after the cursor keeps what its rows keep. -/
theorem fetch_keeps (F : Fenced K I J id workerId)
    (hrow : ∀ generation raw,
      Script.Keeps K (J generation) (recordRow id cursor authorization now raw)) :
    Script.Keeps K I (fetch id workerId now cursor authorization) := by
  refine F.meets fun generation => ?_
  have hattributes := JobQueue.attributes_keeps (F.fencedJob generation) id
  refine hattributes.bind fun job =>
    (F.fencedPort generation (.checkQuota job.source) trivial).bind fun r =>
      (orRaise_keeps r).bind fun quotaStatus => ?_
  split
  · exact (JobQueue.ownedTransition_keeps (F.fencedJob generation) F.attributes
      (F.owned generation _)).bind fun _ => hattributes.bind fun _ => Script.keeps_pure _
  · refine (JobQueue.ownedTransition_keeps (F.fencedJob generation) F.attributes
      (F.owned generation _)).bind fun _ =>
        (F.fencedPort generation (.fetchRange ..) trivial).bind fun r => ?_
    cases r with
    | error e => exact F.fail_keeps _ _ _ _ _
    | ok raws => exact F.store_keeps (hrow generation) raws

theorem failing_keeps (F : Fenced K I J id workerId) (error detail : String) :
    Script.Keeps K I (do
      let generation ← MarketRelay.generation id
      fail id workerId generation error now 0 0 detail) :=
  F.meets fun generation => F.fail_keeps generation error 0 0 detail

/-- The part after the gate keeps what its rows keep. -/
theorem resume_keeps (F : Fenced K I J id workerId)
    (hrow : ∀ generation cursor raw,
      Script.Keeps K (J generation) (recordRow id cursor authorization now raw)) :
    Script.Keeps K I (resume id workerId now authorization) :=
  resume_keeps_of F.job F.failing_keeps (fun raw => F.port (.describeFault raw) trivial)
    fun cursor => F.fetch_keeps fun generation raw => hrow generation cursor raw

/-- The whole call keeps what its gate and its rows keep. -/
theorem process_keeps (F : Fenced K I J id workerId)
    (hload : ∀ id g r g', K.post (.load id) g r g' → ∀ j ∈ r, j.id = id)
    (hgate : ∀ source, Script.Keeps K I (PolicyGate.authorizeIngestion source))
    (hrow : ∀ authorization generation cursor raw,
      Script.Keeps K (J generation) (recordRow id cursor authorization now raw)) :
    Script.Keeps K I (process id workerId now) := by
  refine process_keeps_of F.job F.attributes hload ?_
  exact authorize_keeps_of F.job F.failing_keeps hgate fun authorization =>
    F.resume_keeps (hrow authorization)

end Fenced

end Keeps

end IngestionRunner

end MarketRelay
