import MarketRelay.Lib.Execution
import MarketRelay.Session

/-!
# The Methods of the Job Queue

`JobQueue` as programs over the commands of a session. A job object is represented by the
identifier of its row: its attributes are always read through the session.

Attributes that a method reads are read where the source reads them, since a read may
reload a row that was expired: `job.id` in the condition of an owned transition, once more
in the text of the error, and the whole row in `mark_failed`.
-/

open Relational Interaction Gregorian

namespace MarketRelay.JobQueue

/-- `enqueue_idempotent` -/
def enqueueIdempotent (args : EnqueueArgs) : App EnqueueResult := do
  match ← issue (.insertJob args) with
  | some job => return ⟨job, true⟩
  | none =>
    match ← issue (.selectJob args.dedupeKey) with
    | some existing => return ⟨existing, false⟩
    | none => throw .integrity

def recoverExpired (now : Instant) (leaseSeconds : ℤ) : App ℕ := do
  let rowcount ← issue (.update (.recoverExpired now leaseSeconds))
  issue .commit
  return rowcount

def promoteDueWaiting (now : Instant) : App ℕ := do
  let rowcount ← issue (.update (.promoteDueWaiting now))
  issue .commit
  return rowcount

/-- `_try_claim_one` -/
def tryClaimOne (id : ℕ) (workerId : String) (now : Instant) : App (Option ℕ) := do
  let rowcount ← issue (.update (.claim id workerId now))
  issue .commit
  if rowcount ≠ 1 then
    return none
  else
    let job ← issue (.load id)
    return job.map Job.id

/-- The loop of `claim_next` over the candidates, with the jobs claimed so far. -/
def claimLoop (workerId : String) (now : Instant) (limit : ℕ) :
    List ℕ → List ℕ → App (List ℕ)
  | [], claimed => return claimed
  | id :: rest, claimed =>
    if limit ≤ claimed.length then
      return claimed
    else do
      match ← tryClaimOne id workerId now with
      | some job => claimLoop workerId now limit rest (claimed ++ [job])
      | none => claimLoop workerId now limit rest claimed

def claimNext (workerId : String) (now : Instant) (source : Option String) (limit : ℕ)
    (leaseSeconds : ℤ) : App (List ℕ) := do
  let _ ← recoverExpired now leaseSeconds
  let _ ← promoteDueWaiting now
  let candidateIds ← issue (.selectCandidates now source (limit * 5))
  claimLoop workerId now limit candidateIds []

/-- `claim_job` -/
def claimJob (id : ℕ) (workerId : String) (now : Instant) : App ℕ := do
  let job ← attributes id
  match ← tryClaimOne job.id workerId now with
  | some claimed => return claimed
  | none =>
    let job ← attributes id
    throw (.staleJobClaim job.id none workerId)

/-- `_owned_transition` -/
def ownedTransition (id : ℕ) (workerId : String) (generation : ℕ) (w : Transition) :
    App Unit := do
  let job ← attributes id
  let rowcount ← issue (.update (.owned job.id workerId generation w))
  if rowcount ≠ 1 then
    issue .expireAll
    let job ← attributes id
    throw (.staleJobClaim job.id generation workerId)
  else
    issue (.expire id)

def assertOwned (id : ℕ) (workerId : String) (generation : ℕ) : App Unit := do
  let job ← attributes id
  let owned ← issue (.selectOwned job.id workerId generation)
  if owned then
    return ()
  else
    let job ← attributes id
    throw (.staleJobClaim job.id generation workerId)

def markRunning (id : ℕ) (workerId : String) (generation : ℕ) : App Unit :=
  ownedTransition id workerId generation .markRunning

def markDone (id : ℕ) (workerId : String) (generation : ℕ) : App Unit :=
  ownedTransition id workerId generation .markDone

def markWaitingForPublication (id : ℕ) (workerId : String) (generation : ℕ)
    (retryAt : Instant) : App Unit :=
  ownedTransition id workerId generation (.markWaitingForPublication retryAt)

def deferForQuota (id : ℕ) (workerId : String) (generation : ℕ) (resetAt : Option Instant)
    (now : Instant) : App Unit :=
  ownedTransition id workerId generation (.quota resetAt now)

def markFailed (id : ℕ) (workerId : String) (generation : ℕ) (error : String)
    (now : Instant) : App Unit := do
  let job ← attributes id
  ownedTransition id workerId generation (.failure job error now)

/-! ### Enqueuing, run alone -/

/-- **A job is enqueued when its key is free**, and only then; the call never fails. -/
theorem enqueueIdempotent_executes {args : EnqueueArgs} {db db' : Db} {l l' : Session}
    {r : Except PyError EnqueueResult}
    (h : (enqueueIdempotent args).Executes semantics db l r db' l') :
    db'.observations = db.observations ∧
      ((∃ id createdAt, db.jobs.insert? (newJob args id createdAt) = some db'.jobs ∧
        r = .ok ⟨newJob args id createdAt, true⟩) ∨
      (∃ j ∈ db.jobs.rows, j.dedupeKey = args.dedupeKey) ∧ db' = db ∧
        ∃ existing, r = .ok ⟨existing, false⟩) := by
  rw [enqueueIdempotent] at h
  obtain ⟨e, h⟩ := Script.executes_op_bind.mp h
  rcases exec_insertJob args e db l with ⟨t, j, rfl, hins, hexec⟩ | ⟨hkey, hexec⟩
  · simp only [semantics_exec, hexec] at h
    obtain ⟨rfl, rfl, rfl⟩ := Script.executes_pure.mp h
    exact ⟨rfl, Or.inl ⟨_, _, hins, rfl⟩⟩
  · simp only [semantics_exec, hexec] at h
    obtain ⟨e', h⟩ := Script.executes_op_bind.mp h
    obtain ⟨existing, hexisting, hdb⟩ := exec_selectJob hkey e' l
    simp only [semantics_exec, hexisting, hdb] at h
    obtain ⟨rfl, rfl, rfl⟩ := Script.executes_pure.mp h
    exact ⟨rfl, Or.inr ⟨hkey, rfl, existing, rfl⟩⟩

theorem enqueueIdempotent_returns {args : EnqueueArgs} {db db' : Db} {l l' : Session}
    (e : PyError) : ¬ (enqueueIdempotent args).Executes semantics db l (.error e) db' l' := by
  intro h
  obtain ⟨-, ⟨_, _, -, hr⟩ | ⟨-, -, _, hr⟩⟩ := enqueueIdempotent_executes h
  · exact absurd hr (by simp)
  · exact absurd hr (by simp)

/-! ### Which commands the methods issue -/

section Keeps

variable {G : Type} {K : Contract Cmd Cmd.Resp G} {I : G → Prop}

theorem enqueueIdempotent_keeps (hinsert : ∀ args, Script.Keeps K I (issue (.insertJob args)))
    (hselect : ∀ key, Script.Keeps K I (issue (.selectJob key))) (args : EnqueueArgs) :
    Script.Keeps K I (enqueueIdempotent args) := by
  refine (hinsert args).bind fun inserted => ?_
  cases inserted with
  | some job => exact Script.keeps_pure _
  | none =>
      refine (hselect args.dedupeKey).bind fun selected => ?_
      cases selected with
      | some existing => exact Script.keeps_pure _
      | none => exact Script.keeps_throw _

/-- The commands of the queue, but the owned transitions: the other statements on the job
table, and the session's cache. -/
def IsJobCmd : Cmd → Prop
  | .update (.owned ..) => False
  | .update _ | .commit | .selectCandidates .. | .load _ | .attributes _ | .generation _
  | .expire _ | .expireAll | .insertJob _ | .selectJob _ | .selectOwned .. => True
  | _ => False

variable (h : ∀ c, IsJobCmd c → Script.Keeps K I (issue c))

include h

theorem attributes_keeps (id : ℕ) : Script.Keeps K I (attributes id) :=
  (h (.attributes id) trivial).bind fun r => by
    cases r with
    | some j => exact Script.keeps_pure j
    | none => exact Script.keeps_throw _

theorem generation_keeps (id : ℕ) : Script.Keeps K I (generation id) :=
  (h (.generation id) trivial).bind fun r => by
    cases r with
    | some g => exact Script.keeps_pure g
    | none => exact Script.keeps_throw _

theorem tryClaimOne_keeps (id : ℕ) (workerId : String) (now : Instant) :
    Script.Keeps K I (tryClaimOne id workerId now) := by
  refine (h (.update (.claim id workerId now)) trivial).bind fun rowcount =>
    (h .commit trivial).bind fun _ => ?_
  split
  · exact Script.keeps_pure _
  · exact (h (.load id) trivial).bind fun job => Script.keeps_pure _

theorem claimLoop_keeps (workerId : String) (now : Instant) (limit : ℕ) (ids claimed : List ℕ) :
    Script.Keeps K I (claimLoop workerId now limit ids claimed) := by
  induction ids generalizing claimed with
  | nil => exact Script.keeps_pure _
  | cons id rest ih =>
      rw [claimLoop]
      split
      · exact Script.keeps_pure _
      · refine (tryClaimOne_keeps h id workerId now).bind fun job => ?_
        cases job with
        | some job => exact ih _
        | none => exact ih _

theorem claimNext_keeps (workerId : String) (now : Instant) (source : Option String)
    (limit : ℕ) (leaseSeconds : ℤ) :
    Script.Keeps K I (claimNext workerId now source limit leaseSeconds) := by
  have hsweep : ∀ op, IsJobCmd (.update op) → Script.Keeps K I (do
      let rowcount ← issue (.update op)
      issue .commit
      return rowcount : App ℕ) := fun op hop =>
    (h (.update op) hop).bind fun _ => (h .commit trivial).bind fun _ => Script.keeps_pure _
  refine (hsweep (.recoverExpired now leaseSeconds) trivial).bind fun _ =>
    (hsweep (.promoteDueWaiting now) trivial).bind fun _ => ?_
  refine (h (.selectCandidates ..) trivial).bind fun ids => ?_
  exact claimLoop_keeps h workerId now limit ids []

theorem claimJob_keeps (id : ℕ) (workerId : String) (now : Instant) :
    Script.Keeps K I (claimJob id workerId now) := by
  refine (attributes_keeps h id).bind fun job => (tryClaimOne_keeps h _ _ _).bind fun claimed => ?_
  cases claimed with
  | some id => exact Script.keeps_pure _
  | none => exact (attributes_keeps h id).bind fun _ => Script.keeps_throw _

/-- A transition keeps what its update keeps, whichever row is read for the job. -/
theorem ownedTransition_keeps_of {id : ℕ} {workerId : String} {generation : ℕ} {w : Transition}
    (howned : ∀ id, Script.Keeps K I (issue (.update (.owned id workerId generation w)))) :
    Script.Keeps K I (ownedTransition id workerId generation w) := by
  refine (attributes_keeps h id).bind fun job => (howned job.id).bind fun rowcount => ?_
  split
  · exact (h .expireAll trivial).bind fun _ =>
      (attributes_keeps h _).bind fun _ => Script.keeps_throw _
  · exact h (.expire _) trivial

theorem assertOwned_keeps (id : ℕ) (workerId : String) (generation : ℕ) :
    Script.Keeps K I (assertOwned id workerId generation) := by
  refine (attributes_keeps h id).bind fun job => (h (.selectOwned ..) trivial).bind fun _ => ?_
  split
  · exact Script.keeps_pure _
  · exact (attributes_keeps h id).bind fun _ => Script.keeps_throw _

variable (hattributes : ∀ id g r g', K.post (.attributes id) g r g' → ∀ j ∈ r, j.id = id)

include hattributes

/-- The row that is read has the identifier that was asked for. -/
theorem attributes_returns (id : ℕ) {g : G} (hg : I g) :
    Script.Meets K (attributes id) (fun j g' => j.id = id ∧ I g') (fun _ => I) g := by
  rw [attributes, Script.meets_bind, meets_issue]
  refine ⟨(h (.attributes id) trivial g hg).1, fun r g' hpost => ?_⟩
  have hg' : I g' := (h (.attributes id) trivial g hg).2 r g' hpost
  cases r with
  | none => exact Script.meets_throw.mpr hg'
  | some j => exact Script.meets_pure.mpr ⟨hattributes id g _ g' hpost j rfl, hg'⟩

/-- A claim that succeeds returns the identifier of the job that it was asked to claim. -/
theorem claimJob_returns
    (hload : ∀ id g r g', K.post (.load id) g r g' → ∀ j ∈ r, j.id = id)
    (id : ℕ) (workerId : String) (now : Instant) {g : G} (hg : I g) :
    Script.Meets K (claimJob id workerId now) (fun id' g' => id' = id ∧ I g') (fun _ => I) g := by
  have hstale : ∀ g, I g → Script.Meets K (do
      let job ← attributes id
      throw (.staleJobClaim job.id none workerId) : App ℕ)
      (fun id' g' => id' = id ∧ I g') (fun _ => I) g := fun g hg =>
    Script.meets_bind.mpr ((attributes_keeps h id g hg).mono
      (fun _ _ h => Script.meets_throw.mpr h) fun _ _ h => h)
  rw [claimJob, Script.meets_bind]
  refine (attributes_returns h hattributes id hg).mono ?_ fun _ _ h => h
  rintro j g₁ ⟨hj, hg₁⟩
  rw [Script.meets_bind, tryClaimOne, Script.meets_bind]
  refine (h (.update (.claim j.id workerId now)) trivial g₁ hg₁).mono (fun rowcount g₂ hg₂ => ?_) fun _ _ h => h
  rw [Script.meets_bind]
  refine (h .commit trivial g₂ hg₂).mono (fun _ g₃ hg₃ => ?_) fun _ _ h => h
  split
  · exact hstale g₃ hg₃
  · rw [Script.meets_bind, meets_issue]
    refine ⟨(h (.load j.id) trivial g₃ hg₃).1, fun r g₄ hpost => ?_⟩
    have hg₄ : I g₄ := (h (.load j.id) trivial g₃ hg₃).2 r g₄ hpost
    cases r with
    | none => exact hstale g₄ hg₄
    | some j' => exact ⟨(hload j.id g₃ _ g₄ hpost j' rfl).trans hj, hg₄⟩

theorem ownedTransition_keeps {id : ℕ} {workerId : String} {generation : ℕ} {w : Transition}
    (howned : Script.Keeps K I (issue (.update (.owned id workerId generation w)))) :
    Script.Keeps K I (ownedTransition id workerId generation w) := by
  intro g hg
  rw [ownedTransition, Script.meets_bind]
  refine (attributes_returns h hattributes id hg).mono ?_ fun _ _ h => h
  rintro j g₁ ⟨rfl, hg₁⟩
  refine (howned.bind fun rowcount => ?_) g₁ hg₁
  split
  · exact (h .expireAll trivial).bind fun _ =>
      (attributes_keeps h _).bind fun _ => Script.keeps_throw _
  · exact h (.expire _) trivial

theorem markFailed_keeps {id : ℕ} {workerId : String} {generation : ℕ}
    (howned : ∀ w, Script.Keeps K I (issue (.update (.owned id workerId generation w))))
    (error : String) (now : Instant) :
    Script.Keeps K I (markFailed id workerId generation error now) :=
  (attributes_keeps h id).bind fun _ => ownedTransition_keeps h hattributes (howned _)

end Keeps

end MarketRelay.JobQueue
