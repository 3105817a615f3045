import MarketRelay.Credentials
import MarketRelay.Models

/-!
# The Statements of the Job Queue

Every operation of the queue that changes a job is one conditional `UPDATE`, atomic in
both supported dialects: its condition selects the rows and its assignment rewrites them,
with no other statement in between. `QueueOp` lists these statements with the arguments
they are given, `QueueOp.row` is what a statement does to one row, and `JobEvent` adds the
two ways in which a row is inserted. A run of the queue by any number of workers is a
list of events: whatever the workers are doing, the database executes one statement after
the other.

The five owned transitions share one statement (`QueueOp.owned`, the body of
`_owned_transition`) and differ in the statuses they allow and the values they write
(`Transition`).

## Main results

* `JobEvent.get?_apply`: an event acts on each row separately, or creates it.
* `get?_runEvents`: so does a run.
* `QueueOp.owned_run_eq_self`: an owned transition whose token does not hold the job
  changes nothing.
-/

open Relational

namespace MarketRelay

/-! ### Backoff -/

def backoffBaseSeconds : ℕ := 30

def backoffCapSeconds : ℕ := 3600

def defaultQuotaDeferSeconds : ℕ := 3600

/-- Bounded exponential backoff: `base * 2 ** (attempt - 1)`, capped at `cap`. -/
def backoffSeconds (attemptCount : ℕ) : ℕ :=
  if attemptCount = 0 then 0
  else min (backoffBaseSeconds * 2 ^ (attemptCount - 1)) backoffCapSeconds

/-- A retry is never delayed beyond the cap. -/
theorem backoffSeconds_le (n : ℕ) : backoffSeconds n ≤ backoffCapSeconds := by
  unfold backoffSeconds
  split
  · exact Nat.zero_le _
  · exact min_le_right _ _

/-! ### The owned transitions -/

/-- The arguments that the callers of `_owned_transition` pass to it. -/
inductive Transition where
  | markRunning
  | markDone
  | markWaitingForPublication (retryAt : Instant)
  | deferForQuota (nextRunAt : Instant)
  | markFailed (nextAttempt : ℕ) (nextStatus : JobStatus) (lastError : String)
      (nextRunAt : Instant)
deriving DecidableEq, Repr

namespace Transition

/-- `allowed_statuses` -/
def allowedStatuses : Transition → List JobStatus
  | markRunning => [.claimed]
  | markDone => [.running]
  | markWaitingForPublication _ | deferForQuota _ | markFailed .. => [.claimed, .running]

/-- `values`, written over a row. -/
def values : Transition → Job → Job
  | markRunning, j => { j with status := .running }
  | markDone, j => { j with status := .done, lastError := none }
  | markWaitingForPublication retryAt, j =>
    { j with
      status := .waitingForPublication
      nextRunAt := retryAt
      lastError := none
      claimedBy := none
      claimedAt := none }
  | deferForQuota nextRunAt, j =>
    { j with
      status := .pending
      nextRunAt := nextRunAt
      lastError := none
      claimedBy := none
      claimedAt := none }
  | markFailed nextAttempt nextStatus lastError nextRunAt, j =>
    { j with
      attemptCount := nextAttempt
      lastError := some lastError
      status := nextStatus
      nextRunAt := nextRunAt
      claimedBy := none
      claimedAt := none }

/-- The values of `defer_for_quota`: the known reset, or a default delay. -/
def quota (resetAt : Option Instant) (now : Instant) : Transition :=
  deferForQuota (resetAt.getD (now + seconds defaultQuotaDeferSeconds))

/-- The values of `mark_failed`, computed from the caller's copy of the job. -/
def failure (copy : Job) (error : String) (now : Instant) : Transition :=
  let nextAttempt := copy.attemptCount + 1
  markFailed nextAttempt
    (if copy.maxAttempts ≤ nextAttempt then .failed else .pending)
    (String.ofList ((sanitizeMessage error []).toList.take 1024))
    (now + seconds (backoffSeconds nextAttempt))

@[simp] theorem values_id (w : Transition) (j : Job) : (w.values j).id = j.id := by
  cases w <;> rfl

@[simp] theorem values_dedupeKey (w : Transition) (j : Job) :
    (w.values j).dedupeKey = j.dedupeKey := by
  cases w <;> rfl

@[simp] theorem values_generation (w : Transition) (j : Job) :
    (w.values j).generation = j.generation := by
  cases w <;> rfl

@[simp] theorem values_source (w : Transition) (j : Job) : (w.values j).source = j.source := by
  cases w <;> rfl

@[simp] theorem values_cursor (w : Transition) (j : Job) : (w.values j).cursor = j.cursor := by
  cases w <;> rfl

/-- A transition is allowed only from a status in which a worker owns the job. -/
theorem held_of_mem_allowedStatuses {w : Transition} {s : JobStatus}
    (h : s ∈ w.allowedStatuses) : s.held = true := by
  cases w <;> simp only [allowedStatuses, List.mem_cons, List.not_mem_nil, or_false] at h
  case markRunning | markDone => rw [h]; rfl
  all_goals obtain rfl | rfl := h <;> rfl

/-- A transition keeps the owner or clears it. -/
theorem values_claimedBy (w : Transition) (j : Job) :
    (w.values j).claimedBy = j.claimedBy ∨ (w.values j).claimedBy = none := by
  cases w <;> simp [values]

end Transition

/-! ### The statements -/

/-- The conditional updates of the queue, with the arguments they are given. -/
inductive QueueOp where
  /-- `_try_claim_one` -/
  | claim (id : ℕ) (workerId : String) (now : Instant)
  | recoverExpired (now : Instant) (leaseSeconds : ℤ)
  | promoteDueWaiting (now : Instant)
  /-- `_owned_transition` -/
  | owned (id : ℕ) (workerId : String) (generation : ℕ) (w : Transition)
deriving DecidableEq, Repr

namespace QueueOp

/-- The `WHERE` clause. -/
def cond : QueueOp → Job → Bool
  | claim id _ _, j => decide (j.id = id) && decide (j.status = .pending)
  | recoverExpired now leaseSeconds, j =>
    j.status.held && j.claimedAt.any fun at_ => decide (at_ ≤ now - seconds leaseSeconds)
  | promoteDueWaiting now, j =>
    decide (j.status = .waitingForPublication) && decide (j.nextRunAt ≤ now)
  | owned id workerId generation w, j =>
    decide (j.id = id) && (decide (j.status ∈ w.allowedStatuses) &&
      decide (j.claimedBy = some workerId) && decide (j.generation = generation))

/-- The `SET` clause. -/
def set : QueueOp → Job → Job
  | claim _ workerId now, j =>
    { j with
      status := .claimed
      claimedBy := some workerId
      claimedAt := some now
      generation := j.generation + 1 }
  | recoverExpired now _, j =>
    { j with
      status := if j.maxAttempts ≤ j.attemptCount + 1 then .failed else .pending
      attemptCount := j.attemptCount + 1
      nextRunAt := now
      claimedBy := none
      claimedAt := none
      generation := j.generation + 1
      lastError := some "claim_lease_expired" }
  | promoteDueWaiting _, j => { j with status := .pending }
  | owned _ _ _ w, j => w.values j

attribute [local simp] cond set

@[simp] theorem set_id (op : QueueOp) (j : Job) : (op.set j).id = j.id := by
  cases op <;> simp [set]

@[simp] theorem set_dedupeKey (op : QueueOp) (j : Job) :
    (op.set j).dedupeKey = j.dedupeKey := by
  cases op <;> simp [set]

@[simp] theorem set_source (op : QueueOp) (j : Job) : (op.set j).source = j.source := by
  cases op <;> simp [set]

@[simp] theorem set_cursor (op : QueueOp) (j : Job) : (op.set j).cursor = j.cursor := by
  cases op <;> simp [set]

/-- The assignment of a statement, as an edit of the table's rows. -/
def edit (op : QueueOp) : Edit Job := Job.edit op.set op.set_id op.set_dedupeKey

/-- Execute the statement. -/
def run (op : QueueOp) (t : JobTable) : JobTable := t.update op.cond op.edit

/-- The number of rows it changed. -/
def rowcount (op : QueueOp) (t : JobTable) : ℕ := t.count op.cond

/-- What the statement does to one row. -/
def row (op : QueueOp) (j : Job) : Job := if op.cond j then op.set j else j

theorem get?_run (op : QueueOp) (t : JobTable) (id : ℕ) :
    (op.run t).get? id = (t.get? id).map op.row :=
  Table.get?_update t op.cond op.edit id

@[simp] theorem row_id (op : QueueOp) (j : Job) : (op.row j).id = j.id := by
  unfold row
  split
  · exact op.set_id j
  · rfl

@[simp] theorem row_source (op : QueueOp) (j : Job) : (op.row j).source = j.source := by
  unfold row
  split
  · exact op.set_source j
  · rfl

@[simp] theorem row_cursor (op : QueueOp) (j : Job) : (op.row j).cursor = j.cursor := by
  unfold row
  split
  · exact op.set_cursor j
  · rfl

@[simp] theorem row_dedupeKey (op : QueueOp) (j : Job) :
    (op.row j).dedupeKey = j.dedupeKey := by
  unfold row
  split
  · exact op.set_dedupeKey j
  · rfl

theorem row_of_cond {op : QueueOp} {j : Job} (h : op.cond j = true) : op.row j = op.set j :=
  if_pos h

theorem row_of_not_cond {op : QueueOp} {j : Job} (h : op.cond j = false) : op.row j = j :=
  if_neg (Bool.eq_false_iff.mp h)

/-! ### What each condition means -/

theorem cond_claim {id : ℕ} {workerId : String} {now : Instant} {j : Job} :
    (claim id workerId now).cond j = true ↔ j.id = id ∧ j.status = .pending := by
  simp [cond]

theorem cond_recoverExpired {now : Instant} {leaseSeconds : ℤ} {j : Job} :
    (recoverExpired now leaseSeconds).cond j = true ↔
      j.status.held = true ∧ ∃ c, j.claimedAt = some c ∧ c ≤ now - seconds leaseSeconds := by
  simp [cond, Option.any_eq_true]

theorem cond_promoteDueWaiting {now : Instant} {j : Job} :
    (promoteDueWaiting now).cond j = true ↔
      j.status = .waitingForPublication ∧ j.nextRunAt ≤ now := by
  simp [cond]

theorem cond_owned {id : ℕ} {workerId : String} {generation : ℕ} {w : Transition} {j : Job} :
    (owned id workerId generation w).cond j = true ↔
      j.id = id ∧ j.status ∈ w.allowedStatuses ∧ j.claimedBy = some workerId ∧
        j.generation = generation := by
  simp [cond, and_assoc]

/-- No statement lowers a generation. -/
theorem generation_le_row (op : QueueOp) (j : Job) : j.generation ≤ (op.row j).generation := by
  unfold row
  split
  · cases op <;> simp [set]
  · exact le_rfl

end QueueOp

/-! ### Events and runs -/

/-- The arguments of `enqueue_idempotent`. -/
structure EnqueueArgs where
  jobType : String
  source : String
  dedupeKey : String
  listingId : Option ℕ
  cursor : Option String
  runAt : Instant
  maxAttempts : ℕ
deriving DecidableEq, Repr

/-- The row that `enqueue_idempotent` builds. -/
def newJob (args : EnqueueArgs) (id : ℕ) (createdAt : Instant) : Job where
  id := id
  jobType := args.jobType
  dedupeKey := args.dedupeKey
  source := args.source
  listingId := args.listingId
  status := .pending
  cursor := args.cursor
  attemptCount := 0
  maxAttempts := args.maxAttempts
  nextRunAt := args.runAt
  claimedBy := none
  claimedAt := none
  generation := 0
  lastError := none
  createdAt := createdAt

/-- Insert a row inside a savepoint: on a conflict with a unique constraint nothing
changes. -/
def insertIfNew (j : Job) (t : JobTable) : JobTable := (t.insert? j).getD t

/-- The status that dispatch assigns to the new job of dates that await publication. -/
def Job.wait (j : Job) : Job := { j with status := .waitingForPublication }

/-- The assignment, as an edit of the table's rows. -/
def Job.waitEdit : Edit Job := Job.edit Job.wait (fun _ => rfl) fun _ => rfl

/-- The result of an enqueue. -/
structure EnqueueResult where
  job : Job
  created : Bool
deriving DecidableEq, Repr

/-- Enqueue a job, or return the existing one for its deduplication key. `none` is the
re-raised `IntegrityError` of a conflict that no row explains. -/
def enqueueIdempotent (args : EnqueueArgs) (uuid : ℕ) (createdAt : Instant) (t : JobTable) :
    Option (EnqueueResult × JobTable) :=
  let job := newJob args (t.draw uuid) createdAt
  match t.insert? job with
  | some t' => some (⟨job, true⟩, t')
  | none =>
    (t.rows.find? fun j => j.dedupeKey = args.dedupeKey).map fun existing =>
      (⟨existing, false⟩, t)

/-- What can happen to the job table. -/
inductive JobEvent where
  /-- `enqueue_idempotent` -/
  | enqueue (args : EnqueueArgs) (uuid : ℕ) (createdAt : Instant)
  /-- The waiting job of `plan_and_enqueue`: enqueued and, when the row is new, moved to
  `WAITING_FOR_PUBLICATION` before the transaction commits. -/
  | enqueueWaiting (args : EnqueueArgs) (uuid : ℕ) (createdAt : Instant)
  | statement (op : QueueOp)
deriving DecidableEq, Repr

namespace JobEvent

def apply : JobEvent → JobTable → JobTable
  | enqueue args uuid createdAt, t => insertIfNew (newJob args (t.draw uuid) createdAt) t
  | enqueueWaiting args uuid createdAt, t =>
    insertIfNew
      { newJob args (t.draw uuid) createdAt with status := .waitingForPublication } t
  | statement op, t => op.run t

/-- What an event does to a row that exists. -/
def row : JobEvent → Job → Job
  | statement op, j => op.row j
  | _, j => j

/-- A row that an event may create. -/
def Creates : JobEvent → Job → Prop
  | enqueue args _ createdAt, j => j = newJob args j.id createdAt
  | enqueueWaiting args _ createdAt, j =>
    j = { newJob args j.id createdAt with status := .waitingForPublication }
  | statement _, _ => False

/-- An insert leaves the rows of the other keys alone. -/
private theorem get?_insertIfNew {t : JobTable} {j : Job} (hid : t.get? j.id = none) (id : ℕ) :
    (insertIfNew j t).get? id = t.get? id ∨
      t.get? id = none ∧ (insertIfNew j t).get? id = some j := by
  unfold insertIfNew
  cases h : t.insert? j with
  | none => exact Or.inl rfl
  | some t' =>
      have hget := Table.get?_insert? h id
      simp only [Option.getD_some]
      by_cases hk : j.id = id
      · subst hk
        exact Or.inr ⟨hid, by rw [hget]; simp⟩
      · exact Or.inl (by rw [hget]; simp [hk])

/-- An event acts on each row separately, or creates it. -/
theorem get?_apply (e : JobEvent) (t : JobTable) (id : ℕ) :
    (e.apply t).get? id = (t.get? id).map e.row ∨
      t.get? id = none ∧ ∃ j, (e.apply t).get? id = some j ∧ e.Creates j := by
  cases e with
  | statement op => exact Or.inl (op.get?_run t id)
  | enqueue args uuid createdAt =>
      have hdraw : t.get? (newJob args (t.draw uuid) createdAt).id = none := t.get?_draw uuid
      rcases get?_insertIfNew hdraw id with h | ⟨h, h'⟩
      · exact Or.inl (h.trans Option.map_id'.symm)
      · exact Or.inr ⟨h, _, h', rfl⟩
  | enqueueWaiting args uuid createdAt =>
      have hdraw : t.get? (newJob args (t.draw uuid) createdAt).id = none := t.get?_draw uuid
      rcases get?_insertIfNew
        (j := { newJob args (t.draw uuid) createdAt with status := .waitingForPublication })
        hdraw id with h | ⟨h, h'⟩
      · exact Or.inl (h.trans Option.map_id'.symm)
      · exact Or.inr ⟨h, _, h', rfl⟩

theorem get?_apply_of_some {e : JobEvent} {t : JobTable} {id : ℕ} {j : Job}
    (h : t.get? id = some j) : (e.apply t).get? id = some (e.row j) := by
  rcases e.get?_apply t id with he | ⟨hn, -⟩
  · rw [he, h]; rfl
  · rw [h] at hn; exact absurd hn (by simp)

theorem generation_le_row (e : JobEvent) (j : Job) : j.generation ≤ (e.row j).generation := by
  cases e with
  | statement op => exact op.generation_le_row j
  | _ => exact le_rfl

end JobEvent

/-- A run of the queue. -/
def runEvents (t : JobTable) (es : List JobEvent) : JobTable :=
  es.foldl (fun t e => e.apply t) t

/-- What a run does to a row that exists. -/
def runRow (j : Job) (es : List JobEvent) : Job := es.foldl (fun j e => e.row j) j

@[simp] theorem runEvents_nil (t : JobTable) : runEvents t [] = t := rfl

@[simp] theorem runEvents_cons (t : JobTable) (e : JobEvent) (es : List JobEvent) :
    runEvents t (e :: es) = runEvents (e.apply t) es := rfl

theorem runEvents_append (t : JobTable) (es es' : List JobEvent) :
    runEvents t (es ++ es') = runEvents (runEvents t es) es' :=
  List.foldl_append

/-- A run acts on each existing row separately. -/
theorem get?_runEvents {t : JobTable} {id : ℕ} {j : Job} (h : t.get? id = some j)
    (es : List JobEvent) : (runEvents t es).get? id = some (runRow j es) := by
  induction es generalizing t j with
  | nil => exact h
  | cons e es ih => exact ih (JobEvent.get?_apply_of_some h)

/-- Over a run the generation of a row never decreases. -/
theorem generation_le_runRow (j : Job) (es : List JobEvent) :
    j.generation ≤ (runRow j es).generation := by
  induction es generalizing j with
  | nil => exact le_rfl
  | cons e es ih => exact le_trans (e.generation_le_row j) (ih (e.row j))

/-! ### Tokens -/

/-- The row is owned under the token `(workerId, generation)`. -/
def Job.HeldBy (j : Job) (workerId : String) (generation : ℕ) : Prop :=
  j.status.held = true ∧ j.claimedBy = some workerId ∧ j.generation = generation

instance (j : Job) (workerId : String) (generation : ℕ) :
    Decidable (j.HeldBy workerId generation) :=
  inferInstanceAs (Decidable (_ ∧ _ ∧ _))

/-- An owned transition that changes a row was presented with the token that holds it. -/
theorem QueueOp.heldBy_of_cond_owned {id g : ℕ} {workerId : String} {w : Transition} {j : Job}
    (h : (QueueOp.owned id workerId g w).cond j = true) : j.id = id ∧ j.HeldBy workerId g := by
  obtain ⟨hid, hs, hw, hg⟩ := QueueOp.cond_owned.mp h
  exact ⟨hid, Transition.held_of_mem_allowedStatuses hs, hw, hg⟩

/-- An owned transition whose token does not hold the job changes nothing. -/
theorem QueueOp.owned_run_eq_self {t : JobTable} {id g : ℕ} {workerId : String} {w : Transition}
    (h : ∀ j, t.get? id = some j → ¬ j.HeldBy workerId g) :
    (QueueOp.owned id workerId g w).run t = t := by
  refine Table.update_eq_self fun j hj => ?_
  by_contra hc
  rw [Bool.not_eq_false] at hc
  obtain ⟨hid, hheld⟩ := QueueOp.heldBy_of_cond_owned hc
  exact h j (Table.get?_eq_some_iff.mpr ⟨hj, hid⟩) hheld

end MarketRelay
