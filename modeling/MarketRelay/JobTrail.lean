import MarketRelay.Lib.Machine
import MarketRelay.Lifecycle

/-!
# The Trail of a Job

What the job table is for, one job at a time: a small machine with the moves of a job (`jobLife`). It
knows no copies of rows and no other jobs. A move is made by the worker that the job has been handed
to, under the generation that it was handed out with, and a failed move counts one more attempt than
the job itself has.

Every run of the queue, in any interleaving, shows each job a trail of such moves, and the machine
accepts all of them (`job_trail_accepted`). So whatever holds of the trails of the machine holds of the
queue, and the books of a job can be read off its trail.

## Main results

* `QueueOp.step_move`: a statement that applies to a row is a move of its job.
* `job_trail_accepted`: the table refines the machine, for every job.
* `job_claims_accounted`: what became of the claims of a job.
-/

open Relational

namespace MarketRelay

/-! ### The machine -/

/-- The moves of a job. -/
inductive JobMove where
  | submit (limit : ℕ) (waiting : Bool)
  | claim (workerId : String)
  | start (workerId : String) (generation : ℕ)
  | complete (workerId : String) (generation : ℕ)
  | await (workerId : String) (generation : ℕ)
  | defer (workerId : String) (generation : ℕ)
  | fail (workerId : String) (generation : ℕ)
  | expire
  | release
deriving DecidableEq, Repr

/-- What the machine knows of a job. -/
structure JobLife where
  status : JobStatus
  attempts : ℕ
  limit : ℕ
  generation : ℕ
  owner : Option String
deriving DecidableEq, Repr

namespace JobLife

/-- The job has been handed to this worker, under this generation. -/
def OwnedBy (s : JobLife) (workerId : String) (generation : ℕ) : Prop :=
  s.status.held = true ∧ s.owner = some workerId ∧ s.generation = generation

instance (s : JobLife) (workerId : String) (generation : ℕ) :
    Decidable (s.OwnedBy workerId generation) :=
  inferInstanceAs (Decidable (_ ∧ _ ∧ _))

/-- One attempt has been spent: the last one ends the job. -/
def spend (s : JobLife) : JobLife :=
  { s with
    status := if s.limit ≤ s.attempts + 1 then .failed else .pending
    attempts := s.attempts + 1
    owner := none }

/-- The moves of a job that exists. -/
def step (s : JobLife) : JobMove → Option JobLife
  | .submit _ _ => none
  | .claim workerId =>
    if s.status = .pending then
      some { s with status := .claimed, owner := some workerId, generation := s.generation + 1 }
    else none
  | .start workerId generation =>
    if s.OwnedBy workerId generation ∧ s.status = .claimed then some { s with status := .running }
    else none
  | .complete workerId generation =>
    if s.OwnedBy workerId generation ∧ s.status = .running then some { s with status := .done }
    else none
  | .await workerId generation =>
    if s.OwnedBy workerId generation then
      some { s with status := .waitingForPublication, owner := none }
    else none
  | .defer workerId generation =>
    if s.OwnedBy workerId generation then some { s with status := .pending, owner := none } else none
  | .fail workerId generation => if s.OwnedBy workerId generation then some s.spend else none
  | .expire =>
    if s.status.held then some { s.spend with generation := s.generation + 1 } else none
  | .release =>
    if s.status = .waitingForPublication then some { s with status := .pending } else none

end JobLife

/-- The life of a job, from before it exists. -/
def jobLife : Machine (Option JobLife) JobMove where
  start := none
  step
    | none, .submit limit waiting =>
      some (some ⟨if waiting then .waitingForPublication else .pending, 0, limit, 0, none⟩)
    | none, _ => none
    | some s, move => (s.step move).map some

/-! ### The view of a row -/

/-- What the machine knows of the job of a row. -/
def Job.life (j : Job) : JobLife :=
  ⟨j.status, j.attemptCount, j.maxAttempts, j.generation, j.claimedBy⟩

/-- The move of a transition. -/
def Transition.move (workerId : String) (generation : ℕ) : Transition → JobMove
  | markRunning => .start workerId generation
  | markDone => .complete workerId generation
  | markWaitingForPublication _ => .await workerId generation
  | deferForQuota _ => .defer workerId generation
  | markFailed .. => .fail workerId generation

/-- The move of a statement. -/
def QueueOp.move : QueueOp → JobMove
  | claim _ workerId _ => .claim workerId
  | recoverExpired _ _ => .expire
  | promoteDueWaiting _ => .release
  | owned _ workerId generation w => w.move workerId generation

/-- The move that an event is for a job: none, when it does not touch its row. -/
def JobTable.moveOf (t : JobTable) (id : ℕ) : JobEvent → Option JobMove
  | .statement op => (t.get? id).bind fun j => if op.cond j then some op.move else none
  | .enqueue args uuid createdAt =>
    if t.get? id = none ∧ ((JobEvent.enqueue args uuid createdAt).apply t).get? id ≠ none then
      some (.submit args.maxAttempts false)
    else none
  | .enqueueWaiting args uuid createdAt =>
    if t.get? id = none ∧ ((JobEvent.enqueueWaiting args uuid createdAt).apply t).get? id ≠ none then
      some (.submit args.maxAttempts true)
    else none

section Statement

variable {j : Job} {op : QueueOp}

theorem Job.ownedBy_life {workerId : String} {generation : ℕ} (h : j.HeldBy workerId generation) :
    j.life.OwnedBy workerId generation := h

/-- **A statement that applies to a row is a move of its job**, if a failure has been computed from a
current copy. -/
theorem QueueOp.step_move (hc : op.cond j = true)
    (hcur : ∀ id w g tr, op = .owned id w g tr → tr.CurrentFor j) :
    j.life.step op.move = some (op.set j).life := by
  cases op with
  | claim id workerId now => exact if_pos (QueueOp.cond_claim.mp hc).2
  | recoverExpired now leaseSeconds => exact if_pos (QueueOp.cond_recoverExpired.mp hc).1
  | promoteDueWaiting now => exact if_pos (QueueOp.cond_promoteDueWaiting.mp hc).1
  | owned id workerId generation w =>
      have howned := Job.ownedBy_life (QueueOp.heldBy_of_cond_owned hc).2
      have hmem := (QueueOp.cond_owned.mp hc).2.1
      cases w with
      | markRunning => exact if_pos ⟨howned, List.mem_singleton.mp hmem⟩
      | markDone => exact if_pos ⟨howned, List.mem_singleton.mp hmem⟩
      | markWaitingForPublication | deferForQuota => exact if_pos howned
      | markFailed nextAttempt nextStatus lastError nextRunAt =>
          obtain ⟨rfl, rfl⟩ := hcur _ _ _ _ rfl _ _ _ _ rfl
          exact if_pos howned

end Statement

namespace JobHistory

/-- The tables after one more event. -/
theorem foldl_next_jobs (h : JobHistory) (events : List JobEvent) :
    (events.foldl next h).jobs = runEvents h.jobs events := by
  induction events generalizing h with
  | nil => rfl
  | cons e events ih => exact ih (h.next e)

/-- The moves that the events of a run are for a job. -/
def trail (h : JobHistory) (id : ℕ) (events : List JobEvent) : List JobMove :=
  Machine.labels next (fun h e => h.jobs.moveOf id e) h events

/-- What the machine knows of a job of the table. -/
def view (h : JobHistory) (id : ℕ) : Option JobLife := (h.jobs.get? id).map Job.life

/-- The runs that the callers of the queue can cause. -/
def Admits (h : JobHistory) (events : List JobEvent) : Prop :=
  Machine.Admits next Admissible h events

variable {h : JobHistory} {e : JobEvent} {id : ℕ}

/-- **The machine takes every event**, from the view of the row before to that of the row after. -/
theorem run_moveOf (hi : h.Inv) (ha : h.Admissible e) (id : ℕ) :
    jobLife.run (h.view id) (h.jobs.moveOf id e).toList = some ((h.next e).view id) := by
  rw [view, view]
  cases hj : h.jobs.get? id with
  | some j =>
      have hnext : (h.next e).jobs.get? id = some (e.row j) := JobEvent.get?_apply_of_some hj
      rw [hnext]
      cases e with
      | statement op =>
          cases hc : op.cond j with
          | false =>
              simp [JobTable.moveOf, hj, hc, JobEvent.row, QueueOp.row_of_not_cond hc]
          | true =>
              have hid : j.id = id := (Table.mem_of_get? hj).2
              have hstep := QueueOp.step_move hc fun id' w g tr hop =>
                (hi.1 id j hj).currentFor ha hid hop hc
              simp [JobTable.moveOf, hj, hc, JobEvent.row, QueueOp.row_of_cond hc, jobLife, hstep]
      | enqueue args uuid createdAt => simp [JobTable.moveOf, hj, JobEvent.row]
      | enqueueWaiting args uuid createdAt => simp [JobTable.moveOf, hj, JobEvent.row]
  | none =>
      rcases e.get?_apply h.jobs id with hrow | ⟨-, j, hnew, hcreates⟩
      · have hnext : (h.next e).jobs.get? id = none := by rw [next, hrow, hj]; rfl
        rw [hj] at hrow
        cases e <;> simp_all [JobTable.moveOf]
      · have hnext : (h.next e).jobs.get? id = some j := hnew
        rw [hnext]
        cases e with
        | statement => exact hcreates.elim
        | enqueue args uuid createdAt =>
            rw [hcreates]
            simp [JobTable.moveOf, hj, hnew, jobLife, newJob, Job.life]
        | enqueueWaiting args uuid createdAt =>
            rw [hcreates]
            simp [JobTable.moveOf, hj, hnew, jobLife, newJob, Job.life]

theorem Admits.inv {events : List JobEvent} (hadmits : start.Admits events) :
    (events.foldl next start).Inv :=
  Machine.Admits.invariant (fun _ _ hi ha => hi.next ha) Reachable.start.inv hadmits

end JobHistory

/-- **The table refines the machine, for every job**: in any interleaving of the events of the queue
from the empty table, the moves that a job is shown are accepted, and lead to what its row says. -/
theorem job_trail_accepted {events : List JobEvent} (hadmits : JobHistory.start.Admits events)
    (id : ℕ) : jobLife.run none (JobHistory.start.trail id events) =
      some (((runEvents .empty events).get? id).map Job.life) := by
  have hkeep : ∀ (h : JobHistory) (e : JobEvent), h.Inv → h.Admissible e → (h.next e).Inv :=
    fun _ _ hi ha => hi.next ha
  have hstep : ∀ (h : JobHistory) (e : JobEvent), h.Inv → h.Admissible e →
      jobLife.run (h.view id) (h.jobs.moveOf id e).toList = some ((h.next e).view id) :=
    fun _ _ hi ha => JobHistory.run_moveOf hi ha id
  have hrun := Machine.run_labels hkeep hstep JobHistory.Reachable.start.inv hadmits
  rw [JobHistory.view, JobHistory.view, JobHistory.foldl_next_jobs] at hrun
  exact hrun

/-- The trail of a job that is claimed, and failed from the copy that the claim has loaded. -/
theorem job_trail_accepted_failed :
    let job := newJob ⟨"fetch_range", "fake", "single", none, none, 0, 2⟩ 7 0
    let copy := { job with
      status := .claimed, claimedBy := some "w", claimedAt := some 0, generation := 1 }
    let events : List JobEvent :=
      [.enqueue ⟨"fetch_range", "fake", "single", none, none, 0, 2⟩ 7 0,
        .statement (.claim 7 "w" 0),
        .statement (.owned 7 "w" 1 (.failure copy "adapter_error" 0))]
    JobHistory.start.trail 7 events = [.submit 2 false, .claim "w", .fail "w" 1] ∧
      jobLife.run none (JobHistory.start.trail 7 events) = some (some ⟨.pending, 1, 2, 1, none⟩) := by
  intro job copy events
  have hadmits : JobHistory.start.Admits events :=
    ⟨Nat.le_succ 1, trivial, ⟨_, List.mem_cons_self, copy, "adapter_error", 0, by decide, by decide, rfl⟩,
      trivial⟩
  exact ⟨by decide +kernel, (job_trail_accepted hadmits 7).trans (by decide +kernel)⟩

/-! ### The books of a job -/

/-- What a move is, whoever makes it. -/
inductive MoveKind where
  | submit
  | claim
  | start
  | complete
  | await
  | defer
  | fail
  | expire
  | release
deriving DecidableEq, Repr

def JobMove.kind : JobMove → MoveKind
  | submit _ _ => .submit
  | claim _ => .claim
  | start _ _ => .start
  | complete _ _ => .complete
  | await _ _ => .await
  | defer _ _ => .defer
  | fail _ _ => .fail
  | expire => .expire
  | release => .release

/-- How many moves of a trail are of a kind. -/
def timesMoved (kind : MoveKind) (trail : List JobMove) : ℕ := (trail.map JobMove.kind).count kind

@[simp] theorem timesMoved_concat (kind : MoveKind) (trail : List JobMove) (move : JobMove) :
    timesMoved kind (trail ++ [move]) = timesMoved kind trail + if move.kind = kind then 1 else 0 := by
  simp [timesMoved, List.count_singleton]

/-- The books of a job: every claim has had one end, unless the job is still held. -/
structure JobLife.Books (s : JobLife) (trail : List JobMove) : Prop where
  submitted : timesMoved .submit trail = 1
  generation : s.generation = timesMoved .claim trail + timesMoved .expire trail
  attempts : s.attempts = timesMoved .fail trail + timesMoved .expire trail
  claims : timesMoved .claim trail = timesMoved .complete trail + timesMoved .fail trail +
    timesMoved .expire trail + timesMoved .defer trail + timesMoved .await trail +
    if s.status.held then 1 else 0
  completed : timesMoved .complete trail = if s.status = .done then 1 else 0

section Books

variable {s s' : JobLife} {trail : List JobMove} {move : JobMove}

theorem JobStatus.ne_done_of_held {status : JobStatus} (h : status.held = true) :
    status ≠ .done := by
  rintro rfl
  exact absurd h (by decide)

@[simp] theorem JobLife.attempts_spend (s : JobLife) : s.spend.attempts = s.attempts + 1 := rfl

@[simp] theorem JobLife.generation_spend (s : JobLife) : s.spend.generation = s.generation := rfl

theorem JobLife.held_spend (s : JobLife) : s.spend.status.held = false ∧ s.spend.status ≠ .done := by
  rw [JobLife.spend]
  dsimp only
  split <;> exact ⟨rfl, by decide⟩

/-- **Every move keeps the books.** -/
theorem JobLife.Books.step (h : s.Books trail) (hs : s.step move = some s') :
    s'.Books (trail ++ [move]) := by
  obtain ⟨hsubmitted, hgeneration, hattempts, hclaims, hcompleted⟩ := h
  cases move with
  | submit => exact absurd hs (by simp [JobLife.step])
  | claim workerId =>
      obtain ⟨hstatus, hs⟩ := Option.ite_none_right_eq_some.mp hs
      obtain rfl := Option.some.inj hs
      simp only [hstatus, JobStatus.held, Bool.false_eq_true, reduceCtorEq, if_false]
        at hclaims hcompleted
      constructor <;> simp [JobMove.kind, JobStatus.held] <;> omega
  | start workerId generation =>
      obtain ⟨⟨-, hstatus⟩, hs⟩ := Option.ite_none_right_eq_some.mp hs
      obtain rfl := Option.some.inj hs
      simp only [hstatus, JobStatus.held, reduceCtorEq, if_true, if_false] at hclaims hcompleted
      constructor <;> simp [JobMove.kind, JobStatus.held] <;> omega
  | complete workerId generation =>
      obtain ⟨⟨-, hstatus⟩, hs⟩ := Option.ite_none_right_eq_some.mp hs
      obtain rfl := Option.some.inj hs
      simp only [hstatus, JobStatus.held, reduceCtorEq, if_true, if_false] at hclaims hcompleted
      constructor <;> simp [JobMove.kind, JobStatus.held] <;> omega
  | await workerId generation | defer workerId generation =>
      obtain ⟨⟨hheld, -⟩, hs⟩ := Option.ite_none_right_eq_some.mp hs
      obtain rfl := Option.some.inj hs
      simp only [hheld, JobStatus.ne_done_of_held hheld, if_true, if_false] at hclaims hcompleted
      constructor <;> simp [JobMove.kind, JobStatus.held] <;> omega
  | fail workerId generation =>
      obtain ⟨⟨hheld, -⟩, hs⟩ := Option.ite_none_right_eq_some.mp hs
      obtain rfl := Option.some.inj hs
      obtain ⟨hspent, hdone⟩ := s.held_spend
      simp only [hheld, JobStatus.ne_done_of_held hheld, if_true, if_false] at hclaims hcompleted
      constructor <;> simp [JobMove.kind, hspent, hdone] <;> omega
  | expire =>
      obtain ⟨hheld, hs⟩ := Option.ite_none_right_eq_some.mp hs
      obtain rfl := Option.some.inj hs
      obtain ⟨hspent, hdone⟩ := s.held_spend
      simp only [hheld, JobStatus.ne_done_of_held hheld, if_true, if_false] at hclaims hcompleted
      constructor <;> simp [JobMove.kind, hspent, hdone] <;> omega
  | release =>
      obtain ⟨hstatus, hs⟩ := Option.ite_none_right_eq_some.mp hs
      obtain rfl := Option.some.inj hs
      simp only [hstatus, JobStatus.held, Bool.false_eq_true, reduceCtorEq, if_false]
        at hclaims hcompleted
      constructor <;> simp [JobMove.kind, JobStatus.held] <;> omega

/-- **The books of every accepted trail are right**: a job that does not exist has had no move. -/
theorem books_of_run {life : Option JobLife} (h : jobLife.run none trail = some life) :
    (life = none → trail = []) ∧ ∀ s, life = some s → s.Books trail := by
  induction trail using List.reverseRecOn generalizing life with
  | nil =>
      obtain rfl := Option.some.inj h
      exact ⟨fun _ => rfl, fun s hs => absurd hs (by simp)⟩
  | append_singleton before move ih =>
      rw [Machine.run_append, Option.bind_eq_some_iff] at h
      obtain ⟨middle, hbefore, hstep⟩ := h
      rw [Machine.run_singleton] at hstep
      obtain ⟨hnone, hsome⟩ := ih hbefore
      cases middle with
      | none =>
          rw [hnone rfl]
          cases move with
          | submit limit waiting =>
              obtain rfl := Option.some.inj hstep
              refine ⟨fun hs => absurd hs (by simp), fun s hs => ?_⟩
              obtain rfl := Option.some.inj hs
              cases waiting <;> exact ⟨rfl, rfl, rfl, rfl, rfl⟩
          | _ => exact absurd hstep (by simp [jobLife])
      | some s =>
          obtain ⟨s', hs', rfl⟩ := Option.map_eq_some_iff.mp hstep
          refine ⟨fun hs => absurd hs (by simp), fun s₁ hs₁ => ?_⟩
          obtain rfl := Option.some.inj hs₁
          exact (hsome s rfl).step hs'

end Books

/-- **The claims of a job are accounted for**: in any interleaving of the events of the queue, the
generation of a job counts its claims and its expired leases, its attempts count its failures and its
expired leases, and every claim has ended once: in a completion, a failure, an expired lease, a deferral
or a wait, unless it is still held. A job is completed once at most, and is claimed no more often than
it has attempts, and once more for every deferral and every wait. -/
theorem job_claims_accounted {events : List JobEvent} (hadmits : JobHistory.start.Admits events)
    {id : ℕ} {j : Job} (hj : (runEvents .empty events).get? id = some j) :
    let times := fun kind => timesMoved kind (JobHistory.start.trail id events)
    j.generation = times .claim + times .expire ∧
    j.attemptCount = times .fail + times .expire ∧
    times .claim = times .complete + times .fail + times .expire + times .defer + times .await +
      (if j.status.held then 1 else 0) ∧
    times .complete = (if j.status = .done then 1 else 0) ∧
    times .claim ≤ j.maxAttempts + times .defer + times .await := by
  intro times
  have hrun := job_trail_accepted hadmits id
  rw [hj] at hrun
  obtain ⟨-, hgeneration, hattempts, hclaims, hcompleted⟩ := (books_of_run hrun).2 j.life rfl
  refine ⟨hgeneration, hattempts, hclaims, hcompleted, ?_⟩
  have hget : (events.foldl JobHistory.next .start).jobs.get? id = some j := by
    rw [JobHistory.foldl_next_jobs]
    exact hj
  have hsound := (hadmits.inv.1 id j hget).sound
  have hle : times .complete + j.attemptCount + (if j.status.held then 1 else 0) ≤ j.maxAttempts := by
    replace hcompleted : times .complete = if j.status = .done then 1 else 0 := hcompleted
    rw [hcompleted]
    have hbudget := hsound.budget
    have hexhausted := hsound.exhausted
    cases hs : j.status <;> simp_all [JobStatus.held] <;> omega
  replace hattempts : j.attemptCount = times .fail + times .expire := hattempts
  replace hclaims : times .claim = times .complete + times .fail + times .expire + times .defer +
    times .await + if j.status.held then 1 else 0 := hclaims
  omega

/-- A job that is claimed twice: its first claim is deferred, its second one is completed. -/
theorem job_claims_accounted_twice :
    let events : List JobEvent :=
      [.enqueue ⟨"fetch_range", "fake", "single", none, none, 0, 1⟩ 7 0,
        .statement (.claim 7 "w" 0), .statement (.owned 7 "w" 1 (.deferForQuota 60)),
        .statement (.claim 7 "w" 60), .statement (.owned 7 "w" 2 .markRunning),
        .statement (.owned 7 "w" 2 .markDone)]
    ∃ j, (runEvents .empty events).get? 7 = some j ∧ j.status = .done ∧
      timesMoved .claim (JobHistory.start.trail 7 events) ≤
        j.maxAttempts + timesMoved .defer (JobHistory.start.trail 7 events) +
          timesMoved .await (JobHistory.start.trail 7 events) := by
  intro events
  have hadmits : JobHistory.start.Admits events :=
    ⟨le_refl 1, trivial, trivial, trivial, trivial, trivial, trivial⟩
  obtain ⟨j, hj, hdone⟩ : ∃ j, (runEvents .empty events).get? 7 = some j ∧ j.status = .done :=
    ⟨_, rfl, rfl⟩
  exact ⟨j, hj, hdone, (job_claims_accounted hadmits hj).2.2.2.2⟩

end MarketRelay
