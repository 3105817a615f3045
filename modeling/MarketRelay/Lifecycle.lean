import MarketRelay.Queue

/-!
# The Lifecycle of a Job

The invariants of the job table over every history that starts from the empty table:
which columns are set in which status, what `attempt_count` counts, and when a job is
terminal.

`mark_failed` does not increment the count in the database: it writes one more than the
count in the caller's copy of the row, loaded at or after the caller's claim. A history
therefore records every table that has existed (`JobHistory.past`), so that a copy is a row
of one of them, and the argument is that the fence admits a copy only while it is current:
within one generation the count of a held job does not move, and the token's generation
pins the copy to the generation of the claim.

## Main results

* `Job.Sound.row`: each statement keeps a row sound.
* `JobHistory.Reachable.inv`: the invariant that relates past rows to the current one.
* `job_lifecycle`: ownership, accounting and terminality in every reachable state.
-/

open Relational

namespace MarketRelay

/-- The row-level invariant: ownership columns, and the attempt budget. -/
structure Job.Sound (j : Job) : Prop where
  owned : j.status.held = true → j.claimedBy.isSome ∧ j.claimedAt.isSome
  unowned : j.status ∈ [.pending, .waitingForPublication, .failed] →
    j.claimedBy = none ∧ j.claimedAt = none
  budget : j.status ≠ .failed → j.attemptCount < j.maxAttempts
  exhausted : j.status = .failed → j.attemptCount = j.maxAttempts

/-- The job-specific part of a failure is current: it was computed from the attempt count
and the limit that the row has now. -/
def Transition.CurrentFor (w : Transition) (j : Job) : Prop :=
  ∀ n s err t, w = .markFailed n s err t →
    n = j.attemptCount + 1 ∧ s = if j.maxAttempts ≤ n then .failed else .pending

/-! ### What one statement does to a row -/

section Row

variable {j : Job}

/-- Whether the statement recovers the lease of this row. -/
def QueueOp.expires : QueueOp → Job → Bool
  | .recoverExpired now leaseSeconds, j => (recoverExpired now leaseSeconds).cond j
  | _, _ => false

/-- Whether the statement is a `mark_failed` that applies to this row. -/
def QueueOp.fails : QueueOp → Job → Bool
  | .owned id workerId g (.markFailed n s err t), j =>
    (owned id workerId g (.markFailed n s err t)).cond j
  | _, _ => false

theorem Job.not_failed_of_held (h : j.status.held = true) : j.status ≠ .failed := by
  rintro hs
  simp [hs, JobStatus.held] at h

/-- A lease recovery and a failure both spend one attempt and end the ownership. -/
private theorem Job.Sound.spend {k : Job} (h : j.Sound) (hheld : j.status.held = true)
    (hcount : k.attemptCount = j.attemptCount + 1) (hmax : k.maxAttempts = j.maxAttempts)
    (hstatus : k.status = if j.maxAttempts ≤ j.attemptCount + 1 then .failed else .pending)
    (hby : k.claimedBy = none) (hat : k.claimedAt = none) : k.Sound := by
  have hbudget := h.budget (Job.not_failed_of_held hheld)
  by_cases hle : j.maxAttempts ≤ j.attemptCount + 1
  · rw [if_pos hle] at hstatus
    refine ⟨fun hk => ?_, fun _ => ⟨hby, hat⟩, fun hne => absurd hstatus hne, fun _ => by omega⟩
    simp [hstatus, JobStatus.held] at hk
  · rw [if_neg hle] at hstatus
    refine ⟨fun hk => ?_, fun _ => ⟨hby, hat⟩, fun _ => by omega, fun hf => ?_⟩
    · simp [hstatus, JobStatus.held] at hk
    · simp [hstatus] at hf

/-- **Each statement keeps a row sound**, provided a failure is computed from a current
copy. -/
theorem Job.Sound.row (h : j.Sound) (op : QueueOp)
    (hcur : ∀ id w g tr, op = .owned id w g tr → op.cond j = true → tr.CurrentFor j) :
    (op.row j).Sound := by
  cases hc : op.cond j with
  | false => rw [QueueOp.row_of_not_cond hc]; exact h
  | true =>
      rw [QueueOp.row_of_cond hc]
      cases op with
      | claim id w now =>
          obtain ⟨-, hs⟩ := QueueOp.cond_claim.mp hc
          have hb := h.budget (by simp [hs])
          exact ⟨fun _ => ⟨rfl, rfl⟩, by simp [QueueOp.set], fun _ => hb, by simp [QueueOp.set]⟩
      | recoverExpired now lease =>
          obtain ⟨hheld, -⟩ := QueueOp.cond_recoverExpired.mp hc
          exact h.spend hheld rfl rfl rfl rfl rfl
      | promoteDueWaiting now =>
          obtain ⟨hs, -⟩ := QueueOp.cond_promoteDueWaiting.mp hc
          have hb := h.budget (by simp [hs])
          have hn := h.unowned (by simp [hs])
          exact ⟨by simp [QueueOp.set, JobStatus.held], fun _ => hn, fun _ => hb,
            by simp [QueueOp.set]⟩
      | owned id w g tr =>
          obtain ⟨-, hmem, -, -⟩ := QueueOp.cond_owned.mp hc
          have hheld := Transition.held_of_mem_allowedStatuses hmem
          have hb := h.budget (Job.not_failed_of_held hheld)
          have ho := h.owned hheld
          cases tr with
          | markRunning =>
              exact ⟨fun _ => ho, by simp [QueueOp.set, Transition.values], fun _ => hb,
                by simp [QueueOp.set, Transition.values]⟩
          | markDone =>
              exact ⟨by simp [QueueOp.set, Transition.values, JobStatus.held],
                by simp [QueueOp.set, Transition.values], fun _ => hb,
                by simp [QueueOp.set, Transition.values]⟩
          | markWaitingForPublication | deferForQuota =>
              exact ⟨by simp [QueueOp.set, Transition.values, JobStatus.held],
                fun _ => ⟨rfl, rfl⟩, fun _ => hb, by simp [QueueOp.set, Transition.values]⟩
          | markFailed n s err t =>
              obtain ⟨rfl, rfl⟩ := hcur _ _ _ _ rfl hc _ _ _ _ rfl
              exact h.spend hheld rfl rfl rfl rfl rfl

/-- No statement changes a job that is over. -/
theorem QueueOp.row_eq_self_of_ended (op : QueueOp) (h : j.status.ended = true) :
    op.row j = j := by
  refine QueueOp.row_of_not_cond ?_
  by_contra hc
  rw [Bool.not_eq_false] at hc
  cases op with
  | claim => simp [(QueueOp.cond_claim.mp hc).2, JobStatus.ended] at h
  | recoverExpired =>
      have hheld := (QueueOp.cond_recoverExpired.mp hc).1
      cases hs : j.status <;> simp_all [JobStatus.held, JobStatus.ended]
  | promoteDueWaiting => simp [(QueueOp.cond_promoteDueWaiting.mp hc).1, JobStatus.ended] at h
  | owned id w g tr =>
      have hheld := Transition.held_of_mem_allowedStatuses (QueueOp.cond_owned.mp hc).2.1
      cases hs : j.status <;> simp_all [JobStatus.held, JobStatus.ended]

@[simp] theorem QueueOp.maxAttempts_row (op : QueueOp) (j : Job) :
    (op.row j).maxAttempts = j.maxAttempts := by
  unfold QueueOp.row
  split
  · cases op with
    | owned id w g tr => cases tr <;> rfl
    | _ => rfl
  · rfl

/-- The attempt count moves by exactly one, and only at an expiry or a failure. -/
theorem QueueOp.attemptCount_row (op : QueueOp) (j : Job)
    (hcur : ∀ id w g tr, op = .owned id w g tr → op.cond j = true → tr.CurrentFor j) :
    (op.row j).attemptCount =
      j.attemptCount + (if op.expires j then 1 else 0) + (if op.fails j then 1 else 0) := by
  cases hc : op.cond j with
  | false =>
      rw [QueueOp.row_of_not_cond hc]
      cases op with
      | recoverExpired => simp [QueueOp.expires, QueueOp.fails, hc]
      | owned id w g tr => cases tr <;> simp [QueueOp.expires, QueueOp.fails, hc]
      | _ => simp [QueueOp.expires, QueueOp.fails]
  | true =>
      rw [QueueOp.row_of_cond hc]
      cases op with
      | recoverExpired => simp [QueueOp.expires, QueueOp.fails, hc, QueueOp.set]
      | owned id w g tr =>
          cases tr with
          | markFailed n s err t =>
              obtain ⟨rfl, -⟩ := hcur _ _ _ _ rfl hc _ _ _ _ rfl
              simp [QueueOp.expires, QueueOp.fails, hc, QueueOp.set, Transition.values]
          | _ => simp [QueueOp.expires, QueueOp.fails, QueueOp.set, Transition.values]
      | _ => simp [QueueOp.expires, QueueOp.fails, QueueOp.set]

/-- A row that a statement leaves held, without raising its generation, was held before
with the same attempt count. -/
theorem QueueOp.held_row (op : QueueOp) (j : Job) (h : (op.row j).status.held = true)
    (hgen : (op.row j).generation = j.generation)
    (hcur : ∀ id w g tr, op = .owned id w g tr → op.cond j = true → tr.CurrentFor j) :
    j.status.held = true ∧ (op.row j).attemptCount = j.attemptCount := by
  cases hc : op.cond j with
  | false => rw [QueueOp.row_of_not_cond hc] at h ⊢; exact ⟨h, rfl⟩
  | true =>
      rw [QueueOp.row_of_cond hc] at h hgen ⊢
      cases op with
      | claim => simp [QueueOp.set] at hgen
      | recoverExpired => simp [QueueOp.set] at hgen
      | promoteDueWaiting => simp [QueueOp.set, JobStatus.held] at h
      | owned id w g tr =>
          have hheld := Transition.held_of_mem_allowedStatuses (QueueOp.cond_owned.mp hc).2.1
          refine ⟨hheld, ?_⟩
          cases tr with
          | markFailed n s err t =>
              obtain ⟨-, rfl⟩ := hcur _ _ _ _ rfl hc _ _ _ _ rfl
              simp only [QueueOp.set, Transition.values] at h
              split at h <;> simp [JobStatus.held] at h
          | _ => rfl

end Row

/-! ### Histories -/

/-- A history of the job table: its present content, every table so far (the present one
included), and for each job the number of its lease expiries and of its successful
`mark_failed` transitions. -/
structure JobHistory where
  jobs : JobTable
  past : List JobTable
  expiries : ℕ → ℕ
  failures : ℕ → ℕ

namespace JobHistory

/-- The empty jobs table. -/
def start : JobHistory := ⟨.empty, [.empty], fun _ => 0, fun _ => 0⟩

/-- Whether an event is a lease expiry of the job with this identifier. -/
def expiresAt (t : JobTable) : JobEvent → ℕ → Bool
  | .statement op, id => (t.get? id).any op.expires
  | _, _ => false

/-- Whether an event is a successful `mark_failed` of the job with this identifier. -/
def failsAt (t : JobTable) : JobEvent → ℕ → Bool
  | .statement op, id => (t.get? id).any op.fails
  | _, _ => false

/-- The history one event later. -/
def next (h : JobHistory) (e : JobEvent) : JobHistory where
  jobs := e.apply h.jobs
  past := e.apply h.jobs :: h.past
  expiries id := h.expiries id + if expiresAt h.jobs e id then 1 else 0
  failures id := h.failures id + if failsAt h.jobs e id then 1 else 0

/-- The events that the callers of the queue can cause. Jobs are enqueued with at least one
attempt, and a failure is computed from a copy of the job that was loaded at or after the
claim whose token is presented: a row of some past table whose generation has reached the
token's. -/
def Admissible (h : JobHistory) : JobEvent → Prop
  | .enqueue args _ _ | .enqueueWaiting args _ _ => 1 ≤ args.maxAttempts
  | .statement (.owned id _ g (.markFailed n s err at_)) =>
    ∃ t ∈ h.past, ∃ copy error now, t.get? id = some copy ∧ g ≤ copy.generation ∧
      .markFailed n s err at_ = Transition.failure copy error now
  | .statement _ => True

/-- The histories of all interleavings, from the empty table. -/
inductive Reachable : JobHistory → Prop
  | start : Reachable .start
  | next {h : JobHistory} {e : JobEvent} :
      Reachable h → h.Admissible e → Reachable (h.next e)

/-- The invariant of a job that exists. -/
structure InvAt (h : JobHistory) (id : ℕ) (j : Job) : Prop where
  sound : j.Sound
  count : j.attemptCount = h.expiries id + h.failures id
  /-- A past row is no later than the present one, and while the job stays held in the
  generation of a past row, neither its count nor its limit has moved. -/
  version : ∀ t ∈ h.past, ∀ v, t.get? id = some v →
    v.generation ≤ j.generation ∧ v.maxAttempts = j.maxAttempts ∧
      (v.generation = j.generation → j.status.held = true → v.attemptCount = j.attemptCount)

/-- The invariant of a history. -/
def Inv (h : JobHistory) : Prop :=
  (∀ id j, h.jobs.get? id = some j → h.InvAt id j) ∧
  (∀ id, h.jobs.get? id = none →
    h.expiries id = 0 ∧ h.failures id = 0 ∧ ∀ t ∈ h.past, t.get? id = none)

variable {h : JobHistory}

/-- The fence admits a copy only while it is current. -/
theorem InvAt.currentFor {id : ℕ} {j : Job} (hi : h.InvAt id j) {op : QueueOp}
    (ha : h.Admissible (.statement op)) (hj : j.id = id) {id' w g tr}
    (hop : op = .owned id' w g tr) (hc : op.cond j = true) : tr.CurrentFor j := by
  subst hop
  rintro n s err at_ rfl
  obtain ⟨rfl, -, -, hg⟩ := QueueOp.cond_owned.mp hc
  have hheld := (QueueOp.heldBy_of_cond_owned hc).2.1
  obtain ⟨t, ht, copy, error, now, hcopy, hle, heq⟩ := ha
  rw [hj] at hcopy
  obtain ⟨hge, hmax, hver⟩ := hi.version t ht copy hcopy
  have hcount := hver (by omega) hheld
  simp only [Transition.failure, Transition.markFailed.injEq] at heq
  obtain ⟨rfl, rfl, -, -⟩ := heq
  exact ⟨by rw [hcount], by rw [hmax]⟩

/-- A row that a statement has just written satisfies the invariant. -/
private theorem InvAt.statement {id : ℕ} {j : Job} (hi : h.InvAt id j)
    (hj : h.jobs.get? id = some j) {op : QueueOp} (ha : h.Admissible (.statement op)) :
    (h.next (.statement op)).InvAt id (op.row j) := by
  have hid : j.id = id := (Table.mem_of_get? hj).2
  have hcur : ∀ id w g tr, op = .owned id w g tr → op.cond j = true → tr.CurrentFor j :=
    fun _ _ _ _ hop hc => hi.currentFor ha hid hop hc
  have hget : (JobEvent.statement op |>.apply h.jobs).get? id = some (op.row j) :=
    JobEvent.get?_apply_of_some hj
  refine ⟨hi.sound.row op hcur, ?count, ?version⟩
  case count =>
    rw [QueueOp.attemptCount_row op j hcur, hi.count]
    simp only [next, expiresAt, failsAt, hj, Option.any_some]
    omega
  case version =>
    intro t ht v hv
    rcases List.mem_cons.mp ht with rfl | ht
    · obtain rfl := Option.some.inj (hget.symm.trans hv)
      exact ⟨le_rfl, rfl, fun _ _ => rfl⟩
    · obtain ⟨hle, hmax, hver⟩ := hi.version t ht v hv
      refine ⟨hle.trans (op.generation_le_row j), by rw [hmax, op.maxAttempts_row], ?_⟩
      intro hgen hheld
      -- the generation has not moved since `v`, so it did not move in this statement
      have hsame : (op.row j).generation = j.generation :=
        le_antisymm (hgen ▸ hle) (op.generation_le_row j)
      obtain ⟨hjheld, hcount⟩ := op.held_row j hheld hsame hcur
      rw [hcount]
      exact hver (hgen.trans hsame) hjheld

/-- A row that an event has just created satisfies the invariant. -/
private theorem InvAt.created {id : ℕ} {j : Job} {e : JobEvent} (ha : h.Admissible e)
    (hn : h.jobs.get? id = none)
    (hzero : h.expiries id = 0 ∧ h.failures id = 0 ∧ ∀ t ∈ h.past, t.get? id = none)
    (hget : (e.apply h.jobs).get? id = some j) (hcr : e.Creates j) : (h.next e).InvAt id j := by
  obtain ⟨hexp, hfail, hpast⟩ := hzero
  have hversion : ∀ t ∈ (h.next e).past, ∀ v, t.get? id = some v →
      v.generation ≤ j.generation ∧ v.maxAttempts = j.maxAttempts ∧
        (v.generation = j.generation → j.status.held = true →
          v.attemptCount = j.attemptCount) := by
    intro t ht v hv
    rcases List.mem_cons.mp ht with rfl | ht
    · obtain rfl := Option.some.inj (hget.symm.trans hv)
      exact ⟨le_rfl, rfl, fun _ _ => rfl⟩
    · rw [hpast t ht] at hv
      exact absurd hv (by simp)
  have hcount : (h.next e).expiries id + (h.next e).failures id = 0 := by
    cases e <;> simp [next, expiresAt, failsAt, hn, hexp, hfail]
  cases e with
  | statement op => exact hcr.elim
  | enqueue args uuid createdAt =>
      rw [JobEvent.Creates] at hcr
      refine ⟨?_, by rw [hcount, hcr]; rfl, hversion⟩
      rw [hcr]
      exact ⟨by simp [newJob, JobStatus.held], fun _ => ⟨rfl, rfl⟩, fun _ => ha,
        by simp [newJob]⟩
  | enqueueWaiting args uuid createdAt =>
      rw [JobEvent.Creates] at hcr
      refine ⟨?_, by rw [hcount, hcr]; rfl, hversion⟩
      rw [hcr]
      exact ⟨by simp [JobStatus.held], fun _ => ⟨rfl, rfl⟩, fun _ => ha, by simp⟩

/-- Inserts and failed inserts leave the invariant of an existing row as it was. -/
private theorem InvAt.untouched {id : ℕ} {j : Job} {e : JobEvent} (hi : h.InvAt id j)
    (hj : h.jobs.get? id = some j) (hrow : e.row j = j)
    (hexp : expiresAt h.jobs e id = false) (hfail : failsAt h.jobs e id = false) :
    (h.next e).InvAt id j := by
  refine ⟨hi.sound, by simp [next, hexp, hfail, hi.count], fun t ht v hv => ?_⟩
  rcases List.mem_cons.mp ht with rfl | ht
  · rw [JobEvent.get?_apply_of_some hj, hrow] at hv
    obtain rfl := Option.some.inj hv
    exact ⟨le_rfl, rfl, fun _ _ => rfl⟩
  · exact hi.version t ht v hv

/-- **One event keeps the invariant.** -/
theorem Inv.next (hi : h.Inv) {e : JobEvent} (ha : h.Admissible e) : (h.next e).Inv := by
  refine ⟨fun id j' hj' => ?present, fun id hn' => ?absent⟩
  case present =>
    cases hj : h.jobs.get? id with
    | some j =>
        have hget := JobEvent.get?_apply_of_some (e := e) hj
        obtain rfl := Option.some.inj (hget.symm.trans hj')
        cases e with
        | statement op => exact (hi.1 id j hj).statement hj ha
        | enqueue => exact (hi.1 id j hj).untouched hj rfl rfl rfl
        | enqueueWaiting => exact (hi.1 id j hj).untouched hj rfl rfl rfl
    | none =>
        rcases e.get?_apply h.jobs id with hmap | ⟨-, k, hk, hcr⟩
        · rw [hj] at hmap
          exact absurd (hj'.symm.trans hmap) (by simp)
        · obtain rfl := Option.some.inj (hk.symm.trans hj')
          exact InvAt.created ha hj (hi.2 id hj) hj' hcr
  case absent =>
    have hn : h.jobs.get? id = none := by
      cases hj : h.jobs.get? id with
      | none => rfl
      | some j =>
          have hget := JobEvent.get?_apply_of_some (e := e) hj
          exact absurd (hget.symm.trans hn') (by simp)
    obtain ⟨hexp, hfail, hpast⟩ := hi.2 id hn
    have hcount : (h.next e).expiries id = 0 ∧ (h.next e).failures id = 0 := by
      cases e <;> simp [JobHistory.next, expiresAt, failsAt, hn, hexp, hfail]
    refine ⟨hcount.1, hcount.2, fun t ht => ?_⟩
    rcases List.mem_cons.mp ht with rfl | ht
    · exact hn'
    · exact hpast t ht

/-- The invariant holds in every reachable history. -/
theorem Reachable.inv (hr : Reachable h) : h.Inv := by
  induction hr with
  | start =>
      refine ⟨fun id j hj => absurd hj (by simp [JobHistory.start]), fun id _ => ⟨rfl, rfl, ?_⟩⟩
      intro t ht
      obtain rfl := List.mem_singleton.mp ht
      rfl
  | next _ ha ih => exact ih.next ha

end JobHistory

/-- **The lifecycle of a job.** In every state reachable from the empty table by any
interleaving of enqueueing, direct creation of waiting jobs and the queue's statements:

* a held job has both ownership columns set, a pending, waiting or failed job has neither;
* the attempt count is the number of lease expiries plus that of successful failures;
* the attempt count is below the limit unless the job is failed, and then equals it;
* no event changes a job that is done or failed. -/
theorem job_lifecycle {h : JobHistory} (hr : h.Reachable) {id : ℕ} {j : Job}
    (hj : h.jobs.get? id = some j) :
    (j.status ∈ [.claimed, .running] → j.claimedBy.isSome ∧ j.claimedAt.isSome) ∧
    (j.status ∈ [.pending, .waitingForPublication, .failed] →
      j.claimedBy = none ∧ j.claimedAt = none) ∧
    j.attemptCount = h.expiries id + h.failures id ∧
    (j.status ≠ .failed → j.attemptCount < j.maxAttempts) ∧
    (j.status = .failed → j.attemptCount = j.maxAttempts) ∧
    (j.status ∈ [.done, .failed] → ∀ e : JobEvent, (e.apply h.jobs).get? id = some j) := by
  obtain ⟨hs, hcount, -⟩ := hr.inv.1 id j hj
  refine ⟨fun hm => hs.owned ?_, hs.unowned, hcount, hs.budget, hs.exhausted, fun hm e => ?_⟩
  · simp only [List.mem_cons, List.not_mem_nil, or_false] at hm
    rcases hm with hm | hm <;> rw [hm] <;> rfl
  · have hended : j.status.ended = true := by
      simp only [List.mem_cons, List.not_mem_nil, or_false] at hm
      rcases hm with hm | hm <;> rw [hm] <;> rfl
    rw [JobEvent.get?_apply_of_some hj]
    cases e with
    | statement op => rw [JobEvent.row, op.row_eq_self_of_ended hended]
    | _ => rfl

/-- A job with a single attempt: enqueued, claimed, and failed from the copy loaded at the
claim. It is terminal, and its one attempt is counted once. -/
theorem job_lifecycle_single_attempt :
    ∃ h : JobHistory, h.Reachable ∧ h.failures 7 = 1 ∧
      ∃ j, h.jobs.get? 7 = some j ∧ j.status = .failed ∧
        j.attemptCount = h.expiries 7 + h.failures 7 ∧ j.attemptCount = j.maxAttempts := by
  let job := newJob ⟨"fetch_range", "fake", "single", none, none, 0, 1⟩ 7 0
  let copy := { job with
    status := .claimed, claimedBy := some "w", claimedAt := some 0, generation := 1 }
  let h₁ := JobHistory.start.next (.enqueue ⟨"fetch_range", "fake", "single", none, none, 0, 1⟩ 7 0)
  let h₂ := h₁.next (.statement (.claim 7 "w" 0))
  let h₃ := h₂.next (.statement (.owned 7 "w" 1 (.failure copy "adapter_error" 0)))
  have hr : h₃.Reachable :=
    .next (.next (.next .start (le_refl 1)) trivial)
      ⟨h₂.jobs, List.mem_cons_self, copy, "adapter_error", 0, by decide, by decide, rfl⟩
  have hj : h₃.jobs.get? 7 = some ((Transition.failure copy "adapter_error" 0).values copy) := by
    decide +kernel
  obtain ⟨-, -, hcount, -, hlimit, -⟩ := job_lifecycle hr hj
  exact ⟨h₃, hr, by decide, _, hj, by decide, hcount, hlimit (by decide)⟩

end MarketRelay
