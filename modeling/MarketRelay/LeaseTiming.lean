import Mathlib.Algebra.BigOperators.Group.List.Basic
import Mathlib.Algebra.Order.BigOperators.Group.List
import Mathlib.Data.Rat.Floor
import MarketRelay.ClaimAlone

/-!
# A Batch and its Lease

The jobs of a batch are claimed at one instant and processed one after the other. The lease of
each of them starts at that instant, and nothing renews it, while the configuration compares the
lease with the deadline of a single provider call. So the lease of the last job has to last for
the whole batch.

Durations are rational numbers of seconds, and a datetime is a whole number of microseconds.

## Main results

* `Job.notTaken_iff`: when recovery leaves a job alone.
* `keepsLease_iff`: for which settings every job of every batch keeps its lease.
* `default_loses_lease`: the default settings are not among them.
-/

open Relational Interaction

namespace MarketRelay

/-- The accepted settings of the processing phase: the bounds of the fields, and
`_validate_provider_deadline_within_lease`. -/
structure SchedulerSettings where
  schedulerBatchSize : ℤ
  jobLeaseSeconds : ℤ
  providerTimeoutSeconds : ℚ
  batchSize_pos : 0 < schedulerBatchSize
  batchSize_le : schedulerBatchSize ≤ 1000
  lease_pos : 0 < jobLeaseSeconds
  lease_le : jobLeaseSeconds ≤ 86400
  timeout_pos : 0 < providerTimeoutSeconds
  timeout_le : providerTimeoutSeconds ≤ 300
  timeout_lt_lease : providerTimeoutSeconds < jobLeaseSeconds

namespace SchedulerSettings

/-- The validation of three values. -/
def validate (schedulerBatchSize jobLeaseSeconds : ℤ) (providerTimeoutSeconds : ℚ) :
    Option SchedulerSettings :=
  if h : (0 < schedulerBatchSize ∧ schedulerBatchSize ≤ 1000) ∧
      (0 < jobLeaseSeconds ∧ jobLeaseSeconds ≤ 86400) ∧
      (0 < providerTimeoutSeconds ∧ providerTimeoutSeconds ≤ 300) ∧
      ¬ (jobLeaseSeconds : ℚ) ≤ providerTimeoutSeconds then
    some ⟨schedulerBatchSize, jobLeaseSeconds, providerTimeoutSeconds, h.1.1, h.1.2, h.2.1.1,
      h.2.1.2, h.2.2.1.1, h.2.2.1.2, not_le.mp h.2.2.2⟩
  else none

/-- The default values. -/
def default : SchedulerSettings :=
  ⟨50, 300, 30, by norm_num, by norm_num, by norm_num, by norm_num, by norm_num, by norm_num,
    by norm_num⟩

example : validate 50 300 30 = some default := by
  rw [validate, dif_pos (by norm_num)]
  rfl

end SchedulerSettings

/-! ### Recovery -/

/-- Recovery by another scheduler, at an instant, leaves the job as it is. -/
def Job.NotTaken (now : Instant) (leaseSeconds : ℤ) (j : Job) : Prop :=
  ∀ (db : Db) (l : Session) (r : Except PyError ℕ) (db' : Db) (l' : Session),
    db.jobs.get? j.id = some j →
    (JobQueue.recoverExpired now leaseSeconds).Executes semantics db l r db' l' →
    db'.jobs.get? j.id = some j

/-- **Recovery takes the jobs whose lease has run out**, and no others. -/
theorem Job.notTaken_iff {now : Instant} {leaseSeconds : ℤ} {j : Job} :
    j.NotTaken now leaseSeconds ↔ ¬ j.Expired now leaseSeconds := by
  have hrun : ∀ {db : Db} {l : Session} {r : Except PyError ℕ} {db' : Db} {l' : Session},
      db.jobs.get? j.id = some j →
      (JobQueue.recoverExpired now leaseSeconds).Executes semantics db l r db' l' →
      db'.jobs.get? j.id = some ((QueueOp.recoverExpired now leaseSeconds).row j) := by
    intro db l r db' l' hj h
    obtain ⟨_, h⟩ := Script.executes_op_bind.mp h
    obtain ⟨_, h⟩ := Script.executes_op_bind.mp h
    obtain ⟨-, rfl, -⟩ := Script.executes_pure.mp h
    change ((QueueOp.recoverExpired now leaseSeconds).run db.jobs).get? j.id = _
    rw [QueueOp.get?_run, hj, Option.map_some]
  constructor
  · intro hkeep hexpired
    let db : Db := ⟨⟨[j], List.pairwise_singleton _ j⟩, Table.empty, Table.empty⟩
    have hj : db.jobs.get? j.id = some j :=
      Table.get?_eq_some_iff.mpr ⟨List.mem_singleton_self j, rfl⟩
    obtain ⟨r, db', l', h⟩ := Prog.exists_executes semantics
      (JobQueue.recoverExpired now leaseSeconds).run db Session.new
    have hsame := (hrun hj h).symm.trans (hkeep _ _ _ _ _ hj h)
    rw [QueueOp.row_of_cond (QueueOp.cond_recoverExpired.mpr hexpired)] at hsame
    have hgeneration := congrArg Job.generation (Option.some.inj hsame)
    exact absurd hgeneration (Nat.succ_ne_self j.generation)
  · intro hexpired db l r db' l' hj h
    rw [hrun hj h, QueueOp.row_of_not_cond (Bool.eq_false_iff.mpr fun hcond =>
      hexpired (QueueOp.cond_recoverExpired.mp hcond))]

/-! ### A batch -/

/-- The datetime some seconds after an instant. -/
def clockAfter (t : Instant) (elapsed : ℚ) : Instant := t + ⌊elapsed * 1000000⌋

/-- The time that the first jobs of a batch have taken. -/
def elapsed (durations : List ℚ) (i : ℕ) : ℚ := (durations.take i).sum

/-- In every batch that the settings allow, every job keeps its lease: recovery does not take it
when its processing starts, nor when its outcome is recorded. The jobs are given by the durations
of their processing; the row of a job is held, and was claimed at the instant of the batch. -/
def SchedulerSettings.KeepsLease (s : SchedulerSettings) : Prop :=
  ∀ (t : Instant) (durations : List ℚ), (durations.length : ℤ) ≤ s.schedulerBatchSize →
    (∀ d ∈ durations, 0 ≤ d ∧ d ≤ s.providerTimeoutSeconds) →
    ∀ (i : ℕ) (j : Job), i < durations.length → j.status.held = true → j.claimedAt = some t →
      j.NotTaken (clockAfter t (elapsed durations i)) s.jobLeaseSeconds ∧
        j.NotTaken (clockAfter t (elapsed durations (i + 1))) s.jobLeaseSeconds

section Batch

variable {t : Instant}

/-- A lease runs out when its length has elapsed. -/
theorem Job.expired_clockAfter {leaseSeconds : ℤ} {e : ℚ} {j : Job} (hheld : j.status.held = true)
    (hclaimed : j.claimedAt = some t) :
    j.Expired (clockAfter t e) leaseSeconds ↔ (leaseSeconds : ℚ) ≤ e := by
  have hclock : t ≤ clockAfter t e - seconds leaseSeconds ↔
      leaseSeconds * 1000000 ≤ ⌊e * 1000000⌋ := by
    rw [clockAfter, seconds, le_sub_iff_add_le, add_le_add_iff_left]
  have hfloor : leaseSeconds * 1000000 ≤ ⌊e * 1000000⌋ ↔ (leaseSeconds : ℚ) ≤ e := by
    rw [Int.le_floor, Int.cast_mul]
    exact mul_le_mul_iff_left₀ (by norm_num)
  rw [← hfloor, ← hclock, Job.Expired, hclaimed]
  simp [hheld]

/-- The first jobs of a batch take at most the deadline each. -/
theorem elapsed_le {durations : List ℚ} {timeout : ℚ} (hpos : 0 < timeout)
    (h : ∀ d ∈ durations, d ≤ timeout) (i : ℕ) : elapsed durations i ≤ i * timeout := by
  have hsum := List.sum_le_card_nsmul (durations.take i) timeout fun d hd =>
    h d (List.mem_of_mem_take hd)
  rw [nsmul_eq_mul] at hsum
  have hlen : ((durations.take i).length : ℚ) ≤ i := by
    exact_mod_cast List.length_take_le i durations
  exact hsum.trans (mul_le_mul_of_nonneg_right hlen hpos.le)

end Batch

/-- **Every job of every batch keeps its lease exactly when** the lease is longer than a batch of
the configured size whose jobs all take as long as the deadline allows. -/
theorem keepsLease_iff (s : SchedulerSettings) :
    s.KeepsLease ↔
      (s.schedulerBatchSize : ℚ) * s.providerTimeoutSeconds < s.jobLeaseSeconds := by
  constructor
  · intro hkeeps
    obtain ⟨n, hn⟩ := Int.eq_ofNat_of_zero_le s.batchSize_pos.le
    have hpos : 0 < n := by have := s.batchSize_pos; omega
    let j : Job := { newJob ⟨"fetch_range", "fake", "k", none, none, 0, 5⟩ 1 0 with
      status := .running, claimedAt := some 0 }
    obtain ⟨-, hend⟩ := hkeeps 0 (List.replicate n s.providerTimeoutSeconds)
      (by rw [List.length_replicate]; omega)
      (fun d hd => by rw [List.eq_of_mem_replicate hd]; exact ⟨s.timeout_pos.le, le_rfl⟩)
      (n - 1) j (by rw [List.length_replicate]; omega) rfl rfl
    rw [Job.notTaken_iff, Job.expired_clockAfter rfl rfl, not_le, elapsed,
      Nat.sub_add_cancel hpos, List.take_of_length_le (by rw [List.length_replicate]),
      List.sum_replicate, nsmul_eq_mul] at hend
    rw [hn]
    exact_mod_cast hend
  · intro hlease t durations hlen hdurations i j hi hheld hclaimed
    have hbound : ∀ k, k ≤ durations.length →
        ¬ (s.jobLeaseSeconds : ℚ) ≤ elapsed durations k := by
      intro k hk
      have helapsed := elapsed_le s.timeout_pos (fun d hd => (hdurations d hd).2) k
      have hcount : (k : ℚ) ≤ s.schedulerBatchSize := by
        have hint : (k : ℤ) ≤ s.schedulerBatchSize := by omega
        exact_mod_cast hint
      have hmul := mul_le_mul_of_nonneg_right hcount s.timeout_pos.le
      exact not_le.mpr (lt_of_le_of_lt (helapsed.trans hmul) hlease)
    rw [Job.notTaken_iff, Job.notTaken_iff, Job.expired_clockAfter hheld hclaimed,
      Job.expired_clockAfter hheld hclaimed]
    exact ⟨hbound i hi.le, hbound (i + 1) hi⟩

/-- **The default settings do not keep the lease**: the eleventh job of a batch starts when ten
provider calls of thirty seconds have used up its lease. -/
theorem default_loses_lease : ¬ ∀ s : SchedulerSettings, s.KeepsLease := by
  intro hall
  let j : Job := { newJob ⟨"fetch_range", "fake", "k", none, none, 0, 5⟩ 1 0 with
    status := .claimed, claimedAt := some 0 }
  obtain ⟨hstart, -⟩ := hall .default 0 (List.replicate 11 30) (by decide)
    (fun d hd => by
      rw [List.eq_of_mem_replicate hd, SchedulerSettings.default]
      norm_num) 10 j (by decide) rfl rfl
  rw [Job.notTaken_iff, Job.expired_clockAfter rfl rfl, elapsed, List.take_replicate,
    List.sum_replicate, SchedulerSettings.default] at hstart
  norm_num at hstart

end MarketRelay
