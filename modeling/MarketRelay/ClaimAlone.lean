import MarketRelay.ClaimTiming

/-!
# A Claim Run Alone

What `claim_next` returns and leaves behind when no other worker is active. Two statements sweep
the table: expired claims are recovered and due waiting jobs are promoted, so the call can claim
what it has just released. The candidates are then claimed one by one, oldest first, and no claim
fails, since nothing has happened to a candidate since it was selected.

## Main results

* `JobQueue.claimLoop_executes`: the loop claims its first candidates, up to the limit.
* `claim_next_alone`: the jobs that are returned, and every job of the table afterwards.
-/

open Relational Interaction

namespace MarketRelay

/-! ### The sweep -/

/-- The job can be claimed at an instant, by a call with a source filter. -/
def Job.Eligible (now : Instant) (source : Option String) (j : Job) : Prop :=
  j.status = .pending ∧ j.nextRunAt ≤ now ∧ source.all (fun s => decide (j.source = s)) = true

instance (now : Instant) (source : Option String) : DecidablePred (Job.Eligible now source) :=
  fun _ => inferInstanceAs (Decidable (_ ∧ _))

/-- The job is claimed or running, and its lease has run out. -/
def Job.Expired (now : Instant) (leaseSeconds : ℤ) (j : Job) : Prop :=
  j.status.held = true ∧ ∃ c, j.claimedAt = some c ∧ c ≤ now - seconds leaseSeconds

/-- The job awaits a publication, and its retry instant has come. -/
def Job.DueWaiting (now : Instant) (j : Job) : Prop :=
  j.status = .waitingForPublication ∧ j.nextRunAt ≤ now

/-- The table after lease recovery and waiting promotion. -/
def JobTable.swept (now : Instant) (leaseSeconds : ℤ) (t : JobTable) : JobTable :=
  (QueueOp.promoteDueWaiting now).run ((QueueOp.recoverExpired now leaseSeconds).run t)

/-- A job after lease recovery and waiting promotion. -/
def Job.swept (now : Instant) (leaseSeconds : ℤ) (j : Job) : Job :=
  (QueueOp.promoteDueWaiting now).row ((QueueOp.recoverExpired now leaseSeconds).row j)

section Swept

variable {now : Instant} {leaseSeconds : ℤ} {j : Job}

theorem JobTable.get?_swept (t : JobTable) (id : ℕ) :
    (t.swept now leaseSeconds).get? id = (t.get? id).map (Job.swept now leaseSeconds) := by
  rw [JobTable.swept, QueueOp.get?_run, QueueOp.get?_run, Option.map_map]
  rfl

/-- An expired claim is released, or it has failed. -/
theorem Job.swept_expired (h : j.Expired now leaseSeconds) :
    j.swept now leaseSeconds =
      { j with
        status := if j.maxAttempts ≤ j.attemptCount + 1 then .failed else .pending
        attemptCount := j.attemptCount + 1
        nextRunAt := now
        claimedBy := none
        claimedAt := none
        generation := j.generation + 1
        lastError := some "claim_lease_expired" } := by
  rw [Job.swept, QueueOp.row_of_cond (QueueOp.cond_recoverExpired.mpr h)]
  refine QueueOp.row_of_not_cond (Bool.eq_false_iff.mpr fun hcond => ?_)
  have hstatus := (QueueOp.cond_promoteDueWaiting.mp hcond).1
  simp only [QueueOp.set] at hstatus
  split at hstatus <;> exact absurd hstatus (by simp)

/-- A due waiting job is pending. -/
theorem Job.swept_dueWaiting (h : j.DueWaiting now) :
    j.swept now leaseSeconds = { j with status := .pending } := by
  have hkeep : (QueueOp.recoverExpired now leaseSeconds).row j = j := by
    refine QueueOp.row_of_not_cond (Bool.eq_false_iff.mpr fun hcond => ?_)
    have hheld := (QueueOp.cond_recoverExpired.mp hcond).1
    rw [h.1] at hheld
    exact absurd hheld (by decide)
  rw [Job.swept, hkeep]
  exact QueueOp.row_of_cond (QueueOp.cond_promoteDueWaiting.mpr h)

/-- Any other job stays as it is. -/
theorem Job.swept_other (hexpired : ¬ j.Expired now leaseSeconds) (hwaiting : ¬ j.DueWaiting now) :
    j.swept now leaseSeconds = j := by
  rw [Job.swept, QueueOp.row_of_not_cond (Bool.eq_false_iff.mpr fun h =>
    hexpired (QueueOp.cond_recoverExpired.mp h))]
  exact QueueOp.row_of_not_cond (Bool.eq_false_iff.mpr fun h =>
    hwaiting (QueueOp.cond_promoteDueWaiting.mp h))

end Swept

/-! ### The candidates -/

instance : IsTrans Job Job.CandidateLe where
  trans a b c hab hbc := by
    rcases hab with hab | ⟨hab, hid⟩
    · rcases hbc with hbc | ⟨hbc, -⟩
      · exact Or.inl (hab.trans hbc)
      · exact Or.inl (hbc ▸ hab)
    · rcases hbc with hbc | ⟨hbc, hid'⟩
      · exact Or.inl (hab ▸ hbc)
      · exact Or.inr ⟨hab.trans hbc, hid.trans hid'⟩

instance : Std.Total Job.CandidateLe where
  total a b := by
    rcases lt_trichotomy a.nextRunAt b.nextRunAt with h | h | h
    · exact Or.inl (Or.inl h)
    · exact (le_total a.id b.id).imp (fun hid => Or.inr ⟨h, hid⟩) fun hid => Or.inr ⟨h.symm, hid⟩
    · exact Or.inr (Or.inl h)

/-- The eligible jobs of a table, oldest first. -/
def JobTable.eligible (now : Instant) (source : Option String) (t : JobTable) : List Job :=
  (t.rows.filter fun j => decide (j.Eligible now source)).insertionSort Job.CandidateLe

section Candidates

variable {now : Instant} {source : Option String} {t : JobTable}

theorem JobTable.mem_eligible {j : Job} :
    j ∈ t.eligible now source ↔ j ∈ t.rows ∧ j.Eligible now source := by
  rw [JobTable.eligible, List.mem_insertionSort, List.mem_filter, decide_eq_true_eq]

theorem JobTable.eligible_pairwise : (t.eligible now source).Pairwise Job.CandidateLe :=
  List.pairwise_insertionSort Job.CandidateLe _

theorem JobTable.length_eligible :
    (t.eligible now source).length = t.rows.countP fun j => decide (j.Eligible now source) := by
  rw [JobTable.eligible, List.length_insertionSort, List.countP_eq_length_filter]

/-- The selection reads the eligible jobs, up to its limit. -/
theorem selectCandidates_eq (limit : ℕ) :
    selectCandidates now source limit t = ((t.eligible now source).take limit).map Job.id := by
  have hcond : ∀ j : Job, decide (j.Eligible now source) =
      (decide (j.status = .pending) && decide (j.nextRunAt ≤ now) &&
        source.all fun s => decide (j.source = s)) := fun j => by
    rw [Bool.eq_iff_iff, decide_eq_true_iff]
    simp only [Job.Eligible, Bool.and_eq_true, decide_eq_true_eq, and_assoc]
  rw [selectCandidates, JobTable.eligible]
  simp only [hcond]

end Candidates

/-! ### The claims -/

/-- The claims of some jobs, one after the other. -/
def JobTable.claimAll (workerId : String) (now : Instant) (ids : List ℕ) (t : JobTable) : JobTable :=
  ids.foldl (fun t id => (QueueOp.claim id workerId now).run t) t

/-- Every one of some identifiers is that of a pending job. -/
def JobTable.Pending (t : JobTable) (ids : List ℕ) : Prop :=
  ∀ id ∈ ids, ∃ j, t.get? id = some j ∧ j.status = .pending

section Claims

variable {workerId : String} {now : Instant} {t : JobTable} {id : ℕ} {ids : List ℕ}

/-- A claim concerns no other job. -/
theorem JobTable.get?_claim_of_ne {id' : ℕ} (hne : id' ≠ id) :
    ((QueueOp.claim id workerId now).run t).get? id' = t.get? id' := by
  rw [QueueOp.get?_run]
  cases hj : t.get? id' with
  | none => rfl
  | some j =>
      refine congrArg some (QueueOp.row_of_not_cond (Bool.eq_false_iff.mpr fun hcond => ?_))
      exact hne ((Table.mem_of_get? hj).2.symm.trans (QueueOp.cond_claim.mp hcond).1)

/-- A claim leaves the other jobs pending. -/
theorem JobTable.Pending.claim (h : t.Pending (id :: ids)) (hnd : (id :: ids).Nodup) :
    ((QueueOp.claim id workerId now).run t).Pending ids := by
  intro id' hid'
  have hne : id' ≠ id := fun heq => (List.nodup_cons.mp hnd).1 (heq ▸ hid')
  rw [JobTable.get?_claim_of_ne hne]
  exact h id' (List.mem_cons_of_mem id hid')

/-- **Each of the pending jobs is claimed**, and no other. -/
theorem JobTable.get?_claimAll (hnd : ids.Nodup) (hpending : t.Pending ids) (id' : ℕ) :
    (t.claimAll workerId now ids).get? id' = (t.get? id').map fun j =>
      if id' ∈ ids then (QueueOp.claim id' workerId now).set j else j := by
  induction ids generalizing t with
  | nil => simp [JobTable.claimAll]
  | cons id ids ih =>
      obtain ⟨hnot, hrest⟩ := List.nodup_cons.mp hnd
      rw [JobTable.claimAll, List.foldl_cons, ← JobTable.claimAll,
        ih hrest (hpending.claim hnd)]
      by_cases heq : id' = id
      · subst heq
        obtain ⟨j, hj, hstatus⟩ := hpending id' List.mem_cons_self
        rw [QueueOp.get?_run, hj, Option.map_some, Option.map_some, Option.map_some, if_neg hnot,
          if_pos List.mem_cons_self, QueueOp.row_of_cond (QueueOp.cond_claim.mpr
            ⟨(Table.mem_of_get? hj).2, hstatus⟩)]
      · rw [JobTable.get?_claim_of_ne heq]
        simp only [List.mem_cons, heq, false_or]

end Claims

/-! ### The call -/

namespace JobQueue

variable {workerId : String} {now : Instant} {db db' : Db} {l l' : Session}

/-- A statement of the sweep, and its commit. -/
private theorem sweep_bind_executes {α : Type} {op : QueueOp} {f : ℕ → App α} {r : Except PyError α}
    (h : ((do
      let rowcount ← issue (.update op)
      issue .commit
      return rowcount : App ℕ) >>= f).Executes semantics db l r db' l') :
    ∃ l₁, (f (op.rowcount db.jobs)).Executes semantics { db with jobs := op.run db.jobs } l₁ r db'
      l' := by
  simp only [bind_assoc] at h
  obtain ⟨_, h⟩ := Script.executes_op_bind.mp h
  obtain ⟨_, h⟩ := Script.executes_op_bind.mp h
  rw [pure_bind] at h
  exact ⟨_, h⟩

/-- The claim of a pending job succeeds. -/
private theorem tryClaimOne_bind_executes {α : Type} {id : ℕ} {f : Option ℕ → App α}
    {r : Except PyError α} {j : Job} (hj : db.jobs.get? id = some j) (hpending : j.status = .pending)
    (h : (tryClaimOne id workerId now >>= f).Executes semantics db l r db' l') :
    ∃ l₁, (f (some id)).Executes semantics
      { db with jobs := (QueueOp.claim id workerId now).run db.jobs } l₁ r db' l' := by
  obtain ⟨hmem, hid⟩ := Table.mem_of_get? hj
  have hcond : (QueueOp.claim id workerId now).cond j = true :=
    QueueOp.cond_claim.mpr ⟨hid, hpending⟩
  have hrowcount : (QueueOp.claim id workerId now).rowcount db.jobs = 1 :=
    (Table.count_update db.jobs id _).mpr ⟨j, hj, (Bool.and_eq_true_iff.mp hcond).2⟩
  have hload : ((QueueOp.claim id workerId now).run db.jobs).get? id =
      some ((QueueOp.claim id workerId now).set j) := by
    rw [QueueOp.get?_run, hj, Option.map_some, QueueOp.row_of_cond hcond]
  simp only [tryClaimOne, bind_assoc] at h
  obtain ⟨_, h⟩ := Script.executes_op_bind.mp h
  obtain ⟨_, h⟩ := Script.executes_op_bind.mp h
  simp only [semantics_exec, exec, hrowcount] at h
  rw [if_neg (by simp), bind_assoc] at h
  obtain ⟨_, h⟩ := Script.executes_op_bind.mp h
  simp only [semantics_exec, exec, hload, Option.map_some, pure_bind, QueueOp.set_id] at h
  rw [show j.id = id from hid] at h
  exact ⟨_, h⟩

/-- **The loop claims its first candidates**, up to the limit. -/
theorem claimLoop_executes {limit : ℕ} {rest claimed : List ℕ} {r : Except PyError (List ℕ)}
    (hnd : rest.Nodup) (hpending : db.jobs.Pending rest)
    (h : (claimLoop workerId now limit rest claimed).Executes semantics db l r db' l') :
    r = .ok (claimed ++ rest.take (limit - claimed.length)) ∧
      db' = { db with
        jobs := db.jobs.claimAll workerId now (rest.take (limit - claimed.length)) } := by
  induction rest generalizing claimed db l with
  | nil =>
      obtain ⟨rfl, rfl, rfl⟩ := Script.executes_pure.mp h
      simp [JobTable.claimAll]
  | cons id rest ih =>
      rw [claimLoop] at h
      split at h
      · rename_i hfull
        obtain ⟨rfl, rfl, rfl⟩ := Script.executes_pure.mp h
        rw [Nat.sub_eq_zero_of_le hfull]
        simp [JobTable.claimAll]
      · rename_i hroom
        obtain ⟨j, hj, hstatus⟩ := hpending id List.mem_cons_self
        obtain ⟨l₁, h⟩ := tryClaimOne_bind_executes hj hstatus h
        obtain ⟨rfl, rfl⟩ := ih (List.nodup_cons.mp hnd).2 (hpending.claim hnd) h
        have hsub : limit - claimed.length = limit - (claimed ++ [id]).length + 1 := by
          rw [List.length_append, List.length_singleton]
          omega
        rw [hsub, List.take_succ_cons]
        refine ⟨by rw [List.append_assoc, List.singleton_append], ?_⟩
        rw [JobTable.claimAll, JobTable.claimAll, List.foldl_cons]

/-- **A call sweeps the table, and claims the oldest eligible jobs.** -/
theorem claimNext_executes {source : Option String} {limit : ℕ} {leaseSeconds : ℤ}
    {r : Except PyError (List ℕ)}
    (h : (claimNext workerId now source limit leaseSeconds).Executes semantics db l r db' l') :
    r = .ok ((((db.jobs.swept now leaseSeconds).eligible now source).take limit).map Job.id) ∧
      db' = { db with
        jobs := (db.jobs.swept now leaseSeconds).claimAll workerId now
          ((((db.jobs.swept now leaseSeconds).eligible now source).take limit).map Job.id) } := by
  obtain ⟨l₁, h⟩ := sweep_bind_executes h
  obtain ⟨l₂, h⟩ := sweep_bind_executes h
  obtain ⟨_, h⟩ := Script.executes_op_bind.mp h
  simp only [semantics_exec, exec] at h
  change (claimLoop workerId now limit (selectCandidates now source (limit * 5)
    (db.jobs.swept now leaseSeconds)) []).Executes semantics
      { db with jobs := db.jobs.swept now leaseSeconds } _ r db' l' at h
  obtain ⟨rfl, rfl⟩ := claimLoop_executes (nodup_selectCandidates ..) (fun id hid => by
    obtain ⟨j, hj, hstatus, -⟩ := mem_selectCandidates hid
    exact ⟨j, hj, hstatus⟩) h
  have htake : (selectCandidates now source (limit * 5) (db.jobs.swept now leaseSeconds)).take
      limit = (((db.jobs.swept now leaseSeconds).eligible now source).take limit).map Job.id := by
    rw [selectCandidates_eq, ← List.map_take, List.take_take, min_eq_left (by omega)]
  rw [List.length_nil, Nat.sub_zero, htake]
  exact ⟨rfl, rfl⟩

end JobQueue

/-- What a call of `claim_next` returns and leaves behind: the jobs `first`, as they are after the
sweep, are claimed by the caller, and the sweep is all that has happened to any other job. -/
structure ClaimCall.Claims (call : ClaimCall) (db : Db) (first : List Job) (db' : Db) : Prop where
  count : first.length = min call.limit ((db.jobs.swept call.now call.leaseSeconds).rows.countP
    fun j => decide (j.Eligible call.now call.source))
  sorted : first.Pairwise Job.CandidateLe
  nodup : (first.map Job.id).Nodup
  eligible : ∀ j ∈ first, j ∈ (db.jobs.swept call.now call.leaseSeconds).rows ∧
    j.Eligible call.now call.source
  oldest : ∀ j ∈ (db.jobs.swept call.now call.leaseSeconds).rows,
    j.Eligible call.now call.source → j ∉ first → ∀ j' ∈ first, j'.CandidateLe j
  claimed : ∀ j ∈ first, db'.jobs.get? j.id = some
    { j with
      status := .claimed
      claimedBy := some call.workerId
      claimedAt := some call.now
      generation := j.generation + 1 }
  expired : ∀ j ∈ db.jobs.rows, j.Expired call.now call.leaseSeconds → j.id ∉ first.map Job.id →
    db'.jobs.get? j.id = some
      { j with
        status := if j.maxAttempts ≤ j.attemptCount + 1 then .failed else .pending
        attemptCount := j.attemptCount + 1
        nextRunAt := call.now
        claimedBy := none
        claimedAt := none
        generation := j.generation + 1
        lastError := some "claim_lease_expired" }
  waiting : ∀ j ∈ db.jobs.rows, j.DueWaiting call.now → j.id ∉ first.map Job.id →
    db'.jobs.get? j.id = some { j with status := .pending }
  unchanged : ∀ j ∈ db.jobs.rows, ¬ j.Expired call.now call.leaseSeconds →
    ¬ j.DueWaiting call.now → j.id ∉ first.map Job.id → db'.jobs.get? j.id = some j
  absent : ∀ id, db.jobs.get? id = none → db'.jobs.get? id = none
  tables : db'.observations = db.observations ∧ db'.decisions = db.decisions

/-- **Run alone, `claim_next` claims exactly the oldest eligible jobs**, up to its limit, among
those that are eligible after lease recovery and waiting promotion; these two steps are all that
happens to the other jobs. -/
theorem claim_next_alone {call : ClaimCall} {db db' : Db} {l l' : Session}
    {r : Except PyError (List ℕ)} (h : call.program.Executes semantics db l r db' l') :
    ∃ first, r = .ok (first.map Job.id) ∧ call.Claims db first db' := by
  obtain ⟨rfl, rfl⟩ := JobQueue.claimNext_executes h
  set t := db.jobs.swept call.now call.leaseSeconds with ht
  set first := (t.eligible call.now call.source).take call.limit with hfirst
  have hmem : ∀ {j}, j ∈ first → j ∈ t.rows ∧ j.Eligible call.now call.source := fun {j} hj =>
    JobTable.mem_eligible.mp (List.mem_of_mem_take hj)
  have hrow : ∀ {j}, j ∈ first → t.get? j.id = some j := fun {j} hj =>
    Table.get?_eq_some_iff.mpr ⟨(hmem hj).1, rfl⟩
  have hnodup : (first.map Job.id).Nodup := by
    have hnd := nodup_selectCandidates call.now call.source call.limit t
    rwa [selectCandidates_eq] at hnd
  have hpending : t.Pending (first.map Job.id) := by
    intro id hid
    obtain ⟨j, hj, rfl⟩ := List.mem_map.mp hid
    exact ⟨j, hrow hj, (hmem hj).2.1⟩
  have hget : ∀ id, (t.claimAll call.workerId call.now (first.map Job.id)).get? id = _ :=
    JobTable.get?_claimAll hnodup hpending
  -- A job that is not claimed is as the sweep has left it.
  have hswept : ∀ j ∈ db.jobs.rows, j.id ∉ first.map Job.id →
      (t.claimAll call.workerId call.now (first.map Job.id)).get? j.id =
        some (j.swept call.now call.leaseSeconds) := by
    intro j hj hnot
    have hold : db.jobs.get? j.id = some j := Table.get?_eq_some_iff.mpr ⟨hj, rfl⟩
    rw [hget, ht, JobTable.get?_swept, hold, Option.map_some, Option.map_some, if_neg hnot]
  refine ⟨first, rfl, ?_⟩
  exact {
    count := by rw [hfirst, List.length_take, JobTable.length_eligible]
    sorted := JobTable.eligible_pairwise.sublist (List.take_sublist _ _)
    nodup := hnodup
    eligible := fun j hj => hmem hj
    oldest := fun j hj heligible hnot j' hj' => by
      have hall : j ∈ t.eligible call.now call.source := JobTable.mem_eligible.mpr ⟨hj, heligible⟩
      have hsorted : (t.eligible call.now call.source).Pairwise Job.CandidateLe :=
        JobTable.eligible_pairwise
      rw [← List.take_append_drop call.limit (t.eligible call.now call.source)] at hall hsorted
      rcases List.mem_append.mp hall with htake | hdrop
      · exact absurd htake hnot
      · exact (List.pairwise_append.mp hsorted).2.2 j' hj' j hdrop
    claimed := fun j hj => by
      rw [hget, hrow hj, Option.map_some, if_pos (List.mem_map_of_mem hj)]
      rfl
    expired := fun j hj hexpired hnot => by rw [hswept j hj hnot, Job.swept_expired hexpired]
    waiting := fun j hj hwaiting hnot => by rw [hswept j hj hnot, Job.swept_dueWaiting hwaiting]
    unchanged := fun j hj hexpired hwaiting hnot => by
      rw [hswept j hj hnot, Job.swept_other hexpired hwaiting]
    absent := fun id hid => by
      rw [hget, ht, JobTable.get?_swept, hid]
      rfl
    tables := ⟨rfl, rfl⟩ }

/-- A call that claims a job whose lease has just run out. -/
theorem claim_next_alone_expired :
    let held : Job := { newJob ⟨"fetch_range", "fake", "k", none, none, 0, 5⟩ 1 0 with
      status := .claimed, claimedBy := some "gone", claimedAt := some 0, generation := 1 }
    let db : Db := ⟨⟨[held], by decide⟩, Table.empty, Table.empty⟩
    ∃ db' l', (ClaimCall.program ⟨"scheduler", seconds 300, none, 1, 300⟩).Executes semantics db
      Session.new (.ok [1]) db' l' := by
  intro held db
  obtain ⟨r, db', l', h⟩ := Prog.exists_executes semantics
    (ClaimCall.program ⟨"scheduler", seconds 300, none, 1, 300⟩).run db Session.new
  obtain ⟨first, rfl, hclaims⟩ := claim_next_alone h
  have hcount := hclaims.count
  obtain ⟨j, rfl⟩ : ∃ j, first = [j] := List.length_eq_one_iff.mp (hcount.trans (by decide +kernel))
  have hrow := (hclaims.eligible j (List.mem_singleton_self j)).1
  have hid : ∀ j ∈ (db.jobs.swept (seconds 300) 300).rows, j.id = 1 := by decide +kernel
  rw [show [j].map Job.id = [1] from congrArg (fun id => [id]) (hid j hrow)] at h
  exact ⟨db', l', h⟩

end MarketRelay
