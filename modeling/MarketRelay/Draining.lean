import MarketRelay.BatchAlone
import MarketRelay.Lifecycle

/-!
# The Queue Drains

A single worker that calls `claim_and_process` again and again brings every job to an end, whatever
the adapters do short of reporting an exhausted quota: they may raise, time out, answer with any rows
or with a stale claim of their own.

The measure is the rank of a job (`Job.rank`): twice the attempts that it has left, and one more while
no worker holds it. A claim takes the one. An attempt that fails, or a lease that runs out, takes two
and gives the one back. So the rank of every job that a call claims has dropped when the call is over,
and a call that finds a job ready lowers the total rank of the table.

A job is ready when it is due, or when its lease has run out. A job that a call leaves alive is ready
for every call that is at least the longest backoff and a lease later.

## Main results

* `RoundEnd.rank_le`, `RoundEnd.ready`: what a round makes of the rank and of the next claim.
* `rank_lt_of_call`: a call that finds a job ready lowers the total rank.
* `queue_drains`: after as many calls as the total rank, every job is over.
-/

open Relational Interaction Gregorian

namespace MarketRelay

/-! ### Ranks -/

/-- Twice the attempts that a job has left, and one more while no worker holds it. -/
def Job.rank (j : Job) : ℕ :=
  if j.status.ended then 0
  else 2 * (j.maxAttempts - j.attemptCount) + if j.status.held then 0 else 1

/-- The ranks of all jobs, added up. -/
def JobTable.rank (t : JobTable) : ℕ := t.total Job.rank

section Rank

variable {now : Instant} {leaseSeconds : ℤ} {workerId : String} {generation : ℕ} {j k : Job}

theorem Job.rank_of_ended (h : j.status.ended = true) : j.rank = 0 := if_pos h

theorem Job.rank_of_held (h : j.status.held = true) :
    j.rank = 2 * (j.maxAttempts - j.attemptCount) := by
  have hended : j.status.ended = false := by
    cases hs : j.status <;> simp_all [JobStatus.held, JobStatus.ended]
  simp [rank, h, hended]

/-- A job that is not over has a rank. -/
theorem Job.Sound.rank_pos (h : j.Sound) (hlive : j.status.ended = false) : 0 < j.rank := by
  have hbudget := h.budget fun hs => by simp [hs, JobStatus.ended] at hlive
  simp only [rank, hlive, Bool.false_eq_true, if_false]
  omega

/-- An attempt that has been spent lowers the rank. -/
theorem Job.Sound.rank_lt_of_spent (h : j.Sound) (hheld : j.status.held = true)
    (hcount : k.attemptCount = j.attemptCount + 1) (hmax : k.maxAttempts = j.maxAttempts)
    (hstatus : k.status = if j.maxAttempts ≤ j.attemptCount + 1 then .failed else .pending) :
    k.rank < j.rank := by
  have hbudget := h.budget (Job.not_failed_of_held hheld)
  rw [Job.rank_of_held hheld]
  by_cases hle : j.maxAttempts ≤ j.attemptCount + 1
  · rw [if_pos hle] at hstatus
    rw [Job.rank_of_ended (by rw [hstatus]; rfl)]
    omega
  · rw [if_neg hle] at hstatus
    simp only [rank, hstatus, JobStatus.ended, JobStatus.held, Bool.false_eq_true, if_false, hcount,
      hmax]
    omega

/-- The sweep keeps a row sound. -/
theorem Job.Sound.swept (h : j.Sound) : (j.swept now leaseSeconds).Sound :=
  (h.row (.recoverExpired now leaseSeconds) fun _ _ _ _ hop => absurd hop (by simp)).row
    (.promoteDueWaiting now) fun _ _ _ _ hop => absurd hop (by simp)

/-- The sweep raises no rank, and lowers that of a job whose lease has run out. -/
theorem Job.Sound.rank_swept_lt (h : j.Sound) (hexpired : j.Expired now leaseSeconds) :
    (j.swept now leaseSeconds).rank < j.rank := by
  rw [Job.swept_expired hexpired]
  exact h.rank_lt_of_spent hexpired.1 rfl rfl rfl

theorem Job.Sound.rank_swept_le (h : j.Sound) : (j.swept now leaseSeconds).rank ≤ j.rank := by
  by_cases hexpired : j.Expired now leaseSeconds
  · exact (h.rank_swept_lt hexpired).le
  · by_cases hwaiting : j.DueWaiting now
    · rw [Job.swept_dueWaiting hwaiting]
      simp [rank, hwaiting.1, JobStatus.ended, JobStatus.held]
    · rw [Job.swept_other hexpired hwaiting]

/-- A claim lowers the rank. -/
theorem Job.rank_claimedAs_lt (h : j.status = .pending) :
    (j.claimedAs workerId now).rank < j.rank := by
  simp [rank, claimedAs, QueueOp.set, h, JobStatus.ended, JobStatus.held]

theorem Job.Sound.claimedAs (h : j.Sound) (hpending : j.status = .pending) :
    (j.claimedAs workerId now).Sound := by
  have hrow := h.row (.claim j.id workerId now) fun _ _ _ _ hop => absurd hop (by simp)
  rwa [QueueOp.row_of_cond (QueueOp.cond_claim.mpr ⟨rfl, hpending⟩)] at hrow

/-- A transition under the token of the job keeps its row sound. -/
theorem Job.Sound.values (h : j.Sound) (hheld : j.HeldBy workerId generation) {w : Transition}
    (hallowed : j.status ∈ w.allowedStatuses) (hcurrent : w.CurrentFor j) : (w.values j).Sound := by
  have hrow := h.row (.owned j.id workerId generation w) fun _ _ _ _ hop _ => by
    obtain ⟨-, -, -, rfl⟩ := QueueOp.owned.inj hop
    exact hcurrent
  rwa [QueueOp.row_of_cond (QueueOp.cond_owned.mpr ⟨rfl, hallowed, hheld.2⟩)] at hrow

/-- A failure that is computed from a row is current for it. -/
theorem Transition.failure_currentFor (j : Job) (error : String) (now : Instant) :
    (Transition.failure j error now).CurrentFor j := by
  intro n s err t heq
  obtain ⟨rfl, rfl, -, -⟩ := Transition.markFailed.inj heq
  exact ⟨rfl, rfl⟩

end Rank

/-! ### What a round makes of them -/

/-- The job can be claimed by a call: it is due, or its lease has run out. -/
def Job.Ready (now : Instant) (leaseSeconds : ℤ) (j : Job) : Prop :=
  j.status = .pending ∧ j.nextRunAt ≤ now ∨ j.DueWaiting now ∨ j.Expired now leaseSeconds

section RoundEnd

variable {now now' : Instant} {leaseSeconds : ℤ} {workerId : String} {j j' k : Job}
  {events : List (Event Cmd Cmd.Resp)} {count : ProcessOutcome → ProcessOutcome}

theorem Job.Begun.sound (h : (j.claimedAs workerId now).Begun k)
    (hsound : (j.claimedAs workerId now).Sound) : k.Sound := by
  rcases h with rfl | rfl
  · exact hsound
  · exact hsound.values (j.claimedAs_heldBy workerId now) (by simp [Transition.allowedStatuses,
      Job.claimedAs, QueueOp.set]) fun _ _ _ _ h => absurd h (by simp)

theorem Job.Begun.rank (h : (j.claimedAs workerId now).Begun k) :
    k.rank = (j.claimedAs workerId now).rank := by
  rcases h with rfl | rfl
  · rfl
  · rw [Job.rank_of_held rfl, Job.rank_of_held rfl]
    rfl

/-- A round keeps the row of its job sound. -/
theorem RoundEnd.sound (h : RoundEnd now (j.claimedAs workerId now) events count j')
    (hsound : (j.claimedAs workerId now).Sound) : j'.Sound := by
  have hheld := j.claimedAs_heldBy workerId now
  cases h with
  | done =>
      have hbegun : (j.claimedAs workerId now).Begun
          (Transition.markRunning.values (j.claimedAs workerId now)) := Or.inr rfl
      exact (hbegun.sound hsound).values (hbegun.heldBy hheld)
        (by simp [Transition.allowedStatuses, Transition.values]) fun _ _ _ _ h => absurd h (by simp)
  | deferred =>
      exact hsound.values hheld (by simp [Transition.quota, Transition.allowedStatuses,
        Job.claimedAs, QueueOp.set]) fun _ _ _ _ h => absurd h (by simp [Transition.quota])
  | failed hbegun =>
      refine (hbegun.sound hsound).values (hbegun.heldBy hheld) ?_
        (Transition.failure_currentFor _ _ _)
      rcases hbegun with rfl | rfl
      · simp [Transition.failure, Transition.allowedStatuses, Job.claimedAs, QueueOp.set]
      · simp [Transition.failure, Transition.allowedStatuses, Transition.values]
  | abandoned hbegun => exact hbegun.sound hsound

/-- **A round raises no rank**, unless it finds the quota exhausted. -/
theorem RoundEnd.rank_le (h : RoundEnd now (j.claimedAs workerId now) events count j')
    (hsound : (j.claimedAs workerId now).Sound) (hleft : ¬ FoundExhausted events) :
    j'.rank ≤ (j.claimedAs workerId now).rank := by
  cases h with
  | done => exact (Job.rank_of_ended rfl).trans_le (Nat.zero_le _)
  | deferred hexhausted => exact absurd hexhausted hleft
  | @failed k error hbegun =>
      have hlt : ((Transition.failure k error now).values k).rank < k.rank :=
        (hbegun.sound hsound).rank_lt_of_spent
          (hbegun.heldBy (j.claimedAs_heldBy workerId now)).1 rfl rfl rfl
      rw [← hbegun.rank]
      exact hlt.le
  | abandoned hbegun => exact hbegun.rank.le

/-- **A job that its round leaves alive is ready again** a backoff and a lease later. -/
theorem RoundEnd.ready (h : RoundEnd now (j.claimedAs workerId now) events count j')
    (hleft : ¬ FoundExhausted events) (hlive : j'.status.ended = false)
    (hbackoff : now + seconds backoffCapSeconds ≤ now')
    (hlease : now + seconds leaseSeconds ≤ now') : j'.Ready now' leaseSeconds := by
  cases h with
  | done => exact absurd hlive (by simp [Transition.values, JobStatus.ended])
  | deferred hexhausted => exact absurd hexhausted hleft
  | @failed k error =>
      refine Or.inl ⟨?_, ?_⟩
      · simp only [Transition.failure, Transition.values] at hlive ⊢
        split at hlive
        · exact absurd hlive (by simp [JobStatus.ended])
        · rename_i hle
          exact if_neg hle
      · have hcap := backoffSeconds_le (k.attemptCount + 1)
        have hle : seconds (backoffSeconds (k.attemptCount + 1)) ≤ seconds backoffCapSeconds := by
          simp only [seconds]
          omega
        exact (Int.add_le_add_left hle now).trans hbackoff
  | abandoned hbegun =>
      refine Or.inr (Or.inr ⟨(hbegun.heldBy (j.claimedAs_heldBy workerId now)).1, now, ?_, ?_⟩)
      · rcases hbegun with rfl | rfl <;> rfl
      · exact le_sub_iff_add_le.mpr hlease

end RoundEnd

/-! ### What a call makes of them -/

section Call

variable {settings : Settings} {now : Instant} {batchSize : ℕ} {workerId : String} {db db' : Db}
  {l l' : Session} {events : List (Event Cmd Cmd.Resp)} {r : Except PyError ProcessOutcome}

/-- A job that is ready and not over when a call starts is over, or due, once the table is swept. -/
theorem Job.Ready.swept {leaseSeconds : ℤ} {j : Job} (h : j.Ready now leaseSeconds)
    (hlive : (j.swept now leaseSeconds).status.ended = false) :
    (j.swept now leaseSeconds).Eligible now none := by
  rcases h with ⟨hpending, hdue⟩ | hwaiting | hexpired
  · have hswept : j.swept now leaseSeconds = j := Job.swept_other
      (fun h => absurd h.1 (by simp [hpending, JobStatus.held]))
      fun h => absurd (hpending.symm.trans h.1) (by simp)
    rw [hswept]
    exact ⟨hpending, hdue, rfl⟩
  · rw [Job.swept_dueWaiting hwaiting]
    exact ⟨rfl, hwaiting.2, rfl⟩
  · rw [Job.swept_expired hexpired] at hlive ⊢
    simp only at hlive
    split at hlive
    · exact absurd hlive (by simp [JobStatus.ended])
    · rename_i hleft
      exact ⟨if_neg hleft, le_rfl, rfl⟩

/-- What a call makes of one job: the sweep is all that has happened to it, or it has been claimed and
has had its round. -/
inductive CallEnd (now : Instant) (leaseSeconds : ℤ) (workerId : String)
    (events : List (Event Cmd Cmd.Resp)) (j : Job) : Job → Prop where
  | swept : CallEnd now leaseSeconds workerId events j (j.swept now leaseSeconds)
  | claimed {count : ProcessOutcome → ProcessOutcome} {j' : Job} :
      (j.swept now leaseSeconds).status = .pending →
      RoundEnd now ((j.swept now leaseSeconds).claimedAs workerId now) events count j' →
      CallEnd now leaseSeconds workerId events j j'

/-- A call makes something of every job; those of its batch are claimed. -/
theorem callEnd_of_traces
    (hx : (Scheduler.claimAndProcess settings now batchSize workerId).Traces semantics db l events r
      db' l') {id : ℕ} {j : Job} (hj : db.jobs.get? id = some j) :
    ∃ j', db'.jobs.get? id = some j' ∧
      CallEnd now settings.jobLeaseSeconds workerId events j j' ∧
      (j.swept now settings.jobLeaseSeconds ∈
          db.jobs.batch now settings.jobLeaseSeconds batchSize →
        ∃ count, RoundEnd now
          ((j.swept now settings.jobLeaseSeconds).claimedAs workerId now) events count j') := by
  obtain ⟨ends, -, hall, -, hframe⟩ := Scheduler.claimAndProcess_traces hx
  have hswept : (db.jobs.swept now settings.jobLeaseSeconds).get? id =
      some (j.swept now settings.jobLeaseSeconds) := by
    rw [JobTable.get?_swept, hj, Option.map_some]
  have hid : (j.swept now settings.jobLeaseSeconds).id = id := (Table.mem_of_get? hswept).2
  by_cases hmem : j.swept now settings.jobLeaseSeconds ∈
      db.jobs.batch now settings.jobLeaseSeconds batchSize
  · obtain ⟨n, hn⟩ := List.mem_iff_get.mp hmem
    obtain ⟨hend, hrow⟩ := hall.get n.2 (hall.length_eq ▸ n.2)
    rw [Fin.eta, hn] at hend hrow
    rw [hid] at hrow
    exact ⟨_, hrow, .claimed (JobTable.mem_batch hmem).2.1 hend, fun _ => ⟨_, hend⟩⟩
  · have hnot : id ∉ (db.jobs.batch now settings.jobLeaseSeconds batchSize).map Job.id := by
      intro hin
      obtain ⟨j₁, hj₁, hid₁⟩ := List.mem_map.mp hin
      have hrow₁ := (JobTable.mem_batch hj₁).1
      rw [hid₁, hswept] at hrow₁
      exact hmem (Option.some.inj hrow₁ ▸ hj₁)
    refine ⟨_, ?_, .swept, fun h => absurd h hmem⟩
    rw [hframe id hnot, hj, Option.map_some]

theorem CallEnd.sound {leaseSeconds : ℤ} {j j' : Job}
    (h : CallEnd now leaseSeconds workerId events j j') (hsound : j.Sound) : j'.Sound := by
  cases h with
  | swept => exact hsound.swept
  | claimed hpending hend => exact hend.sound (hsound.swept.claimedAs hpending)

theorem CallEnd.rank_le {leaseSeconds : ℤ} {j j' : Job}
    (h : CallEnd now leaseSeconds workerId events j j') (hsound : j.Sound)
    (hleft : ¬ FoundExhausted events) : j'.rank ≤ j.rank := by
  cases h with
  | swept => exact hsound.rank_swept_le
  | claimed hpending hend =>
      calc j'.rank ≤ ((j.swept now leaseSeconds).claimedAs workerId now).rank :=
            hend.rank_le (hsound.swept.claimedAs hpending) hleft
        _ ≤ (j.swept now leaseSeconds).rank := (Job.rank_claimedAs_lt hpending).le
        _ ≤ j.rank := hsound.rank_swept_le

/-- Every job that is not over can be claimed by a call. -/
def JobTable.Ready (now : Instant) (leaseSeconds : ℤ) (t : JobTable) : Prop :=
  ∀ j ∈ t.rows, j.status.ended = false → j.Ready now leaseSeconds

/-- A job that was ready is ready again a backoff and a lease later, if it is not over. -/
theorem CallEnd.ready {now' : Instant} {leaseSeconds : ℤ} {j j' : Job}
    (h : CallEnd now leaseSeconds workerId events j j') (hleft : ¬ FoundExhausted events)
    (hready : j.status.ended = false → j.Ready now leaseSeconds)
    (hbackoff : now + seconds backoffCapSeconds ≤ now')
    (hlease : now + seconds leaseSeconds ≤ now') (hlive : j'.status.ended = false) :
    j'.Ready now' leaseSeconds := by
  cases h with
  | swept =>
      have hold : j.status.ended = false := by
        by_contra hended
        rw [Bool.not_eq_false] at hended
        rw [Job.swept, (QueueOp.recoverExpired now leaseSeconds).row_eq_self_of_ended hended,
          (QueueOp.promoteDueWaiting now).row_eq_self_of_ended hended, hended] at hlive
        exact absurd hlive (by simp)
      obtain ⟨hpending, hdue, -⟩ := (hready hold).swept hlive
      have hnow : now ≤ now' := by
        have hcap : (0 : ℤ) ≤ seconds backoffCapSeconds := by decide
        exact (le_add_of_nonneg_right hcap).trans hbackoff
      exact Or.inl ⟨hpending, hdue.trans hnow⟩
  | claimed _ hend => exact hend.ready hleft hlive hbackoff hlease

/-- **A call that finds a job ready lowers the total rank.** -/
theorem rank_lt_of_call
    (hx : (Scheduler.claimAndProcess settings now batchSize workerId).Traces semantics db l events r
      db' l') (hleft : ¬ FoundExhausted events) (hsize : 1 ≤ batchSize)
    (hsound : ∀ j ∈ db.jobs.rows, j.Sound) {j : Job} (hj : j ∈ db.jobs.rows)
    (hlive : j.status.ended = false) (hready : j.Ready now settings.jobLeaseSeconds) :
    db'.jobs.rank < db.jobs.rank := by
  obtain ⟨-, -, -, hkeys, -⟩ := Scheduler.claimAndProcess_traces hx
  refine Table.total_lt hkeys (fun id k hk => ?_) ?_
  · obtain ⟨k', hk', hend, -⟩ := callEnd_of_traces hx hk
    exact ⟨k', hk', hend.rank_le (hsound k (Table.mem_of_get? hk).1) hleft⟩
  · -- A job whose lease has run out has spent an attempt; otherwise there is a job to claim.
    have hget : db.jobs.get? j.id = some j := Table.get?_eq_some_iff.mpr ⟨hj, rfl⟩
    obtain ⟨j', hj', hend, -⟩ := callEnd_of_traces hx hget
    by_cases hexpired : j.Expired now settings.jobLeaseSeconds
    · refine ⟨j.id, j, j', hget, hj', ?_⟩
      have hlt := (hsound j hj).rank_swept_lt hexpired
      cases hend with
      | swept => exact hlt
      | claimed hpending hround =>
          calc j'.rank ≤ ((j.swept now settings.jobLeaseSeconds).claimedAs workerId now).rank :=
                hround.rank_le ((hsound j hj).swept.claimedAs hpending) hleft
            _ ≤ (j.swept now settings.jobLeaseSeconds).rank := (Job.rank_claimedAs_lt hpending).le
            _ < j.rank := hlt
    · have hstatus : (j.swept now settings.jobLeaseSeconds).status.ended = false := by
        by_cases hwaiting : j.DueWaiting now
        · rw [Job.swept_dueWaiting hwaiting]
          rfl
        · rwa [Job.swept_other hexpired hwaiting]
      have heligible : j.swept now settings.jobLeaseSeconds ∈
          (db.jobs.swept now settings.jobLeaseSeconds).eligible now none := by
        refine JobTable.mem_eligible.mpr ⟨(Table.mem_of_get? (k := j.id) ?_).1, hready.swept hstatus⟩
        rw [JobTable.get?_swept, hget, Option.map_some]
      obtain ⟨b, hb⟩ : ∃ b, b ∈ db.jobs.batch now settings.jobLeaseSeconds batchSize := by
        refine List.exists_mem_of_length_pos ?_
        have hpos := List.length_pos_of_mem heligible
        rw [JobTable.batch, List.length_take]
        omega
      obtain ⟨hrow, hpending, -⟩ := JobTable.mem_batch hb
      rw [JobTable.get?_swept, Option.map_eq_some_iff] at hrow
      obtain ⟨k, hk, rfl⟩ := hrow
      have hksound := hsound k (Table.mem_of_get? hk).1
      obtain ⟨k', hk', -, hround⟩ := callEnd_of_traces hx hk
      obtain ⟨count, hround⟩ := hround hb
      refine ⟨_, k, k', hk, hk', ?_⟩
      calc k'.rank ≤ ((k.swept now settings.jobLeaseSeconds).claimedAs workerId now).rank :=
            hround.rank_le (hksound.swept.claimedAs hpending) hleft
        _ < (k.swept now settings.jobLeaseSeconds).rank := Job.rank_claimedAs_lt hpending
        _ ≤ k.rank := hksound.rank_swept_le

theorem rank_le_of_call
    (hx : (Scheduler.claimAndProcess settings now batchSize workerId).Traces semantics db l events r
      db' l') (hleft : ¬ FoundExhausted events) (hsound : ∀ j ∈ db.jobs.rows, j.Sound) :
    db'.jobs.rank ≤ db.jobs.rank := by
  obtain ⟨-, -, -, hkeys, -⟩ := Scheduler.claimAndProcess_traces hx
  refine Table.total_le hkeys fun id k hk => ?_
  obtain ⟨k', hk', hend, -⟩ := callEnd_of_traces hx hk
  exact ⟨k', hk', hend.rank_le (hsound k (Table.mem_of_get? hk).1) hleft⟩

/-- A row after a call is what the call has made of a row. -/
theorem exists_callEnd
    (hx : (Scheduler.claimAndProcess settings now batchSize workerId).Traces semantics db l events r
      db' l') {j' : Job} (hj' : j' ∈ db'.jobs.rows) :
    ∃ j ∈ db.jobs.rows, CallEnd now settings.jobLeaseSeconds workerId events j j' := by
  obtain ⟨-, -, -, hkeys, -⟩ := Scheduler.claimAndProcess_traces hx
  have hget' : db'.jobs.get? j'.id = some j' := Table.get?_eq_some_iff.mpr ⟨hj', rfl⟩
  have hmem : j'.id ∈ db.jobs.keys := hkeys ▸ Table.mem_keys_iff.mpr ⟨j', hget'⟩
  obtain ⟨j, hj⟩ := Table.mem_keys_iff.mp hmem
  obtain ⟨j₁, hj₁, hend, -⟩ := callEnd_of_traces hx hj
  obtain rfl := Option.some.inj (hget'.symm.trans hj₁)
  exact ⟨j, (Table.mem_of_get? hj).1, hend⟩

end Call

/-! ### Calls, one after another -/

/-- Calls of a single worker at some instants, each with a session of its own, none of which finds the
quota of a source exhausted. -/
inductive Calls (settings : Settings) (batchSize : ℕ) (workerId : String) :
    Db → List Instant → Db → Prop where
  | nil {db : Db} : Calls settings batchSize workerId db [] db
  | call {db db₁ db' : Db} {l l' : Session} {now : Instant} {later : List Instant}
      {events : List (Event Cmd Cmd.Resp)} {r : Except PyError ProcessOutcome} :
      (Scheduler.claimAndProcess settings now batchSize workerId).Traces semantics db l events r db₁
        l' →
      ¬ FoundExhausted events → Calls settings batchSize workerId db₁ later db' →
      Calls settings batchSize workerId db (now :: later) db'

/-- The next call is at least a backoff and a lease later. -/
def Settings.Apart (settings : Settings) (now now' : Instant) : Prop :=
  now + seconds backoffCapSeconds ≤ now' ∧ now + seconds settings.jobLeaseSeconds ≤ now'

/-- From a sound table whose jobs are ready, enough calls leave every job over. -/
theorem Calls.drains {settings : Settings} {batchSize : ℕ} {workerId : String} {db db' : Db}
    {times : List Instant} (h : Calls settings batchSize workerId db times db')
    (hsize : 1 ≤ batchSize) (hapart : times.IsChain settings.Apart)
    (hsound : ∀ j ∈ db.jobs.rows, j.Sound)
    (hready : ∀ now ∈ times.head?, db.jobs.Ready now settings.jobLeaseSeconds)
    (henough : db.jobs.rank ≤ times.length) :
    db'.jobs.keys = db.jobs.keys ∧ ∀ j ∈ db'.jobs.rows, j.status.ended = true := by
  induction h with
  | @nil db =>
      refine ⟨rfl, fun j hj => ?_⟩
      by_contra hlive
      rw [Bool.not_eq_true] at hlive
      have hpos := (hsound j hj).rank_pos hlive
      have hle : j.rank ≤ db.jobs.rank := Table.le_total hj
      simp only [List.length_nil] at henough
      omega
  | @call db db₁ db' l l' now later events r hx hleft _ ih =>
      obtain ⟨-, -, -, hkeys, -⟩ := Scheduler.claimAndProcess_traces hx
      have hready₀ := hready now rfl
      have hrank : db₁.jobs.rank ≤ later.length := by
        rw [List.length_cons] at henough
        by_cases hlive : ∃ j ∈ db.jobs.rows, j.status.ended = false
        · obtain ⟨j, hj, hlive⟩ := hlive
          have hlt := rank_lt_of_call hx hleft hsize hsound hj hlive (hready₀ j hj hlive)
          omega
        · have hzero : db.jobs.rank = 0 := by
            refine List.sum_eq_zero fun n hn => ?_
            obtain ⟨j, hj, rfl⟩ := List.mem_map.mp hn
            refine Job.rank_of_ended ?_
            by_contra hended
            exact hlive ⟨j, hj, by simpa using hended⟩
          have hle := rank_le_of_call hx hleft hsound
          omega
      obtain ⟨hkeys', hall⟩ := ih (hapart.tail) (fun j' hj' => by
        obtain ⟨j, hj, hend⟩ := exists_callEnd hx hj'
        exact hend.sound (hsound j hj)) (fun now' hnow' j' hj' hlive => by
        obtain ⟨j, hj, hend⟩ := exists_callEnd hx hj'
        have hnext : settings.Apart now now' := by
          cases later with
          | nil => exact absurd hnow' (by simp)
          | cons t rest =>
              obtain rfl : t = now' := by simpa using hnow'
              exact (List.isChain_cons_cons.mp hapart).1
        exact hend.ready hleft (hready₀ j hj) hnext.1 hnext.2 hlive) hrank
      exact ⟨hkeys'.trans hkeys, hall⟩

/-- **The queue drains.** In every reachable table, a single worker that calls `claim_and_process`
with a batch of at least one job, at instants that are a backoff and a lease apart, the first of which
finds every job that is not over due or its lease run out, has brought every job to an end after as
many calls as the total rank of the table, whatever the adapters do short of reporting an exhausted
quota. No job is added or lost. -/
theorem queue_drains {settings : Settings} {batchSize : ℕ} {workerId : String} {db db' : Db}
    {history : JobHistory} {times : List Instant} (hreachable : history.Reachable)
    (hjobs : db.jobs = history.jobs) (hsize : 1 ≤ batchSize)
    (hready : ∀ now ∈ times.head?, db.jobs.Ready now settings.jobLeaseSeconds)
    (hapart : times.IsChain settings.Apart)
    (hcalls : Calls settings batchSize workerId db times db')
    (henough : db.jobs.rank ≤ times.length) :
    db'.jobs.keys = db.jobs.keys ∧ ∀ j ∈ db'.jobs.rows, j.status.ended = true := by
  refine hcalls.drains hsize hapart (fun j hj => ?_) hready henough
  rw [hjobs] at hj
  exact (hreachable.inv.1 j.id j (Table.get?_eq_some_iff.mpr ⟨hj, rfl⟩)).sound

/-- Calls can be made at any instants. -/
theorem exists_calls (settings : Settings) (batchSize : ℕ) (workerId : String) (db : Db)
    (times : List Instant) : ∃ db', Calls settings batchSize workerId db times db' := by
  induction times generalizing db with
  | nil => exact ⟨db, .nil⟩
  | cons now later ih =>
      obtain ⟨events, r, db₁, l', hx, hall⟩ := Prog.exists_traces semantics default
        (Scheduler.claimAndProcess settings now batchSize workerId).run db Session.new
      obtain ⟨db', hcalls⟩ := ih db₁
      refine ⟨db', .call hx ?_ hcalls⟩
      rintro ⟨source, q, hevent, hexhausted⟩
      obtain ⟨_, _, hanswer⟩ := hall _ hevent
      obtain rfl : q = ⟨"", 1, 1, none⟩ := Except.ok.inj hanswer
      exact absurd hexhausted (by decide)

/-- A job with a single attempt is over after three calls. -/
theorem queue_drains_single_attempt :
    let history := JobHistory.start.next
      (.enqueue ⟨"fetch_range", "fake", "single", none, none, 0, 1⟩ 7 0)
    ∃ db', Calls ⟨["fake"], 300, 3600⟩ 1 "scheduler" ⟨history.jobs, Table.empty, Table.empty⟩
        [0, seconds 3600, seconds 7200] db' ∧
      db'.jobs.keys = [7] ∧ ∀ j ∈ db'.jobs.rows, j.status.ended = true := by
  intro history
  obtain ⟨db', hcalls⟩ := exists_calls ⟨["fake"], 300, 3600⟩ 1 "scheduler"
    ⟨history.jobs, Table.empty, Table.empty⟩ [0, seconds 3600, seconds 7200]
  have hreachable : history.Reachable := .next .start (le_refl 1)
  have hready : ∀ now ∈ ([0, seconds 3600, seconds 7200] : List Instant).head?,
      history.jobs.Ready now 300 := by
    rintro now ⟨⟩ j hj -
    obtain rfl := List.mem_singleton.mp hj
    exact Or.inl ⟨rfl, le_rfl⟩
  have hapart : ([0, seconds 3600, seconds 7200] : List Instant).IsChain
      (Settings.Apart ⟨["fake"], 300, 3600⟩) := by
    refine List.isChain_cons_cons.mpr ⟨⟨by decide, by decide⟩, List.isChain_cons_cons.mpr
      ⟨⟨by decide, by decide⟩, .singleton _⟩⟩
  obtain ⟨hkeys, hall⟩ := queue_drains hreachable rfl le_rfl hready hapart hcalls (by decide)
  exact ⟨db', hcalls, hkeys, hall⟩

end MarketRelay
