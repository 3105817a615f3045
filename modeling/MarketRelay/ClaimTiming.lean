import MarketRelay.JobQueue

/-!
# The Instant of a Claim

`claim_next` selects its candidates in one statement and claims them one by one in later
ones. The claim `UPDATE` repeats the condition on the status but not the one on
`next_run_at`, so between the two a candidate can be claimed, failed or deferred by another
worker, and released with a later `next_run_at`; the first worker then claims it early.

The workers here run any programs at all beside the calls of `claim_next`. What a call knows
about its untried candidates (`Due`) is kept by every statement that does not release one of
them to a later instant, and that is the whole condition (`NoLateRelease`).

## Main results

* `ClaimCall.program_meets`: a call claims only candidates that it has selected and not yet
  tried.
* `claim_next_on_time`: in every run without late releases, no claim is early.
* `claim_next_early`: a run in which one is.
-/

open Relational Interaction

namespace MarketRelay

/-- The arguments of a call of `claim_next`. -/
structure ClaimCall where
  workerId : String
  now : Instant
  source : Option String
  limit : ℕ
  leaseSeconds : ℤ

def ClaimCall.program (call : ClaimCall) : App (List ℕ) :=
  JobQueue.claimNext call.workerId call.now call.source call.limit call.leaseSeconds

/-- What a thread runs: a call of `claim_next`, or any other program. -/
inductive ClaimWorker where
  | claimNext (call : ClaimCall)
  | other (program : App (List ℕ))

def ClaimWorker.program : ClaimWorker → App (List ℕ)
  | claimNext call => call.program
  | other program => program

variable {ι : Type}

/-- The threads of a run, each with a session of its own. -/
abbrev ClaimConfig (ι : Type) := Config Cmd Cmd.Resp Db Session (Except PyError (List ℕ)) ι

def ClaimConfig.start (workers : ι → ClaimWorker) (db : Db) : ClaimConfig ι :=
  ⟨db, fun i => ⟨Session.new, (workers i).program.run⟩⟩

/-- The statement releases the job, to be run only after `now`. -/
def QueueOp.ReleasesAfter (op : QueueOp) (j : Job) (now : Instant) : Prop :=
  op.cond j = true ∧ (op.set j).status = .pending ∧ now < (op.set j).nextRunAt

/-- The next step of thread `i` releases no job past the `now` of a call of `claim_next`
that is still running, has selected the job and has not yet tried to claim it. -/
def NoLateRelease (workers : ι → ClaimWorker) (cfg : ClaimConfig ι) (i : ι) (_ : Answers) :
    Prop :=
  ∀ op, (cfg.thread i).prog.next? = some (.update op) →
    ∀ w call, workers w = .claimNext call → (cfg.thread w).prog.next? ≠ none →
      ∀ id, (id, call.now) ∈ (cfg.thread w).loc.candidates →
        ∀ j, cfg.shared.jobs.get? id = some j → ¬ op.ReleasesAfter j call.now

/-! ### What a call knows -/

/-- If the job can be claimed, then it is due. -/
def Job.Due (j : Job) (now : Instant) : Prop := j.status = .pending → j.nextRunAt ≤ now

/-- A statement that does not release the job late keeps it due. -/
theorem Job.Due.row {j : Job} {now : Instant} (h : j.Due now) {op : QueueOp}
    (hop : ¬ op.ReleasesAfter j now) : (op.row j).Due now := by
  cases hc : op.cond j with
  | false => rw [QueueOp.row_of_not_cond hc]; exact h
  | true =>
      rw [QueueOp.row_of_cond hc]
      intro hs
      by_contra hlt
      exact hop ⟨hc, hs, not_le.mp hlt⟩

/-- The ghost state of a call is the list of its untried candidates: it claims only those. -/
def ClaimCall.contract (call : ClaimCall) : Contract Cmd Cmd.Resp (List ℕ) where
  pre
    | .update (.claim id workerId now), g => workerId = call.workerId ∧ now = call.now ∧ id ∈ g
    | .selectCandidates now _ _, _ => now = call.now
    | _, _ => True
  post
    | .update (.claim id _ _), g, _, g' => g' = g.filter fun c => decide (c ≠ id)
    | .selectCandidates .., _, r, g' => r.Nodup ∧ g' = r
    | _, g, _, g' => g' = g

namespace ClaimCall

variable {call : ClaimCall}

private theorem tryClaimOne_meets {id : ℕ} {g : List ℕ} (hid : id ∈ g) :
    (JobQueue.tryClaimOne id call.workerId call.now).Meets call.contract
      (fun _ g' => g' = g.filter fun c => decide (c ≠ id)) (fun _ _ => True) g := by
  rw [JobQueue.tryClaimOne, Script.meets_bind, meets_issue]
  refine ⟨⟨rfl, rfl, hid⟩, ?_⟩
  rintro rowcount g₁ rfl
  rw [Script.meets_bind, meets_issue]
  refine ⟨trivial, ?_⟩
  rintro _ g₂ rfl
  split
  · exact Script.meets_pure.mpr rfl
  · rw [Script.meets_bind, meets_issue]
    refine ⟨trivial, ?_⟩
    rintro _ g₃ rfl
    exact Script.meets_pure.mpr rfl

private theorem claimLoop_meets (rest claimed g : List ℕ) (hnd : rest.Nodup)
    (hg : ∀ id ∈ rest, id ∈ g) :
    (JobQueue.claimLoop call.workerId call.now call.limit rest claimed).Meets call.contract
      (fun _ _ => True) (fun _ _ => True) g := by
  induction rest generalizing claimed g with
  | nil => exact Script.meets_pure.mpr trivial
  | cons id rest ih =>
      obtain ⟨hnot, hrest⟩ := List.nodup_cons.mp hnd
      rw [JobQueue.claimLoop]
      split
      · exact Script.meets_pure.mpr trivial
      · rw [Script.meets_bind]
        refine (tryClaimOne_meets (hg id List.mem_cons_self)).mono ?_ (fun _ _ h => h)
        rintro job g' rfl
        have hkeep : ∀ c ∈ rest, c ∈ g.filter fun c => decide (c ≠ id) := by
          intro c hc
          have hne : c ≠ id := by
            rintro rfl
            exact hnot hc
          exact List.mem_filter.mpr ⟨hg c (List.mem_cons_of_mem id hc), by simpa using hne⟩
        cases job with
        | some job => exact ih (claimed ++ [job]) _ hrest hkeep
        | none => exact ih claimed _ hrest hkeep

/-- **A call claims only candidates that it has selected and not yet tried.** -/
theorem program_meets (g : List ℕ) :
    call.program.Meets call.contract (fun _ _ => True) (fun _ _ => True) g := by
  have hupdate : ∀ (op : QueueOp) (g : List ℕ), (∀ id w now, op ≠ .claim id w now) →
      Script.Meets call.contract (do
        let rowcount ← issue (.update op)
        issue .commit
        return rowcount : App ℕ) (fun _ g' => g' = g) (fun _ _ => True) g := by
    intro op g hop
    rw [Script.meets_bind, meets_issue]
    cases op with
    | claim id w now => exact absurd rfl (hop id w now)
    | _ => exact ⟨trivial, fun _ _ h => ⟨trivial, fun _ _ h' => h'.trans h⟩⟩
  rw [program, JobQueue.claimNext, Script.meets_bind]
  refine (hupdate (.recoverExpired call.now call.leaseSeconds) g (by simp)).mono ?_ (fun _ _ h => h)
  rintro _ g₁ rfl
  rw [Script.meets_bind]
  refine (hupdate (.promoteDueWaiting call.now) g₁ (by simp)).mono ?_ (fun _ _ h => h)
  rintro _ g₂ rfl
  rw [Script.meets_bind, meets_issue]
  refine ⟨rfl, ?_⟩
  rintro ids g₃ ⟨hnd, hids⟩
  exact claimLoop_meets ids [] g₃ hnd (by simp [hids])

end ClaimCall

/-! ### Runs -/

section Runs

variable {workers : ι → ClaimWorker}

/-- The contract of a thread; nothing is asked of the other programs. -/
def ClaimWorker.contract : ClaimWorker → Contract Cmd Cmd.Resp (List ℕ)
  | claimNext call => call.contract
  | other _ => Contract.free

/-- What a call knows of its candidates: those that it has not tried are due. -/
def ClaimWorker.Knows : ClaimWorker → Db → Session → List ℕ → Prop
  | claimNext call, db, l, g => ∀ id ∈ g, (id, call.now) ∈ l.candidates ∧
      ∃ j, db.jobs.get? id = some j ∧ j.Due call.now
  | other _, _, _, _ => True

theorem ClaimWorker.program_meets (w : ClaimWorker) (g : List ℕ) :
    w.program.run.Meets w.contract (fun _ _ => True) g := by
  cases w with
  | claimNext call =>
      refine Prog.Meets.mono (call.program_meets g) fun r _ _ => trivial
  | other program => exact Prog.meets_free _ g

/-- What a call knows stays true for as long as it runs. -/
theorem ClaimWorker.Knows.exec {cfg : ClaimConfig ι} {i w : ι} {e : Answers} {c : Cmd}
    {l : Session} {g : List ℕ} (hok : NoLateRelease workers cfg i e)
    (hc : (cfg.thread i).prog.next? = some c) (hrun : (cfg.thread w).prog.next? ≠ none)
    (h : (workers w).Knows cfg.shared (cfg.thread w).loc g) :
    (workers w).Knows (exec c e cfg.shared l).2.1 (cfg.thread w).loc g := by
  cases hw : workers w with
  | other program => trivial
  | claimNext call =>
      rw [hw] at h
      intro id hid
      obtain ⟨hmem, j, hj, hdue⟩ := h id hid
      refine ⟨hmem, c.row j, get?_exec hj, ?_⟩
      cases c with
      | update op => exact hdue.row (hok op hc w call hw hrun id hmem j hj)
      | markWaiting id' =>
          rw [Cmd.row]
          split
          · exact fun hpending => absurd hpending (by simp [Job.wait])
          · exact hdue
      | _ => exact hdue

/-- Beside a selection and a claim, a command keeps the candidates of its session. -/
private theorem candidates_exec {c : Cmd} (hclaim : ∀ id w now, c ≠ .update (.claim id w now))
    (hselect : ∀ now source limit, c ≠ .selectCandidates now source limit) (e : Answers)
    (db : Db) (l : Session) : (exec c e db l).2.2.candidates = l.candidates := by
  cases c with
  | update op =>
      cases op with
      | claim id w now => exact absurd rfl (hclaim id w now)
      | _ => rfl
  | selectCandidates now source limit => exact absurd rfl (hselect now source limit)
  | insertDecision d | insertObservation o | insertJob args | selectJob key =>
      rw [MarketRelay.exec]
      split <;> rfl
  | _ => rfl

private theorem mem_candidates_claim {l : Session} {t : JobTable} {id id' : ℕ}
    {workerId : String} {now now' : Instant} (h : (id', now') ∈ l.candidates) (hne : id' ≠ id) :
    (id', now') ∈ (l.noteUpdate (.claim id workerId now) t).candidates := by
  have hmem : (id', now') ∈ l.candidates.filter fun c => decide (c.1 ≠ id) :=
    List.mem_filter.mpr ⟨h, by simpa using hne⟩
  simp only [Session.noteUpdate]
  split
  · split <;> exact hmem
  · exact hmem

/-- One command of a thread, once it is known to keep the thread's candidates due. -/
theorem ClaimWorker.Knows.step {w : ClaimWorker} {c : Cmd} {e : Answers} {db : Db}
    {l : Session} {g : List ℕ} (h : w.Knows db l g)
    (hkeep : w.Knows (MarketRelay.exec c e db l).2.1 l g) (hpre : w.contract.pre c g) :
    ∃ g', w.contract.post c g (MarketRelay.exec c e db l).1 g' ∧
      w.Knows (MarketRelay.exec c e db l).2.1 (MarketRelay.exec c e db l).2.2 g' := by
  cases w with
  | other program => exact ⟨g, trivial, trivial⟩
  | claimNext call =>
      by_cases hclaim : ∃ id w now, c = .update (.claim id w now)
      · obtain ⟨id, w, now, rfl⟩ := hclaim
        refine ⟨g.filter fun c => decide (c ≠ id), rfl, fun id' hid' => ?_⟩
        obtain ⟨hg, hne⟩ := List.mem_filter.mp hid'
        exact ⟨mem_candidates_claim (h id' hg).1 (by simpa using hne), (hkeep id' hg).2⟩
      by_cases hselect : ∃ now source limit, c = .selectCandidates now source limit
      · obtain ⟨now, source, limit, rfl⟩ := hselect
        obtain rfl : now = call.now := hpre
        refine ⟨selectCandidates call.now source limit db.jobs,
          ⟨nodup_selectCandidates _ _ _ _, rfl⟩, fun id hid => ⟨?_, ?_⟩⟩
        · exact List.mem_map.mpr ⟨id, hid, rfl⟩
        · obtain ⟨j, hj, -, hdue⟩ := mem_selectCandidates hid
          exact ⟨j, hj, fun _ => hdue⟩
      push Not at hclaim hselect
      refine ⟨g, ?_, fun id hid => ⟨?_, (hkeep id hid).2⟩⟩
      · cases c with
        | update op =>
            cases op with
            | claim id w now => exact absurd rfl (hclaim id w now)
            | _ => rfl
        | selectCandidates now source limit => exact absurd rfl (hselect now source limit)
        | _ => rfl
      · rw [candidates_exec hclaim hselect]
        exact (h id hid).1

theorem ClaimWorker.knows_nil (w : ClaimWorker) (db : Db) (l : Session) : w.Knows db l [] := by
  cases w with
  | claimNext call => exact fun id hid => absurd hid List.not_mem_nil
  | other program => trivial

/-- The proof obligation of the runs without late releases. A call that has returned needs
no knowledge: what becomes of its leftover candidates does not matter. -/
theorem ClaimWorker.obligation [DecidableEq ι] :
    Config.Obligation (Except PyError (List ℕ)) semantics (fun w => (workers w).contract)
      (fun _ => True) (fun w db th g => th.prog.next? ≠ none → (workers w).Knows db th.loc g)
      (NoLateRelease workers) := by
  intro cfg i e c k g hp hok _ hknows hpre out
  have hc : (cfg.thread i).prog.next? = some c := Prog.next?_eq_some_iff.mpr ⟨k, hp⟩
  have hrun : (cfg.thread i).prog.next? ≠ none := by simp [hc]
  obtain ⟨g', hpost, hknows'⟩ := (hknows hrun).step ((hknows hrun).exec hok hc hrun) hpre
  exact ⟨trivial, ⟨g', hpost, fun _ => hknows'⟩, fun w g' _ hk hw => (hk hw).exec hok hc hw⟩

/-- **No claim is early** in a run without late releases: whenever a call of `claim_next`
issues its claim of a pending job, the job's `next_run_at` is at most the call's `now`. -/
theorem claim_next_on_time [DecidableEq ι] {db : Db} {cfg : ClaimConfig ι}
    (hr : Config.Reaches semantics (NoLateRelease workers) (ClaimConfig.start workers db) cfg)
    {w : ι} {call : ClaimCall} (hw : workers w = .claimNext call) {id : ℕ} {workerId : String}
    {now : Instant} (hnext : (cfg.thread w).prog.next? = some (.update (.claim id workerId now)))
    {j : Job} (hj : cfg.shared.jobs.get? id = some j)
    (hwins : (QueueOp.claim id workerId now).cond j = true) :
    workerId = call.workerId ∧ now = call.now ∧ j.nextRunAt ≤ call.now := by
  have hsound := hr.sound ClaimWorker.obligation
    ⟨trivial, fun i => ⟨[], fun _ => (workers i).knows_nil _ _, (workers i).program_meets []⟩⟩
  obtain ⟨k, hp⟩ := Prog.next?_eq_some_iff.mp hnext
  obtain ⟨g, hk, hpre⟩ := hsound.pre hp
  replace hk := hk (by simp [hnext])
  rw [hw] at hk hpre
  obtain ⟨rfl, rfl, hid⟩ := hpre
  obtain ⟨-, j', hj', hdue⟩ := hk id hid
  obtain rfl := Option.some.inj (hj'.symm.trans hj)
  exact ⟨rfl, rfl, hdue (QueueOp.cond_claim.mp hwins).2⟩

end Runs

/-! ### Runs with a deferred job -/

/-- Worker `false` selects its candidates; worker `true` then claims the job and defers it
by an hour for an exhausted quota. -/
def deferringWorkers (now : Instant) : Bool → ClaimWorker
  | false => .claimNext ⟨"a", now, none, 1, 300⟩
  | true => .other do
      let ids ← JobQueue.claimNext "b" 0 none 1 300
      JobQueue.deferForQuota 1 "b" 1 none 0
      return ids

/-- The next statement releases no candidate of worker `false` past the instant of its selection. -/
def releasesInTime (cfg : ClaimConfig Bool) (i : Bool) (_ : Answers) : Bool :=
  match (cfg.thread i).prog.next? with
  | some (.update op) => (cfg.thread false).loc.candidates.all fun c =>
    (cfg.shared.jobs.get? c.1).all fun j =>
      !(op.cond j && decide ((op.set j).status = .pending) && decide (c.2 < (op.set j).nextRunAt))
  | _ => true

/-- Another worker defers a candidate of a call, to an instant that is past when the call takes
place: the call claims the job after that instant. -/
theorem claim_next_on_time_deferred :
    let job := newJob ⟨"fetch_range", "fake", "contended", none, none, 0, 5⟩ 1 0
    let db : Db := ⟨⟨[job], List.pairwise_singleton _ _⟩, Table.empty, Table.empty⟩
    let cfg := (ClaimConfig.start (deferringWorkers (seconds 7200)) db).run semantics
      (List.replicate 5 (false, default) ++ List.replicate 11 (true, default))
    (cfg.thread false).prog.next? = some (.update (.claim 1 "a" (seconds 7200))) ∧
      ∃ j, cfg.shared.jobs.get? 1 = some j ∧ j.generation = 1 ∧ j.nextRunAt ≤ seconds 7200 := by
  intro job db cfg
  have hcheck : ∀ cfg i e, releasesInTime cfg i e = true →
      NoLateRelease (deferringWorkers (seconds 7200)) cfg i e := by
    rintro cfg i e h op hop w call hw _ id hid j hj ⟨hcond, hstatus, hlate⟩
    cases w with
    | true => exact absurd hw (by simp [deferringWorkers])
    | false =>
        simp only [releasesInTime, hop, List.all_eq_true] at h
        have hlist := h _ hid
        simp [hj, hcond, hstatus, hlate] at hlist
  have hr : Config.Reaches semantics (NoLateRelease (deferringWorkers (seconds 7200)))
      (ClaimConfig.start (deferringWorkers (seconds 7200)) db) cfg :=
    Config.reaches_of_checkRun hcheck (by decide +kernel)
  have hnext : (cfg.thread false).prog.next? = some (.update (.claim 1 "a" (seconds 7200))) := by
    decide +kernel
  let deferred : Job := { job with nextRunAt := seconds 3600, generation := 1 }
  have hj : cfg.shared.jobs.get? 1 = some deferred := by decide +kernel
  exact ⟨hnext, deferred, hj, rfl, (claim_next_on_time hr rfl hnext hj (by decide)).2.2⟩

/-- **A claim can be early**: the deferral is cut short by the worker that had selected the
job before. -/
theorem claim_next_early :
    ¬ ∀ (workers : Bool → ClaimWorker) (db : Db) (schedule : List (Bool × Answers)) (w : Bool)
      (call : ClaimCall) (id : ℕ) (workerId : String) (now : Instant) (j : Job),
      let cfg := (ClaimConfig.start workers db).run semantics schedule
      workers w = .claimNext call →
      (cfg.thread w).prog.next? = some (.update (.claim id workerId now)) →
      cfg.shared.jobs.get? id = some j → (QueueOp.claim id workerId now).cond j = true →
      j.nextRunAt ≤ call.now := by
  intro h
  let job := newJob ⟨"fetch_range", "fake", "contended", none, none, 0, 5⟩ 1 0
  let db : Db := ⟨⟨[job], List.pairwise_singleton _ _⟩, Table.empty, Table.empty⟩
  let deferred : Job := { job with nextRunAt := seconds 3600, generation := 1 }
  have hearly := h (deferringWorkers 0) db
    (List.replicate 5 (false, default) ++ List.replicate 11 (true, default)) false
    ⟨"a", 0, none, 1, 300⟩ 1 "a" 0 deferred rfl (by decide +kernel) (by decide +kernel)
    (by decide)
  exact absurd hearly (by decide)

end MarketRelay
