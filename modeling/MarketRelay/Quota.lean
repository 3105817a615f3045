import MarketRelay.SchedulerFencing

/-!
# The Quota of a Source

A quota port that honours its contract, as a book of counters: `check` reports the limit
less what has been consumed, `consume` charges its cost while any remains, and nothing is
reset. The book also counts the calls of `fetch_range`, which the port does not see: the
runner checks before a fetch and charges after it, so that the two counters agree only when
every fetch reaches the charge.

Between the check and the charge the runner can leave in two ways: the fetch raises (or times
out, or dies in its child process), or the claim is lost during the fetch and `assert_owned`
raises. In a run without these (`Charges`), a fetch is in flight exactly between the two calls,
and the bound is the invariant `QuotaPhase.Accounts`.

## Main results

* `IngestionRunner.fetch_charges`: a call fetches only what a check has granted, and charges it.
* `fetches_bounded`: in every run in which each fetch is charged, the fetches of a source never
  exceed its limit.
* `fetches_exceed`: a failed fetch is not charged, and its retry exceeds the limit.
-/

open Relational Interaction Gregorian

namespace MarketRelay

/-! ### The port -/

/-- The counters of a quota port, and the number of `fetch_range` calls issued for each
source. -/
structure QuotaBook where
  consumed : String → ℕ
  fetches : String → ℕ

namespace QuotaBook

variable (limit : String → ℕ)

/-- `check`; the port may know when the quota is reset. -/
def check (book : QuotaBook) (source : String) (resetAt : Option Instant) : QuotaStatus :=
  ⟨source, max ((limit source : ℤ) - book.consumed source) 0, limit source, resetAt⟩

/-- `consume`: an exhausted quota is not charged. -/
def consume (book : QuotaBook) (source : String) (cost : ℕ) : QuotaBook :=
  if (book.check limit source none).exhausted then book
  else { book with consumed := Function.update book.consumed source (book.consumed source + cost) }

/-- A `fetch_range` call is issued. -/
def fetch (book : QuotaBook) (source : String) : QuotaBook :=
  { book with fetches := Function.update book.fetches source (book.fetches source + 1) }

variable {limit} {book : QuotaBook} {source : String}

theorem exhausted_check {resetAt : Option Instant} :
    (book.check limit source resetAt).exhausted = true ↔ limit source ≤ book.consumed source := by
  rw [QuotaStatus.exhausted, check, decide_eq_true_iff]
  dsimp only
  omega

/-- Where something remains, the cost is charged. -/
theorem consume_of_lt (h : book.consumed source < limit source) (cost : ℕ) :
    book.consume limit source cost =
      { book with
        consumed := Function.update book.consumed source (book.consumed source + cost) } := by
  have hopen : ¬ (book.check limit source none).exhausted = true := by
    rw [exhausted_check]
    omega
  rw [consume, if_neg hopen]

end QuotaBook

/-- The database, and the counters of the quota port. -/
structure Metered where
  db : Db
  book : QuotaBook

/-- The calls that the counters record. -/
def Cmd.IsMetered : Cmd → Prop
  | checkQuota _ | consumeQuota .. | fetchRange .. => True
  | _ => False

/-- The instant of the reset that the quota port reports, if any. -/
def Answers.resetAt (e : Answers) : Option Instant := e.quota.toOption.bind QuotaStatus.resetAt

/-- The atomic effect of each command, with the quota port answering from its counters. -/
def meteredExec (limit : String → ℕ) :
    (c : Cmd) → Answers → Metered → Session → c.Resp × Metered × Session
  | .checkQuota source, e, s, l => (.ok (s.book.check limit source e.resetAt), s, l)
  | .consumeQuota source cost, e, s, l =>
    let book := s.book.consume limit source cost
    (.ok (book.check limit source e.resetAt), { s with book := book }, l)
  | .fetchRange source _ _ _, e, s, l => (e.fetched, { s with book := s.book.fetch source }, l)
  | c, e, s, l =>
    let out := exec c e s.db l
    (out.1, { s with db := out.2.1 }, out.2.2)

section Exec

variable {limit : String → ℕ} {c : Cmd} {e : Answers} {s : Metered} {l : Session}

/-- What is not metered acts on the database alone. -/
theorem meteredExec_of_not_isMetered (h : ¬ c.IsMetered) :
    meteredExec limit c e s l =
      ((exec c e s.db l).1, { s with db := (exec c e s.db l).2.1 }, (exec c e s.db l).2.2) := by
  cases c with
  | checkQuota source | consumeQuota source cost | fetchRange source listing first last =>
      exact absurd trivial h
  | _ => rfl

end Exec

/-- The commands, with a quota port of the given limits. -/
def meteredSemantics (limit : String → ℕ) : Semantics Cmd Cmd.Resp Answers Metered Session :=
  ⟨meteredExec limit⟩

/-! ### The account of one worker -/

/-- Where a worker is between two checks: the last check has granted a fetch, or the fetch
has been issued and is to be charged. -/
inductive QuotaPhase where
  | idle
  | granted (source : String)
  | spent (source : String)
deriving DecidableEq

/-- No fetch is to be charged. -/
def QuotaPhase.Settled (phase : QuotaPhase) : Prop := ∀ source, phase ≠ .spent source

namespace QuotaPhase

variable {limit start : String → ℕ} {book : QuotaBook} {phase : QuotaPhase} {source : String}

/-- The fetches since the counters stood at `start` have been charged, except for the one in
flight; a fetch that is granted or in flight finds quota left. -/
structure Accounts (limit start : String → ℕ) (book : QuotaBook) (phase : QuotaPhase) : Prop where
  charged : ∀ source, start source + book.fetches source ≤
    book.consumed source + if phase = .spent source then 1 else 0
  bounded : ∀ source, book.consumed source ≤ max (limit source) (start source)
  remains : ∀ source, phase = .granted source ∨ phase = .spent source →
    book.consumed source < limit source

namespace Accounts

theorem new (start : String → ℕ) : Accounts limit start ⟨start, fun _ => 0⟩ .idle where
  charged source := by simp
  bounded source := le_max_right _ _
  remains source h := by simp at h

/-- The bound that the account implies. -/
theorem fetches_le (h : Accounts limit start book phase) (source : String) :
    book.fetches source ≤ limit source := by
  have hcharged := h.charged source
  have hbounded := h.bounded source
  by_cases hspent : phase = .spent source
  · have hremains := h.remains source (Or.inr hspent)
    rw [if_pos hspent] at hcharged
    omega
  · rw [if_neg hspent] at hcharged
    omega

/-- A check between two fetches. -/
theorem check (h : Accounts limit start book phase) (hsettled : phase.Settled) (source : String)
    (resetAt : Option Instant) :
    Accounts limit start book
      (if (book.check limit source resetAt).exhausted then .idle else .granted source) where
  charged s := by
    have hcharged := h.charged s
    rw [if_neg (hsettled s)] at hcharged
    split <;> simpa using hcharged
  bounded := h.bounded
  remains s hs := by
    split at hs
    · simp at hs
    · rename_i hopen
      rw [QuotaBook.exhausted_check, not_le] at hopen
      rcases hs with hs | hs
      · obtain rfl := granted.inj hs
        exact hopen
      · exact absurd hs (by simp)

/-- A fetch that has been granted. -/
theorem fetch (h : Accounts limit start book (.granted source)) :
    Accounts limit start (book.fetch source) (.spent source) where
  charged s := by
    have hcharged := h.charged s
    rw [if_neg (by simp)] at hcharged
    by_cases hs : s = source
    · subst hs
      simp only [QuotaBook.fetch, Function.update_self, if_true]
      omega
    · have hne : spent source ≠ spent s := fun heq => hs (spent.inj heq).symm
      simp only [QuotaBook.fetch, Function.update_of_ne hs, if_neg hne]
      exact hcharged
  bounded := h.bounded
  remains s hs := by
    rcases hs with hs | hs
    · exact absurd hs (by simp)
    · obtain rfl := spent.inj hs
      exact h.remains source (Or.inl rfl)

/-- The charge of a fetch. -/
theorem consume (h : Accounts limit start book (.spent source)) :
    Accounts limit start (book.consume limit source 1) .idle := by
  have hremains := h.remains source (Or.inr rfl)
  rw [QuotaBook.consume_of_lt hremains]
  refine ⟨fun s => ?_, fun s => ?_, fun s hs => absurd hs (by simp)⟩
  · have hcharged := h.charged s
    by_cases hs : s = source
    · subst hs
      simp only [if_true] at hcharged
      simpa using hcharged
    · have hne : spent source ≠ spent s := fun heq => hs (spent.inj heq).symm
      rw [if_neg hne] at hcharged
      simpa [Function.update_of_ne hs] using hcharged
  · have hbounded := h.bounded s
    by_cases hs : s = source
    · subst hs
      simp only [Function.update_self]
      omega
    · simpa only [Function.update_of_ne hs] using hbounded

end Accounts

end QuotaPhase

/-! ### What a call does with the quota -/

/-- What a worker knows: the phase, and the sources of the jobs that it has read. -/
structure QuotaGhost where
  phase : QuotaPhase
  jobs : List (ℕ × String)

/-- A fetch needs a grant, a charge needs a fetch, and no check comes between the two. A fetch
returns, and a job that has been fetched is still owned. -/
def quotaContract : Contract Cmd Cmd.Resp QuotaGhost where
  pre
    | .checkQuota _, g => g.phase.Settled
    | .fetchRange source .., g => g.phase = .granted source
    | .consumeQuota source cost, g => g.phase = .spent source ∧ cost = 1
    | _, _ => True
  post
    | .checkQuota source, g, r, g' => ∃ status, r = .ok status ∧
        g' = { g with phase := if status.exhausted then .idle else .granted source }
    | .fetchRange source .., g, r, g' =>
      (∃ raws, r = .ok raws) ∧ g' = { g with phase := .spent source }
    | .consumeQuota .., g, r, g' => (∃ status, r = .ok status) ∧ g' = { g with phase := .idle }
    | .selectOwned .., g, r, g' => r = true ∧ g' = g
    | .attributes id, g, r, g' => (∀ j ∈ r, j.id = id) ∧
        (∀ source, (id, source) ∈ g.jobs → ∃ j, r = some j ∧ j.source = source) ∧
        g' = { g with jobs := (r.map fun j => (id, j.source)).toList ++ g.jobs }
    | .load id, g, r, g' => (∀ j ∈ r, j.id = id) ∧ g' = g
    | _, g, _, g' => g' = g

section Calls

/-- What does not depend on which further jobs have been read. -/
def QuotaGhost.Stable (I : QuotaGhost → Prop) : Prop :=
  ∀ g jobs, I g → I { g with jobs := jobs ++ g.jobs }

variable {I : QuotaGhost → Prop} (hI : QuotaGhost.Stable I)

include hI in
/-- Only the metered commands change the phase. -/
private theorem issue_keeps_quota {c : Cmd} (hc : ¬ c.IsMetered) :
    Script.Keeps quotaContract I (issue c) := by
  refine Script.keeps_op fun g h => ?_
  cases c with
  | checkQuota source | consumeQuota source cost | fetchRange source listing first last =>
      exact absurd trivial hc
  | attributes id =>
      refine ⟨trivial, ?_⟩
      rintro r g' ⟨-, -, rfl⟩
      exact hI g _ h
  | selectOwned id workerId generation | load id =>
      refine ⟨trivial, ?_⟩
      rintro r g' ⟨-, rfl⟩
      exact h
  | _ =>
      refine ⟨trivial, ?_⟩
      rintro r g' rfl
      exact h

include hI in
private theorem issue_keeps_job {c : Cmd} (hc : JobQueue.IsJobCmd c) :
    Script.Keeps quotaContract I (issue c) :=
  issue_keeps_quota hI (by cases c <;> first | exact id | exact hc.elim)

private theorem attributes_quota (id : ℕ) (g : QuotaGhost) (r : Option Job) (g' : QuotaGhost)
    (h : quotaContract.post (.attributes id) g r g') : ∀ j ∈ r, j.id = id := h.1

include hI in
private theorem transition_keeps {id : ℕ} {workerId : String} {generation : ℕ}
    {w : Transition} :
    Script.Keeps quotaContract I (JobQueue.ownedTransition id workerId generation w) :=
  JobQueue.ownedTransition_keeps (fun _ hc => issue_keeps_job hI hc) attributes_quota
    (issue_keeps_quota hI fun h => h)

include hI in
private theorem fail_keeps_quota {id : ℕ} {workerId : String} {generation : ℕ} {now : Instant}
    {error : String} {recorded rejected : ℕ} {detail : String} :
    Script.Keeps quotaContract I
      (IngestionRunner.fail id workerId generation error now recorded rejected detail) :=
  IngestionRunner.fail_keeps (fun _ hc => issue_keeps_job hI hc) attributes_quota
    (fun _ => issue_keeps_quota hI fun h => h) error recorded rejected detail

/-- Nothing is to be charged. -/
def QuotaGhost.Settled (g : QuotaGhost) : Prop := g.phase.Settled

theorem QuotaGhost.stable_settled : QuotaGhost.Stable QuotaGhost.Settled := fun _ _ h => h

/-- The phase, for a job of a known source. -/
def QuotaGhost.At (phase : QuotaPhase) (id : ℕ) (source : String) (g : QuotaGhost) : Prop :=
  g.phase = phase ∧ (id, source) ∈ g.jobs

theorem QuotaGhost.stable_at (phase : QuotaPhase) (id : ℕ) (source : String) :
    QuotaGhost.Stable (QuotaGhost.At phase id source) := fun _ _ h =>
  ⟨h.1, List.mem_append_right _ h.2⟩

/-- The source of a job is known once its attributes have been read. -/
private theorem attributes_source (hI : QuotaGhost.Stable I) (id : ℕ) {g : QuotaGhost}
    (hg : I g) :
    Script.Meets quotaContract (attributes id) (fun j g' => (id, j.source) ∈ g'.jobs ∧ I g')
      (fun _ => I) g := by
  rw [attributes, Script.meets_bind, meets_issue]
  refine ⟨trivial, ?_⟩
  rintro r g' ⟨-, -, rfl⟩
  cases r with
  | none => exact Script.meets_throw.mpr (hI g _ hg)
  | some j => exact Script.meets_pure.mpr ⟨List.mem_cons_self, hI g _ hg⟩

/-- A job whose source is known can be read again, and has that source. -/
private theorem attributes_again {phase : QuotaPhase} {id : ℕ} {source : String}
    {g : QuotaGhost} (hg : g.At phase id source) {X : PyError → QuotaGhost → Prop} :
    Script.Meets quotaContract (attributes id)
      (fun j g' => j.source = source ∧ g'.At phase id source) X g := by
  rw [attributes, Script.meets_bind, meets_issue]
  refine ⟨trivial, ?_⟩
  rintro r g' ⟨-, hjob, rfl⟩
  obtain ⟨j, rfl, hsource⟩ := hjob source hg.2
  exact Script.meets_pure.mpr ⟨hsource, QuotaGhost.stable_at phase id source g _ hg⟩

variable {id : ℕ} {workerId : String} {now : Instant} {cursor : FetchCursor Json}
  {authorization : IngestionAuthorization}

/-- A fetch that has returned is charged: the job is still owned. -/
theorem IngestionRunner.store_charges {generation : ℕ} {source : String}
    (raws : List RawObservation) {g : QuotaGhost} (hg : g.At (.spent source) id source) :
    Script.Meets quotaContract (store id workerId generation now cursor authorization raws)
      (fun _ => QuotaGhost.Settled) (fun _ => QuotaGhost.Settled) g := by
  have hstable := QuotaGhost.stable_settled
  have hjob : ∀ c, JobQueue.IsJobCmd c →
      Script.Keeps quotaContract QuotaGhost.Settled (issue c) := fun c hc =>
    issue_keeps_job hstable hc
  rw [store, Script.meets_bind, JobQueue.assertOwned, Script.meets_bind]
  refine (attributes_again hg).mono ?_ fun _ _ h => h
  rintro j g₁ ⟨-, hg₁⟩
  rw [Script.meets_bind, meets_issue]
  refine ⟨trivial, ?_⟩
  rintro owned g₂ ⟨rfl, rfl⟩
  simp only [if_true]
  rw [Script.meets_pure, Script.meets_bind]
  refine (attributes_again hg₁).mono ?_ fun _ _ h => h
  rintro j g₃ ⟨rfl, hg₃⟩
  rw [Script.meets_bind, meets_issue]
  refine ⟨⟨hg₃.1, rfl⟩, ?_⟩
  rintro consumed g₄ ⟨⟨status, rfl⟩, rfl⟩
  have hsettled : QuotaGhost.Settled { g₃ with phase := .idle } := fun s h => by simp at h
  refine ((orRaise_keeps (Except.ok status)).bind fun _ => (recordRows_keeps (fun raw =>
    recordRow_keeps (JobQueue.attributes_keeps hjob id) (fun key => ?_) (fun candidate => ?_) raw)
    raws 0 0).bind ?_) _ hsettled
  · exact issue_keeps_quota hstable fun h => h
  · exact issue_keeps_quota hstable fun h => h
  · rintro ⟨recorded, rejected⟩
    dsimp only
    split
    · exact fail_keeps_quota hstable
    · exact (transition_keeps hstable).bind fun _ =>
        (JobQueue.attributes_keeps hjob id).bind fun _ => Script.keeps_pure _

/-- **A call fetches only what a check has granted, and charges it.** -/
theorem IngestionRunner.fetch_charges :
    Script.Keeps quotaContract QuotaGhost.Settled
      (fetch id workerId now cursor authorization) := by
  have hstable := QuotaGhost.stable_settled
  have hjob : ∀ c, JobQueue.IsJobCmd c →
      Script.Keeps quotaContract QuotaGhost.Settled (issue c) := fun c hc =>
    issue_keeps_job hstable hc
  refine (JobQueue.generation_keeps hjob id).bind fun generation => ?_
  intro g hg
  rw [Script.meets_bind]
  refine (attributes_source hstable id hg).mono ?_ fun _ _ h => h
  rintro job g₁ ⟨hsource, hg₁⟩
  rw [Script.meets_bind, meets_issue]
  refine ⟨hg₁, ?_⟩
  rintro r g₂ ⟨status, rfl, rfl⟩
  rw [Script.meets_bind]
  refine Script.meets_pure.mpr ?_
  by_cases hexhausted : status.exhausted = true
  · simp only [if_pos hexhausted]
    have hidle : QuotaGhost.Settled { g₁ with phase := .idle } := fun s h => by simp at h
    exact ((transition_keeps hstable).bind fun _ =>
      (JobQueue.attributes_keeps hjob id).bind fun _ => Script.keeps_pure _) _ hidle
  · simp only [if_neg hexhausted]
    have hgranted : QuotaGhost.At (.granted job.source) id job.source
        { g₁ with phase := .granted job.source } := ⟨rfl, hsource⟩
    have hlost : ∀ g : QuotaGhost, g.At (.granted job.source) id job.source → g.Settled := by
      intro g hg s hs
      rw [hg.1] at hs
      exact absurd hs (by simp)
    rw [Script.meets_bind]
    refine (transition_keeps (QuotaGhost.stable_at _ id job.source) _ hgranted).mono
      (fun _ g₃ hg₃ => ?_) fun _ g₃ hg₃ => hlost g₃ hg₃
    rw [Script.meets_bind, meets_issue]
    refine ⟨hg₃.1, ?_⟩
    rintro fetched g₄ ⟨⟨raws, rfl⟩, rfl⟩
    exact store_charges raws ⟨rfl, hg₃.2⟩

/-- **So does a call of `claim_and_process`**, whatever becomes of its jobs. -/
theorem Scheduler.claimAndProcess_charges (settings : Settings) (batchSize : ℕ) :
    Script.Keeps quotaContract QuotaGhost.Settled
      (claimAndProcess settings now batchSize workerId) := by
  have hstable := QuotaGhost.stable_settled
  have hissue : ∀ c : Cmd, ¬ c.IsMetered →
      Script.Keeps quotaContract QuotaGhost.Settled (issue c) := fun c hc =>
    issue_keeps_quota hstable hc
  have hjob : ∀ c, JobQueue.IsJobCmd c →
      Script.Keeps quotaContract QuotaGhost.Settled (issue c) := fun c hc =>
    issue_keeps_job hstable hc
  have hload : ∀ id g r g', quotaContract.post (.load id) g r g' → ∀ j ∈ r, j.id = id :=
    fun _ _ _ _ h => h.1
  have hfail : ∀ id error detail, Script.Keeps quotaContract QuotaGhost.Settled (do
      let generation ← generation id
      IngestionRunner.fail id workerId generation error now 0 0 detail) := fun id _ _ =>
    (JobQueue.generation_keeps hjob id).bind fun _ => fail_keeps_quota hstable
  refine (JobQueue.claimNext_keeps hjob _ _ _ _ _).bind fun claimed =>
    processJobs_keeps claimed (fun id _ outcome => ?_) _
  refine processJob_keeps_of hjob (fun _ => hissue _ fun h => h) (fun _ => hissue _ fun h => h)
    ?_ (fun error => ?_) outcome
  · refine IngestionRunner.process_keeps_of hjob attributes_quota hload ?_
    refine IngestionRunner.authorize_keeps_of hjob (hfail id)
      (fun source => PolicyGate.authorizeIngestion_keeps fun capability =>
        hissue (.selectDecision source capability) fun h => h)
      fun authorization => ?_
    exact IngestionRunner.resume_keeps_of hjob (hfail id) (fun _ => hissue _ fun h => h)
      fun cursor => IngestionRunner.fetch_charges
  · exact (JobQueue.generation_keeps hjob id).bind fun generation =>
      JobQueue.markFailed_keeps hjob attributes_quota (fun _ => hissue _ fun h => h) error now

end Calls

/-! ### Runs -/

/-- The calls of one worker, one after the other, each in a session of its own; a call that
raises ends only itself. -/
def workerCalls (workerId : String) : List Execution → App Unit
  | [] => return ()
  | x :: rest => do
    let _ ← Script.attempt (Scheduler.claimAndProcess x.settings x.now x.batchSize workerId)
    issue .expireAll
    workerCalls workerId rest

theorem workerCalls_charges (workerId : String) (calls : List Execution) :
    Script.Keeps quotaContract QuotaGhost.Settled (workerCalls workerId calls) := by
  induction calls with
  | nil => exact Script.keeps_pure _
  | cons x rest ih =>
      refine (Scheduler.claimAndProcess_charges x.settings x.batchSize).attempt.bind fun _ => ?_
      have hexpire : ¬ Cmd.expireAll.IsMetered := fun h => h
      exact (issue_keeps_quota QuotaGhost.stable_settled hexpire).bind fun _ => ih

/-- A program that leaves the quota and the provider alone. -/
structure QuietProgram where
  program : App Unit
  quiet : program.run.Only fun c => ¬ c.IsMetered

variable {ι : Type}

/-- The worker, and any other threads. -/
abbrev QuotaConfig (ι : Type) :=
  Config Cmd Cmd.Resp Metered Session (Except PyError Unit) (Option ι)

def QuotaConfig.start (workerId : String) (calls : List Execution) (others : ι → QuietProgram)
    (db : Db) (consumed : String → ℕ) : QuotaConfig ι where
  shared := ⟨db, ⟨consumed, fun _ => 0⟩⟩
  thread
    | none => ⟨Session.new, (workerCalls workerId calls).run⟩
    | some i => ⟨Session.new, (others i).program.run⟩

/-- In this step of the worker no fetch fails, and no claim turns out to be lost by the time of
the check that follows a fetch. -/
structure Charges (cfg : QuotaConfig ι) (i : Option ι) (e : Answers) : Prop where
  fetched : ∀ source listing first last, i = none →
    (cfg.thread i).prog.next? = some (.fetchRange source listing first last) →
    ∃ raws, e.fetched = .ok raws
  owned : ∀ id workerId generation, i = none →
    (cfg.thread i).prog.next? = some (.selectOwned id workerId generation) →
    ∃ j, cfg.shared.db.jobs.get? id = some j ∧ j.HeldBy workerId generation

/-- What the worker knows: the account, and the jobs that it has read. -/
structure QuotaGhost.Knows (limit start : String → ℕ) (s : Metered) (l : Session)
    (g : QuotaGhost) : Prop where
  accounts : g.phase.Accounts limit start s.book
  cache : l.Reflects s.db.jobs
  job : ∀ p ∈ g.jobs, ∃ j, s.db.jobs.get? p.1 = some j ∧ j.source = p.2

namespace QuotaGhost.Knows

variable {limit start : String → ℕ} {c : Cmd} {e : Answers} {s : Metered} {l : Session}
  {g : QuotaGhost}

private theorem job_exec {db : Db} {p : ℕ × String}
    (h : ∃ j, db.jobs.get? p.1 = some j ∧ j.source = p.2) :
    ∃ j, (exec c e db l).2.1.jobs.get? p.1 = some j ∧ j.source = p.2 := by
  obtain ⟨j, hj, hsource⟩ := h
  exact ⟨c.row j, get?_exec hj, by rw [Cmd.row_source, hsource]⟩

/-- What the worker knows stays true, whatever the others do. -/
theorem stable (h : g.Knows limit start s l) (hc : ¬ c.IsMetered) (l' : Session) :
    g.Knows limit start (meteredExec limit c e s l').2.1 l := by
  rw [meteredExec_of_not_isMetered hc]
  exact ⟨h.accounts, h.cache.stable c e l', fun p hp => job_exec (h.job p hp)⟩

/-- What has been read of a job can be read again. -/
theorem read (h : g.Knows limit start s l) {id : ℕ} {source : String}
    (hmem : (id, source) ∈ g.jobs) : ∃ j, l.read s.db.jobs id = some j ∧ j.source = source := by
  obtain ⟨row, hrow, hsource⟩ := h.job _ hmem
  cases hread : l.read s.db.jobs id with
  | none =>
      rw [Session.read, Option.or_eq_none_iff] at hread
      exact absurd (hrow.symm.trans hread.2) (by simp)
  | some j =>
      obtain ⟨-, row', hrow', hcopy, -⟩ := h.cache.read hread
      obtain rfl := Option.some.inj (hrow.symm.trans hrow')
      exact ⟨j, rfl, hcopy.symm.trans hsource⟩

/-- One command of the worker. -/
theorem step (h : g.Knows limit start s l) (hpre : quotaContract.pre c g)
    (hfetched : ∀ source listing first last, c = .fetchRange source listing first last →
      ∃ raws, e.fetched = .ok raws)
    (howned : ∀ id workerId generation, c = .selectOwned id workerId generation →
      ∃ j, s.db.jobs.get? id = some j ∧ j.HeldBy workerId generation) :
    ∃ g', quotaContract.post c g (meteredExec limit c e s l).1 g' ∧
      g'.Knows limit start (meteredExec limit c e s l).2.1 (meteredExec limit c e s l).2.2 := by
  have hcache := h.cache.step c e
  have hjob : ∀ p ∈ g.jobs, ∃ j, (exec c e s.db l).2.1.jobs.get? p.1 = some j ∧
      j.source = p.2 := fun p hp => job_exec (h.job p hp)
  cases c with
  | checkQuota source =>
      exact ⟨_, ⟨_, rfl, rfl⟩, h.accounts.check hpre source e.resetAt, hcache, hjob⟩
  | fetchRange source listing first last =>
      have haccounts := h.accounts
      rw [show g.phase = _ from hpre] at haccounts
      exact ⟨_, ⟨hfetched source listing first last rfl, rfl⟩, haccounts.fetch, hcache, hjob⟩
  | consumeQuota source cost =>
      obtain ⟨hphase, rfl⟩ := hpre
      have haccounts := h.accounts
      rw [hphase] at haccounts
      exact ⟨_, ⟨⟨_, rfl⟩, rfl⟩, haccounts.consume, hcache, hjob⟩
  | attributes id =>
      refine ⟨_, ⟨fun j hj => (h.cache.read hj).1, fun source => h.read, rfl⟩, h.accounts,
        hcache, fun p hp => ?_⟩
      rcases List.mem_append.mp hp with hp | hp
      · obtain ⟨j, hj, rfl⟩ := Option.map_eq_some_iff.mp (Option.mem_toList.mp hp)
        obtain ⟨-, row, hrow, hsource, -⟩ := h.cache.read hj
        exact ⟨row, hrow, hsource⟩
      · exact hjob p hp
  | load id =>
      exact ⟨g, ⟨fun j hj => (Table.get?_eq_some_iff.mp hj).2, rfl⟩, h.accounts, hcache, hjob⟩
  | selectOwned id workerId generation =>
      refine ⟨g, ⟨?_, rfl⟩, h.accounts, hcache, hjob⟩
      obtain ⟨j, hj, hheld, hby, hgeneration⟩ := howned id workerId generation rfl
      obtain ⟨hmem, hid⟩ := Table.get?_eq_some_iff.mp hj
      refine List.any_eq_true.mpr ⟨j, hmem, ?_⟩
      rw [Job.pk_eq] at hid
      simp [hid, hheld, hby, hgeneration]
  | _ => exact ⟨g, rfl, h.accounts, hcache, hjob⟩

end QuotaGhost.Knows

section Runs

variable {workerId : String} {calls : List Execution} {others : ι → QuietProgram}
  {limit start : String → ℕ}

/-- The contract of a thread: the worker charges, and the others leave the quota alone. -/
def QuotaConfig.contract : Option ι → Contract Cmd Cmd.Resp QuotaGhost
  | none => quotaContract
  | some _ => ⟨fun c _ => ¬ c.IsMetered, fun _ _ _ _ => True⟩

def QuotaConfig.Knows (limit start : String → ℕ) :
    Option ι → Metered → Session → QuotaGhost → Prop
  | none, s, l, g => g.Knows limit start s l
  | some _, _, _, _ => True

/-- The proof obligation of the runs in which every fetch is charged. -/
theorem QuotaConfig.obligation [DecidableEq ι] :
    Config.Obligation (Except PyError Unit) (meteredSemantics limit)
      (QuotaConfig.contract (ι := ι)) (fun _ => True)
      (fun i s th g => QuotaConfig.Knows limit start i s th.loc g) Charges := by
  intro cfg i e c k g hp hok _ hknows hpre
  have hnext : (cfg.thread i).prog.next? = some c := Prog.next?_eq_some_iff.mpr ⟨k, hp⟩
  cases i with
  | none =>
      refine ⟨trivial, ?_, ?_⟩
      · refine QuotaGhost.Knows.step hknows hpre ?_ ?_
        · rintro source listing first last rfl
          exact hok.fetched source listing first last rfl hnext
        · rintro id workerId generation rfl
          exact hok.owned id workerId generation rfl hnext
      · rintro (_ | j) g' hj _
        · exact absurd rfl hj
        · trivial
  | some i =>
      refine ⟨trivial, ⟨g, trivial, trivial⟩, ?_⟩
      rintro (_ | j) g' - hknows'
      · exact QuotaGhost.Knows.stable hknows' hpre _
      · trivial

theorem QuotaConfig.sound [DecidableEq ι] {db : Db} {cfg : QuotaConfig ι}
    (hr : Config.Reaches (meteredSemantics limit) Charges
      (QuotaConfig.start workerId calls others db start) cfg) :
    cfg.Sound QuotaConfig.contract (fun _ _ _ => True) (fun _ => True)
      (fun i s th g => QuotaConfig.Knows limit start i s th.loc g) := by
  refine hr.sound QuotaConfig.obligation ⟨trivial, ?_⟩
  rintro (_ | i)
  · refine ⟨⟨.idle, []⟩, ⟨.new start, Session.Reflects.new db.jobs, by simp⟩, ?_⟩
    refine Script.meets_run.mpr ?_
    exact (workerCalls_charges workerId calls _ fun s h => by simp at h).mono
      (fun _ _ _ => trivial) fun _ _ _ => trivial
  · exact ⟨⟨.idle, []⟩, trivial, (others i).quiet.meets (fun _ _ h => h) _⟩

/-- **The fetches of a source never exceed its limit**, in every run in which each fetch of
the worker is charged: calls of `claim_and_process` of any number, each with any jobs, beside
any programs that leave the quota alone. -/
theorem fetches_bounded [DecidableEq ι] {db : Db} {cfg : QuotaConfig ι}
    (hr : Config.Reaches (meteredSemantics limit) Charges
      (QuotaConfig.start workerId calls others db start) cfg) (source : String) :
    cfg.shared.book.fetches source ≤ limit source := by
  obtain ⟨g, hknows, -⟩ := (QuotaConfig.sound hr).thread none
  exact hknows.accounts.fetches_le source

end Runs

/-! ### Runs on concrete tables -/

def meteredDay : Date := today

/-- A due job of an approved source. -/
def meteredJob : Job :=
  newJob ⟨"fetch_range", "fake", "BTC", some 1,
    some (FetchCursor.serialize ⟨"BTC", "default", .eodClose, meteredDay, meteredDay⟩), 0, 5⟩ 1 0

def meteredDb : Db := ⟨⟨[meteredJob], by decide⟩, Table.empty, approvedRegister⟩

/-- Two calls of the entry point's worker, the second one after the backoff. -/
def meteredCalls : List Execution :=
  [⟨⟨["fake"], 300, 3600⟩, 0, 1⟩, ⟨⟨["fake"], 300, 3600⟩, seconds 60, 1⟩]

/-- The worker alone, with nothing consumed yet. -/
def meteredStart : QuotaConfig Empty :=
  QuotaConfig.start Scheduler.workerId meteredCalls Empty.elim meteredDb fun _ => 0

/-- The job of the first call is fetched once, and charged. -/
theorem fetches_bounded_once :
    let cfg := meteredStart.run (meteredSemantics fun _ => 1) (List.replicate 31 (none, default))
    cfg.shared.book.fetches "fake" = 1 ∧ cfg.shared.book.fetches "fake" ≤ 1 := by
  intro cfg
  let check : QuotaConfig Empty → Option Empty → Answers → Bool := fun cfg i e =>
    (cfg.thread i).prog.next?.all fun c => match c with
      | .fetchRange .. => e.fetched.toBool
      | .selectOwned id workerId generation => (cfg.shared.db.jobs.get? id).any fun j =>
        decide (j.HeldBy workerId generation)
      | _ => true
  have hcheck : ∀ cfg i e, check cfg i e = true → Charges cfg i e := by
    intro cfg i e h
    refine ⟨fun source listing first last _ hnext => ?_, fun id workerId generation _ hnext => ?_⟩
    · simp only [check, hnext, Option.all_some] at h
      cases hfetched : e.fetched with
      | error e => rw [hfetched] at h; exact absurd h (by simp [Except.toBool])
      | ok raws => exact ⟨raws, rfl⟩
    · simp only [check, hnext, Option.all_some] at h
      obtain ⟨j, hj, hheld⟩ := (Option.any_eq_true _ _).mp h
      exact ⟨j, hj, of_decide_eq_true hheld⟩
  have hr : Config.Reaches (meteredSemantics fun _ => 1) Charges meteredStart cfg :=
    Config.reaches_of_checkRun hcheck (by decide +kernel)
  exact ⟨by decide +kernel, fetches_bounded hr "fake"⟩

/-- **A failed fetch is not charged**: with a limit of one, the retry of a job whose fetch has
failed finds the quota untouched and issues a second fetch. -/
theorem fetches_exceed :
    ¬ ∀ (limit : String → ℕ) (workerId : String) (calls : List Execution) (db : Db)
      (schedule : List (Option Empty × Answers)) (source : String),
      ((QuotaConfig.start workerId calls Empty.elim db fun _ => 0).run (meteredSemantics limit)
        schedule).shared.book.fetches source ≤ limit source := by
  intro h
  let failing : Answers := { (default : Answers) with fetched := .error .providerProcess }
  have hbound := h (fun _ => 1) Scheduler.workerId meteredCalls meteredDb
    (List.replicate 60 (none, failing)) "fake"
  exact absurd hbound (by decide +kernel)

end MarketRelay
