import MarketRelay.Fencing
import MarketRelay.Scheduler

/-!
# Concurrent Executions of the Scheduler

Every execution of the scheduler works under the same worker id, so the generation is all
that tells the claims of one execution from those of another. An execution does not keep the
generation that its claim wrote: it reads it back from the job object, whose row may have
been selected again since (after a failed transition every cached row is expired). A row that
another execution has recovered and claimed in the meantime then yields that execution's
token.

Whatever an execution presents is a token that it has read; if at no read the copy carries a
generation under which another claim holds the job (`OwnTokens`), then it is its own, or it
is spent and changes nothing.

## Main results

* `claims_unique`: no two sessions have written the same generation on a job.
* `Execution.program_keeps`: an execution presents only tokens that it has read.
* `execution_tokens`: in every run in which executions read their own tokens, they change no
  job under another's.
* `execution_takes_over`: a run in which one fails a job that another is processing.
-/

open Relational Interaction

namespace MarketRelay

/-! ### Whose claims are whose -/

section Claims

variable {c : Cmd} {e : Answers} {db : Db} {l : Session}

/-- A session forgets none of its claims. -/
theorem mem_claims_exec {p : ℕ × ℕ} (h : p ∈ l.claims) : p ∈ (exec c e db l).2.2.claims := by
  cases c with
  | update op =>
      cases op with
      | claim id w now =>
          simp only [exec, Session.noteUpdate]
          split
          · split
            · exact List.mem_cons_of_mem _ h
            · exact h
          · exact h
      | _ => exact h
  | insertDecision d | insertObservation o | insertJob args | selectJob key =>
      rw [exec]
      split <;> exact h
  | _ => exact h

/-- A claim is noted when it has written its generation. -/
theorem claims_exec {p : ℕ × ℕ} (h : p ∈ (exec c e db l).2.2.claims) :
    p ∈ l.claims ∨ ∃ w now j, c = .update (.claim p.1 w now) ∧ db.jobs.get? p.1 = some j ∧
      (QueueOp.claim p.1 w now).cond j = true ∧ p.2 = j.generation + 1 := by
  cases c with
  | update op =>
      cases op with
      | claim id w now =>
          simp only [exec, Session.noteUpdate] at h
          split at h
          · rename_i j hj
            split at h
            · rename_i hc
              rcases List.mem_cons.mp h with rfl | h
              · exact Or.inr ⟨w, now, j, rfl, hj, hc, rfl⟩
              · exact Or.inl h
            · exact Or.inl h
          · exact Or.inl h
      | _ => exact Or.inl h
  | insertDecision d | insertObservation o | insertJob args | selectJob key =>
      rw [exec] at h
      split at h <;> exact Or.inl h
  | _ => exact Or.inl h

variable {ι α : Type}

/-- Every noted generation has been reached by its job, and no two sessions share one. -/
def ClaimsUnique (cfg : Config Cmd Cmd.Resp Db Session α ι) : Prop :=
  ∀ i p, p ∈ (cfg.thread i).loc.claims →
    (∃ j, cfg.shared.jobs.get? p.1 = some j ∧ p.2 ≤ j.generation) ∧
      ∀ k, p ∈ (cfg.thread k).loc.claims → k = i

/-- **No two sessions have written the same generation on a job**, in any run of any
programs. -/
theorem claims_unique [DecidableEq ι] {cfg cfg' : Config Cmd Cmd.Resp Db Session α ι}
    {ok : Config Cmd Cmd.Resp Db Session α ι → ι → Answers → Prop}
    (hr : Config.Reaches semantics ok cfg cfg') (h : ClaimsUnique cfg) : ClaimsUnique cfg' := by
  refine hr.invariant (P := ClaimsUnique) (fun cfg i e c k hp _ hu => ?_) h
  have hreached : ∀ p : ℕ × ℕ, (∃ j, cfg.shared.jobs.get? p.1 = some j ∧ p.2 ≤ j.generation) →
      ∃ j, (cfg.step semantics i e).shared.jobs.get? p.1 = some j ∧ p.2 ≤ j.generation := by
    rintro p ⟨j, hj, hle⟩
    rw [Config.step_call hp]
    exact ⟨c.row j, get?_exec hj, hle.trans (c.generation_le_row j)⟩
  -- A generation that has just been written is new to every other session.
  have hnew : ∀ n (p : ℕ × ℕ), p ∈ ((cfg.step semantics i e).thread n).loc.claims →
      p ∈ (cfg.thread n).loc.claims ∨ n = i ∧
        (∃ j, (cfg.step semantics i e).shared.jobs.get? p.1 = some j ∧ p.2 ≤ j.generation) ∧
        ∀ k, p ∉ (cfg.thread k).loc.claims := by
    intro n p hn
    by_cases hni : n = i
    · subst hni
      rw [Config.step_call hp] at hn ⊢
      simp only [Function.update_self] at hn
      rcases claims_exec hn with hn | ⟨w, now, j, rfl, hj, hc, hg⟩
      · exact Or.inl hn
      · refine Or.inr ⟨rfl, ⟨_, get?_exec (e := e) (l := (cfg.thread n).loc) hj, ?_⟩,
          fun k hk => ?_⟩
        · rw [hg, Cmd.row, QueueOp.row_of_cond hc]
          exact le_rfl
        · obtain ⟨⟨j', hj', hle⟩, -⟩ := hu k p hk
          obtain rfl := Option.some.inj (hj.symm.trans hj')
          omega
    · rw [Config.thread_step_of_ne hni] at hn
      exact Or.inl hn
  intro n p hn
  rcases hnew n p hn with hold | ⟨rfl, hj, hnone⟩
  · obtain ⟨hj, huniq⟩ := hu n p hold
    refine ⟨hreached p hj, fun k hk => ?_⟩
    rcases hnew k p hk with hk | ⟨-, -, hnone⟩
    · exact huniq k hk
    · exact absurd hold (hnone n)
  · refine ⟨hj, fun k hk => ?_⟩
    rcases hnew k p hk with hk | ⟨rfl, -, -⟩
    · exact absurd hk (hnone k)
    · rfl

end Claims

/-! ### Executions -/

/-- The arguments of an execution's processing phase. -/
structure Execution where
  settings : Settings
  now : Instant
  batchSize : ℕ

/-- The processing phase, under the worker id of the entry point. -/
def Execution.program (x : Execution) : App ProcessOutcome :=
  Scheduler.claimAndProcess x.settings x.now x.batchSize Scheduler.workerId

/-- What a thread runs: an execution of the scheduler, or any other program. -/
inductive SchedulerWorker where
  | execution (x : Execution)
  | other (program : App ProcessOutcome)

def SchedulerWorker.program : SchedulerWorker → App ProcessOutcome
  | execution x => x.program
  | other program => program

variable {ι : Type}

abbrev SchedulerConfig (ι : Type) :=
  Config Cmd Cmd.Resp Db Session (Except PyError ProcessOutcome) ι

def SchedulerConfig.start (workers : ι → SchedulerWorker) (db : Db) : SchedulerConfig ι :=
  ⟨db, fun i => ⟨Session.new, (workers i).program.run⟩⟩

/-- When an execution reads the generation of a job, its copy carries no generation under
which the job is held by a claim that is not its own. -/
def OwnTokens (workers : ι → SchedulerWorker) (cfg : SchedulerConfig ι) (i : ι) (_ : Answers) :
    Prop :=
  ∀ x id, workers i = .execution x → (cfg.thread i).prog.next? = some (.generation id) →
    ∀ copy, (cfg.thread i).loc.read cfg.shared.jobs id = some copy →
      ∀ j, cfg.shared.jobs.get? id = some j → j.HeldBy Scheduler.workerId copy.generation →
        (id, copy.generation) ∈ (cfg.thread i).loc.claims

/-! ### What an execution presents -/

/-- The ghost state of an execution is the list of the tokens that it has read: it presents
only those. -/
def tokenContract : Contract Cmd Cmd.Resp (List (ℕ × ℕ)) where
  pre
    | .update (.owned id workerId generation _), tokens =>
      workerId = Scheduler.workerId ∧ (id, generation) ∈ tokens
    | _, _ => True
  post
    | .generation id, tokens, r, tokens' =>
      tokens' = (r.map fun generation => (id, generation)).toList ++ tokens
    | .attributes id, tokens, r, tokens' => (∀ j ∈ r, j.id = id) ∧ tokens' = tokens
    | .load id, tokens, r, tokens' => (∀ j ∈ r, j.id = id) ∧ tokens' = tokens
    | _, tokens, _, tokens' => tokens' = tokens

/-- Beside an owned transition every command may be issued, and no token is forgotten. -/
private theorem issue_keeps_tokens {I : List (ℕ × ℕ) → Prop}
    (hI : ∀ p tokens, I tokens → I (p :: tokens)) {c : Cmd}
    (hc : ∀ id workerId generation w, c ≠ .update (.owned id workerId generation w)) :
    Script.Keeps tokenContract I (issue c) := by
  refine Script.keeps_op fun tokens h => ?_
  cases c with
  | update op =>
      cases op with
      | owned id workerId generation w => exact absurd rfl (hc id workerId generation w)
      | _ =>
          refine ⟨trivial, ?_⟩
          rintro r tokens' rfl
          exact h
  | generation id =>
      refine ⟨trivial, ?_⟩
      rintro r tokens' rfl
      cases r with
      | none => exact h
      | some generation => exact hI _ tokens h
  | attributes id =>
      refine ⟨trivial, ?_⟩
      rintro r tokens' ⟨-, rfl⟩
      exact h
  | load id =>
      refine ⟨trivial, ?_⟩
      rintro r tokens' ⟨-, rfl⟩
      exact h
  | _ =>
      refine ⟨trivial, ?_⟩
      rintro r tokens' rfl
      exact h

private theorem issue_keeps_token {p : ℕ × ℕ} {c : Cmd}
    (hc : ∀ id workerId generation w, c ≠ .update (.owned id workerId generation w)) :
    Script.Keeps tokenContract (fun tokens => p ∈ tokens) (issue c) :=
  issue_keeps_tokens (I := fun tokens => p ∈ tokens) (fun _ _ h => List.mem_cons_of_mem _ h) hc

private theorem fenced_tokens (id : ℕ) :
    IngestionRunner.Fenced tokenContract (fun _ => True)
      (fun generation tokens => (id, generation) ∈ tokens) id Scheduler.workerId where
  job c hc := issue_keeps_tokens (fun _ _ _ => trivial) (by rintro _ _ _ _ rfl; exact hc)
  port c hc := issue_keeps_tokens (fun _ _ _ => trivial) (by rintro _ _ _ _ rfl; exact hc)
  generation tokens _ := by
    rw [generation, Script.meets_bind, meets_issue]
    refine ⟨trivial, ?_⟩
    rintro r tokens' rfl
    cases r with
    | none => exact Script.meets_throw.mpr trivial
    | some generation => exact Script.meets_pure.mpr List.mem_cons_self
  forget _ _ _ := trivial
  fencedJob _ c hc := issue_keeps_token (by rintro _ _ _ _ rfl; exact hc)
  fencedPort _ c hc := issue_keeps_token (by rintro _ _ _ _ rfl; exact hc)
  owned generation w := Script.keeps_op fun tokens h => by
    refine ⟨⟨rfl, h⟩, ?_⟩
    rintro r tokens' rfl
    exact h
  attributes _ _ _ _ h := h.1

/-- **An execution presents only tokens that it has read.** -/
theorem Execution.program_keeps (x : Execution) :
    Script.Keeps tokenContract (fun _ => True) x.program := by
  have hissue : ∀ c : Cmd, (∀ id w g t, c ≠ .update (.owned id w g t)) →
      Script.Keeps tokenContract (fun _ => True) (issue c) := fun c hc =>
    issue_keeps_tokens (fun _ _ _ => trivial) hc
  refine (JobQueue.claimNext_keeps (fenced_tokens 0).job _ _ _ _ _).bind fun claimed =>
    Scheduler.processJobs_keeps claimed (fun id _ outcome => ?_) _
  refine Scheduler.processJob_keeps (fenced_tokens id) (fun _ _ _ _ h => h.1)
    (fun source => PolicyGate.authorizeIngestion_keeps fun _ => hissue _ (by simp))
    (fun authorization generation cursor raw => ?_) outcome
  exact IngestionRunner.recordRow_keeps
    (JobQueue.attributes_keeps ((fenced_tokens id).fencedJob generation) id)
    (fun key => issue_keeps_token (by simp)) (fun candidate => issue_keeps_token (by simp)) raw

/-! ### Runs -/

/-- The contract of a thread; nothing is asked of the other programs. -/
def SchedulerWorker.contract : SchedulerWorker → Contract Cmd Cmd.Resp (List (ℕ × ℕ))
  | execution _ => tokenContract
  | other _ => Contract.free

/-- What an execution knows of the tokens that it has read: each is its own, or spent. -/
structure Execution.Knows (db : Db) (l : Session) (tokens : List (ℕ × ℕ)) : Prop where
  token : ∀ p ∈ tokens, p ∈ l.claims ∨
    ∃ j, db.jobs.get? p.1 = some j ∧ j.Spent Scheduler.workerId p.2
  cache : l.Reflects db.jobs

def SchedulerWorker.Knows : SchedulerWorker → Db → Session → List (ℕ × ℕ) → Prop
  | execution _, db, l, tokens => Execution.Knows db l tokens
  | other _, _, _, _ => True

theorem Job.Spent.cmd {j : Job} {workerId : String} {g : ℕ} (h : j.Spent workerId g) (c : Cmd) :
    (c.row j).Spent workerId g := by
  cases c with
  | update op => exact h.row op
  | markWaiting id =>
      change Job.Spent (if j.id = id then j.wait else j) workerId g
      split
      · exact ⟨h.1, fun hheld => absurd hheld.1 (by simp [Job.wait, JobStatus.held])⟩
      · exact h
  | _ => exact h

/-- What an execution knows stays true, whatever the others do. -/
theorem Execution.Knows.stable {c : Cmd} {e : Answers} {db : Db} {l l' : Session}
    {tokens : List (ℕ × ℕ)} (h : Execution.Knows db l tokens) :
    Execution.Knows (exec c e db l').2.1 l tokens := by
  refine ⟨fun p hp => ?_, h.cache.stable c e l'⟩
  rcases h.token p hp with hown | ⟨j, hj, hspent⟩
  · exact Or.inl hown
  · exact Or.inr ⟨c.row j, get?_exec hj, hspent.cmd c⟩

/-- One command of an execution, when it reads no token of another's claim. -/
theorem Execution.Knows.step {c : Cmd} {e : Answers} {db : Db} {l : Session}
    {tokens : List (ℕ × ℕ)} (h : Execution.Knows db l tokens)
    (hread : ∀ id, c = .generation id → ∀ copy, l.read db.jobs id = some copy →
      ∀ j, db.jobs.get? id = some j → j.HeldBy Scheduler.workerId copy.generation →
        (id, copy.generation) ∈ l.claims) :
    ∃ tokens', tokenContract.post c tokens (exec c e db l).1 tokens' ∧
      Execution.Knows (exec c e db l).2.1 (exec c e db l).2.2 tokens' := by
  have hkeep : ∀ p, (p ∈ l.claims ∨ ∃ j, db.jobs.get? p.1 = some j ∧
      j.Spent Scheduler.workerId p.2) → p ∈ (exec c e db l).2.2.claims ∨
      ∃ j, (exec c e db l).2.1.jobs.get? p.1 = some j ∧ j.Spent Scheduler.workerId p.2 := by
    rintro p (hown | ⟨j, hj, hspent⟩)
    · exact Or.inl (mem_claims_exec hown)
    · exact Or.inr ⟨c.row j, get?_exec hj, hspent.cmd c⟩
  have hsame : Execution.Knows (exec c e db l).2.1 (exec c e db l).2.2 tokens :=
    ⟨fun p hp => hkeep p (h.token p hp), h.cache.step c e⟩
  cases c with
  | generation id =>
      refine ⟨_, rfl, fun p hp => hkeep p ?_, h.cache.step (.generation id) e⟩
      rcases List.mem_append.mp hp with hp | hp
      · obtain ⟨generation, hg, rfl⟩ := Option.map_eq_some_iff.mp (Option.mem_toList.mp hp)
        obtain ⟨copy, hcopy, rfl⟩ := Option.map_eq_some_iff.mp hg
        obtain ⟨-, j, hj, -, hle⟩ := h.cache.read hcopy
        by_cases hheld : j.HeldBy Scheduler.workerId copy.generation
        · exact Or.inl (hread id rfl copy hcopy j hj hheld)
        · exact Or.inr ⟨j, hj, hle, hheld⟩
      · exact h.token p hp
  | attributes id => exact ⟨tokens, ⟨fun j hj => (h.cache.read hj).1, rfl⟩, hsame⟩
  | load id => exact ⟨tokens, ⟨fun j hj => (Table.get?_eq_some_iff.mp hj).2, rfl⟩, hsame⟩
  | _ => exact ⟨tokens, rfl, hsame⟩

section Runs

variable {workers : ι → SchedulerWorker}

/-- The proof obligation of the runs in which executions read their own tokens. -/
theorem SchedulerWorker.obligation [DecidableEq ι] :
    Config.Obligation (Except PyError ProcessOutcome) semantics
      (fun w => (workers w).contract) (fun _ => True)
      (fun w db th tokens => (workers w).Knows db th.loc tokens) (OwnTokens workers) := by
  intro cfg i e c k tokens hp hok _ hknows hpre out
  have hnext : (cfg.thread i).prog.next? = some c := Prog.next?_eq_some_iff.mpr ⟨k, hp⟩
  refine ⟨trivial, ?_, fun j tokens' _ hknows' => ?_⟩
  · cases hw : workers i with
    | other program => exact ⟨tokens, by simp only [hw]; trivial, by simp only [hw]; trivial⟩
    | execution x =>
        simp only [hw] at hknows ⊢
        refine Execution.Knows.step hknows fun id hc => ?_
        exact hok x id hw (hc ▸ hnext)
  · dsimp only at hknows' ⊢
    cases hw : workers j with
    | other program => trivial
    | execution x =>
        rw [hw] at hknows'
        exact Execution.Knows.stable hknows'

theorem SchedulerWorker.sound [DecidableEq ι] {db : Db} {cfg : SchedulerConfig ι}
    (hr : Config.Reaches semantics (OwnTokens workers) (SchedulerConfig.start workers db) cfg) :
    cfg.Sound (fun w => (workers w).contract) (fun _ _ _ => True) (fun _ => True)
      (fun w db th tokens => (workers w).Knows db th.loc tokens) := by
  refine hr.sound SchedulerWorker.obligation ⟨trivial, fun i => ⟨[], ?_⟩⟩
  simp only [SchedulerConfig.start]
  cases hw : workers i with
  | other program => exact ⟨trivial, Prog.meets_free _ _⟩
  | execution x =>
      refine ⟨⟨by simp, Session.Reflects.new db.jobs⟩, Script.meets_run.mpr ?_⟩
      exact (x.program_keeps [] trivial).mono (fun _ _ _ => trivial) fun _ _ _ => trivial

/-- **Executions are fenced** in a run in which they read their own tokens. A transition that
an execution applies to a job is applied under a generation that its own claim has written,
and none changes a job that is held under a claim of another session. -/
theorem execution_tokens [DecidableEq ι] {db : Db} {cfg : SchedulerConfig ι}
    (hr : Config.Reaches semantics (OwnTokens workers) (SchedulerConfig.start workers db) cfg)
    {i : ι} {x : Execution} (hi : workers i = .execution x) {id g : ℕ} {workerId : String}
    {w : Transition}
    (hnext : (cfg.thread i).prog.next? = some (.update (.owned id workerId g w))) {j : Job}
    (hj : cfg.shared.jobs.get? id = some j) :
    ((QueueOp.owned id workerId g w).cond j = true →
      workerId = Scheduler.workerId ∧ (id, g) ∈ (cfg.thread i).loc.claims) ∧
    ∀ k ≠ i, (id, j.generation) ∈ (cfg.thread k).loc.claims →
      (QueueOp.owned id workerId g w).cond j = false := by
  have hown : (QueueOp.owned id workerId g w).cond j = true →
      workerId = Scheduler.workerId ∧ (id, g) ∈ (cfg.thread i).loc.claims := by
    intro hc
    obtain ⟨k, hp⟩ := Prog.next?_eq_some_iff.mp hnext
    obtain ⟨tokens, hknows, hpre⟩ := (SchedulerWorker.sound hr).pre hp
    simp only [hi] at hknows hpre
    obtain ⟨rfl, hmem⟩ := hpre
    rcases hknows.token _ hmem with hown | ⟨j', hj', -, hnot⟩
    · exact ⟨rfl, hown⟩
    · obtain rfl := Option.some.inj (hj.symm.trans hj')
      exact absurd (QueueOp.heldBy_of_cond_owned hc).2 hnot
  refine ⟨hown, fun k hk hclaim => ?_⟩
  by_contra hc
  rw [Bool.not_eq_false] at hc
  obtain ⟨-, hmine⟩ := hown hc
  obtain ⟨-, -, -, rfl⟩ := QueueOp.cond_owned.mp hc
  have huniq : ClaimsUnique cfg := claims_unique hr fun i p hp => absurd hp List.not_mem_nil
  exact hk ((huniq i _ hmine).2 k hclaim)

end Runs

/-! ### Runs on concrete tables -/

/-- A due job of a source without any policy decision. -/
def ungovernedJob (id : ℕ) (dedupeKey : String) : Job :=
  newJob ⟨"fetch_range", "fake", dedupeKey, none, none, 0, 5⟩ id 0

/-- The failure that is recorded for such a job. -/
def ungovernedFailure (nextAttempt : ℕ) (nextRunAt : Instant) : Transition :=
  .markFailed nextAttempt .pending
    "Source 'fake' not authorized: RETRIEVE=UNRESOLVED, STORE=UNRESOLVED" nextRunAt

/-- An execution that is about to read a token has written it in its own claim. -/
def readsOwnToken (cfg : SchedulerConfig Bool) (i : Bool) (_ : Answers) : Bool :=
  match (cfg.thread i).prog.next? with
  | some (.generation id) => ((cfg.thread i).loc.read cfg.shared.jobs id).all fun copy =>
    decide ((id, copy.generation) ∈ (cfg.thread i).loc.claims)
  | _ => true

/-- An execution, and a second one after the lease of the first has expired. -/
def successiveExecutions : Bool → SchedulerWorker := fun later =>
  .execution ⟨⟨["fake"], 300, 3600⟩, if later then seconds 1000 else 0, 1⟩

/-- The first execution is about to fail the job that it has claimed, under its own token. Once the
second one has recovered the job and claimed it, that token changes nothing. -/
theorem execution_tokens_recovered :
    let db : Db := ⟨⟨[ungovernedJob 1 "a"], by decide⟩, Table.empty, Table.empty⟩
    let before := (SchedulerConfig.start successiveExecutions db).run semantics
      (List.replicate 19 (false, default))
    let after := before.run semantics (List.replicate 6 (true, default))
    let transition : QueueOp := .owned 1 "scheduler" 1 (ungovernedFailure 1 (seconds 30))
    ((before.thread false).prog.next? = some (.update transition) ∧
      (before.shared.jobs.get? 1).any transition.cond = true ∧
      (1, 1) ∈ (before.thread false).loc.claims) ∧
    (after.thread false).prog.next? = some (.update transition) ∧
      (1, 3) ∈ (after.thread true).loc.claims ∧
      (after.shared.jobs.get? 1).any transition.cond = false := by
  intro db before after transition
  have hcheck : ∀ cfg i e, readsOwnToken cfg i e = true →
      OwnTokens successiveExecutions cfg i e := by
    intro cfg i e h x' id _ hnext copy hcopy j _ _
    simpa only [readsOwnToken, hnext, hcopy, Option.all_some, decide_eq_true_eq] using h
  have hbefore : Config.Reaches semantics (OwnTokens successiveExecutions)
      (SchedulerConfig.start successiveExecutions db) before :=
    Config.reaches_of_checkRun hcheck (by decide +kernel)
  have hafter : Config.Reaches semantics (OwnTokens successiveExecutions)
      (SchedulerConfig.start successiveExecutions db) after :=
    hbefore.trans (Config.reaches_of_checkRun hcheck (by decide +kernel))
  have hnext : (before.thread false).prog.next? = some (.update transition) := by decide +kernel
  have hnext' : (after.thread false).prog.next? = some (.update transition) := by decide +kernel
  have hclaim : (1, 3) ∈ (after.thread true).loc.claims := by decide +kernel
  let claimed : Job :=
    { ungovernedJob 1 "a" with
      status := .claimed
      claimedBy := some "scheduler"
      claimedAt := some 0
      generation := 1 }
  let reclaimed : Job :=
    { claimed with
      attemptCount := 1
      nextRunAt := seconds 1000
      claimedAt := some (seconds 1000)
      generation := 3
      lastError := some "claim_lease_expired" }
  have hj : before.shared.jobs.get? 1 = some claimed := by decide +kernel
  have hj' : after.shared.jobs.get? 1 = some reclaimed := by decide +kernel
  have hcond : transition.cond claimed = true := by decide
  refine ⟨⟨hnext, ?_, ((execution_tokens hbefore rfl hnext hj).1 hcond).2⟩, hnext', hclaim, ?_⟩
  · rw [hj]
    exact hcond
  · rw [hj']
    exact (execution_tokens hafter rfl hnext' hj').2 true (by decide) hclaim

/-- **An execution can take over the token of another**: both of its claims have been
recovered and claimed again; its failed transition on the first job makes it select the
second one again, and it fails that job under the generation of the other execution. -/
theorem execution_takes_over :
    ¬ ∀ (executions : Bool → Execution) (db : Db) (schedule : List (Bool × Answers)) (i : Bool)
      (id : ℕ) (workerId : String) (g : ℕ) (w : Transition) (j : Job),
      let cfg := (SchedulerConfig.start (fun i => .execution (executions i)) db).run semantics
        schedule
      (cfg.thread i).prog.next? = some (.update (.owned id workerId g w)) →
      cfg.shared.jobs.get? id = some j → (QueueOp.owned id workerId g w).cond j = true →
      (id, g) ∈ (cfg.thread i).loc.claims := by
  intro h
  let executions : Bool → Execution := fun i => ⟨⟨["fake"], 300, 3600⟩, if i then seconds 600 else 0, 2⟩
  let db : Db := ⟨⟨[ungovernedJob 1 "a", ungovernedJob 2 "b"], by decide⟩, Table.empty, Table.empty⟩
  let claimed : Job :=
    { ungovernedJob 2 "b" with
      status := .claimed
      attemptCount := 1
      nextRunAt := seconds 600
      claimedBy := some "scheduler"
      claimedAt := some (seconds 600)
      generation := 3
      lastError := some "claim_lease_expired" }
  have hmine := h executions db
    (List.replicate 22 (false, default) ++ List.replicate 11 (true, default) ++
      List.replicate 14 (false, default)) false 2 "scheduler" 3
    (ungovernedFailure 2 (seconds 60)) claimed (by decide +kernel) (by decide +kernel)
    (by decide)
  exact absurd hmine (by decide +kernel)

end MarketRelay
