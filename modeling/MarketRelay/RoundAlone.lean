import MarketRelay.Lib.Total
import MarketRelay.Rounds
import MarketRelay.RunnerPaths

/-!
# A Round Run Alone

What one round of the loop makes of its job when no other worker is active. A claimed job leaves its
round in one of four ways: it is done; it is put back because the quota is exhausted; an attempt of it
has failed; or it is abandoned, claimed or running as it is, when an adapter has raised a stale claim
of its own. The round always returns, and it changes no other job.

The loop over a batch is then a relation between the rows before and after (`RoundEnd`), job by job.

## Main results

* `App.Concerns.executes`: what a part of a round leaves alone.
* `Scheduler.round_traces`: how a round leaves its job, and what it counts.
* `Scheduler.processJobs_traces`: so does the loop, for each of its jobs.
-/

open Relational Interaction Gregorian

namespace MarketRelay

/-! ### Other jobs -/

section Frame

variable {id : ℕ} {db db' : Db} {l l' : Session}

/-- A command of a round adds no job and removes none. -/
theorem Cmd.Concerns.keys_exec {c : Cmd} (hc : c.Concerns id) (e : Answers) (db : Db) (l : Session) :
    (exec c e db l).2.1.jobs.keys = db.jobs.keys := by
  cases c with
  | update op => exact Table.keys_update db.jobs op.cond op.edit
  | insertObservation o => rw [exec]; split <;> rfl
  | insertJob | markWaiting | selectJob | insertDecision => exact hc.elim
  | _ => rfl

/-- Between two states, no job but one has changed: the rows of the others are the same, and so is
what the session has loaded of them. -/
structure Spared (id : ℕ) (db : Db) (l : Session) (db' : Db) (l' : Session) : Prop where
  keys : db'.jobs.keys = db.jobs.keys
  row : ∀ i ≠ id, db'.jobs.get? i = db.jobs.get? i
  inStep : ∀ j : Job, j.id ≠ id → l.InStep db j → l'.InStep db' j

theorem Spared.exec {db₁ : Db} {l₁ : Session} (h : Spared id db l db₁ l₁) {c : Cmd}
    (hc : c.Concerns id) (e : Answers) :
    Spared id db l (exec c e db₁ l₁).2.1 (exec c e db₁ l₁).2.2 := by
  refine ⟨(hc.keys_exec e db₁ l₁).trans h.keys,
    fun i hi => (hc.get?_of_ne hi e db₁ l₁).trans (h.row i hi), fun j hj hstep => ?_⟩
  obtain ⟨hrow, hcopy⟩ := h.inStep j hj hstep
  refine ⟨(hc.get?_of_ne hj e db₁ l₁).trans hrow, fun copy hcached => hcopy copy ?_⟩
  rcases hc.cache_exec hj e db₁ l₁ with ⟨hsame, -⟩ | ⟨hnone, -⟩
  · rwa [hsame] at hcached
  · rw [hnone] at hcached
    exact absurd hcached (by simp)

/-- **What a part of a round leaves alone**: every job but its own. -/
theorem App.Concerns.executes {α : Type} {x : App α} (hx : App.Concerns id x)
    {r : Except PyError α} (h : x.Executes semantics db l r db' l') (hknown : Known id db l) :
    Spared id db l db' l' := by
  have hrun := fun hstep => Prog.Meets.executes
    (I := fun db₁ l₁ _ => Known id db₁ l₁ ∧ Spared id db l db₁ l₁) hstep (hx () trivial) h
    ⟨hknown, ⟨rfl, fun _ _ => rfl, fun _ _ h => h⟩⟩
  obtain ⟨_, -, -, hspared⟩ := hrun fun c e db₁ l₁ _ hc hI =>
    ⟨(), hI.1.names hc e, hI.1.exec hc e, hI.2.exec hc e⟩
  exact hspared

theorem Session.InStep.known {j : Job} (h : l.InStep db j) : Known j.id db l :=
  ⟨⟨j, h.row⟩, fun c hc => by rw [h.copy c hc]⟩

end Frame

/-! ### One round -/

/-- The quota has been found exhausted. -/
def FoundExhausted (events : List (Event Cmd Cmd.Resp)) : Prop :=
  ∃ source, ∃ q : QuotaStatus, ⟨.checkQuota source, Except.ok q⟩ ∈ events ∧ q.exhausted = true

theorem FoundExhausted.mono {events events' : List (Event Cmd Cmd.Resp)} (h : FoundExhausted events)
    (hsub : events ⊆ events') : FoundExhausted events' := by
  obtain ⟨source, q, hmem, hexhausted⟩ := h
  exact ⟨source, q, hsub hmem, hexhausted⟩

/-- The job as it is claimed, or as it is running. -/
def Job.Begun (j k : Job) : Prop := k = j ∨ k = Transition.markRunning.values j

theorem Job.Begun.id {j k : Job} (h : j.Begun k) : k.id = j.id := by
  rcases h with rfl | rfl
  · rfl
  · exact Transition.values_id _ j

theorem Job.Begun.heldBy {j k : Job} {workerId : String} {generation : ℕ} (h : j.Begun k)
    (hheld : j.HeldBy workerId generation) : k.HeldBy workerId generation := by
  rcases h with rfl | rfl
  · exact hheld
  · exact ⟨rfl, hheld.2⟩

/-- How a round leaves a job that was claimed as `j`: what happens to the counters, and the row. -/
inductive RoundEnd (now : Instant) (j : Job) (events : List (Event Cmd Cmd.Resp)) :
    (ProcessOutcome → ProcessOutcome) → Job → Prop where
  | done : RoundEnd now j events (fun outcome => outcome.count .done)
      (Transition.markDone.values (Transition.markRunning.values j))
  | deferred {resetAt : Option Instant} : FoundExhausted events →
      RoundEnd now j events
        (fun outcome => { outcome with jobsDeferredQuota := outcome.jobsDeferredQuota + 1 })
        ((Transition.quota resetAt now).values j)
  | failed {k : Job} {error : String} : j.Begun k →
      RoundEnd now j events
        (fun outcome => outcome.count ((Transition.failure k error now).values k).status)
        ((Transition.failure k error now).values k)
  | abandoned {k : Job} : j.Begun k → RoundEnd now j events (fun outcome => outcome) k

theorem RoundEnd.mono {now : Instant} {j j' : Job} {events events' : List (Event Cmd Cmd.Resp)}
    {count : ProcessOutcome → ProcessOutcome} (h : RoundEnd now j events count j')
    (hsub : events ⊆ events') : RoundEnd now j events' count j' := by
  cases h with
  | done => exact .done
  | deferred hexhausted => exact .deferred (hexhausted.mono hsub)
  | failed hbegun => exact .failed hbegun
  | abandoned hbegun => exact .abandoned hbegun

/-- A failed attempt leaves a job that is counted the same way by either branch of the loop. -/
theorem ProcessOutcome.countFailure_failure (outcome : ProcessOutcome) (k : Job) (error : String)
    (now : Instant) :
    outcome.countFailure ((Transition.failure k error now).values k).status =
      outcome.count ((Transition.failure k error now).values k).status := by
  simp only [Transition.failure, Transition.values]
  split <;> rfl

namespace IngestionRunner

variable {j j' : Job} {workerId : String} {now : Instant} {db db' : Db}
  {events : List (Event Cmd Cmd.Resp)} {r : Except PyError JobOutcome}

/-- A call that raises leaves the job claimed or running; one that returns leaves it as its outcome
says. -/
theorem Exit.roundEnd (h : Exit workerId now j db events r db' j') :
    (∃ e, r = .error e ∧ j.Begun j') ∨ ∃ result count, r = .ok result ∧
      RoundEnd now j events count j' ∧
      (result.detail = "quota_exhausted" ∧ count = (fun outcome =>
        { outcome with jobsDeferredQuota := outcome.jobsDeferredQuota + 1 }) ∨
      result.detail ≠ "quota_exhausted" ∧ count = fun outcome => outcome.count j'.status) := by
  cases h with
  | blocked => exact Or.inr ⟨_, _, rfl, .failed (Or.inl rfl), Or.inr ⟨by simp, rfl⟩⟩
  | invalidCursor => exact Or.inr ⟨_, _, rfl, .failed (Or.inl rfl), Or.inr ⟨by simp, rfl⟩⟩
  | resumed _ _ _ hexit =>
      cases hexit with
      | checkRaised => exact Or.inl ⟨_, rfl, Or.inl rfl⟩
      | exhausted _ hcheck hexhausted =>
          exact Or.inr ⟨_, _, rfl, .deferred ⟨_, _, List.mem_append_right _ hcheck, hexhausted⟩,
            Or.inl ⟨rfl, rfl⟩⟩
      | fetchFailed => exact Or.inr ⟨_, _, rfl, .failed (Or.inr rfl), Or.inr ⟨by simp, rfl⟩⟩
      | fetched _ _ hstore =>
          cases hstore with
          | consumeRaised => exact Or.inl ⟨_, rfl, Or.inr rfl⟩
          | looped _ _ hending =>
              cases hending with
              | raised => exact Or.inl ⟨_, rfl, Or.inr rfl⟩
              | allMalformed =>
                  exact Or.inr ⟨_, _, rfl, .failed (Or.inr rfl), Or.inr ⟨by simp, rfl⟩⟩
              | done => exact Or.inr ⟨_, _, rfl, .done, Or.inr ⟨by simp, rfl⟩⟩

end IngestionRunner

namespace Scheduler

variable {j : Job} {workerId : String} {now : Instant} {db db' : Db} {l l' : Session}
  {events : List (Event Cmd Cmd.Resp)}

/-- A part that is skipped when an adapter could not be looked up. -/
theorem orRaise_bind_traces {α β : Type} {answer : Except PyError α} {f : α → App β}
    {r : Except PyError β}
    (hx : (orRaise answer >>= f).Traces semantics db l events r db' l') :
    (∃ e, r = .error e ∧ db' = db ∧ l' = l) ∨
      ∃ a, answer = .ok a ∧ (f a).Traces semantics db l events r db' l' := by
  cases answer with
  | error e =>
      obtain ⟨-, rfl, rfl, rfl⟩ := Script.traces_throw.mp hx
      exact Or.inl ⟨e, rfl, rfl, rfl⟩
  | ok a =>
      rw [orRaise, pure_bind] at hx
      exact Or.inr ⟨a, rfl, hx⟩

/-- The body of the `try`. -/
theorem runJob_traces {r : Except PyError JobOutcome} (h : l.InStep db j)
    (hheld : j.HeldBy workerId j.generation) (hclaimed : j.status = .claimed)
    (hx : (runJob j.id workerId now).Traces semantics db l events r db' l') :
    ∃ j', j'.id = j.id ∧ l'.InStep db' j' ∧
      ((∃ e, r = .error e ∧ j.Begun j') ∨ ∃ result count, r = .ok result ∧
        RoundEnd now j events count j' ∧
        (result.detail = "quota_exhausted" ∧ count = (fun outcome =>
          { outcome with jobsDeferredQuota := outcome.jobsDeferredQuota + 1 }) ∨
        result.detail ≠ "quota_exhausted" ∧ count = fun outcome => outcome.count j'.status)) := by
  obtain ⟨l₁, rest, rfl, hstep₁, hx₁⟩ := attributes_bind_traces h hx
  obtain ⟨e₁, rest, rfl, hx₂⟩ := Script.traces_op_bind.mp hx₁
  simp only [semantics_exec, exec] at hx₂ ⊢
  rcases orRaise_bind_traces hx₂ with ⟨e, rfl, rfl, rfl⟩ | ⟨_, -, hx₃⟩
  · exact ⟨j, rfl, hstep₁, Or.inl ⟨e, rfl, Or.inl rfl⟩⟩
  · obtain ⟨l₂, rest, rfl, hstep₂, hx₄⟩ := attributes_bind_traces hstep₁ hx₃
    obtain ⟨e₂, rest, rfl, hx₅⟩ := Script.traces_op_bind.mp hx₄
    simp only [semantics_exec, exec] at hx₅ ⊢
    rcases orRaise_bind_traces hx₅ with ⟨e, rfl, rfl, rfl⟩ | ⟨_, -, hx₆⟩
    · exact ⟨j, rfl, hstep₂, Or.inl ⟨e, rfl, Or.inl rfl⟩⟩
    · obtain ⟨j', hid, hstep', hexit⟩ :=
        IngestionRunner.process_leaves hstep₂ hheld hclaimed hx₆
      refine ⟨j', hid, hstep', hexit.roundEnd.imp id ?_⟩
      rintro ⟨result, count, hr, hend, hcount⟩
      exact ⟨result, count, hr, hend.mono fun _ hevent => by simp [hevent], hcount⟩

/-- **How a round leaves its job**, and what it counts. It always returns. -/
theorem round_traces {r : Except PyError (ProcessOutcome → ProcessOutcome)} (h : l.InStep db j)
    (hheld : j.HeldBy workerId j.generation) (hclaimed : j.status = .claimed)
    (hx : (round j.id workerId now).Traces semantics db l events r db' l') :
    ∃ count j', r = .ok count ∧ j'.id = j.id ∧ db'.jobs.get? j.id = some j' ∧
      RoundEnd now j events count j' := by
  obtain ⟨r', db₁, l₁, first, second, rfl, hrun, hsettle⟩ := Script.traces_attempt_bind.mp hx
  obtain ⟨j₁, hid, hstep, ⟨e, rfl, hbegun⟩ | ⟨result, count, rfl, hend, hcount⟩⟩ :=
    runJob_traces h hheld hclaimed hrun
  · have hheld₁ : j₁.HeldBy workerId j₁.generation := by
      rcases hbegun with rfl | rfl
      · exact hheld
      · exact ⟨rfl, hheld.2⟩
    rw [settle] at hsettle
    split at hsettle
    · obtain ⟨rfl, rfl, rfl, rfl⟩ := Script.traces_pure.mp hsettle
      exact ⟨_, j₁, rfl, hid, hid ▸ hstep.row, .abandoned hbegun⟩
    · rw [← hid] at hsettle
      obtain ⟨l₂, rest, rfl, hstep₂, hx₂⟩ := generation_bind_traces hstep hsettle
      obtain ⟨_, db₃, l₃, third, rest, rfl, hmark, hx₃⟩ := Script.traces_bind_of_returns
        (fun e s' l' he => by
          obtain ⟨events, he⟩ := Prog.executes_iff_traces.mp he
          exact absurd (JobQueue.markFailed_traces hstep₂ hheld₁ he).1 (by simp)) hx₂
      obtain ⟨-, hstep₃, -, -, rfl⟩ := JobQueue.markFailed_traces hstep₂ hheld₁ hmark
      have hid₃ : ((Transition.failure j₁ e.adapterErrorCode now).values j₁).id = j₁.id :=
        Transition.values_id _ _
      rw [← hid₃] at hx₃
      obtain ⟨l₄, rest, rfl, hstep₄, hx₄⟩ := attributes_bind_traces hstep₃ hx₃
      obtain ⟨rfl, rfl, rfl, rfl⟩ := Script.traces_pure.mp hx₄
      refine ⟨_, (Transition.failure j₁ e.adapterErrorCode now).values j₁, ?_, hid₃.trans hid, ?_,
        .failed hbegun⟩
      · simp only [ProcessOutcome.countFailure_failure]
      · rw [← hid, ← hid₃]
        exact hstep₄.row
  · obtain ⟨hdetail, rfl⟩ | ⟨hdetail, rfl⟩ := hcount
    · rw [settle, if_pos hdetail] at hsettle
      obtain ⟨rfl, rfl, rfl, rfl⟩ := Script.traces_pure.mp hsettle
      exact ⟨_, j₁, rfl, hid, hid ▸ hstep.row, hend.mono (by simp)⟩
    · rw [settle, if_neg hdetail, ← hid] at hsettle
      obtain ⟨l₂, rest, rfl, hstep₂, hx₂⟩ := attributes_bind_traces hstep hsettle
      obtain ⟨rfl, rfl, rfl, rfl⟩ := Script.traces_pure.mp hx₂
      exact ⟨_, j₁, rfl, hid, hid ▸ hstep₂.row, hend.mono (by simp)⟩

/-! ### The loop -/

/-- The counters after some rounds. -/
def countAll (ends : List ((ProcessOutcome → ProcessOutcome) × Job)) (outcome : ProcessOutcome) :
    ProcessOutcome :=
  ends.foldl (fun outcome last => last.1 outcome) outcome

/-- **How the loop leaves each of its jobs**, and what it counts. It always returns. -/
theorem processJobs_traces {jobs : List Job} {outcome : ProcessOutcome}
    {r : Except PyError ProcessOutcome} (hnodup : (jobs.map Job.id).Nodup)
    (hjobs : ∀ j ∈ jobs, l.InStep db j ∧ j.HeldBy workerId j.generation ∧ j.status = .claimed)
    (hx : (processJobs workerId now (jobs.map Job.id) outcome).Traces semantics db l events r db'
      l') :
    ∃ ends, r = .ok (countAll ends outcome) ∧
      List.Forall₂ (fun j last => RoundEnd now j events last.1 last.2 ∧
        db'.jobs.get? j.id = some last.2) jobs ends ∧
      db'.jobs.keys = db.jobs.keys ∧
      ∀ i ∉ jobs.map Job.id, db'.jobs.get? i = db.jobs.get? i := by
  induction jobs generalizing outcome db l events with
  | nil =>
      obtain ⟨rfl, rfl, rfl, rfl⟩ := Script.traces_pure.mp hx
      exact ⟨[], rfl, .nil, rfl, fun _ _ => rfl⟩
  | cons j rest ih =>
      obtain ⟨hnot, hnodup⟩ := List.nodup_cons.mp hnodup
      obtain ⟨hstep, hheld, hclaimed⟩ := hjobs j List.mem_cons_self
      rw [List.map_cons, processJobs_cons] at hx
      obtain ⟨count, db₁, l₁, first, second, rfl, hround, hrest⟩ := Script.traces_bind_of_returns
        (fun e s' l' he => by
          obtain ⟨events, he⟩ := Prog.executes_iff_traces.mp he
          obtain ⟨_, _, hr, -⟩ := round_traces hstep hheld hclaimed he
          exact absurd hr (by simp)) hx
      obtain ⟨count', j', hr, -, hrow, hend⟩ := round_traces hstep hheld hclaimed hround
      obtain rfl := Except.ok.inj hr
      have hspared := round_concerns.executes hround.executes hstep.known
      obtain ⟨ends, rfl, hall, hkeys, hframe⟩ := ih hnodup (fun j₂ hj₂ => by
        obtain ⟨hstep₂, hheld₂⟩ := hjobs j₂ (List.mem_cons_of_mem j hj₂)
        have hne : j₂.id ≠ j.id := fun heq => hnot (heq ▸ List.mem_map_of_mem hj₂)
        exact ⟨hspared.inStep j₂ hne hstep₂, hheld₂⟩) hrest
      refine ⟨(count, j') :: ends, rfl, .cons ⟨hend.mono (List.subset_append_left ..), ?_⟩ ?_,
        hkeys.trans hspared.keys, ?_⟩
      · exact (hframe j.id hnot).trans hrow
      · exact hall.imp fun _ _ h => ⟨h.1.mono (List.subset_append_right ..), h.2⟩
      · intro i hi
        rw [List.map_cons, List.mem_cons, not_or] at hi
        exact (hframe i hi.2).trans (hspared.row i hi.1)

end Scheduler

end MarketRelay
