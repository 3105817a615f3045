import MarketRelay.Dispatch
import MarketRelay.Processed

/-!
# Awaiting a Publication

A dispatch creates a waiting job for the dates whose values are still to be published. The queue has
a transition that puts such a job back to waiting (`markWaitingForPublication`), but processing does
not use it: a promoted job is processed like any other, and a response without rows completes it.
Its deduplication key stays taken, so that the value is not awaited any more.

## Main results

* `process_never_awaits`: no call leaves a job waiting.
* `process_completes_waiting`: a waiting job that a response without rows completes.
-/

open Relational Interaction Gregorian

namespace MarketRelay

namespace IngestionRunner

/-- The job is put back to await its publication: until a later instant, and without counting an
attempt. -/
structure AwaitsAgain (j j' : Job) (now : Instant) : Prop where
  waiting : j'.status = .waitingForPublication
  attempts : j'.attemptCount = j.attemptCount
  later : now < j'.nextRunAt

variable {workerId : String} {now : Instant} {j j' : Job} {db db' : Db} {l l' : Session}
  {events : List (Event Cmd Cmd.Resp)} {r : Except PyError JobOutcome}
  {cursor : FetchCursor Json} {raws : List RawObservation}

/-- A failed attempt is retried from the queue, or is the last one. -/
theorem failure_not_waiting (copy job : Job) (error : String) (now : Instant) :
    ((Transition.failure copy error now).values job).status ≠ .waitingForPublication := by
  simp only [Transition.failure, Transition.values]
  split <;> simp

/-- After the loop, the job is as it was, failed, or done. -/
theorem Ending.not_waiting {result : Except PyError (ℕ × ℕ)} (h : Ending now j result r j')
    (hj : j.status ≠ .waitingForPublication) : j'.status ≠ .waitingForPublication := by
  cases h with
  | raised => exact hj
  | allMalformed => exact failure_not_waiting _ _ _ _
  | done => simp [Transition.values]

/-- **No exit leaves the job waiting.** -/
theorem Exit.not_waiting (h : Exit workerId now j db events r db' j')
    (hj : j.status ≠ .waitingForPublication) : j'.status ≠ .waitingForPublication := by
  cases h with
  | blocked | invalidCursor => exact failure_not_waiting _ _ _ _
  | resumed _ _ _ hexit =>
      cases hexit with
      | checkRaised => exact hj
      | exhausted => simp [Transition.quota, Transition.values]
      | fetchFailed => exact failure_not_waiting _ _ _ _
      | fetched _ _ hstore =>
          cases hstore with
          | consumeRaised => simp [Transition.values]
          | looped _ _ hending => exact hending.not_waiting (by simp [Transition.values])

/-- A response that is processed to its end completes the job or counts an attempt. -/
theorem Processed.done_or_counted {outcome : JobOutcome}
    (h : Processed now j cursor raws db db' (.ok outcome) j') :
    j'.status = .done ∨ j'.attemptCount = j.attemptCount + 1 := by
  obtain ⟨running, hattempts, hending⟩ := h.ends h.not_raises
  generalize (fates (rowEntry j cursor) (currentValues db.observations) raws).count .stored =
    stored at hending
  cases hending with
  | allMalformed => exact Or.inr (congrArg (· + 1) hattempts)
  | done => exact Or.inl rfl

end IngestionRunner

open IngestionRunner in
/-- **No call leaves a job waiting**, whatever the job was created for and whatever is answered; and
one that returns from a response has completed the job or counted an attempt. -/
theorem process_never_awaits {j : Job} {workerId : String} {now : Instant} {db db' : Db}
    {l l' : Session} {events : List (Event Cmd Cmd.Resp)} {r : Except PyError JobOutcome}
    (h : l.InStep db j) (hready : Ready j workerId)
    (hx : (process j.id workerId now).Traces semantics db l events r db' l') :
    (¬ ∃ j', db'.jobs.get? j.id = some j' ∧ AwaitsAgain j j' now) ∧
      ∀ cursor raws outcome, PolicyGate.IngestionApproved db.decisions j.source →
        FetchCursor.parse j.cursor = .ok cursor → Served raws events → r = .ok outcome →
        ∃ j', db'.jobs.get? j.id = some j' ∧
          (j'.status = .done ∨ j'.attemptCount = j.attemptCount + 1) := by
  constructor
  · rintro ⟨j', hrow, hawaits⟩
    obtain ⟨j₁, db₁, j₂, hj₁, -, hrow', hexit⟩ := process_exits_of_ready h hready hx
    obtain rfl := Option.some.inj (hrow.symm.trans hrow')
    refine hexit.not_waiting ?_ hawaits.waiting
    rcases hj₁ with rfl | rfl
    · rcases hready with hpending | ⟨hclaimed, -⟩
      · simp [hpending]
      · simp [hclaimed]
    · simp [QueueOp.set]
  · rintro cursor raws outcome happroved hcursor hserved rfl
    obtain ⟨j', hrow, hprocessed⟩ := process_processed h hready happroved hcursor hx hserved
    exact ⟨j', hrow, hprocessed.done_or_counted⟩

/-! ### A value that is not published -/

/-- A calendar on which every value is still to be published. -/
def unpublishedCalendar : Calendar := fun _ _ _ first last =>
  .ok ((List.range (last.ordinal + 1 - first.ordinal)).filterMap fun k : ℕ =>
    (first.addDays k).map fun d => ⟨d, .waitingForPublication⟩)

/-- A dispatch of a fund, for today. -/
def fundDispatch : DispatchArgs :=
  { todaysDispatch with assetClass := .fund, series := ⟨"fake", "default", "FUND", .nav⟩ }

/-- The job of today's net asset value, once it has been promoted. -/
def fundJob : Job := newJob (Dispatch.jobArgs fundDispatch ⟨true, today, today⟩) 0 0

/-- A dispatch creates a job for a value that is not published yet, and the job is promoted after
its retry delay. -/
theorem exists_promoted :
    ∃ r₁ db₁ l₁ r₂ db₂ l₂,
      (Dispatch.planAndEnqueue unpublishedCalendar fundDispatch).Executes semantics
        ⟨Table.empty, Table.empty, approvedRegister⟩ Session.new r₁ db₁ l₁ ∧
      db₁.jobs.get? 0 = some fundJob.wait ∧
      (JobQueue.promoteDueWaiting (seconds 3600)).Executes semantics db₁ Session.new r₂ db₂ l₂ ∧
      db₂.jobs.get? 0 = some fundJob ∧ PolicyGate.IngestionApproved db₂.decisions "fake" := by
  have hrun : ((Dispatch.planAndEnqueue unpublishedCalendar fundDispatch).run.execute semantics
      [default, default] ⟨Table.empty, Table.empty, approvedRegister⟩ Session.new).any (fun first =>
        decide (first.2.1.jobs.get? 0 = some fundJob.wait) &&
          ((JobQueue.promoteDueWaiting (seconds 3600)).run.execute semantics [default, default]
            first.2.1 Session.new).any fun second =>
              decide (second.2.1.jobs.get? 0 = some fundJob ∧
                PolicyGate.IngestionApproved second.2.1.decisions "fake")) = true := by
    decide +kernel
  obtain ⟨⟨r₁, db₁, l₁⟩, hdispatch, hrun⟩ := (Option.any_eq_true _ _).mp hrun
  obtain ⟨hwaiting, hrun⟩ := Bool.and_eq_true_iff.mp hrun
  obtain ⟨⟨r₂, db₂, l₂⟩, hpromote, hrun⟩ := (Option.any_eq_true _ _).mp hrun
  exact ⟨r₁, db₁, l₁, r₂, db₂, l₂, ⟨_, hdispatch⟩, of_decide_eq_true hwaiting, ⟨_, hpromote⟩,
    of_decide_eq_true hrun⟩

open IngestionRunner in
/-- The call on a job that a dispatch has created and that has been promoted, with a response
without rows. -/
theorem process_never_awaits_promoted :
    ∃ db₁ db₂ events outcome db₃ l₃,
      (∃ r l, (Dispatch.planAndEnqueue unpublishedCalendar fundDispatch).Executes semantics
        ⟨Table.empty, Table.empty, approvedRegister⟩ Session.new r db₁ l) ∧
      (∃ r l, (JobQueue.promoteDueWaiting (seconds 3600)).Executes semantics db₁ Session.new r db₂
        l) ∧
      (process 0 "worker" (seconds 3600)).Traces semantics db₂ Session.new events (.ok outcome) db₃
        l₃ ∧
      Served [] events ∧
      (¬ ∃ j', db₃.jobs.get? 0 = some j' ∧ AwaitsAgain fundJob j' (seconds 3600)) ∧
      ∃ j', db₃.jobs.get? 0 = some j' ∧
        (j'.status = .done ∨ j'.attemptCount = fundJob.attemptCount + 1) := by
  obtain ⟨r₁, db₁, l₁, r₂, db₂, l₂, hdispatch, -, hpromote, hpending, happroved⟩ := exists_promoted
  obtain ⟨events, r₃, db₃, l₃, hx, hserved⟩ :=
    exists_served 0 "worker" (seconds 3600) [] db₂ Session.new
  have hready : Ready fundJob "worker" := Or.inl rfl
  have hstep : Session.new.InStep db₂ fundJob := .of_forgotten hpending rfl
  obtain ⟨outcome, rfl⟩ : ∃ outcome, r₃ = .ok outcome := by
    obtain ⟨j', -, hprocessed⟩ := process_processed hstep hready happroved
      (FetchCursor.parse_serialize _) hx hserved
    obtain ⟨running, -, hending⟩ := hprocessed.ends not_raises_nil
    cases hending with
    | allMalformed | done => exact ⟨_, rfl⟩
  obtain ⟨hawaits, hcounted⟩ := process_never_awaits hstep hready hx
  exact ⟨db₁, db₂, events, outcome, db₃, l₃, ⟨r₁, l₁, hdispatch⟩, ⟨r₂, l₂, hpromote⟩, hx, hserved,
    hawaits, hcounted _ [] outcome happroved (FetchCursor.parse_serialize _) hserved rfl⟩

open IngestionRunner in
/-- **A waiting job is completed by a response without rows**: the job that a dispatch has created
for a value that is not published yet is promoted after its retry delay, the provider answers with
nothing, and the job is `DONE`. -/
theorem process_completes_waiting :
    ∃ r₁ db₁ l₁ r₂ db₂ l₂ events r₃ db₃ l₃ j',
      (Dispatch.planAndEnqueue unpublishedCalendar fundDispatch).Executes semantics
        ⟨Table.empty, Table.empty, approvedRegister⟩ Session.new r₁ db₁ l₁ ∧
      db₁.jobs.get? 0 = some fundJob.wait ∧
      (JobQueue.promoteDueWaiting (seconds 3600)).Executes semantics db₁ Session.new r₂ db₂ l₂ ∧
      db₂.jobs.get? 0 = some fundJob ∧
      (process 0 "worker" (seconds 3600)).Traces semantics db₂ Session.new events r₃ db₃ l₃ ∧
      Served [] events ∧ db₃.jobs.get? 0 = some j' ∧ j'.status = .done ∧
      ¬ AwaitsAgain fundJob.wait j' (seconds 3600) := by
  obtain ⟨r₁, db₁, l₁, r₂, db₂, l₂, hdispatch, hwaiting, hpromote, hpending, happroved⟩ :=
    exists_promoted
  obtain ⟨events, r₃, db₃, l₃, hx, hserved⟩ :=
    exists_served 0 "worker" (seconds 3600) [] db₂ Session.new
  obtain ⟨j', hrow, hprocessed⟩ := process_processed (.of_forgotten hpending rfl)
    (Or.inl rfl : Ready fundJob "worker") happroved (FetchCursor.parse_serialize _) hx hserved
  obtain ⟨running, -, hending⟩ := hprocessed.ends not_raises_nil
  have hdone : j'.status = .done := by
    cases hending with
    | allMalformed hpos => exact absurd hpos (by simp [fates])
    | done => rfl
  refine ⟨r₁, db₁, l₁, r₂, db₂, l₂, events, r₃, db₃, l₃, j', hdispatch, hwaiting, hpromote,
    hpending, hx, hserved, hrow, hdone, fun h => ?_⟩
  exact absurd (h.waiting.symm.trans hdone) (by simp)

end MarketRelay
