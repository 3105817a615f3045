import MarketRelay.RunnerPaths

/-!
# What a Call May Do

A call of `IngestionRunner.process` on a job that its worker has claimed, run alone: what it needs
before it fetches, charges the quota or stores an observation, and what it leaves behind when it
returns. Both are read off the exits of the call.

## Main results

* `process_accountable`: one fetch at most, nothing without permission, and a job that is released
  or done.
-/

open Relational Interaction Gregorian

namespace MarketRelay

/-- `fetch_range` -/
def Cmd.isFetch : Cmd → Bool
  | fetchRange .. => true
  | _ => false

theorem Unfetched.countP {events : List (Event Cmd Cmd.Resp)} (h : Unfetched events) :
    (events.countP fun event => event.command.isFetch) = 0 := by
  rw [List.countP_eq_zero]
  intro event hevent hfetch
  cases hc : event.command with
  | fetchRange source listing start «end» => exact h event hevent source listing start «end» hc
  | _ => simp [hc, Cmd.isFetch] at hfetch

namespace IngestionRunner

/-- The details of the outcomes that count an attempt. -/
def attemptDetails : List String :=
  ["policy_not_authorized", "invalid_cursor", "fetch_error", "all_malformed"]

/-- What a call that returns has made of the job: the outcome reports the status, which is not one
in which a worker owns the job; the owner is cleared unless the job is done; and the attempt is
counted when the detail says so. -/
structure Closes (j j' : Job) (outcome : JobOutcome) : Prop where
  reported : outcome.status = j'.status
  settled : j'.status = .pending ∨ j'.status = .failed ∨ j'.status = .done
  released : j'.status ≠ .done → j'.claimedBy = none ∧ j'.claimedAt = none
  attempts : j'.attemptCount = j.attemptCount + if outcome.detail ∈ attemptDetails then 1 else 0

/-- A failed attempt. -/
theorem closes_failure {j run : Job} (hrun : run.attemptCount = j.attemptCount) (error : String)
    (now : Instant) (recorded rejected : ℕ) {detail : String} (h : detail ∈ attemptDetails) :
    Closes j ((Transition.failure run error now).values run)
      ⟨((Transition.failure run error now).values run).status, recorded, rejected, detail⟩ where
  reported := rfl
  settled := by
    simp only [Transition.failure, Transition.values]
    split
    · exact Or.inr (Or.inl rfl)
    · exact Or.inl rfl
  released _ := ⟨rfl, rfl⟩
  attempts := by rw [if_pos h, ← hrun]; rfl

variable {j j' : Job} {workerId : String} {now : Instant} {db db' : Db}
  {events : List (Event Cmd Cmd.Resp)} {r : Except PyError JobOutcome}

/-! ### What the exits leave behind -/

theorem StoreExit.closes {cursor : FetchCursor Json} {authorization : IngestionAuthorization}
    {raws : List RawObservation} (h : StoreExit now cursor authorization raws j db events r db' j')
    (j₀ : Job) (hj : j.attemptCount = j₀.attemptCount) {outcome : JobOutcome} (hr : r = .ok outcome) :
    Closes j₀ j' outcome := by
  cases h with
  | consumeRaised => exact absurd hr (by simp)
  | looped _ _ hending _ =>
      cases hending with
      | raised => exact absurd hr (by simp)
      | allMalformed =>
          obtain rfl := Except.ok.inj hr
          exact closes_failure hj _ now _ _ (by decide)
      | done =>
          obtain rfl := Except.ok.inj hr
          have hdetail : "done" ∉ attemptDetails := by decide
          refine ⟨rfl, Or.inr (Or.inr rfl), fun hne => absurd rfl hne, ?_⟩
          rw [if_neg hdetail]
          exact hj

/-- **A call that returns** has released the job or finished it. -/
theorem Exit.closes (h : Exit workerId now j db events r db' j') {outcome : JobOutcome}
    (hr : r = .ok outcome) : Closes j j' outcome := by
  cases h with
  | blocked | invalidCursor =>
      obtain rfl := Except.ok.inj hr
      exact closes_failure rfl _ now _ _ (by decide)
  | resumed _ _ _ hexit =>
      cases hexit with
      | checkRaised => exact absurd hr (by simp)
      | exhausted =>
          obtain rfl := Except.ok.inj hr
          refine ⟨rfl, Or.inl rfl, fun _ => ⟨rfl, rfl⟩, ?_⟩
          rw [if_neg (by decide)]
          rfl
      | fetchFailed =>
          obtain rfl := Except.ok.inj hr
          exact closes_failure rfl _ now _ _ (by decide)
      | fetched _ _ hstore => exact hstore.closes j rfl hr

/-! ### What the exits have done -/

/-- The part after the fetch fetches nothing. -/
theorem StoreExit.unfetched {cursor : FetchCursor Json} {authorization : IngestionAuthorization}
    {raws : List RawObservation} (h : StoreExit now cursor authorization raws j db events r db' j') :
    Unfetched events := by
  cases h with
  | consumeRaised _ heffects =>
      intro event hevent source listing start «end» hc
      have hconsume := heffects event hevent (hc ▸ trivial)
      rw [hconsume] at hc
      exact absurd hc (by simp)
  | looped hunfetched => exact hunfetched

/-- **The trace of a call**: nothing that needs permission, or a fetch after everything that it
needs, and no other. -/
theorem Exit.trace (h : Exit workerId now j db events r db' j') :
    Quiet events ∨
      PolicyGate.IngestionApproved db.decisions j.source ∧
        (∃ cursor, FetchCursor.parse j.cursor = .ok cursor) ∧
        ∃ before fetch after, events = before ++ fetch :: after ∧ Started workerId j before ∧
          Unfetched after := by
  cases h with
  | blocked _ hquiet | invalidCursor _ hquiet => exact Or.inl hquiet
  | resumed happroved hparse hquiet hexit =>
      have hstarted : ∀ {before first}, Quiet first → Started workerId j before →
          Started workerId j (first ++ before) := fun hfirst hbefore =>
        ⟨hfirst.append hbefore.quiet,
          hbefore.quota.imp fun q hq => ⟨List.mem_append_right _ hq.1, hq.2⟩,
          List.mem_append_right _ hbefore.running⟩
      cases hexit with
      | checkRaised hquiet' | exhausted hquiet' => exact Or.inl (hquiet.append hquiet')
      | fetchFailed hbefore hafter =>
          exact Or.inr ⟨happroved, ⟨_, hparse⟩, _, _, _, (List.append_assoc ..).symm,
            hstarted hquiet hbefore, hafter.unfetched⟩
      | fetched hbefore _ hstore =>
          exact Or.inr ⟨happroved, ⟨_, hparse⟩, _, _, _, (List.append_assoc ..).symm,
            hstarted hquiet hbefore, hstore.unfetched⟩

/-- Nothing that needs permission comes before a quiet beginning is over. -/
theorem mem_of_split {before mid first second : List (Event Cmd Cmd.Resp)}
    {event : Event Cmd Cmd.Resp} (hquiet : Quiet before)
    (h : before ++ mid = first ++ event :: second) (heffect : event.command.IsEffect)
    {e : Event Cmd Cmd.Resp} (he : e ∈ before) : e ∈ first := by
  rcases List.append_eq_append_iff.mp h with ⟨rest, rfl, -⟩ | ⟨rest, rfl, hmid⟩
  · exact List.mem_append_left _ he
  · cases rest with
    | nil => simpa using he
    | cons head tail =>
        obtain ⟨rfl, -⟩ := List.cons.inj hmid
        exact absurd heffect (hquiet _ (List.mem_append_right _ List.mem_cons_self))

end IngestionRunner

open IngestionRunner in
/-- **What a call may do**, and what it leaves behind, for a job that is claimed by its worker: at
most one fetch; a fetch, a charge or a stored observation only with both decisions approved, a
cursor that parses, a quota that has been found not exhausted, and the job moved to `RUNNING` under
its generation; and on a return, a job that is pending, failed or done, as the outcome says. -/
theorem process_accountable {j : Job} {workerId : String} {now : Instant} {db db' : Db}
    {l l' : Session} {events : List (Event Cmd Cmd.Resp)} {r : Except PyError JobOutcome}
    (h : l.InStep db j) (hclaimed : j.status = .claimed) (howner : j.claimedBy = some workerId)
    (hx : (process j.id workerId now).Traces semantics db l events r db' l') :
    (events.countP fun event => event.command.isFetch) ≤ 1 ∧
      (∀ before event after, events = before ++ event :: after → event.command.IsEffect →
        PolicyGate.IngestionApproved db.decisions j.source ∧
          (∃ cursor, FetchCursor.parse j.cursor = .ok cursor) ∧
          (∃ q : QuotaStatus, ⟨.checkQuota j.source, Except.ok q⟩ ∈ before ∧
            q.exhausted = false) ∧
          ⟨.update (.owned j.id workerId j.generation .markRunning), (1 : ℕ)⟩ ∈ before) ∧
      ∀ outcome, r = .ok outcome →
        ∃ j', db'.jobs.get? j.id = some j' ∧ Closes j j' outcome := by
  have hheld : j.HeldBy workerId j.generation := ⟨by rw [hclaimed]; rfl, howner, rfl⟩
  obtain ⟨j', hrow, hexit⟩ := process_exits h hheld hclaimed hx
  have hcloses : ∀ outcome, r = .ok outcome →
      ∃ j', db'.jobs.get? j.id = some j' ∧ Closes j j' outcome := fun outcome hr =>
    ⟨j', hrow, hexit.closes hr⟩
  rcases hexit.trace with hquiet | ⟨happroved, hparse, pre, fetch, post, rfl, hstarted, hpost⟩
  · refine ⟨by rw [hquiet.unfetched.countP]; exact Nat.zero_le _, ?_, hcloses⟩
    rintro before event after rfl heffect
    exact absurd heffect (hquiet event (List.mem_append_right _ List.mem_cons_self))
  · refine ⟨?_, fun before event after hsplit heffect => ?_, hcloses⟩
    · rw [List.countP_append, List.countP_cons, hstarted.quiet.unfetched.countP, hpost.countP]
      split <;> omega
    · obtain ⟨q, hq, havailable⟩ := hstarted.quota
      exact ⟨happroved, hparse, ⟨q, mem_of_split hstarted.quiet hsplit heffect hq, havailable⟩,
        mem_of_split hstarted.quiet hsplit heffect hstarted.running⟩

/-- A call that fetches a row for the day of its job, and stores it. -/
theorem process_accountable_claimed :
    ∃ events outcome db' l', (IngestionRunner.process 1 "worker" 0).Traces semantics claimedDb
        Session.new events (.ok outcome) db' l' ∧
      (events.countP fun event => event.command.isFetch) = 1 ∧
      (∀ before event after, events = before ++ event :: after → event.command.IsEffect →
        ⟨.update (.owned 1 "worker" 1 .markRunning), (1 : ℕ)⟩ ∈ before) ∧
      db'.observations.rows.length = 1 ∧
      ∃ j', db'.jobs.get? 1 = some j' ∧ IngestionRunner.Closes claimedJob j' outcome := by
  let row : RawObservation := ⟨"BTC", today, .eodClose, "EUR", .finite 1, none, none, none, none⟩
  let answers : Answers := { (default : Answers) with fetched := .ok [row] }
  have hx := Prog.traces_follow semantics answers (IngestionRunner.process 1 "worker" 0).run
    claimedDb Session.new
  have hrun : (((IngestionRunner.process 1 "worker" 0).run.follow semantics answers claimedDb
      Session.new).1.countP fun event => event.command.isFetch) = 1 ∧
      ((IngestionRunner.process 1 "worker" 0).run.follow semantics answers claimedDb
        Session.new).2.1 = .ok ⟨.done, 1, 0, "done"⟩ ∧
      ((IngestionRunner.process 1 "worker" 0).run.follow semantics answers claimedDb
        Session.new).2.2.1.observations.rows.length = 1 := by decide +kernel
  generalize (IngestionRunner.process 1 "worker" 0).run.follow semantics answers claimedDb
    Session.new = result at hx hrun
  obtain ⟨hfetches, hok, hstored⟩ := hrun
  rw [hok] at hx
  obtain ⟨-, heffects, hcloses⟩ := process_accountable claimedJob_inStep rfl rfl hx
  exact ⟨_, _, _, _, hx, hfetches,
    fun before event after hsplit heffect => (heffects before event after hsplit heffect).2.2.2,
    hstored, hcloses _ rfl⟩

end MarketRelay
