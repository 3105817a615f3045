import MarketRelay.JobAlone
import MarketRelay.Runner
import MarketRelay.StoredDecimals

/-!
# The Paths of a Call

Every way in which `IngestionRunner.process`, run alone on a job that its worker has claimed, can
go: what it has done when it leaves (the trace), how it leaves, and what it has made of the job and
of the store. The call has nine exits. Each part of the call has a relation that lists the exits
which it adds, in the order of the source.

The loop over the rows of a response becomes a relation on the states of the database (`Rows`),
since nothing in it depends on the session.

## Main results

* `recordRows_executes`: the loop, as a relation.
* `process_exits`: the exits of a call.
-/

open Relational Interaction Gregorian

namespace MarketRelay

/-- What a job needs permission for: the fetch, the charge of the quota and the insert of an
observation. -/
def Cmd.IsEffect : Cmd → Prop
  | fetchRange .. | consumeQuota .. | insertObservation _ => True
  | _ => False

/-- Nothing that needs permission has been done. -/
def Quiet (events : List (Event Cmd Cmd.Resp)) : Prop :=
  ∀ event ∈ events, ¬ event.command.IsEffect

theorem Quiet.nil : Quiet [] := fun _ h => absurd h List.not_mem_nil

theorem Quiet.cons {event : Event Cmd Cmd.Resp} {events : List (Event Cmd Cmd.Resp)}
    (h : ¬ event.command.IsEffect) (hevents : Quiet events) : Quiet (event :: events) :=
  List.forall_mem_cons.mpr ⟨h, hevents⟩

theorem Quiet.append {first second : List (Event Cmd Cmd.Resp)} (hfirst : Quiet first)
    (hsecond : Quiet second) : Quiet (first ++ second) :=
  List.forall_mem_append.mpr ⟨hfirst, hsecond⟩

/-- No range has been fetched. -/
def Unfetched (events : List (Event Cmd Cmd.Resp)) : Prop :=
  ∀ event ∈ events, ∀ source listing start «end»,
    event.command ≠ .fetchRange source listing start «end»

theorem Quiet.unfetched {events : List (Event Cmd Cmd.Resp)} (h : Quiet events) :
    Unfetched events := by
  intro event hevent source listing start «end» heq
  exact h event hevent (heq ▸ trivial)

theorem Unfetched.append {first second : List (Event Cmd Cmd.Resp)} (hfirst : Unfetched first)
    (hsecond : Unfetched second) : Unfetched (first ++ second) :=
  List.forall_mem_append.mpr ⟨hfirst, hsecond⟩

/-! ### The store, run alone -/

/-- `record` touches neither the jobs, nor the decisions, nor the loaded job objects. -/
theorem ObservationStore.record_frame {data : ObservationInput} {db db' : Db} {l l' : Session}
    {r : Except PyError RecordOutcome}
    (h : (ObservationStore.record data).Executes semantics db l r db' l') :
    db'.jobs = db.jobs ∧ db'.decisions = db.decisions ∧ l'.cache = l.cache := by
  have hrecord : (ObservationStore.record data).run.Only fun c =>
      (∃ key, c = .selectRevision key) ∨ ∃ candidate, c = .insertObservation candidate :=
    (ObservationStore.record_keeps (Script.keeps_allowed (Or.inl ⟨_, rfl⟩))
      fun _ => Script.keeps_allowed (Or.inr ⟨_, rfl⟩)).only
  refine hrecord.executes (I := fun db' l' => db'.jobs = db.jobs ∧ db'.decisions = db.decisions ∧
    l'.cache = l.cache) ?_ h ⟨rfl, rfl, rfl⟩
  rintro _ e s l₁ (⟨key, rfl⟩ | ⟨candidate, rfl⟩) hI
  · exact hI
  · simp only [semantics_exec, exec]
    split <;> exact hI

namespace IngestionRunner

/-! ### The loop over the rows -/

/-- What is recorded for a row, or what is raised instead. -/
def rowInput (j : Job) (cursor : FetchCursor Json) (authorization : IngestionAuthorization)
    (now : Instant) (raw : RawObservation) : Except PyError ObservationInput :=
  match validateRawObservation raw cursor.externalListingId cursor.start cursor.end with
  | .error e => .error e
  | .ok () =>
    match j.listingId, cursor.credentialScope.text? with
    | none, _ => .error .assertion
    | some _, none => .error .statement
    | some listingId, some credentialScope =>
      .ok (observationInput raw listingId j.source credentialScope authorization now)

/-- The loop over the rows, from one state of the database to another, with the numbers recorded
and rejected before it and what it ends with. -/
inductive Rows (row : RawObservation → Except PyError ObservationInput) :
    Db → List RawObservation → ℕ → ℕ → Except PyError (ℕ × ℕ) → Db → Prop where
  | nil {db : Db} {recorded rejected : ℕ} :
      Rows row db [] recorded rejected (.ok (recorded, rejected)) db
  | malformed {db db' : Db} {raw : RawObservation} {rest : List RawObservation}
      {recorded rejected : ℕ} {message : String} {r : Except PyError (ℕ × ℕ)} :
      row raw = .error (.malformedObservation message) →
      Rows row db rest recorded (rejected + 1) r db' →
      Rows row db (raw :: rest) recorded rejected r db'
  | raised {db : Db} {raw : RawObservation} {rest : List RawObservation}
      {recorded rejected : ℕ} {e : PyError} :
      row raw = .error e → (∀ message, e ≠ .malformedObservation message) →
      Rows row db (raw :: rest) recorded rejected (.error e) db
  | recorded {db db₁ db' : Db} {raw : RawObservation} {rest : List RawObservation}
      {recorded rejected : ℕ} {data : ObservationInput} {outcome : RecordOutcome}
      {l l₁ : Session} {r : Except PyError (ℕ × ℕ)} :
      row raw = .ok data →
      (ObservationStore.record data).Executes semantics db l (.ok outcome) db₁ l₁ →
      Rows row db₁ rest (if outcome.created then recorded + 1 else recorded) rejected r db' →
      Rows row db (raw :: rest) recorded rejected r db'
  | failed {db db' : Db} {raw : RawObservation} {rest : List RawObservation}
      {recorded rejected : ℕ} {data : ObservationInput} {e : PyError} {l l' : Session} :
      row raw = .ok data →
      (ObservationStore.record data).Executes semantics db l (.error e) db' l' →
      Rows row db (raw :: rest) recorded rejected (.error e) db'

section Loop

variable {j : Job} {cursor : FetchCursor Json} {authorization : IngestionAuthorization}
  {now : Instant}

/-- Validation raises nothing but its two exceptions. -/
theorem rowInput_of_error {raw : RawObservation} {e : PyError}
    (h : validateRawObservation raw cursor.externalListingId cursor.start cursor.end = .error e) :
    rowInput j cursor authorization now raw = .error e := by
  rw [rowInput, h]

/-- Recording one row that has been accepted. -/
theorem recordRow_executes {raw : RawObservation} {db db' : Db} {l l' : Session}
    {r : Except PyError Bool} (h : l.InStep db j)
    (hvalid : validateRawObservation raw cursor.externalListingId cursor.start cursor.end = .ok ())
    (hx : (recordRow j.id cursor authorization now raw).Executes semantics db l r db' l') :
    l'.InStep db' j ∧ db'.jobs = db.jobs ∧ db'.decisions = db.decisions ∧
      ((∃ e, rowInput j cursor authorization now raw = .error e ∧
        (∀ message, e ≠ .malformedObservation message) ∧ r = .error e ∧ db' = db) ∨
      ∃ data, rowInput j cursor authorization now raw = .ok data ∧
        ∃ r' l₁ l₂, (ObservationStore.record data).Executes semantics db l₁ r' db' l₂ ∧
          r = r'.map RecordOutcome.created) := by
  obtain ⟨_, db₁, l₁, hread, hrow⟩ :=
    Script.executes_bind_of_returns (fun e s' l' he => by simpa using (attributes_executes h he).1) hx
  obtain ⟨hr, rfl, hstep⟩ := attributes_executes h hread
  obtain rfl := (Except.ok.inj hr).symm
  cases hlisting : j.listingId with
  | none =>
      rw [hlisting] at hrow
      obtain ⟨rfl, rfl, rfl⟩ := Script.executes_throw.mp hrow
      refine ⟨hstep, rfl, rfl, Or.inl ⟨_, ?_, fun _ => by simp, rfl, rfl⟩⟩
      simp only [rowInput, hvalid, hlisting]
  | some listingId =>
      rw [hlisting] at hrow
      cases hscope : cursor.credentialScope.text? with
      | none =>
          rw [hscope] at hrow
          obtain ⟨rfl, rfl, rfl⟩ := Script.executes_throw.mp hrow
          refine ⟨hstep, rfl, rfl, Or.inl ⟨_, ?_, fun _ => by simp, rfl, rfl⟩⟩
          simp only [rowInput, hvalid, hlisting, hscope]
      | some credentialScope =>
          rw [hscope] at hrow
          have hinput : rowInput j cursor authorization now raw = .ok (observationInput raw
              listingId j.source credentialScope authorization now) := by
            simp only [rowInput, hvalid, hlisting, hscope]
          rcases Script.executes_bind.mp hrow with ⟨outcome, db₂, l₂, hrecord, hret⟩ | ⟨e, hrecord, rfl⟩
          · obtain ⟨rfl, rfl, rfl⟩ := Script.executes_pure.mp hret
            obtain ⟨hjobs, hdecisions, hcache⟩ := ObservationStore.record_frame hrecord
            exact ⟨hstep.congr hjobs hcache, hjobs, hdecisions,
              Or.inr ⟨_, hinput, _, _, _, hrecord, rfl⟩⟩
          · obtain ⟨hjobs, hdecisions, hcache⟩ := ObservationStore.record_frame hrecord
            exact ⟨hstep.congr hjobs hcache, hjobs, hdecisions,
              Or.inr ⟨_, hinput, _, _, _, hrecord, rfl⟩⟩

/-- **The loop over the rows, as a relation.** -/
theorem recordRows_executes {raws : List RawObservation} {recorded rejected : ℕ} {db db' : Db}
    {l l' : Session} {r : Except PyError (ℕ × ℕ)} (h : l.InStep db j)
    (hx : (recordRows j.id cursor authorization now raws recorded rejected).Executes semantics db l
      r db' l') :
    l'.InStep db' j ∧ db'.jobs = db.jobs ∧ db'.decisions = db.decisions ∧
      Rows (rowInput j cursor authorization now) db raws recorded rejected r db' := by
  induction raws generalizing recorded rejected db l with
  | nil =>
      obtain ⟨rfl, rfl, rfl⟩ := Script.executes_pure.mp hx
      exact ⟨h, rfl, rfl, .nil⟩
  | cons raw rest ih =>
      rw [recordRows] at hx
      split at hx
      · rename_i message hvalid
        obtain ⟨hstep, hjobs, hdecisions, hrows⟩ := ih h hx
        exact ⟨hstep, hjobs, hdecisions, .malformed (rowInput_of_error hvalid) hrows⟩
      · rename_i e hother hvalid
        obtain ⟨rfl, rfl, rfl⟩ := Script.executes_throw.mp hx
        exact ⟨h, rfl, rfl, .raised (rowInput_of_error hvalid) hother⟩
      · rename_i hvalid
        rcases Script.executes_bind.mp hx with ⟨created, db₁, l₁, hrow, hrest⟩ | ⟨e, hrow, rfl⟩
        · obtain ⟨hstep, hjobs, hdecisions, hcases⟩ := recordRow_executes h hvalid hrow
          obtain ⟨hstep', hjobs', hdecisions', hrows⟩ := ih hstep hrest
          refine ⟨hstep', hjobs'.trans hjobs, hdecisions'.trans hdecisions, ?_⟩
          rcases hcases with ⟨e, -, -, hr, -⟩ | ⟨data, hinput, r', l₂, l₃, hrecord, hr⟩
          · exact absurd hr (by simp)
          · cases r' with
            | error e => exact absurd hr (by simp [Except.map])
            | ok outcome =>
                obtain rfl : created = outcome.created := Except.ok.inj hr
                exact .recorded hinput hrecord hrows
        · obtain ⟨hstep, hjobs, hdecisions, hcases⟩ := recordRow_executes h hvalid hrow
          refine ⟨hstep, hjobs, hdecisions, ?_⟩
          rcases hcases with ⟨e', hinput, hother, hr, rfl⟩ | ⟨data, hinput, r', l₂, l₃, hrecord, hr⟩
          · obtain rfl := Except.error.inj hr
            exact .raised hinput hother
          · cases r' with
            | error e' =>
                obtain rfl : e = e' := Except.error.inj hr
                exact .failed hinput hrecord
            | ok outcome => exact absurd hr (by simp [Except.map])

end Loop

/-! ### The exits -/

/-- The observations and the decisions are the same. -/
structure SameData (db db' : Db) : Prop where
  observations : db'.observations = db.observations
  decisions : db'.decisions = db.decisions

theorem SameData.refl (db : Db) : SameData db db := ⟨rfl, rfl⟩

theorem SameData.trans {db db' db'' : Db} (h : SameData db db') (h' : SameData db' db'') :
    SameData db db'' :=
  ⟨h'.observations.trans h.observations, h'.decisions.trans h.decisions⟩

/-- How a call ends after the loop, for a job that is running as `j`: what the loop ended with, the
outcome, and the row that is left. -/
inductive Ending (now : Instant) (j : Job) :
    Except PyError (ℕ × ℕ) → Except PyError JobOutcome → Job → Prop where
  | raised {e : PyError} : Ending now j (.error e) (.error e) j
  | allMalformed {error : String} {rejected : ℕ} : 0 < rejected →
      Ending now j (.ok (0, rejected))
        (.ok ⟨((Transition.failure j error now).values j).status, 0, rejected, "all_malformed"⟩)
        ((Transition.failure j error now).values j)
  | done {recorded rejected : ℕ} : ¬ (0 < rejected ∧ recorded = 0) →
      Ending now j (.ok (recorded, rejected)) (.ok ⟨.done, recorded, rejected, "done"⟩)
        (Transition.markDone.values j)

/-- The exits after the fetch, of a job that is running as `j`. -/
inductive StoreExit (now : Instant) (cursor : FetchCursor Json)
    (authorization : IngestionAuthorization) (raws : List RawObservation) (j : Job) (db : Db) :
    List (Event Cmd Cmd.Resp) → Except PyError JobOutcome → Db → Job → Prop where
  | consumeRaised {events : List (Event Cmd Cmd.Resp)} {e : PyError} :
      ⟨.consumeQuota j.source 1, Except.error e⟩ ∈ events →
      (∀ event ∈ events, event.command.IsEffect →
        event = ⟨.consumeQuota j.source 1, Except.error e⟩) →
      StoreExit now cursor authorization raws j db events (.error e) db j
  | looped {events : List (Event Cmd Cmd.Resp)} {result : Except PyError (ℕ × ℕ)} {db₁ db' : Db}
      {r : Except PyError JobOutcome} {j' : Job} :
      Unfetched events →
      Rows (rowInput j cursor authorization now) db raws 0 0 result db₁ →
      Ending now j result r j' → SameData db₁ db' →
      StoreExit now cursor authorization raws j db events r db' j'

/-- What has been done before a fetch: the quota has been found not exhausted, and the job has been
moved to `RUNNING` under its generation. -/
structure Started (workerId : String) (j : Job) (events : List (Event Cmd Cmd.Resp)) : Prop where
  quiet : Quiet events
  quota : ∃ q : QuotaStatus, ⟨.checkQuota j.source, Except.ok q⟩ ∈ events ∧ q.exhausted = false
  running : ⟨.update (.owned j.id workerId j.generation .markRunning), (1 : ℕ)⟩ ∈ events

/-- The exits after the cursor, of a job that is claimed as `j`. -/
inductive FetchExit (workerId : String) (now : Instant) (cursor : FetchCursor Json)
    (authorization : IngestionAuthorization) (j : Job) (db : Db) :
    List (Event Cmd Cmd.Resp) → Except PyError JobOutcome → Db → Job → Prop where
  | checkRaised {events : List (Event Cmd Cmd.Resp)} {e : PyError} :
      Quiet events → ⟨.checkQuota j.source, Except.error e⟩ ∈ events →
      FetchExit workerId now cursor authorization j db events (.error e) db j
  | exhausted {events : List (Event Cmd Cmd.Resp)} {q : QuotaStatus} {db' : Db} :
      Quiet events → ⟨.checkQuota j.source, Except.ok q⟩ ∈ events → q.exhausted = true →
      SameData db db' →
      FetchExit workerId now cursor authorization j db events
        (.ok ⟨.pending, 0, 0, "quota_exhausted"⟩) db' ((Transition.quota q.resetAt now).values j)
  | fetchFailed {before after : List (Event Cmd Cmd.Resp)} {e : PyError} {error : String}
      {db' : Db} :
      Started workerId j before → Quiet after → SameData db db' →
      FetchExit workerId now cursor authorization j db
        (before ++ ⟨.fetchRange j.source cursor.externalListingId.text? cursor.start cursor.end,
          Except.error e⟩ :: after)
        (.ok ⟨((Transition.failure (Transition.markRunning.values j) error now).values
          (Transition.markRunning.values j)).status, 0, 0, "fetch_error"⟩) db'
        ((Transition.failure (Transition.markRunning.values j) error now).values
          (Transition.markRunning.values j))
  | fetched {before after : List (Event Cmd Cmd.Resp)} {raws : List RawObservation}
      {db₁ db' : Db} {r : Except PyError JobOutcome} {j' : Job} :
      Started workerId j before → SameData db db₁ →
      StoreExit now cursor authorization raws (Transition.markRunning.values j) db₁ after r db' j' →
      FetchExit workerId now cursor authorization j db
        (before ++ ⟨.fetchRange j.source cursor.externalListingId.text? cursor.start cursor.end,
          Except.ok raws⟩ :: after) r db' j'

/-- The exits of a call, on a job that is claimed as `j`. -/
inductive Exit (workerId : String) (now : Instant) (j : Job) (db : Db) :
    List (Event Cmd Cmd.Resp) → Except PyError JobOutcome → Db → Job → Prop where
  | blocked {events : List (Event Cmd Cmd.Resp)} {error : String} {db' : Db} :
      ¬ PolicyGate.IngestionApproved db.decisions j.source → Quiet events → SameData db db' →
      Exit workerId now j db events
        (.ok ⟨((Transition.failure j error now).values j).status, 0, 0, "policy_not_authorized"⟩)
        db' ((Transition.failure j error now).values j)
  | invalidCursor {events : List (Event Cmd Cmd.Resp)} {error : String} {db' : Db}
      {fault : CursorFault} :
      FetchCursor.parse j.cursor = .error fault → Quiet events → SameData db db' →
      Exit workerId now j db events
        (.ok ⟨((Transition.failure j error now).values j).status, 0, 0, "invalid_cursor"⟩) db'
        ((Transition.failure j error now).values j)
  | resumed {before events : List (Event Cmd Cmd.Resp)} {cursor : FetchCursor Json}
      {authorization : IngestionAuthorization} {r : Except PyError JobOutcome} {db' : Db}
      {j' : Job} :
      PolicyGate.IngestionApproved db.decisions j.source →
      FetchCursor.parse j.cursor = .ok cursor → Quiet before →
      FetchExit workerId now cursor authorization j db events r db' j' →
      Exit workerId now j db (before ++ events) r db' j'

/-! ### The parts of a call -/

section Parts

variable {j : Job} {workerId : String} {now : Instant} {db db' : Db} {l l' : Session}
  {events : List (Event Cmd Cmd.Resp)} {r : Except PyError JobOutcome}

/-- Failing the job reports the row that it leaves. -/
theorem fail_traces {error detail : String} {generation recorded rejected : ℕ}
    (h : l.InStep db j) (hheld : j.HeldBy workerId generation)
    (hx : (fail j.id workerId generation error now recorded rejected detail).Traces semantics db l
      events r db' l') :
    r = .ok ⟨((Transition.failure j error now).values j).status, recorded, rejected, detail⟩ ∧
      l'.InStep db' ((Transition.failure j error now).values j) ∧ SameData db db' ∧
      Quiet events := by
  obtain ⟨_, db₁, l₁, first, second, rfl, hmark, hread⟩ := Script.traces_bind_of_returns
    (fun e s' l' he => by
      obtain ⟨events, he⟩ := Prog.executes_iff_traces.mp he
      exact absurd (JobQueue.markFailed_traces h hheld he).1 (by simp)) hx
  obtain ⟨-, hstep, hobs, hdec, rfl⟩ := JobQueue.markFailed_traces h hheld hmark
  obtain ⟨l₂, rest, rfl, hstep', hdone⟩ := attributes_bind_traces hstep hread
  obtain ⟨rfl, rfl, rfl, rfl⟩ := Script.traces_pure.mp hdone
  refine ⟨rfl, hstep', ⟨hobs, hdec⟩, ?_⟩
  simp [Quiet, Cmd.IsEffect]

/-- The owner is confirmed without doing anything that needs permission. -/
theorem assertOwned_quiet {generation : ℕ} {r : Except PyError Unit}
    (hx : (JobQueue.assertOwned j.id workerId generation).Traces semantics db l events r db' l') :
    Quiet events := by
  have honly : (JobQueue.assertOwned j.id workerId generation).run.Only JobQueue.IsJobCmd :=
    (JobQueue.assertOwned_keeps (fun c hc => Script.keeps_allowed hc) _ _ _).only
  intro event hevent heffect
  have hcmd := honly.traces hx event hevent
  cases hc : event.command <;> simp_all [JobQueue.IsJobCmd, Cmd.IsEffect]

theorem recordRows_unfetched {cursor : FetchCursor Json} {authorization : IngestionAuthorization}
    {raws : List RawObservation} {recorded rejected : ℕ} {r : Except PyError (ℕ × ℕ)}
    (hx : (recordRows j.id cursor authorization now raws recorded rejected).Traces semantics db l
      events r db' l') : Unfetched events := by
  have honly : (recordRows j.id cursor authorization now raws recorded rejected).run.Only fun c =>
      ∀ source listing start «end», c ≠ .fetchRange source listing start «end» := by
    refine (recordRows_keeps (recordRow_keeps ?_ (fun key => ?_) fun candidate => ?_) _ _ _).only
    · exact (Script.keeps_allowed fun _ _ _ _ => by simp).bind fun r => by
        cases r with
        | some j => exact Script.keeps_pure j
        | none => exact Script.keeps_throw _
    · exact Script.keeps_allowed fun _ _ _ _ => by simp
    · exact Script.keeps_allowed fun _ _ _ _ => by simp
  exact honly.traces hx

/-- The part after the fetch. -/
theorem store_traces {generation : ℕ} {cursor : FetchCursor Json}
    {authorization : IngestionAuthorization} {raws : List RawObservation}
    (h : l.InStep db j) (hheld : j.HeldBy workerId generation) (hrunning : j.status = .running)
    (hx : (store j.id workerId generation now cursor authorization raws).Traces semantics db l
      events r db' l') :
    ∃ j', j'.id = j.id ∧ l'.InStep db' j' ∧
      StoreExit now cursor authorization raws j db events r db' j' := by
  obtain ⟨_, db₁, l₁, first, second, rfl, hassert, hx₁⟩ := Script.traces_bind_of_returns
    (fun e s' l' he => by simpa using (JobQueue.assertOwned_executes h hheld he).1) hx
  obtain ⟨-, rfl, hstep⟩ := JobQueue.assertOwned_executes h hheld hassert.executes
  have hquiet := assertOwned_quiet hassert
  obtain ⟨l₂, rest, rfl, hstep₂, hx₂⟩ := attributes_bind_traces hstep hx₁
  obtain ⟨e, rest, rfl, hx₃⟩ := Script.traces_op_bind.mp hx₂
  have hquiet' : Quiet (first ++ [⟨.attributes j.id, some j⟩]) :=
    hquiet.append (Quiet.nil.cons (by simp [Cmd.IsEffect]))
  simp only [semantics_exec, exec] at hx₃ ⊢
  cases hq : e.quota with
  | error e' =>
      rw [hq, orRaise] at hx₃
      obtain ⟨rfl, rfl, rfl, rfl⟩ := Script.traces_throw.mp hx₃
      refine ⟨j, rfl, hstep₂.congr rfl rfl, .consumeRaised (by simp) fun event hevent heffect => ?_⟩
      rcases List.mem_append.mp hevent with hevent | hevent
      · exact absurd heffect (hquiet event hevent)
      · simp only [List.mem_cons, List.not_mem_nil, or_false] at hevent
        rcases hevent with rfl | rfl
        · exact absurd heffect (by simp [Cmd.IsEffect])
        · rfl
  | ok q =>
      rw [hq, orRaise, pure_bind] at hx₃
      have hcharged : Unfetched (first ++ [⟨.attributes j.id, some j⟩,
          ⟨.consumeQuota j.source 1, Except.ok q⟩]) := by
        refine hquiet.unfetched.append ?_
        simp [Unfetched]
      rcases Script.traces_bind.mp hx₃ with
        ⟨⟨recorded, rejected⟩, db₂, l₃, rows, tail, rfl, hrows, hx₄⟩ | ⟨e', hrows, rfl⟩
      · obtain ⟨hstep₃, -, hdec, hloop⟩ := recordRows_executes hstep₂ hrows.executes
        have hunfetched := hcharged.append (recordRows_unfetched hrows)
        dsimp only at hx₄
        split at hx₄
        · rename_i hmalformed
          obtain ⟨rfl, hstep₄, hdata, htail⟩ := fail_traces hstep₃ hheld hx₄
          obtain ⟨hpos, rfl⟩ := hmalformed
          refine ⟨_, Transition.values_id _ j, hstep₄,
            .looped ?_ hloop (.allMalformed hpos) hdata⟩
          simpa using hunfetched.append htail.unfetched
        · rename_i hdone
          have hcond : (QueueOp.owned j.id workerId generation .markDone).cond j = true :=
            QueueOp.cond_owned.mpr ⟨rfl, by simp [Transition.allowedStatuses, hrunning], hheld.2⟩
          obtain ⟨db₃, l₄, tail, hstep₄, hobs', hdec', rfl, hx₅⟩ :=
            JobQueue.ownedTransition_bind_traces hstep₃ hcond hx₄
          obtain ⟨l₅, tail, rfl, hstep₅, hx₆⟩ := attributes_bind_traces hstep₄ hx₅
          obtain ⟨rfl, rfl, rfl, rfl⟩ := Script.traces_pure.mp hx₆
          have hmarked : Unfetched [⟨.attributes j.id, some j⟩,
              ⟨.update (.owned j.id workerId generation .markDone), (1 : ℕ)⟩, ⟨.expire j.id, ()⟩,
              ⟨.attributes (Transition.markDone.values j).id,
                some (Transition.markDone.values j)⟩] := by
            simp [Unfetched]
          refine ⟨_, Transition.values_id _ j, hstep₅,
            .looped ?_ hloop (.done hdone) ⟨hobs', hdec'⟩⟩
          simpa using hunfetched.append hmarked
      · obtain ⟨hstep₃, -, hdec, hloop⟩ := recordRows_executes hstep₂ hrows.executes
        refine ⟨j, rfl, hstep₃, .looped ?_ hloop .raised (.refl _)⟩
        simpa using hcharged.append (recordRows_unfetched hrows)

/-- The part after the cursor. -/
theorem fetch_traces {cursor : FetchCursor Json} {authorization : IngestionAuthorization}
    (h : l.InStep db j) (hheld : j.HeldBy workerId j.generation) (hclaimed : j.status = .claimed)
    (hx : (fetch j.id workerId now cursor authorization).Traces semantics db l events r db' l') :
    ∃ j', j'.id = j.id ∧ l'.InStep db' j' ∧
      FetchExit workerId now cursor authorization j db events r db' j' := by
  obtain ⟨l₁, rest, rfl, hstep₁, hx₁⟩ := generation_bind_traces h hx
  obtain ⟨l₂, rest, rfl, hstep₂, hx₂⟩ := attributes_bind_traces hstep₁ hx₁
  obtain ⟨e, rest, rfl, hx₃⟩ := Script.traces_op_bind.mp hx₂
  simp only [semantics_exec, exec] at hx₃ ⊢
  cases hq : e.quota with
  | error e' =>
      rw [hq, orRaise] at hx₃
      obtain ⟨rfl, rfl, rfl, rfl⟩ := Script.traces_throw.mp hx₃
      exact ⟨j, rfl, hstep₂.congr rfl rfl, .checkRaised (by simp [Quiet, Cmd.IsEffect]) (by simp)⟩
  | ok q =>
      rw [hq, orRaise, pure_bind] at hx₃
      split at hx₃
      · rename_i hexhausted
        have hcond : (QueueOp.owned j.id workerId j.generation (.quota q.resetAt now)).cond j =
            true :=
          QueueOp.cond_owned.mpr ⟨rfl, by simp [Transition.quota, Transition.allowedStatuses,
            hclaimed], hheld.2⟩
        obtain ⟨db₁, l₃, tail, hstep₃, hobs, hdec, rfl, hx₄⟩ :=
          JobQueue.ownedTransition_bind_traces hstep₂ hcond hx₃
        obtain ⟨l₄, tail, rfl, hstep₄, hx₅⟩ := attributes_bind_traces hstep₃ hx₄
        obtain ⟨rfl, rfl, rfl, rfl⟩ := Script.traces_pure.mp hx₅
        exact ⟨_, Transition.values_id _ j, hstep₄,
          .exhausted (by simp [Quiet, Cmd.IsEffect]) (by simp) hexhausted ⟨hobs, hdec⟩⟩
      · rename_i havailable
        have hcond : (QueueOp.owned j.id workerId j.generation .markRunning).cond j = true :=
          QueueOp.cond_owned.mpr ⟨rfl, by simp [Transition.allowedStatuses, hclaimed], hheld.2⟩
        obtain ⟨db₁, l₃, tail, hstep₃, hobs, hdec, rfl, hx₄⟩ :=
          JobQueue.ownedTransition_bind_traces hstep₂ hcond hx₃
        obtain ⟨e', tail, rfl, hx₅⟩ := Script.traces_op_bind.mp hx₄
        have hstarted : Started workerId j [⟨.generation j.id, some j.generation⟩,
            ⟨.attributes j.id, some j⟩, ⟨.checkQuota j.source, Except.ok q⟩,
            ⟨.attributes j.id, some j⟩,
            ⟨.update (.owned j.id workerId j.generation .markRunning), (1 : ℕ)⟩,
            ⟨.expire j.id, ()⟩] :=
          ⟨by simp [Quiet, Cmd.IsEffect], ⟨q, by simp, by simpa using havailable⟩, by simp⟩
        have hheld' : (Transition.markRunning.values j).HeldBy workerId j.generation :=
          ⟨rfl, hheld.2⟩
        simp only [semantics_exec, exec] at hx₅ ⊢
        cases hfetched : e'.fetched with
        | error e₁ =>
            rw [hfetched] at hx₅
            obtain ⟨rfl, hstep₄, hdata, hquiet⟩ :=
              fail_traces (hstep₃.congr rfl rfl) hheld' hx₅
            exact ⟨_, by simp, hstep₄,
              .fetchFailed hstarted hquiet (SameData.trans ⟨hobs, hdec⟩ hdata)⟩
        | ok raws =>
            rw [hfetched] at hx₅
            obtain ⟨j', hid, hstep₄, hexit⟩ :=
              store_traces (hstep₃.congr rfl rfl) hheld' rfl hx₅
            exact ⟨j', hid.trans (Transition.values_id _ j), hstep₄,
              .fetched hstarted ⟨hobs, hdec⟩ hexit⟩

/-- The part after the gate. -/
theorem resume_traces {authorization : IngestionAuthorization}
    (h : l.InStep db j) (hheld : j.HeldBy workerId j.generation) (hclaimed : j.status = .claimed)
    (hx : (resume j.id workerId now authorization).Traces semantics db l events r db' l') :
    ∃ j', j'.id = j.id ∧ l'.InStep db' j' ∧
      ((∃ fault error, FetchCursor.parse j.cursor = .error fault ∧ Quiet events ∧ SameData db db' ∧
        r = .ok ⟨((Transition.failure j error now).values j).status, 0, 0, "invalid_cursor"⟩ ∧
        j' = (Transition.failure j error now).values j) ∨
      ∃ cursor before after, FetchCursor.parse j.cursor = .ok cursor ∧ Quiet before ∧
        events = before ++ after ∧
        FetchExit workerId now cursor authorization j db after r db' j') := by
  obtain ⟨l₁, rest, rfl, hstep₁, hx₁⟩ := attributes_bind_traces h hx
  cases hparse : FetchCursor.parse j.cursor with
  | error fault =>
      rw [hparse] at hx₁
      obtain ⟨e, rest, rfl, hx₂⟩ := Script.traces_op_bind.mp hx₁
      obtain ⟨l₂, rest, rfl, hstep₂, hx₃⟩ := generation_bind_traces (hstep₁.congr rfl rfl) hx₂
      obtain ⟨rfl, hstep₃, hdata, hquiet⟩ := fail_traces hstep₂ hheld hx₃
      refine ⟨_, Transition.values_id _ j, hstep₃, Or.inl ⟨fault, _, rfl, ?_, hdata, rfl, rfl⟩⟩
      exact ((hquiet.cons (by simp [Cmd.IsEffect])).cons (by simp [Cmd.IsEffect])).cons
        (by simp [Cmd.IsEffect])
  | ok cursor =>
      rw [hparse] at hx₁
      obtain ⟨j', hid, hstep', hexit⟩ := fetch_traces hstep₁ hheld hclaimed hx₁
      exact ⟨j', hid, hstep', Or.inr ⟨cursor, [_], rest, rfl,
        Quiet.nil.cons (by simp [Cmd.IsEffect]), rfl, hexit⟩⟩

/-- The gate does nothing that needs permission. -/
theorem authorizeIngestion_quiet {source : String} {r : Except PyError IngestionAuthorization}
    (hx : (PolicyGate.authorizeIngestion source).Traces semantics db l events r db' l') :
    Quiet events := by
  have honly : (PolicyGate.authorizeIngestion source).run.Only fun c => ¬ c.IsEffect :=
    (PolicyGate.authorizeIngestion_keeps fun _ => Script.keeps_allowed (by simp [Cmd.IsEffect])).only
  exact honly.traces hx

/-- The part after the claim, with the session that it leaves. -/
theorem authorize_leaves (h : l.InStep db j) (hheld : j.HeldBy workerId j.generation)
    (hclaimed : j.status = .claimed)
    (hx : (authorize j.id workerId now).Traces semantics db l events r db' l') :
    ∃ j', j'.id = j.id ∧ l'.InStep db' j' ∧ Exit workerId now j db events r db' j' := by
  obtain ⟨l₁, rest, rfl, hstep₁, hx₁⟩ := attributes_bind_traces h hx
  obtain ⟨r', db₂, l₂, gate, tail, rfl, hgate, hx₂⟩ := Script.traces_attempt_bind.mp hx₁
  obtain ⟨rfl, hcache⟩ := PolicyGate.authorizeIngestion_frame hgate.executes
  have hstep₂ := hstep₁.congr rfl hcache
  have hquiet : Quiet (⟨.attributes j.id, some j⟩ :: gate) :=
    (authorizeIngestion_quiet hgate).cons (by simp [Cmd.IsEffect])
  rcases PolicyGate.authorizeIngestion_executes hgate.executes with
    ⟨happroved, authorization, rfl⟩ | ⟨hdenied, blocking, rfl⟩
  · obtain ⟨j', hid, hstep', ⟨fault, error, hparse, hrest, hdata, rfl, rfl⟩ |
      ⟨cursor, before, after, hparse, hbefore, rfl, hexit⟩⟩ :=
        resume_traces hstep₂ hheld hclaimed hx₂
    · exact ⟨_, hid, hstep', .invalidCursor hparse (hquiet.append hrest) hdata⟩
    · refine ⟨j', hid, hstep', ?_⟩
      rw [← List.append_assoc, ← List.cons_append, ← List.cons_append]
      exact .resumed happroved hparse (hquiet.append hbefore) hexit
  · obtain ⟨l₃, rest, rfl, hstep₃, hx₃⟩ := generation_bind_traces hstep₂ hx₂
    obtain ⟨rfl, hstep₄, hdata, hrest⟩ := fail_traces hstep₃ hheld hx₃
    exact ⟨_, Transition.values_id _ j, hstep₄, .blocked hdenied
      (hquiet.append (hrest.cons (by simp [Cmd.IsEffect]))) hdata⟩

/-- The part after the claim. -/
theorem authorize_traces (h : l.InStep db j) (hheld : j.HeldBy workerId j.generation)
    (hclaimed : j.status = .claimed)
    (hx : (authorize j.id workerId now).Traces semantics db l events r db' l') :
    ∃ j', db'.jobs.get? j.id = some j' ∧ Exit workerId now j db events r db' j' := by
  obtain ⟨j', hid, hstep, hexit⟩ := authorize_leaves h hheld hclaimed hx
  exact ⟨j', hid ▸ hstep.row, hexit⟩

/-- What is done before nothing that needs permission. -/
theorem Exit.cons {event : Event Cmd Cmd.Resp} {j' : Job} (hevent : ¬ event.command.IsEffect)
    (h : Exit workerId now j db events r db' j') :
    Exit workerId now j db (event :: events) r db' j' := by
  cases h with
  | blocked hdenied hquiet hdata => exact .blocked hdenied (hquiet.cons hevent) hdata
  | invalidCursor hparse hquiet hdata => exact .invalidCursor hparse (hquiet.cons hevent) hdata
  | resumed happroved hparse hquiet hexit =>
      exact .resumed happroved hparse (hquiet.cons hevent) hexit

/-- The exits of a call, with the session that it leaves: its copy of the job, if it has one, is the
row. -/
theorem process_leaves (h : l.InStep db j) (hheld : j.HeldBy workerId j.generation)
    (hclaimed : j.status = .claimed)
    (hx : (process j.id workerId now).Traces semantics db l events r db' l') :
    ∃ j', j'.id = j.id ∧ l'.InStep db' j' ∧ Exit workerId now j db events r db' j' := by
  rw [process, claim, bind_assoc] at hx
  obtain ⟨l₁, rest, rfl, hstep, hx₁⟩ := attributes_bind_traces h hx
  rw [if_neg (by simp [hclaimed]), pure_bind] at hx₁
  obtain ⟨j', hid, hstep', hexit⟩ := authorize_leaves hstep hheld hclaimed hx₁
  exact ⟨j', hid, hstep', hexit.cons (by simp [Cmd.IsEffect])⟩

/-- **The exits of a call** on a job that its worker has claimed. -/
theorem process_exits (h : l.InStep db j) (hheld : j.HeldBy workerId j.generation)
    (hclaimed : j.status = .claimed)
    (hx : (process j.id workerId now).Traces semantics db l events r db' l') :
    ∃ j', db'.jobs.get? j.id = some j' ∧ Exit workerId now j db events r db' j' := by
  obtain ⟨j', hid, hstep, hexit⟩ := process_leaves h hheld hclaimed hx
  exact ⟨j', hid ▸ hstep.row, hexit⟩

/-! ### Calls that receive a response -/

/-- The adapters have served the call: its quota has not been found exhausted, and was charged, and
the response to its fetch are the rows. -/
structure Served (raws : List RawObservation) (events : List (Event Cmd Cmd.Resp)) : Prop where
  quota : ∀ source answer, ⟨.checkQuota source, answer⟩ ∈ events →
    ∃ q : QuotaStatus, answer = .ok q ∧ q.exhausted = false
  charge : ∀ source cost answer, ⟨.consumeQuota source cost, answer⟩ ∈ events →
    ∃ q : QuotaStatus, answer = .ok q
  response : ∀ source listing start «end» answer,
    ⟨.fetchRange source listing start «end», answer⟩ ∈ events → answer = .ok raws

/-- **A call that is allowed, and that its adapters serve, runs the loop over the response.** -/
theorem Exit.looped {j' : Job} {cursor : FetchCursor Json} {raws : List RawObservation}
    (h : Exit workerId now j db events r db' j')
    (happroved : PolicyGate.IngestionApproved db.decisions j.source)
    (hcursor : FetchCursor.parse j.cursor = .ok cursor) (hserved : Served raws events) :
    ∃ authorization db₀ db₁ result, db₀.observations = db.observations ∧
      Rows (rowInput j cursor authorization now) db₀ raws 0 0 result db₁ ∧
      Ending now (Transition.markRunning.values j) result r j' ∧
      db'.observations = db₁.observations := by
  cases h with
  | blocked hdenied => exact absurd happroved hdenied
  | invalidCursor hparse => exact absurd (hparse.symm.trans hcursor) (by simp)
  | resumed _ hparse _ hexit =>
      obtain rfl := Except.ok.inj (hparse.symm.trans hcursor)
      cases hexit with
      | checkRaised _ hcheck =>
          obtain ⟨q, hq, -⟩ := hserved.quota _ _ (List.mem_append_right _ hcheck)
          exact absurd hq (by simp)
      | exhausted _ hcheck hexhausted =>
          obtain ⟨q, hq, havailable⟩ := hserved.quota _ _ (List.mem_append_right _ hcheck)
          obtain rfl := Except.ok.inj hq
          exact absurd (hexhausted.symm.trans havailable) (by decide)
      | fetchFailed =>
          have hanswer := hserved.response _ _ _ _ _ (List.mem_append_right _
            (List.mem_append_right _ List.mem_cons_self))
          exact absurd hanswer (by simp)
      | fetched _ hdata hstore =>
          have hanswer := hserved.response _ _ _ _ _ (List.mem_append_right _
            (List.mem_append_right _ List.mem_cons_self))
          obtain rfl := Except.ok.inj hanswer
          cases hstore with
          | consumeRaised hconsume =>
              obtain ⟨q, hq⟩ := hserved.charge _ _ _ (List.mem_append_right _
                (List.mem_append_right _ (List.mem_cons_of_mem _ hconsume)))
              exact absurd hq (by simp)
          | looped _ hrows hending hdata' =>
              exact ⟨_, _, _, _, hdata.observations, hrows, hending, hdata'.observations⟩

end Parts

/-- A call can be served with any response. -/
theorem exists_served (id : ℕ) (workerId : String) (now : Instant) (raws : List RawObservation)
    (db : Db) (l : Session) :
    ∃ events r db' l', (process id workerId now).Traces semantics db l events r db' l' ∧
      Served raws events := by
  let answers : Answers := { (default : Answers) with fetched := .ok raws }
  obtain ⟨events, r, db', l', hx, hall⟩ :=
    Prog.exists_traces semantics answers (process id workerId now).run db l
  refine ⟨events, r, db', l', hx, fun source answer hevent => ?_, fun source cost answer hevent => ?_,
    fun source listing start «end» answer hevent => ?_⟩
  · obtain ⟨_, _, heq⟩ := hall _ hevent
    exact ⟨⟨"", 1, 1, none⟩, heq, rfl⟩
  · obtain ⟨_, _, heq⟩ := hall _ hevent
    exact ⟨⟨"", 1, 1, none⟩, heq⟩
  · obtain ⟨_, _, heq⟩ := hall _ hevent
    exact heq

end IngestionRunner

/-! ### A claimed job on concrete tables -/

/-- A job of an approved source for one day, claimed by a worker. -/
def claimedJob : Job :=
  { newJob ⟨"fetch_range", "fake", "BTC", some 1, some (FetchCursor.serialize ⟨"BTC", "default",
      .eodClose, today, today⟩), 0, 5⟩ 1 0 with
    status := .claimed
    claimedBy := some "worker"
    claimedAt := some 0
    generation := 1 }

def claimedDb : Db := ⟨⟨[claimedJob], by decide⟩, Table.empty, approvedRegister⟩

theorem claimedJob_inStep : Session.new.InStep claimedDb claimedJob :=
  .of_forgotten (by decide +kernel) rfl

end MarketRelay
