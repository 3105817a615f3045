import MarketRelay.RowFates

/-!
# Processing a Response

A call of `IngestionRunner.process` that is allowed and that its adapters serve, read as a
computation on the rows of the response: which of them raise, which are stored and which are
rejected decides how the call ends and what it adds to the observations (`Processed`).

## Main results

* `process_looped`: a served call runs the loop over the rows of the response.
* `process_processed`: so what becomes of each row decides what the call does.
-/

open Relational Interaction Gregorian

namespace MarketRelay

namespace IngestionRunner

/-! ### The rows of a call -/

/-- The key of a row of a source and a scope. -/
def rowKey (source credentialScope : String) (raw : RawObservation) : NaturalKey :=
  ⟨source, credentialScope, raw.externalListingId, raw.sessionDate, raw.observationType⟩

/-- The value of a row, as it is stored. -/
def rowValue (raw : RawObservation) : ObservationValue :=
  ⟨upper raw.currency, raw.close, raw.open, raw.high, raw.low, raw.adjustedClose, .ok⟩

/-- The entry of a row, or what is raised instead. -/
def rowEntry (j : Job) (cursor : FetchCursor Json) (raw : RawObservation) : Except PyError Entry :=
  match validateRawObservation raw cursor.externalListingId cursor.start cursor.end with
  | .error e => .error e
  | .ok () =>
    match j.listingId, cursor.credentialScope.text? with
    | none, _ => .error .assertion
    | some _, none => .error .statement
    | some _, some credentialScope => .ok ⟨rowKey j.source credentialScope raw, rowValue raw⟩

/-- The entry of a row is what the store is asked to record for it. -/
theorem rowEntry_eq (j : Job) (cursor : FetchCursor Json) (authorization : IngestionAuthorization)
    (now : Instant) (raw : RawObservation) :
    rowEntry j cursor raw =
      (rowInput j cursor authorization now raw).map ObservationInput.entry := by
  rw [rowEntry, rowInput]
  cases validateRawObservation raw cursor.externalListingId cursor.start cursor.end with
  | error e => rfl
  | ok _ => cases j.listingId <;> cases cursor.credentialScope.text? <;> rfl

/-- The row passes validation. -/
def Accepted (cursor : FetchCursor Json) (raw : RawObservation) : Prop :=
  validateRawObservation raw cursor.externalListingId cursor.start cursor.end = .ok ()

instance (cursor : FetchCursor Json) (raw : RawObservation) : Decidable (Accepted cursor raw) :=
  decidable_of_iff
    ((validateRawObservation raw cursor.externalListingId cursor.start cursor.end).isOk = true) <| by
    rw [Accepted]
    cases validateRawObservation raw cursor.externalListingId cursor.start cursor.end <;>
      simp [Except.isOk, Except.toBool]

/-- Only rows that pass validation have an entry. -/
theorem rowEntry_eq_ok_iff {j : Job} {cursor : FetchCursor Json} {raw : RawObservation}
    {entry : Entry} :
    rowEntry j cursor raw = .ok entry ↔ Accepted cursor raw ∧
      ∃ listingId credentialScope, j.listingId = some listingId ∧
        cursor.credentialScope.text? = some credentialScope ∧
        entry = ⟨rowKey j.source credentialScope raw, rowValue raw⟩ := by
  rw [rowEntry, Accepted]
  cases validateRawObservation raw cursor.externalListingId cursor.start cursor.end with
  | error e => simp
  | ok _ =>
      cases j.listingId with
      | none => simp
      | some listingId =>
          cases cursor.credentialScope.text? with
          | none => simp
          | some credentialScope => simp [eq_comm]

/-- A row that is rejected does not pass validation. -/
theorem not_accepted_of_malformed {j : Job} {cursor : FetchCursor Json} {raw : RawObservation}
    {message : String} (h : rowEntry j cursor raw = .error (.malformedObservation message)) :
    ¬ Accepted cursor raw := by
  intro haccepted
  rw [Accepted] at haccepted
  rw [rowEntry, haccepted] at h
  cases hlisting : j.listingId <;> cases hscope : cursor.credentialScope.text? <;>
    simp [hlisting, hscope] at h

/-- Of the rows of which none raises, those that pass validation have an entry. -/
theorem isOk_rowEntry_iff {j : Job} {cursor : FetchCursor Json} {values : Values}
    {raws : List RawObservation} (h : ¬ Raises (rowEntry j cursor) values raws)
    {raw : RawObservation} (hraw : raw ∈ raws) :
    (rowEntry j cursor raw).isOk = true ↔ Accepted cursor raw := by
  cases hrow : rowEntry j cursor raw with
  | error e =>
      obtain ⟨message, rfl⟩ := malformed_of_not_raises h hraw hrow
      exact iff_of_false (by simp [Except.isOk, Except.toBool]) (not_accepted_of_malformed hrow)
  | ok entry => exact iff_of_true rfl (rowEntry_eq_ok_iff.mp hrow).1

/-- What the store is asked to record names the listing of the job. -/
theorem listingId_of_rowInput {j : Job} {cursor : FetchCursor Json}
    {authorization : IngestionAuthorization} {now : Instant} {raw : RawObservation}
    {data : ObservationInput} (h : rowInput j cursor authorization now raw = .ok data) :
    j.listingId = some data.listingId := by
  rw [rowInput] at h
  split at h
  · exact absurd h (by simp)
  · split at h
    · exact absurd h (by simp)
    · exact absurd h (by simp)
    · rename_i hlisting _
      obtain rfl := Except.ok.inj h
      exact hlisting

/-- What a call makes of the rows of a response. -/
structure Processed (now : Instant) (j : Job) (cursor : FetchCursor Json)
    (raws : List RawObservation) (db db' : Db) (r : Except PyError JobOutcome) (j' : Job) :
    Prop where
  ends : ¬ Raises (rowEntry j cursor) (currentValues db.observations) raws →
    ∃ running : Job, running.attemptCount = j.attemptCount ∧ Ending now running
      (.ok ((fates (rowEntry j cursor) (currentValues db.observations) raws).count .stored,
        (fates (rowEntry j cursor) (currentValues db.observations) raws).count .rejected)) r j'
  raises : Raises (rowEntry j cursor) (currentValues db.observations) raws → ∃ e, r = .error e
  values : ¬ Raises (rowEntry j cursor) (currentValues db.observations) raws →
    currentValues db'.observations =
      valuesAfter (rowEntry j cursor) (currentValues db.observations) raws
  adds : ∃ new, db'.observations.rows = db.observations.rows ++ new ∧
    (∀ o ∈ new, ∃ raw ∈ raws, rowEntry j cursor raw = .ok o.entry ∧
      j.listingId = some o.listingId) ∧
    ∀ entry, (∃ o ∈ new, o.entry = entry) ↔
      StoresEntry (rowEntry j cursor) (currentValues db.observations) raws entry

section Calls

variable {workerId : String} {now : Instant} {j j' : Job} {db db' : Db} {l l' : Session}
  {events : List (Event Cmd Cmd.Resp)} {r : Except PyError JobOutcome}
  {cursor : FetchCursor Json} {raws : List RawObservation}

/-- The worker can process the job: it is pending, or the worker has claimed it. -/
def Ready (j : Job) (workerId : String) : Prop :=
  j.status = .pending ∨ j.status = .claimed ∧ j.claimedBy = some workerId

/-- **The exits of a call** on a job that its worker can process, which it claims if need be. -/
theorem process_exits_of_ready (h : l.InStep db j) (hready : Ready j workerId)
    (hx : (process j.id workerId now).Traces semantics db l events r db' l') :
    ∃ j₁ db₁ j', (j₁ = j ∨ j₁ = (QueueOp.claim j.id workerId now).set j) ∧ SameData db db₁ ∧
      db'.jobs.get? j.id = some j' ∧ Exit workerId now j₁ db₁ events r db' j' := by
  rcases hready with hpending | ⟨hclaimed, howner⟩
  · rw [process, claim, bind_assoc] at hx
    obtain ⟨l₁, rest, rfl, hstep, hx₁⟩ := attributes_bind_traces h hx
    rw [if_pos hpending] at hx₁
    obtain ⟨db₁, l₂, rest₁, hstep₁, hobs, hdec, rfl, hx₂⟩ :=
      JobQueue.claimJob_bind_traces hstep hpending hx₁
    obtain ⟨j', hrow, hexit⟩ := authorize_traces hstep₁ ⟨rfl, rfl, rfl⟩ rfl
      (by rwa [QueueOp.set_id])
    rw [QueueOp.set_id] at hrow
    refine ⟨_, db₁, j', Or.inr rfl, ⟨hobs, hdec⟩, hrow, ?_⟩
    exact ((((hexit.cons (by simp [Cmd.IsEffect])).cons (by simp [Cmd.IsEffect])).cons
      (by simp [Cmd.IsEffect])).cons (by simp [Cmd.IsEffect])).cons (by simp [Cmd.IsEffect])
  · obtain ⟨j', hrow, hexit⟩ := process_exits h ⟨by rw [hclaimed]; rfl, howner, rfl⟩ hclaimed hx
    exact ⟨j, db, j', Or.inl rfl, .refl db, hrow, hexit⟩

/-- A served call runs the loop over the rows of the response, against the observations that it
finds, and ends with what the loop ends with. -/
theorem process_looped (h : l.InStep db j) (hready : Ready j workerId)
    (happroved : PolicyGate.IngestionApproved db.decisions j.source)
    (hcursor : FetchCursor.parse j.cursor = .ok cursor)
    (hx : (process j.id workerId now).Traces semantics db l events r db' l')
    (hserved : Served raws events) :
    ∃ j' authorization db₀ db₁ result, db'.jobs.get? j.id = some j' ∧
      db₀.observations = db.observations ∧
      Rows (rowInput j cursor authorization now) db₀ raws 0 0 result db₁ ∧
      (∃ running : Job, running.attemptCount = j.attemptCount ∧ Ending now running result r j') ∧
      db'.observations = db₁.observations := by
  obtain ⟨j₁, db₁, j', hj₁, hdata, hrow, hexit⟩ := process_exits_of_ready h hready hx
  -- The claim changes neither what the rows are read against nor the number of attempts.
  have hwork : (∀ authorization, rowInput j₁ cursor authorization now =
      rowInput j cursor authorization now) ∧ j₁.source = j.source ∧ j₁.cursor = j.cursor ∧
      j₁.attemptCount = j.attemptCount := by
    rcases hj₁ with rfl | rfl <;> exact ⟨fun _ => rfl, rfl, rfl, rfl⟩
  obtain ⟨hinput, hsource, hcursor₁, hattempts⟩ := hwork
  obtain ⟨authorization, db₂, db₃, result, hobs, hrows, hending, hobs'⟩ := hexit.looped
    (by rwa [hdata.decisions, hsource]) (by rwa [hcursor₁]) hserved
  rw [hinput] at hrows
  exact ⟨j', authorization, db₂, db₃, result, hrow, hobs.trans hdata.observations, hrows,
    ⟨Transition.markRunning.values j₁, hattempts, hending⟩, hobs'⟩

/-- **A served call processes the response.** -/
theorem process_processed (h : l.InStep db j) (hready : Ready j workerId)
    (happroved : PolicyGate.IngestionApproved db.decisions j.source)
    (hcursor : FetchCursor.parse j.cursor = .ok cursor)
    (hx : (process j.id workerId now).Traces semantics db l events r db' l')
    (hserved : Served raws events) :
    ∃ j', db'.jobs.get? j.id = some j' ∧ Processed now j cursor raws db db' r j' := by
  obtain ⟨j', authorization, db₀, db₁, result, hrow, hobs₀, hrows, hending, hobs₁⟩ :=
    process_looped h hready happroved hcursor hx hserved
  have hentry := rowEntry_eq j cursor authorization now
  have htally := hrows.tally hentry
  obtain ⟨new, hadded, hnew, hstores⟩ := hrows.adds hentry
  rw [hobs₀] at htally hadded hstores
  rw [← hobs₁] at htally hadded
  refine ⟨j', hrow, fun hraises => ?_, fun hraises => ?_, fun hraises => ?_, new, hadded,
    fun o ho => ?_, hstores⟩
  · obtain ⟨-, rfl, -⟩ := htally.resolve_right fun h => hraises h.1
    simpa using hending
  · obtain ⟨-, e, rfl⟩ := htally.resolve_left fun h => h.1 hraises
    obtain ⟨_, -, hending⟩ := hending
    cases hending
    exact ⟨e, rfl⟩
  · exact (htally.resolve_right fun h => hraises h.1).2.2
  · obtain ⟨raw, hraw, data, hdata, hoentry, hlisting⟩ := hnew o ho
    refine ⟨raw, hraw, ?_, hlisting ▸ listingId_of_rowInput hdata⟩
    rw [hentry, hdata, hoentry]
    rfl

/-- After a loop that returns, the call returns the number of rejected rows. -/
theorem Ending.returned {running : Job} {recorded rejected : ℕ}
    (h : Ending now running (.ok (recorded, rejected)) r j') :
    ∃ outcome, r = .ok outcome ∧ outcome.observationsRejected = rejected := by
  cases h with
  | allMalformed => exact ⟨_, rfl, rfl⟩
  | done => exact ⟨_, rfl, rfl⟩

/-- A call that has returned has raised no exception for a row. -/
theorem Processed.not_raises {outcome : JobOutcome}
    (h : Processed now j cursor raws db db' (.ok outcome) j') :
    ¬ Raises (rowEntry j cursor) (currentValues db.observations) raws := by
  intro hraises
  obtain ⟨e, he⟩ := h.raises hraises
  exact absurd he (by simp)

/-- A response of which no row raises is processed to an end. -/
theorem Processed.returned (h : Processed now j cursor raws db db' r j')
    (hraises : ¬ Raises (rowEntry j cursor) (currentValues db.observations) raws) :
    ∃ outcome, r = .ok outcome := by
  obtain ⟨running, -, hending⟩ := h.ends hraises
  obtain ⟨outcome, hr, -⟩ := hending.returned
  exact ⟨outcome, hr⟩

end Calls

end IngestionRunner

/-! ### A claimed job and a store -/

/-- The database of the claimed job, over some observations. -/
def claimedOver (t : ObservationTable) : Db := { claimedDb with observations := t }

/-- The cursor of the claimed job, as it is read back. -/
def claimedCursor : FetchCursor Json :=
  FetchCursor.map Json.ofText ⟨"BTC", "default", .eodClose, today, today⟩

theorem claimedJob_cursor : FetchCursor.parse claimedJob.cursor = .ok claimedCursor :=
  FetchCursor.parse_serialize _

theorem claimedJob_ready : IngestionRunner.Ready claimedJob "worker" := Or.inr ⟨rfl, rfl⟩

theorem claimedOver_inStep (t : ObservationTable) :
    Session.new.InStep (claimedOver t) claimedJob :=
  claimedJob_inStep.congr rfl rfl

theorem claimedOver_approved (t : ObservationTable) :
    PolicyGate.IngestionApproved (claimedOver t).decisions claimedJob.source := by
  change PolicyGate.IngestionApproved approvedRegister "fake"
  decide

/-- A row for the day of the claimed job. -/
def dayRow (currency : String) (close : Decimal) : RawObservation :=
  ⟨"BTC", today, .eodClose, currency, close, none, none, none, none⟩

/-- A store that holds the row, as the claimed job would have recorded it. -/
def holding (raw : RawObservation) : ObservationTable :=
  ⟨[⟨1, 1, IngestionRunner.rowKey "fake" "default" raw, 1, IngestionRunner.rowValue raw, 0, none,
    none⟩], List.pairwise_singleton _ _⟩

/-- The claimed job can be processed with any response. -/
theorem exists_processed (t : ObservationTable) (raws : List RawObservation) :
    ∃ events r db' l' j',
      (IngestionRunner.process 1 "worker" 0).Traces semantics (claimedOver t) Session.new events r
        db' l' ∧ IngestionRunner.Served raws events ∧ db'.jobs.get? 1 = some j' ∧
      IngestionRunner.Processed 0 claimedJob claimedCursor raws (claimedOver t) db' r j' := by
  obtain ⟨events, r, db', l', hx, hserved⟩ :=
    IngestionRunner.exists_served 1 "worker" 0 raws (claimedOver t) Session.new
  obtain ⟨j', hrow, hprocessed⟩ := IngestionRunner.process_processed (claimedOver_inStep t)
    claimedJob_ready (claimedOver_approved t) claimedJob_cursor hx hserved
  exact ⟨events, r, db', l', j', hx, hserved, hrow, hprocessed⟩

end MarketRelay
