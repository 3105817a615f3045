import MarketRelay.Findings
import MarketRelay.StoredDecimals

/-!
# What the Service Delivers

The service promises that no published value is lost and none is invented. A job is `DONE` only
when every valid row that the provider answered to a fetch of its range is stored; an observation
is stored only when the provider answered it to a job, and only as the first revision of its key or
as one that corrects the revision before it. This holds in every run of the service, however its
refreshes and its processing phases are interleaved: what an execution has learned when it writes
(`Finding`) is never undone by another thread.

The promises are about values that the numeric columns store exactly (`Provider.Exact`): a value
with more decimal places is stored as another one.

## Main results

* `done_delivered`: each `DONE` job has delivered.
* `dispatched_session_kept`: with a provider that publishes it, no dispatched session is lost.
* `stored_provided`: each stored observation was answered, and corrects what it follows.
* `stable_never_corrected`: with a provider that never changes a value, no key has a second
  revision.
-/

open Relational Interaction Gregorian

namespace MarketRelay

/-! ### Runs -/

/-- What a provider may answer to the fetch of a range; at the least, what it has answered in the
run. -/
abbrev Provider := String → Option String → Date → Date → List RawObservation → Prop

/-- The job has delivered: to a fetch of its range the provider has answered with rows, and each of
them that passes validation is stored under the source and the scope of the job. -/
def Job.Delivered (provider : Provider) (observations : ObservationTable) (j : Job) : Prop :=
  ∃ cursor raws, FetchCursor.parse j.cursor = .ok cursor ∧
    provider j.source cursor.externalListingId.text? cursor.start cursor.end raws ∧
    ∀ raw ∈ raws, IngestionRunner.Accepted cursor raw →
      ∃ credentialScope, cursor.credentialScope.text? = some credentialScope ∧
        ∃ o ∈ observations.rows, o.key = IngestionRunner.rowKey j.source credentialScope raw ∧
          o.value = IngestionRunner.rowValue raw

/-- The observation was answered: to a fetch of the range of a job the provider has answered with a
valid row that has its value, and its key is the row's under the source and the scope of the job.
-/
def Observation.Provided (provider : Provider) (jobs : JobTable) (o : Observation) : Prop :=
  ∃ j ∈ jobs.rows, ∃ cursor raws, FetchCursor.parse j.cursor = .ok cursor ∧
    provider j.source cursor.externalListingId.text? cursor.start cursor.end raws ∧
    ∃ raw ∈ raws, IngestionRunner.Accepted cursor raw ∧
      ∃ credentialScope, cursor.credentialScope.text? = some credentialScope ∧
        o.key = IngestionRunner.rowKey j.source credentialScope raw ∧
        o.value = IngestionRunner.rowValue raw

/-- The observation is the first of its key, or follows one with another value. -/
def Observation.Corrects (observations : ObservationTable) (o : Observation) : Prop :=
  o.revision = 1 ∨ ∃ o' ∈ observations.rows, o'.key = o.key ∧ o.revision = o'.revision + 1 ∧
    sameValue o'.value o.value = some false

/-- What the service promises, for a store that it has found at its start. -/
structure Db.Kept (provider : Provider) (initial : ObservationTable) (db : Db) : Prop where
  done : ∀ j ∈ db.jobs.rows, j.status = .done → j.Delivered provider db.observations
  provided : ∀ o ∈ db.observations.rows, o ∈ initial.rows ∨
    o.Provided provider db.jobs ∧ o.Corrects db.observations

/-- The cached rows have the source and the cursor of the rows of the table. -/
def Session.Copies (l : Session) (t : JobTable) : Prop :=
  ∀ id j, l.cache id = some j → j.id = id ∧
    ∃ j', t.get? id = some j' ∧ j'.source = j.source ∧ j'.cursor = j.cursor

/-- What has been learned is true. -/
def Finding.Holds (provider : Provider) (db : Db) : Finding → Prop
  | job id source cursor =>
    ∃ j, db.jobs.get? id = some j ∧ j.source = source ∧ j.cursor = cursor
  | response source listing start «end» raws => provider source listing start «end» raws
  | stored key revision value =>
    ∃ o ∈ db.observations.rows, o.key = key ∧ o.revision = revision ∧ o.value = value

section Commands

variable {provider : Provider} {c : Cmd} {e : Answers} {db : Db} {l l' : Session}

theorem Session.Copies.stable (h : l.Copies db.jobs) : l.Copies (exec c e db l').2.1.jobs := by
  intro id j hj
  obtain ⟨hid, j', hj', hsource, hcursor⟩ := h id j hj
  exact ⟨hid, c.row j', get?_exec hj', by rw [Cmd.row_source, hsource],
    by rw [Cmd.row_cursor, hcursor]⟩

theorem Session.Copies.step (h : l.Copies db.jobs) :
    (exec c e db l).2.2.Copies (exec c e db l).2.1.jobs := by
  intro id j hj
  rcases cache_exec hj with hj | hj
  · exact h.stable id j hj
  · exact ⟨(Table.get?_eq_some_iff.mp hj).2, j, hj, rfl, rfl⟩

theorem Session.Copies.read (h : l.Copies db.jobs) {id : ℕ} {j : Job}
    (hj : l.read db.jobs id = some j) : j.id = id ∧
      ∃ j', db.jobs.get? id = some j' ∧ j'.source = j.source ∧ j'.cursor = j.cursor := by
  rcases Option.or_eq_some_iff.mp hj with hj | ⟨-, hj⟩
  · exact h id j hj
  · exact ⟨(Table.get?_eq_some_iff.mp hj).2, j, hj, rfl, rfl⟩

/-- **A fact stays true**, whatever any thread does. -/
theorem Finding.Holds.stable {fact : Finding} (h : fact.Holds provider db) :
    fact.Holds provider (exec c e db l).2.1 := by
  cases fact with
  | job id source cursor =>
      obtain ⟨j, hj, hsource, hcursor⟩ := h
      exact ⟨c.row j, get?_exec hj, by rw [Cmd.row_source, hsource],
        by rw [Cmd.row_cursor, hcursor]⟩
  | response => exact h
  | stored key revision value =>
      obtain ⟨o, ho, hfields⟩ := h
      exact ⟨o, (observations_exec c e db l).subset ho, hfields⟩

/-- The response to a command matches it, and tells what is true. -/
theorem learns_holds (hcopies : l.Copies db.jobs)
    (hprovider : ∀ source listing start «end», c = .fetchRange source listing start «end» →
      ∀ raws, e.fetched = .ok raws → provider source listing start «end» raws) :
    c.Matches (exec c e db l).1 ∧
      ∀ fact ∈ c.learns (exec c e db l).1, fact.Holds provider (exec c e db l).2.1 := by
  cases c with
  | attributes id =>
      refine ⟨fun j hj => (hcopies.read hj).1, fun fact hfact => ?_⟩
      obtain ⟨j, hj, rfl⟩ := Option.map_eq_some_iff.mp (Option.mem_toList.mp hfact)
      obtain ⟨hid, j', hj', hsource, hcursor⟩ := hcopies.read hj
      exact ⟨j', hid.symm ▸ hj', hsource, hcursor⟩
  | load id =>
      exact ⟨fun j hj => (Table.get?_eq_some_iff.mp hj).2,
        fun fact hfact => absurd hfact (by simp [Cmd.learns])⟩
  | fetchRange source listing start «end» =>
      refine ⟨trivial, fun fact hfact => ?_⟩
      obtain ⟨raws, hraws, rfl⟩ := Option.map_eq_some_iff.mp (Option.mem_toList.mp hfact)
      refine hprovider source listing start «end» rfl raws ?_
      change e.fetched.toOption = some raws at hraws
      cases hfetched : e.fetched with
      | error _ => simp [hfetched, Except.toOption] at hraws
      | ok raws' =>
          rw [hfetched] at hraws
          exact congrArg Except.ok (Option.some.inj hraws)
  | selectRevision key =>
      have hmem : ∀ o, currentRevision key db.observations = some o →
          o ∈ db.observations.rows ∧ o.key = key := fun o ho =>
        ⟨(List.mem_filter.mp (latestBy_eq_some ho).1).1,
          of_decide_eq_true (List.mem_filter.mp (latestBy_eq_some ho).1).2⟩
      refine ⟨fun o ho => (hmem o ho).2, fun fact hfact => ?_⟩
      obtain ⟨o, ho, rfl⟩ := Option.map_eq_some_iff.mp (Option.mem_toList.mp hfact)
      exact ⟨o, (hmem o ho).1, rfl, rfl, rfl⟩
  | insertObservation candidate =>
      cases hins : db.observations.insert? (candidate.row (db.observations.draw e.uuid)) with
      | none => simp [exec, hins, Cmd.Matches, Cmd.learns]
      | some t =>
          obtain ⟨-, hrows⟩ := Table.insert?_eq_some_iff.mp hins
          have hmem : candidate.row (db.observations.draw e.uuid) ∈ t.rows :=
            hrows ▸ List.mem_append_right _ (List.mem_singleton_self _)
          simp only [exec, hins, Cmd.Matches, Cmd.learns]
          refine ⟨fun o ho => ?_, fun fact hfact => ?_⟩
          · obtain rfl := Option.some.inj ho
            exact ⟨_, rfl⟩
          · obtain rfl := List.mem_singleton.mp hfact
            exact ⟨_, hmem, rfl, rfl, rfl⟩
  | _ => exact ⟨trivial, fun fact hfact => absurd hfact (by simp [Cmd.learns])⟩

/-- A job becomes `DONE` only by a command that completes it. -/
theorem done_row {j : Job} (h : (c.row j).status = .done) :
    j.status = .done ∨ c.completes? = some j.id := by
  cases c with
  | update op =>
      change (op.row j).status = .done at h
      by_cases hcond : op.cond j = true
      · rw [QueueOp.row_of_cond hcond] at h
        cases op with
        | claim => simp [QueueOp.set] at h
        | recoverExpired now leaseSeconds =>
            simp only [QueueOp.set] at h
            split at h <;> simp at h
        | promoteDueWaiting => simp [QueueOp.set] at h
        | owned id workerId generation w =>
            have hid : j.id = id := by
              simp only [QueueOp.cond, Bool.and_eq_true, decide_eq_true_eq] at hcond
              exact hcond.1
            cases w with
            | markDone => exact Or.inr (congrArg some hid.symm)
            | markFailed nextAttempt nextStatus lastError nextRunAt =>
                obtain rfl : nextStatus = .done := h
                exact Or.inr (congrArg some hid.symm)
            | _ => simp [QueueOp.set, Transition.values] at h
      · rw [QueueOp.row_of_not_cond (Bool.eq_false_iff.mpr hcond)] at h
        exact Or.inl h
  | markWaiting id =>
      simp only [Cmd.row] at h
      split at h
      · simp [Job.wait] at h
      · exact Or.inl h
  | _ => exact Or.inl h

theorem Job.Delivered.stable {j : Job} (h : j.Delivered provider db.observations) :
    (c.row j).Delivered provider (exec c e db l).2.1.observations := by
  obtain ⟨cursor, raws, hparse, hanswered, hrows⟩ := h
  refine ⟨cursor, raws, by rw [Cmd.row_cursor, hparse], by rw [Cmd.row_source]; exact hanswered,
    fun raw hraw haccepted => ?_⟩
  obtain ⟨scope, hscope, o, ho, hkey, hvalue⟩ := hrows raw hraw haccepted
  exact ⟨scope, hscope, o, (observations_exec c e db l).subset ho, by rw [Cmd.row_source, hkey],
    hvalue⟩

theorem Observation.Provided.stable {o : Observation} (h : o.Provided provider db.jobs) :
    o.Provided provider (exec c e db l).2.1.jobs := by
  obtain ⟨j, hj, cursor, raws, hparse, hanswered, hrow⟩ := h
  refine ⟨c.row j, row_mem_exec hj, cursor, raws, by rw [Cmd.row_cursor, hparse], ?_⟩
  rw [Cmd.row_source]
  exact ⟨hanswered, hrow⟩

theorem Observation.Corrects.stable {o : Observation} (h : o.Corrects db.observations) :
    o.Corrects (exec c e db l).2.1.observations := by
  rcases h with hfirst | ⟨o', ho', hfields⟩
  · exact Or.inl hfirst
  · exact Or.inr ⟨o', (observations_exec c e db l).subset ho', hfields⟩

/-- An observation after a command was stored before, or it has just been inserted. -/
theorem mem_observations_exec {o : Observation}
    (h : o ∈ (exec c e db l).2.1.observations.rows) :
    o ∈ db.observations.rows ∨
      ∃ candidate id, c.inserts? = some candidate ∧ o = candidate.row id := by
  cases c with
  | insertObservation candidate =>
      rw [exec] at h
      split at h
      · rename_i t ht
        obtain ⟨-, hrows⟩ := Table.insert?_eq_some_iff.mp ht
        rw [show _ = t.rows from rfl, hrows] at h
        rcases List.mem_append.mp h with h | h
        · exact Or.inl h
        · exact Or.inr ⟨candidate, _, rfl, List.mem_singleton.mp h⟩
      · exact Or.inl h
  | insertDecision d | insertJob args | selectJob key =>
      rw [exec] at h
      split at h <;> exact Or.inl h
  | _ => exact Or.inl h

section Findings

variable {facts : List Finding} (hfacts : ∀ fact ∈ facts, fact.Holds provider db)

include hfacts

/-- **What an execution has been answered was provided.** -/
theorem provided_of_sourced {o : Observation} (h : IngestionRunner.Sourced o.key o.value facts) :
    o.Provided provider db.jobs := by
  obtain ⟨id, cursor, raws, ⟨_, _, hmem, hparse⟩, ⟨_, _, hmem', hresponse⟩, raw, hraw, haccepted,
    _, _, scope, hmem'', hscope, hkey, hvalue⟩ := h
  obtain ⟨j, hj, -, rfl⟩ := hfacts _ hmem
  obtain ⟨j', hj', rfl, -⟩ := hfacts _ hmem'
  obtain ⟨j'', hj'', rfl, -⟩ := hfacts _ hmem''
  obtain rfl := Option.some.inj (hj.symm.trans hj')
  obtain rfl := Option.some.inj (hj.symm.trans hj'')
  exact ⟨j, (Table.get?_eq_some_iff.mp hj).1, cursor, raws, hparse, hfacts _ hresponse, raw, hraw,
    haccepted, scope, hscope, hkey, hvalue⟩

/-- **What justifies a completion has been delivered.** -/
theorem delivered_of_justified {j : Job} (hj : j ∈ db.jobs.rows)
    (h : IngestionRunner.Justified j.id facts) : j.Delivered provider db.observations := by
  have hget : db.jobs.get? j.id = some j := Table.get?_eq_some_iff.mpr ⟨hj, rfl⟩
  have hjob : ∀ source text, .job j.id source text ∈ facts →
      j.source = source ∧ j.cursor = text := by
    intro source text hmem
    obtain ⟨j', hj', hsource, hcursor⟩ := hfacts _ hmem
    obtain rfl := Option.some.inj (hget.symm.trans hj')
    exact ⟨hsource, hcursor⟩
  obtain ⟨cursor, raws, ⟨_, text, hmem, hparse⟩, ⟨source, _, hmem', hresponse⟩, hrows⟩ := h
  obtain ⟨-, rfl⟩ := hjob _ _ hmem
  obtain ⟨rfl, -⟩ := hjob _ _ hmem'
  refine ⟨cursor, raws, hparse, hfacts _ hresponse, fun raw hraw haccepted => ?_⟩
  obtain ⟨_, revision, _, ⟨_, _, scope, hmem'', hscope, rfl, rfl⟩, hstored⟩ :=
    hrows raw hraw haccepted
  obtain ⟨rfl, -⟩ := hjob _ _ hmem''
  obtain ⟨o, ho, hkey, -, hvalue⟩ := hfacts _ hstored
  exact ⟨scope, hscope, o, ho, hkey, hvalue⟩

end Findings

end Commands

/-- The next command of the thread is within what is assumed of the run: the provider answers as
described, and a program other than a refresh or a processing phase completes no job and inserts no
observation. -/
structure Serving {ι : Type} (provider : Provider) (workers : ι → ServiceWorker)
    (cfg : ServiceConfig ι) (i : ι) (e : Answers) : Prop where
  answers : ∀ source listing start «end»,
    (cfg.thread i).prog.next? = some (.fetchRange source listing start «end») →
      ∀ raws, e.fetched = .ok raws → provider source listing start «end» raws
  others : ∀ program, workers i = .other program → ∀ c, (cfg.thread i).prog.next? = some c →
    c.IsFree

/-- In addition, a deduplication key is taken only by a job of the same source and cursor. -/
structure Delivers {ι : Type} (provider : Provider) (workers : ι → ServiceWorker)
    (cfg : ServiceConfig ι) (i : ι) (e : Answers) : Prop extends
    Serving provider workers cfg i e where
  keys : KeysMatch cfg i

/-- What the provider answers of the listings of a source, the columns store exactly. -/
def Provider.ExactFor (provider : Provider) (source : String) : Prop :=
  ∀ listing start «end» raws, provider source (some listing) start «end» raws →
    ∀ raw ∈ raws, (IngestionRunner.rowValue raw).HasScale

def Provider.Exact (provider : Provider) : Prop := ∀ source, provider.ExactFor source

section Runs

variable {ι : Type} [DecidableEq ι] {provider : Provider} {workers : ι → ServiceWorker}
  {cfg : ServiceConfig ι} {i : ι} {observations : ObservationTable}

/-- The contract of a thread; nothing is asked of the other programs. -/
def ServiceWorker.contract : ServiceWorker → Contract Cmd Cmd.Resp (List Finding)
  | other _ => Contract.free
  | _ => writeContract

/-- What a thread knows: that its findings are true. -/
structure ServiceWorker.Knows (provider : Provider) (db : Db) (l : Session) (facts : List Finding) :
    Prop where
  facts : ∀ fact ∈ facts, fact.Holds provider db
  copies : l.Copies db.jobs

omit [DecidableEq ι] in
/-- Every thread issues its commands within the contract of the writes. -/
theorem Serving.pre {e : Answers} {c : Cmd} {k : c.Resp → Prog Cmd Cmd.Resp (Except PyError _)}
    {facts : List Finding} (h : Serving provider workers cfg i e)
    (hp : (cfg.thread i).prog = .call c k) (hpre : (workers i).contract.pre c facts) :
    writeContract.pre c facts := by
  have hnext : (cfg.thread i).prog.next? = some c := Prog.next?_eq_some_iff.mpr ⟨k, hp⟩
  cases hworker : workers i with
  | other program => exact (h.others program hworker c hnext).pre facts
  | refresh x =>
      rw [hworker] at hpre
      exact hpre
  | processing x =>
      rw [hworker] at hpre
      exact hpre

/-- **One command keeps what the service promises.** -/
theorem Db.Kept.step {c : Cmd} {e : Answers} {db : Db} {l : Session} {facts : List Finding}
    (h : db.Kept provider observations) (hfacts : ∀ fact ∈ facts, fact.Holds provider db)
    (hpre : writeContract.pre c facts) : (exec c e db l).2.1.Kept provider observations := by
  refine ⟨fun j hj hdone => ?_, fun o ho => ?_⟩
  · rcases mem_jobs_exec hj with ⟨j₀, hj₀, rfl⟩ | ⟨args, rfl, rfl⟩
    · rcases done_row hdone with hdone | hcompletes
      · exact (h.done j₀ hj₀ hdone).stable
      · exact (delivered_of_justified hfacts hj₀ (hpre.1 j₀.id hcompletes)).stable
    · exact absurd hdone (by simp [newJob])
  · rcases mem_observations_exec ho with hold | ⟨candidate, id, hinserts, rfl⟩
    · exact (h.provided o hold).imp_right fun h => ⟨h.1.stable, h.2.stable⟩
    · obtain ⟨hsourced, hcorrects⟩ := hpre.2 candidate hinserts
      have hprovided : (candidate.row id).Provided provider db.jobs :=
        provided_of_sourced hfacts hsourced
      refine Or.inr ⟨hprovided.stable, Observation.Corrects.stable ?_⟩
      rcases hcorrects with hfirst | ⟨n, value, hstored, hnext, hdiffer⟩
      · exact Or.inl hfirst
      · obtain ⟨o', ho', hkey, rfl, rfl⟩ := hfacts _ hstored
        exact Or.inr ⟨o', ho', hkey, hnext, hdiffer⟩

/-- The semantics executes what the contract of the writes allows as the exact one does. -/
def WritesExactly (provider : Provider) (sem : Semantics Cmd Cmd.Resp Answers Db Session) : Prop :=
  ∀ c facts (db : Db), (∀ fact ∈ facts, fact.Holds provider db) → writeContract.pre c facts →
    sem.exec c = exec c

theorem writesExactly_semantics : WritesExactly provider semantics := fun _ _ _ _ _ => rfl

/-- Columns that round store exactly what an exact provider has answered. -/
theorem writesExactly_columns (ρ : Rounding numericScale) (hexact : provider.Exact) :
    WritesExactly provider (columnSemantics ρ) := by
  intro c facts db hfacts hpre
  refine columnSemantics_exec ρ fun candidate hc => ?_
  obtain ⟨j, -, cursor, raws, -, hanswered, raw, hraw, haccepted, scope, -, -, hvalue⟩ :
      (candidate.row 0).Provided provider db.jobs :=
    provided_of_sourced hfacts (hpre.2 candidate (hc ▸ rfl)).1
  obtain ⟨hlisting, -⟩ := validateRawObservation_eq_ok_iff.mp haccepted
  rw [hlisting] at hanswered
  rw [show candidate.value = IngestionRunner.rowValue raw from hvalue]
  exact hexact _ _ _ _ _ hanswered raw hraw

omit [DecidableEq ι] in
/-- The proof obligation of one command. -/
theorem ServiceWorker.kept_obligation {sem : Semantics Cmd Cmd.Resp Answers Db Session}
    (hsem : WritesExactly provider sem) :
    Config.Obligation (Except PyError (List RefreshEvent)) sem
      (fun i => (workers i).contract) (Db.Kept provider observations)
      (fun _ db th facts => ServiceWorker.Knows provider db th.loc facts)
      (Serving provider workers) := by
  intro cfg i e c k facts hp hok hinv hknows hpre
  have hnext : (cfg.thread i).prog.next? = some c := Prog.next?_eq_some_iff.mpr ⟨k, hp⟩
  rw [hsem c facts cfg.shared hknows.facts (hok.pre hp hpre)]
  intro out
  refine ⟨hinv.step hknows.facts (hok.pre hp hpre), ?_, fun i' facts' _ hknows' => ?_⟩
  · obtain ⟨hmatches, hlearns⟩ := learns_holds (c := c) (e := e) hknows.copies
      fun source listing start «end» hc => hok.answers source listing start «end» (hc ▸ hnext)
    refine ⟨c.learns out.1 ++ facts, ?_, fun fact hfact => ?_, hknows.copies.step⟩
    · change (workers i).contract.post c facts out.1 _
      cases workers i with
      | other program => trivial
      | refresh x => exact ⟨hmatches, rfl⟩
      | processing x => exact ⟨hmatches, rfl⟩
    · rcases List.mem_append.mp hfact with hfact | hfact
      · exact hlearns fact hfact
      · exact (hknows.facts fact hfact).stable
  · exact ⟨fun fact hfact => (hknows'.facts fact hfact).stable, hknows'.copies.stable⟩

/-- A refresh and a processing phase write only what their findings warrant. -/
theorem ServiceWorker.program_meets (worker : ServiceWorker) :
    worker.program.run.Meets worker.contract (fun _ _ => True) [] := by
  have hI : Grows fun _ => True := fun _ _ _ _ => trivial
  have hmeets : ∀ {x : App (List RefreshEvent)}, Script.Keeps writeContract (fun _ => True) x →
      x.run.Meets writeContract (fun _ _ => True) [] := fun hkeeps =>
    Script.meets_run.mpr ((hkeeps [] trivial).mono (fun _ _ _ => trivial) fun _ _ _ => trivial)
  cases worker with
  | other program => exact Prog.meets_free _ _
  | refresh x =>
      refine hmeets (Refresh.events_keeps (fun c hc => hI.issue ?_) x)
      cases c <;> first | exact ⟨rfl, rfl⟩ | exact absurd hc id
  | processing x =>
      exact hmeets (x.program_keeps_findings.bind fun _ => Script.keeps_pure [])

omit [DecidableEq ι] in
/-- Before its first step the service has promised nothing yet, and no thread knows anything. -/
theorem ServiceConfig.sound_start {decisions : DecisionTable} :
    (ServiceConfig.start workers observations decisions).Sound (fun i => (workers i).contract)
      (fun _ _ _ => True) (Db.Kept provider observations)
      fun _ db th facts => ServiceWorker.Knows provider db th.loc facts := by
  refine ⟨⟨fun j hj => absurd hj List.not_mem_nil, fun o ho => Or.inl ho⟩, fun i => ?_⟩
  refine ⟨[], ⟨fun fact hfact => absurd hfact List.not_mem_nil, fun id j hj => ?_⟩,
    (workers i).program_meets⟩
  exact absurd hj (by simp [ServiceConfig.start, Session.new])

/-- **The service keeps what it promises**, in every state of every run. -/
theorem ServiceConfig.kept {sem : Semantics Cmd Cmd.Resp Answers Db Session}
    (hsem : WritesExactly provider sem) {decisions : DecisionTable}
    (hr : Config.Reaches sem (Serving provider workers)
      (ServiceConfig.start workers observations decisions) cfg) :
    cfg.shared.Kept provider observations :=
  (hr.sound (ServiceWorker.kept_obligation hsem) ServiceConfig.sound_start).inv

/-- **Nothing is stored that was not answered.** In every state of every run, an observation that
was not found at the start has been answered by the provider, to the fetch of a job of its source,
and is either the first of its key or has another value than the revision that it follows. -/
theorem stored_provided (ρ : Rounding numericScale) (hexact : provider.Exact)
    {decisions : DecisionTable} (hr : Config.Reaches (columnSemantics ρ) (Serving provider workers)
      (ServiceConfig.start workers observations decisions) cfg)
    {o : Observation} (ho : o ∈ cfg.shared.observations.rows) :
    o ∈ observations.rows ∨
      o.Provided provider cfg.shared.jobs ∧ o.Corrects cfg.shared.observations :=
  (ServiceConfig.kept (writesExactly_columns ρ hexact) hr).provided o ho

/-! ### A provider that never changes a value -/

/-- Whatever the provider answers, a session of a listing of the source has one finite value. -/
def Provider.Stable (provider : Provider) (source : String) : Prop :=
  ∀ listing start «end» raws start' end' raws',
    provider source (some listing) start «end» raws →
    provider source (some listing) start' end' raws' →
    ∀ raw ∈ raws, ∀ raw' ∈ raws', raw.externalListingId = listing →
      raw'.externalListingId = listing → raw.sessionDate = raw'.sessionDate →
      raw.observationType = raw'.observationType → (∃ q, raw.close = .finite q) →
      sameValue (IngestionRunner.rowValue raw) (IngestionRunner.rowValue raw') = some true

omit [DecidableEq ι] in
/-- Two answers for one key have the same value. -/
theorem Provider.Stable.sameValue {jobs : JobTable} {o o' : Observation}
    (h : provider.Stable o.key.source) (hprovided : o.Provided provider jobs)
    (hprovided' : o'.Provided provider jobs) (hkey : o.key = o'.key) :
    MarketRelay.sameValue o.value o'.value = some true := by
  obtain ⟨j, -, cursor, raws, -, hanswered, raw, hraw, haccepted, scope, -, hrow, hvalue⟩ :=
    hprovided
  obtain ⟨j', -, cursor', raws', -, hanswered', raw', hraw', haccepted', scope', -, hrow',
    hvalue'⟩ := hprovided'
  obtain ⟨hlisting, -, -, hclose⟩ := validateRawObservation_eq_ok_iff.mp haccepted
  obtain ⟨hlisting', -⟩ := validateRawObservation_eq_ok_iff.mp haccepted'
  rw [hrow] at h
  rw [hrow, hrow'] at hkey
  injection hkey with hsource _ hsame hdate htype
  rw [hlisting] at hanswered
  rw [hlisting', ← hsource, ← hsame] at hanswered'
  obtain ⟨q, hq, -⟩ := hclose
  rw [hvalue, hvalue']
  exact h _ _ _ _ _ _ _ hanswered hanswered' raw hraw raw' hraw' rfl hsame.symm hdate htype
    ⟨q, hq⟩

/-- From an empty store, every observation was answered, and corrects what it follows. -/
theorem ServiceConfig.answered (ρ : Rounding numericScale) (hexact : provider.Exact)
    {decisions : DecisionTable} (hr : Config.Reaches (columnSemantics ρ) (Serving provider workers)
      (ServiceConfig.start workers Table.empty decisions) cfg)
    {o : Observation} (ho : o ∈ cfg.shared.observations.rows) :
    o.Provided provider cfg.shared.jobs ∧ o.Corrects cfg.shared.observations :=
  (stored_provided ρ hexact hr ho).resolve_left List.not_mem_nil

/-- From an empty store, a stable source has first revisions only. -/
theorem ServiceConfig.first (ρ : Rounding numericScale) (hexact : provider.Exact)
    {decisions : DecisionTable} (hr : Config.Reaches (columnSemantics ρ) (Serving provider workers)
      (ServiceConfig.start workers Table.empty decisions) cfg)
    {o : Observation} (ho : o ∈ cfg.shared.observations.rows)
    (hstable : provider.Stable o.key.source) : o.revision = 1 := by
  obtain ⟨hprovided, hone | ⟨o', ho', hsame, -, hdiffer⟩⟩ :=
    ServiceConfig.answered ρ hexact hr ho
  · exact hone
  · have hequal := Provider.Stable.sameValue (hsame ▸ hstable)
      (ServiceConfig.answered ρ hexact hr ho').1 hprovided hsame
    exact absurd (hdiffer.symm.trans hequal) (by decide)

end Runs

/-! ### Sessions that are published -/

/-- The provider publishes the session: whatever it answers to a fetch of a range of the series
with the date, there is a valid row for it. -/
def Provider.Publishes (provider : Provider) (series : SeriesKey) (d : Date) : Prop :=
  ∀ start «end» raws, provider series.source (some series.externalListingId) start «end» raws →
    start ≤ d → d ≤ «end» → ∃ raw ∈ raws, raw.externalListingId = series.externalListingId ∧
      raw.sessionDate = d ∧ raw.observationType = series.observationType ∧
      currencyMatches raw.currency = true ∧ ∃ q, raw.close = .finite q ∧ 0 < q

/-- A job that has delivered has stored the sessions of its range that are published. -/
theorem Job.Delivered.session {provider : Provider} {observations : ObservationTable} {j : Job}
    {series : SeriesKey} {d : Date} (h : j.Delivered provider observations)
    (hcovers : j.Covers series d) (hpublishes : provider.Publishes series d) :
    ∃ o ∈ observations.rows, o.key = series.at d := by
  obtain ⟨cursor, raws, hparse, hanswered, hrows⟩ := h
  obtain ⟨hsource, c, hc, hscope, hexternal, -, hstart, hend⟩ := hcovers
  obtain rfl := Except.ok.inj (hc.symm.trans hparse)
  rw [hsource, hexternal, Json.text?_ofText] at hanswered
  obtain ⟨raw, hraw, hlisting, rfl, htype, hcurrency, hclose⟩ :=
    hpublishes _ _ raws hanswered hstart hend
  have haccepted : IngestionRunner.Accepted c raw :=
    validateRawObservation_eq_ok_iff.mpr
      ⟨by rw [hexternal, Json.text?_ofText, hlisting], ⟨hstart, hend⟩, hcurrency, hclose⟩
  obtain ⟨scope, hscope', o, ho, hkey, -⟩ := hrows raw hraw haccepted
  rw [hscope, Json.text?_ofText] at hscope'
  obtain rfl := Option.some.inj hscope'
  refine ⟨o, ho, ?_⟩
  rw [hkey, IngestionRunner.rowKey, SeriesKey.at, hsource, hlisting, htype]

section Sessions

variable {ι : Type} [DecidableEq ι] {provider : Provider} {workers : ι → ServiceWorker}
  {cfg : ServiceConfig ι} {i : ι} {observations : ObservationTable} {decisions : DecisionTable}

/-- What a refresh has reported as dispatched is a session of its calendar, and a job covers it. -/
theorem ServiceConfig.dispatched
    (hr : Config.Reaches semantics (Delivers provider workers)
      (ServiceConfig.start workers observations decisions) cfg)
    {x : Refresh} (hi : workers i = .refresh x) {events : List RefreshEvent}
    (hret : (cfg.thread i).prog.result? = some (.ok events)) {series : SeriesKey}
    {r : DispatchResult} (hevent : .listing series (.ok r) ∈ events) {chunk : RecoveryChunk}
    (hchunk : chunk ∈ r.plan.chunks) {d : Date} (hd : d ∈ chunk.sessionDates) :
    x.IsSession series d ∧ ∃ j ∈ cfg.shared.jobs.rows, j.Covers series d := by
  obtain ⟨g, hknows, hreports⟩ :=
    (ServiceWorker.sound_of (fun _ _ _ hok => hok.keys) hr).ret (Prog.result?_eq_some_iff.mp hret)
  obtain ⟨hplan, henq⟩ := hreports x events hi rfl _ hevent
  obtain ⟨hsession, hrange⟩ := hplan.session hchunk hd
  obtain ⟨j, hj, hsource, hcursor⟩ := hknows _ (henq chunk hchunk)
  exact ⟨hsession, j, hj, (Job.covers_of_cursor hsource hcursor).mpr hrange⟩

/-- A published session that a job covers is stored, unless the job has not been completed. -/
theorem ServiceConfig.covered
    (hr : Config.Reaches semantics (Delivers provider workers)
      (ServiceConfig.start workers observations decisions) cfg)
    {j : Job} (hj : j ∈ cfg.shared.jobs.rows) {series : SeriesKey} {d : Date}
    (hcovers : j.Covers series d) (hpublishes : provider.Publishes series d) :
    (∃ o ∈ cfg.shared.observations.rows, o.key = series.at d) ∨
      ∃ j ∈ cfg.shared.jobs.rows, j.Covers series d ∧
        (j.status.ended = false ∨ j.status = .failed) := by
  cases hstatus : j.status with
  | done =>
      have hkept := ServiceConfig.kept writesExactly_semantics
        (hr.mono fun _ _ _ h => h.toServing)
      exact Or.inl ((hkept.done j hj hstatus).session hcovers hpublishes)
  | failed => exact Or.inr ⟨j, hj, hcovers, Or.inr hstatus⟩
  | _ => exact Or.inr ⟨j, hj, hcovers, Or.inl (by rw [hstatus]; rfl)⟩

/-- **No dispatched session is lost**, as long as its provider publishes it. In every state of
every run, a session that a refresh has reported as dispatched is stored, or a job that covers it
is still to be processed, or has failed for good. -/
theorem dispatched_session_kept
    (hr : Config.Reaches semantics (Delivers provider workers)
      (ServiceConfig.start workers observations decisions) cfg)
    {x : Refresh} (hi : workers i = .refresh x) {events : List RefreshEvent}
    (hret : (cfg.thread i).prog.result? = some (.ok events)) {series : SeriesKey}
    {r : DispatchResult} (hevent : .listing series (.ok r) ∈ events) {chunk : RecoveryChunk}
    (hchunk : chunk ∈ r.plan.chunks) {d : Date} (hd : d ∈ chunk.sessionDates)
    (hpublishes : provider.Publishes series d) :
    (∃ o ∈ cfg.shared.observations.rows, o.key = series.at d) ∨
      ∃ j ∈ cfg.shared.jobs.rows, j.Covers series d ∧
        (j.status.ended = false ∨ j.status = .failed) := by
  obtain ⟨-, j, hj, hcovers⟩ := ServiceConfig.dispatched hr hi hret hevent hchunk hd
  exact ServiceConfig.covered hr hj hcovers hpublishes

end Sessions

/-! ### A run on concrete tables -/

/-- A provider that has one row. -/
def oneRow : Provider := fun _ _ _ _ raws => raws = [dayRow "EUR" (.finite 1)]

/-- A refresh, and a processing phase. -/
def refreshAndProcess (x : Refresh) : Bool → ServiceWorker := fun processing =>
  if processing then .processing ⟨⟨["fake"], 300, 3600⟩, 0, 1⟩ else .refresh x

/-- The refresh runs to its end, and the processing phase until its job is completed. -/
def completingSteps (rows : List RawObservation) : List (Bool × Answers) :=
  List.replicate 4 (false, default) ++
    List.replicate 35 (true, { (default : Answers) with fetched := .ok rows })

/-- Only today's session is fetched, and a job is inserted only into the empty queue. -/
def fetchesToday (rows : List RawObservation) (cfg : ServiceConfig Bool) (i : Bool)
    (e : Answers) : Bool :=
  match (cfg.thread i).prog.next? with
  | some (.insertJob _) => cfg.shared.jobs.rows.isEmpty
  | some (.fetchRange source listing start «end») =>
    decide (source = "fake" ∧ listing = some "BTC" ∧ start = today ∧ «end» = today ∧
      e.fetched.toOption = some rows)
  | _ => true

/-- A run that fetches today's session only is one of the service. -/
theorem reaches_of_fetchesToday {sem : Semantics Cmd Cmd.Resp Answers Db Session}
    {provider : Provider} {x : Refresh} {rows : List RawObservation}
    (hprovider : provider "fake" (some "BTC") today today rows) {cfg : ServiceConfig Bool}
    {steps : List (Bool × Answers)}
    (hcheck : Config.checkRun sem (fetchesToday rows) cfg steps = true) :
    Config.Reaches sem (Delivers provider (refreshAndProcess x)) cfg (cfg.run sem steps) := by
  refine Config.reaches_of_checkRun (fun cfg i e h => ?_) hcheck
  refine ⟨⟨fun source listing start «end» hnext raws hraws => ?_, fun program hworker => ?_⟩,
    fun args hnext j hj => ?_⟩
  · simp only [fetchesToday, hnext, decide_eq_true_eq] at h
    obtain ⟨rfl, rfl, rfl, rfl, hrows⟩ := h
    rw [hraws] at hrows
    obtain rfl := Option.some.inj hrows
    exact hprovider
  · cases i <;> simp [refreshAndProcess] at hworker
  · have hrows : cfg.shared.jobs.rows = [] := by simpa [fetchesToday, hnext] using h
    exact absurd hj (by simp [hrows])

def completedConfig : ServiceConfig Bool :=
  (ServiceConfig.start (refreshAndProcess (dailyRefresh 0)) Table.empty approvedRegister).run
    semantics (completingSteps [dayRow "EUR" (.finite 1)])

theorem completedConfig_reaches : Config.Reaches semantics
    (Delivers oneRow (refreshAndProcess (dailyRefresh 0)))
    (ServiceConfig.start (refreshAndProcess (dailyRefresh 0)) Table.empty approvedRegister)
    completedConfig :=
  reaches_of_fetchesToday rfl (by decide +kernel)

theorem oneRow_exact : oneRow.Exact := by
  rintro source listing start «end» raws rfl raw hraw
  obtain rfl := List.mem_singleton.mp hraw
  exact (ObservationValue.rounded_eq_self_iff (.halfAway numericScale)).mp (by decide +kernel)

/-- The same run over columns that round. -/
def roundedConfig : ServiceConfig Bool :=
  (ServiceConfig.start (refreshAndProcess (dailyRefresh 0)) Table.empty approvedRegister).run
    (columnSemantics (.halfAway numericScale)) (completingSteps [dayRow "EUR" (.finite 1)])

theorem roundedConfig_reaches : Config.Reaches (columnSemantics (.halfAway numericScale))
    (Serving oneRow (refreshAndProcess (dailyRefresh 0)))
    (ServiceConfig.start (refreshAndProcess (dailyRefresh 0)) Table.empty approvedRegister)
    roundedConfig := by
  have hreaches : Config.Reaches (columnSemantics (.halfAway numericScale))
      (Delivers oneRow (refreshAndProcess (dailyRefresh 0)))
      (ServiceConfig.start (refreshAndProcess (dailyRefresh 0)) Table.empty approvedRegister)
      roundedConfig := reaches_of_fetchesToday rfl (by decide +kernel)
  exact hreaches.mono fun _ _ _ h => h.toServing

/-- The session of today is kept. -/
theorem dispatched_session_kept_completed :
    (∃ o ∈ completedConfig.shared.observations.rows, o.key = todaysDispatch.series.at today) ∨
      ∃ j ∈ completedConfig.shared.jobs.rows, j.Covers todaysDispatch.series today ∧
        (j.status.ended = false ∨ j.status = .failed) := by
  let r : DispatchResult := ⟨todaysPlan, [⟨newJob (Dispatch.jobArgs
    { todaysDispatch with limits := some ⟨0, 1⟩ } ⟨false, today, today⟩) 0 0, true⟩], none⟩
  have hret : (completedConfig.thread false).prog.result? =
      some (.ok [.listing todaysDispatch.series (.ok r)]) := by decide +kernel
  have hchunk : (⟨today, today, [today]⟩ : RecoveryChunk) ∈ r.plan.chunks :=
    List.mem_singleton_self _
  refine dispatched_session_kept completedConfig_reaches (i := false) rfl hret
    (List.mem_singleton_self _) hchunk (List.mem_singleton_self _) ?_
  rintro start «end» raws rfl - -
  exact ⟨_, List.mem_singleton_self _, rfl, rfl, rfl, by decide, 1, rfl, by decide⟩

/-- The observation of the run was answered to its job. -/
theorem stored_provided_completed : ∃ o ∈ roundedConfig.shared.observations.rows,
    o.Provided oneRow roundedConfig.shared.jobs ∧
      o.Corrects roundedConfig.shared.observations := by
  obtain ⟨o, ho⟩ := List.exists_mem_of_ne_nil roundedConfig.shared.observations.rows
    (by decide +kernel)
  exact ⟨o, ho, (stored_provided (.halfAway numericScale) oneRow_exact roundedConfig_reaches
    ho).resolve_left List.not_mem_nil⟩

end MarketRelay
