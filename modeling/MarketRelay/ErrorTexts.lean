import MarketRelay.Lib.Lockstep
import MarketRelay.Metrics

/-!
# The Texts of Adapter Exceptions

Two runs of a scheduler cycle, followed by the metrics, in which calendar, quota and historical
adapters behave identically except for the texts of the exceptions that they raise. The runs are
compared command by command: an exception is caught where it is raised, or further out, by a
handler that looks at its type and records the code of the type, so that the commands are the
same and nothing that is written or returned differs.

Some handlers do write the text of an exception: that of a gate that refuses, and that of an
invalid cursor. Neither can come from an adapter, since neither program calls one.

## Main results

* `IngestionRunner.process_alike`: processing a job, with every path that an exception can take.
* `Cycle.program_alike`: a whole cycle.
* `error_texts_invisible`: two such runs leave the same database, return the same outcomes and
  report the same metrics.
-/

open Relational Interaction Gregorian

namespace MarketRelay

/-! ### Exceptions of the same type -/

namespace PyError

/-- The exception without the data that its text is made of. -/
def withoutText : PyError → PyError
  | staleJobClaim .. => staleJobClaim 0 none ""
  | objectDeleted => objectDeleted
  | integrity => integrity
  | policyNotAuthorized .. => policyNotAuthorized "" []
  | invalidCursor _ => invalidCursor ""
  | statement => statement
  | malformedObservation _ => malformedObservation ""
  | revisionRaceExhausted _ =>
    revisionRaceExhausted ⟨"", "", "", ⟨1, by decide, by decide⟩, .eodClose⟩
  | noEligibleObservation .. =>
    noEligibleObservation "" 0 ⟨1, by decide, by decide⟩ .eodClose
  | assertion => assertion
  | invalidOperation => invalidOperation
  | overflow => overflow
  | index => index
  | value => value
  | unknownSource .. => unknownSource "" ""
  | calendarUnavailable .. => calendarUnavailable "" ""
  | providerTimeout => providerTimeout
  | providerProcess => providerProcess
  | adapter typeName _ => adapter typeName ""

/-- Two exceptions of the same type. -/
def SameType (e e' : PyError) : Prop := e.withoutText = e'.withoutText

variable {e e' : PyError}

/-- The code of an exception is that of its type. -/
theorem SameType.adapterErrorCode_eq (h : e.SameType e') :
    e.adapterErrorCode = e'.adapterErrorCode := by
  have hcode : ∀ e : PyError, e.withoutText.adapterErrorCode = e.adapterErrorCode := by
    intro e
    cases e <;> rfl
  rw [← hcode e, ← hcode e', h]

theorem SameType.isStaleJobClaim_eq (h : e.SameType e') :
    e.isStaleJobClaim = e'.isStaleJobClaim := by
  have hstale : ∀ e : PyError, e.withoutText.isStaleJobClaim = e.isStaleJobClaim := by
    intro e
    cases e <;> rfl
  rw [← hstale e, ← hstale e', h]

end PyError

/-- Two outcomes that differ at most in the text of the exception. -/
abbrev SameButTexts {α : Type} : Except PyError α → Except PyError α → Prop :=
  Script.Outcomes PyError.SameType Eq

theorem SameButTexts.refl {α : Type} (r : Except PyError α) : SameButTexts r r := by
  cases r <;> exact rfl

theorem SameButTexts.bind {α β : Type} {r r' : Except PyError α} {f : α → Except PyError β}
    (h : SameButTexts r r') : SameButTexts (r >>= f) (r' >>= f) := by
  rcases r with e | a <;> rcases r' with e' | a'
  · exact h
  · exact h.elim
  · exact h.elim
  · obtain rfl : a = a' := h
    exact SameButTexts.refl (f a)

/-! ### Adapters that behave identically -/

/-- The calls to adapters. -/
def Cmd.IsAdapterCall : Cmd → Prop
  | getHistoricalPricePort _ | getQuotaPort _ | checkQuota _ | consumeQuota .. | fetchRange .. =>
    True
  | _ => False

/-- Two responses that differ at most in the text of an adapter's exception. -/
def Cmd.Alike : (c : Cmd) → c.Resp → c.Resp → Prop
  | getHistoricalPricePort _ | getQuotaPort _ | checkQuota _ | consumeQuota .. | fetchRange .. =>
    SameButTexts
  | _ => Eq

theorem Cmd.Alike.eq {c : Cmd} (hc : ¬ c.IsAdapterCall) {r r' : c.Resp} (h : c.Alike r r') :
    r = r' := by
  cases c <;> first | exact h | exact absurd trivial hc

def CycleCmd.Alike : (c : CycleCmd) → c.Resp → c.Resp → Prop
  | work c => c.Alike
  | rollback | insertRun _ | updateRun .. | pendingBySource | oldestPendingBySource | doneCount
  | failedBySource | countRuns _ => Eq

/-- Two contributions of the environment to one command that differ at most in the texts of
adapters' exceptions. -/
structure Answers.Alike (e e' : Answers) : Prop where
  uuid : e.uuid = e'.uuid
  clock : e.clock = e'.clock
  port : SameButTexts e.port e'.port
  quota : SameButTexts e.quota e'.quota
  fetched : SameButTexts e.fetched e'.fetched
  cause : e.cause = e'.cause

/-- Two sets of calendar adapters that differ at most in the texts of their exceptions. -/
def CalendarRoutes.Alike (calendars calendars' : CalendarRoutes) : Prop :=
  ∀ mic venue, Script.Outcomes PyError.SameType
    (fun calendar calendar' : Calendar => ∀ assetClass venue mic first last,
      SameButTexts (calendar assetClass venue mic first last)
        (calendar' assetClass venue mic first last))
    (calendars mic venue) (calendars' mic venue)

/-- A command does the same to the tables, and responds alike. -/
theorem exec_alike (c : Cmd) {e e' : Answers} (h : e.Alike e') (db : Db) (l : Session) :
    c.Alike (exec c e db l).1 (exec c e' db l).1 ∧ (exec c e db l).2 = (exec c e' db l).2 := by
  cases c with
  | getHistoricalPricePort source | getQuotaPort source => exact ⟨h.port, rfl⟩
  | checkQuota source | consumeQuota source cost => exact ⟨h.quota, rfl⟩
  | fetchRange source listing first last => exact ⟨h.fetched, rfl⟩
  | describeFault raw => exact ⟨h.cause, rfl⟩
  | insertJob args =>
      have hsame : exec (.insertJob args) e db l = exec (.insertJob args) e' db l := by
        simp only [exec, h.uuid, h.clock]
      rw [hsame]
      exact ⟨rfl, rfl⟩
  | insertDecision d =>
      have hsame : exec (.insertDecision d) e db l = exec (.insertDecision d) e' db l := by
        simp only [exec, h.uuid]
      rw [hsame]
      exact ⟨rfl, rfl⟩
  | insertObservation o =>
      have hsame : exec (.insertObservation o) e db l = exec (.insertObservation o) e' db l := by
        simp only [exec, h.uuid]
      rw [hsame]
      exact ⟨rfl, rfl⟩
  | _ => exact ⟨rfl, rfl⟩

theorem cycleExec_alike (c : CycleCmd) {e e' : Answers} (h : e.Alike e') (t : Transaction)
    (l : Session) :
    c.Alike (cycleExec c e t l).1 (cycleExec c e' t l).1 ∧
      (cycleExec c e t l).2 = (cycleExec c e' t l).2 := by
  cases c with
  | work c =>
      obtain ⟨hresp, hstate⟩ := exec_alike c h t.working.db l
      refine ⟨hresp, ?_⟩
      simp only [cycleExec, hstate]
  | insertRun startedAt =>
      have hsame : cycleExec (.insertRun startedAt) e t l =
          cycleExec (.insertRun startedAt) e' t l := by
        simp only [cycleExec, h.uuid]
      rw [hsame]
      exact ⟨rfl, rfl⟩
  | updateRun id result =>
      have hsame : cycleExec (.updateRun id result) e t l =
          cycleExec (.updateRun id result) e' t l := by
        simp only [cycleExec, h.clock]
      rw [hsame]
      exact ⟨rfl, rfl⟩
  | _ => exact ⟨rfl, rfl⟩

/-! ### Programs that no text can reach -/

/-- Two programs of the service that issue the same commands, whatever the texts of adapters'
exceptions, and end with values that are related by `T` or with exceptions of one type. -/
abbrev App.Alike {α β : Type} (T : α → β → Prop) (x : App α) (y : App β) : Prop :=
  Script.Lockstep Cmd.Alike PyError.SameType T x y

/-- The contract of programs that call no adapter. -/
private def plain : Contract Cmd Cmd.Resp Unit :=
  ⟨fun c _ => ¬ c.IsAdapterCall, fun _ _ _ _ => True⟩

private abbrev Plain {α : Type} (x : App α) : Prop := Script.Keeps plain (fun _ => True) x

private theorem plain_issue {c : Cmd} (hc : ¬ c.IsAdapterCall) : Plain (issue c) :=
  Script.keeps_op fun _ _ => ⟨hc, fun _ _ _ => trivial⟩

private theorem plain_job (c : Cmd) (hc : JobQueue.IsJobCmd c) : Plain (issue c) :=
  plain_issue (by cases c <;> first | exact id | exact hc.elim)

private theorem plain_attributes (id : ℕ) : Plain (attributes id) :=
  JobQueue.attributes_keeps plain_job id

private theorem plain_transition (id : ℕ) (workerId : String) (generation : ℕ) (w : Transition) :
    Plain (JobQueue.ownedTransition id workerId generation w) :=
  JobQueue.ownedTransition_keeps_of plain_job fun _ => plain_issue fun h => h

private theorem plain_fail {id : ℕ} {workerId : String} {generation : ℕ} {error : String}
    {now : Instant} {recorded rejected : ℕ} {detail : String} :
    Plain (IngestionRunner.fail id workerId generation error now recorded rejected detail) :=
  ((plain_attributes id).bind fun _ => plain_transition id workerId generation _).bind fun _ =>
    (plain_attributes id).bind fun _ => Script.keeps_pure _

private theorem plain_failing {id : ℕ} {workerId error detail : String} {now : Instant} :
    Plain (do
      let generation ← generation id
      IngestionRunner.fail id workerId generation error now 0 0 detail) :=
  (JobQueue.generation_keeps plain_job id).bind fun _ => plain_fail

/-- A program that calls no adapter is alike in both runs, and raises the same. -/
private theorem same_of_plain {α : Type} {x : App α} (h : Plain x) :
    Script.Lockstep Cmd.Alike Eq Eq x x :=
  Script.lockstep_of_only (Prog.Only.of_meets (h () trivial)) fun _ _ _ hc hr => hr.eq hc

private theorem alike_of_plain {α : Type} {x : App α} (h : Plain x) : App.Alike Eq x x :=
  (same_of_plain h).mono (fun _ _ he => congrArg PyError.withoutText he) fun _ _ ha => ha

private theorem orRaise_alike {α : Type} {r r' : Except PyError α} (h : SameButTexts r r') :
    App.Alike Eq (orRaise r) (orRaise r') := by
  rcases r with e | a <;> rcases r' with e' | a'
  · exact Script.lockstep_throw h
  · exact h.elim
  · exact h.elim
  · exact Script.lockstep_pure h

/-! ### Processing -/

section Processing

variable {id : ℕ} {workerId : String} {now : Instant}

namespace IngestionRunner

variable {cursor : FetchCursor Json} {authorization : IngestionAuthorization}

theorem store_alike {generation : ℕ} (raws : List RawObservation) :
    App.Alike Eq (store id workerId generation now cursor authorization raws)
      (store id workerId generation now cursor authorization raws) := by
  have hrecord : Plain (recordRows id cursor authorization now raws 0 0) :=
    recordRows_keeps (fun raw => recordRow_keeps (plain_attributes id)
      (fun key => plain_issue fun h => h) (fun candidate => plain_issue fun h => h) raw) raws 0 0
  refine (alike_of_plain (JobQueue.assertOwned_keeps plain_job id workerId generation)).bind ?_
  rintro _ _ rfl
  refine (alike_of_plain (plain_attributes id)).bind ?_
  rintro job _ rfl
  refine Script.lockstep_op.bind fun consumed consumed' hconsumed => ?_
  refine (orRaise_alike hconsumed).bind ?_
  rintro _ _ rfl
  refine alike_of_plain (hrecord.bind ?_)
  rintro ⟨recorded, rejected⟩
  dsimp only
  split
  · exact plain_fail
  · exact (plain_transition id workerId generation _).bind fun _ =>
      (plain_attributes id).bind fun _ => Script.keeps_pure _

/-- A fetch that fails is recorded by the code of its exception alone. -/
theorem fetch_alike :
    App.Alike Eq (fetch id workerId now cursor authorization)
      (fetch id workerId now cursor authorization) := by
  refine (alike_of_plain (JobQueue.generation_keeps plain_job id)).bind ?_
  rintro generation _ rfl
  refine (alike_of_plain (plain_attributes id)).bind ?_
  rintro job _ rfl
  refine Script.lockstep_op.bind fun status status' hstatus => ?_
  refine (orRaise_alike hstatus).bind ?_
  rintro status _ rfl
  split
  · exact alike_of_plain ((plain_transition id workerId generation _).bind fun _ =>
      (plain_attributes id).bind fun _ => Script.keeps_pure _)
  · refine (alike_of_plain (plain_transition id workerId generation _)).bind ?_
    rintro _ _ rfl
    refine Script.lockstep_op.bind fun fetched fetched' hfetched => ?_
    rcases fetched with e | raws <;> rcases fetched' with e' | raws'
    · dsimp only
      rw [PyError.SameType.adapterErrorCode_eq hfetched]
      exact alike_of_plain plain_fail
    · exact hfetched.elim
    · exact hfetched.elim
    · obtain rfl : raws = raws' := hfetched
      exact store_alike raws

/-- The texts that are recorded, of an invalid cursor and of a gate that refuses, come from no
adapter. -/
theorem process_alike :
    App.Alike Eq (process id workerId now) (process id workerId now) := by
  have hresume : ∀ id authorization, App.Alike Eq (resume id workerId now authorization)
      (resume id workerId now authorization) := by
    intro id authorization
    refine (alike_of_plain (plain_attributes id)).bind ?_
    rintro job _ rfl
    split
    · exact fetch_alike
    · refine Script.lockstep_op.bind ?_
      rintro cause _ rfl
      exact alike_of_plain plain_failing
  have hclaim : Plain (claim id workerId now) := by
    refine (plain_attributes id).bind fun job => ?_
    split
    · exact JobQueue.claimJob_keeps plain_job id workerId now
    · exact Script.keeps_pure id
  refine (alike_of_plain hclaim).bind ?_
  rintro id _ rfl
  refine (alike_of_plain (plain_attributes id)).bind ?_
  rintro job _ rfl
  have hgate : Plain (PolicyGate.authorizeIngestion job.source) :=
    PolicyGate.authorizeIngestion_keeps fun capability => plain_issue fun h => h
  refine ((same_of_plain hgate).attempt.mono (fun _ _ he => congrArg _ he) fun _ _ h => h).bind ?_
  rintro (e | authorization) (e' | authorization') houtcome
  · obtain rfl : e = e' := houtcome
    cases e with
    | policyNotAuthorized source blocking => exact alike_of_plain plain_failing
    | _ => exact Script.lockstep_throw rfl
  · exact houtcome.elim
  · exact houtcome.elim
  · obtain rfl : authorization = authorization' := houtcome
    exact hresume id authorization

end IngestionRunner

namespace Scheduler

/-- An exception of one job is recorded by its code, or leaves the job to its new owner, by its
type alone. -/
theorem processJob_alike (outcome : ProcessOutcome) :
    App.Alike Eq (processJob id workerId now outcome) (processJob id workerId now outcome) := by
  have hrun : App.Alike Eq (runJob id workerId now) (runJob id workerId now) := by
    refine (alike_of_plain (plain_attributes id)).bind ?_
    rintro job _ rfl
    refine Script.lockstep_op.bind fun historical historical' hhistorical => ?_
    refine (orRaise_alike hhistorical).bind ?_
    rintro _ _ rfl
    refine (alike_of_plain (plain_attributes id)).bind ?_
    rintro job _ rfl
    refine Script.lockstep_op.bind fun quota quota' hquota => ?_
    refine (orRaise_alike hquota).bind ?_
    rintro _ _ rfl
    exact IngestionRunner.process_alike
  refine hrun.attempt.bind ?_
  rintro (e | result) (e' | result') houtcome
  · dsimp only
    rw [PyError.SameType.isStaleJobClaim_eq houtcome]
    split
    · exact Script.lockstep_pure rfl
    · rw [isolate, PyError.SameType.adapterErrorCode_eq houtcome]
      exact alike_of_plain ((JobQueue.generation_keeps plain_job id).bind fun generation =>
        ((plain_attributes id).bind fun _ => plain_transition id workerId generation _).bind
          fun _ => (plain_attributes id).bind fun _ => Script.keeps_pure _)
  · exact houtcome.elim
  · exact houtcome.elim
  · obtain rfl : result = result' := houtcome
    have htally : Plain (tally id result outcome) := by
      rw [tally]
      split
      · exact Script.keeps_pure _
      · exact (plain_attributes id).bind fun _ => Script.keeps_pure _
    exact alike_of_plain htally

theorem claimAndProcess_alike (settings : Settings) (batchSize : ℕ) :
    App.Alike Eq (claimAndProcess settings now batchSize workerId)
      (claimAndProcess settings now batchSize workerId) := by
  have hjobs : ∀ ids outcome, App.Alike Eq (processJobs workerId now ids outcome)
      (processJobs workerId now ids outcome) := by
    intro ids
    induction ids with
    | nil => exact fun outcome => Script.lockstep_pure rfl
    | cons id rest ih =>
        intro outcome
        refine (processJob_alike outcome).bind ?_
        rintro outcome _ rfl
        exact ih outcome
  have hclaim : Plain (JobQueue.claimNext workerId now none batchSize settings.jobLeaseSeconds) :=
    JobQueue.claimNext_keeps plain_job workerId now none batchSize settings.jobLeaseSeconds
  refine (alike_of_plain hclaim).bind ?_
  rintro claimed _ rfl
  exact hjobs claimed _

end Scheduler

end Processing

/-! ### Refreshing -/

/-- Two events that differ at most in the text of an exception. -/
def RefreshEvent.Alike : RefreshEvent → RefreshEvent → Prop
  | .source s e, .source s' e' => s = s' ∧ e.SameType e'
  | .missing identity, .missing identity' => identity = identity'
  | .listing series r, .listing series' r' => series = series' ∧ SameButTexts r r'
  | _, _ => False

/-- An event counts by the code of its exception. -/
theorem RefreshOutcome.count_alike {event event' : RefreshEvent} (h : event.Alike event')
    (outcome : RefreshOutcome) : outcome.count event = outcome.count event' := by
  rcases event with ⟨source, e⟩ | identity | ⟨series, r⟩ <;>
  rcases event' with ⟨source', e'⟩ | identity' | ⟨series', r'⟩ <;>
  try exact h.elim
  · obtain ⟨rfl, he⟩ := h
    simp only [count, he.adapterErrorCode_eq]
  · obtain rfl : identity = identity' := h
    rfl
  · obtain ⟨rfl, hr⟩ := h
    rcases r with e | r <;> rcases r' with e' | r'
    · simp only [count, PyError.SameType.adapterErrorCode_eq hr]
    · exact hr.elim
    · exact hr.elim
    · obtain rfl : r = r' := hr
      rfl

theorem RefreshOutcome.ofEvents_alike {events events' : List RefreshEvent}
    (h : List.Forall₂ RefreshEvent.Alike events events') :
    RefreshOutcome.ofEvents events = RefreshOutcome.ofEvents events' := by
  have hfold : ∀ outcome, events.foldl RefreshOutcome.count outcome =
      events'.foldl RefreshOutcome.count outcome := by
    induction h with
    | nil => exact fun outcome => rfl
    | cons hevent _ ih =>
        intro outcome
        rw [List.foldl_cons, List.foldl_cons, count_alike hevent]
        exact ih _
  exact hfold _

namespace Refresh

variable {x : Refresh} {calendars' : CalendarRoutes}

/-- A calendar that fails alike gives a plan that fails alike, and otherwise the same plan. -/
theorem planOf_alike {calendar calendar' : Calendar} {args : DispatchArgs}
    (h : ∀ assetClass venue mic first last, SameButTexts (calendar assetClass venue mic first last)
      (calendar' assetClass venue mic first last)) :
    SameButTexts (Dispatch.planOf calendar args) (Dispatch.planOf calendar' args) := by
  rw [Dispatch.planOf, RecoveryPlanner.plan, Dispatch.planOf, RecoveryPlanner.plan]
  cases RecoveryPlanner.startDate (args.limits.getD .default) args.lastCompletedSession
      args.today with
  | error e => exact SameButTexts.refl _
  | ok start =>
      change SameButTexts (if args.today < start then _ else _)
        (if args.today < start then _ else _)
      split
      · exact SameButTexts.refl _
      · exact SameButTexts.bind (h _ _ _ _ _)

/-- A listing whose calendar fails is a listing whose dispatch fails with the same type. -/
theorem dispatchListing_alike (h : x.calendars.Alike calendars') (identity : ExternalIdentity)
    (listing : Listing) :
    App.Alike Eq (x.dispatchListing identity listing)
      ({ x with calendars := calendars' }.dispatchListing identity listing) := by
  refine Script.lockstep_op.bind ?_
  rintro last _ rfl
  let args := x.dispatchArgs identity listing last
  have hcalendar := h listing.mic listing.venue
  change App.Alike Eq
    (orRaise (x.calendars listing.mic listing.venue) >>= (Dispatch.planAndEnqueue · args))
    (orRaise (calendars' listing.mic listing.venue) >>= (Dispatch.planAndEnqueue · args))
  revert hcalendar
  rcases x.calendars listing.mic listing.venue with e | calendar <;>
  rcases calendars' listing.mic listing.venue with e' | calendar' <;> intro hcalendar
  · exact Script.lockstep_throw hcalendar
  · exact hcalendar.elim
  · exact hcalendar.elim
  · have hplan : SameButTexts (Dispatch.planOf calendar args) (Dispatch.planOf calendar' args) :=
      planOf_alike hcalendar
    change App.Alike Eq (Dispatch.planAndEnqueue calendar args)
      (Dispatch.planAndEnqueue calendar' args)
    cases hp : Dispatch.planOf calendar args <;> cases hp' : Dispatch.planOf calendar' args <;>
      rw [hp, hp'] at hplan
    · rw [Dispatch.planAndEnqueue, Dispatch.planAndEnqueue, hp, hp']
      exact Script.lockstep_throw hplan
    · exact hplan.elim
    · exact hplan.elim
    · have hsame : Dispatch.planAndEnqueue calendar' args =
          Dispatch.planAndEnqueue calendar args := by
        rw [Dispatch.planAndEnqueue, Dispatch.planAndEnqueue, hp, hp', show _ = _ from hplan]
      rw [hsame]
      exact alike_of_plain (Dispatch.planAndEnqueue_keeps (fun args => plain_issue fun h => h)
        (fun key => plain_issue fun h => h) (fun id => plain_issue fun h => h) calendar args)

/-- What becomes of a listing is alike. -/
theorem refreshListing_alike (h : x.calendars.Alike calendars') (identity : ExternalIdentity) :
    App.Alike RefreshEvent.Alike (x.refreshListing identity)
      ({ x with calendars := calendars' }.refreshListing identity) := by
  rw [refreshListing, refreshListing]
  cases x.catalog.listing? identity.listingId with
  | none => exact Script.lockstep_pure rfl
  | some listing =>
      refine (dispatchListing_alike h identity listing).attempt.bind fun result result' hr => ?_
      exact Script.lockstep_pure ⟨rfl, hr⟩

theorem getPorts_alike (source : String) : App.Alike Eq (getPorts source) (getPorts source) := by
  refine Script.lockstep_op.bind fun historical historical' hhistorical => ?_
  refine (orRaise_alike hhistorical).bind ?_
  rintro _ _ rfl
  refine Script.lockstep_op.bind fun quota quota' hquota => ?_
  exact orRaise_alike hquota

/-- What becomes of the listings of a source, or of the source, is alike. -/
theorem refreshSource_alike (h : x.calendars.Alike calendars') (source : String) :
    App.Alike (List.Forall₂ RefreshEvent.Alike) (x.refreshSource source)
      ({ x with calendars := calendars' }.refreshSource source) := by
  have hlistings : ∀ identities, App.Alike (List.Forall₂ RefreshEvent.Alike)
      (x.refreshListings identities)
      ({ x with calendars := calendars' }.refreshListings identities) := by
    intro identities
    induction identities with
    | nil => exact Script.lockstep_pure .nil
    | cons identity rest ih =>
        refine (refreshListing_alike h identity).bind fun event event' hevent => ?_
        refine ih.bind fun events events' hevents => ?_
        exact Script.lockstep_pure (.cons hevent hevents)
  refine (getPorts_alike source).attempt.bind ?_
  rintro (e | _) (e' | _) hports
  · exact Script.lockstep_pure (.cons ⟨rfl, hports⟩ .nil)
  · exact hports.elim
  · exact hports.elim
  · exact hlistings _

/-- **The refresh phase reports the same**, whatever the texts of the exceptions that it
catches. -/
theorem program_alike (h : x.calendars.Alike calendars') :
    App.Alike Eq x.program { x with calendars := calendars' }.program := by
  have hsources : ∀ sources, App.Alike (List.Forall₂ RefreshEvent.Alike)
      (x.refreshSources sources) ({ x with calendars := calendars' }.refreshSources sources) := by
    intro sources
    induction sources with
    | nil => exact Script.lockstep_pure .nil
    | cons source rest ih =>
        refine (refreshSource_alike h source).bind fun events events' hevents => ?_
        refine ih.bind fun rest rest' hrest => ?_
        exact Script.lockstep_pure (List.rel_append hevents hrest)
  refine (hsources _).bind fun events events' hevents => ?_
  exact Script.lockstep_pure (RefreshOutcome.ofEvents_alike hevents)

end Refresh

/-! ### Cycles -/

/-- Two programs of a cycle that issue the same commands, whatever the texts of adapters'
exceptions. -/
abbrev CycleApp.Alike {α β : Type} (T : α → β → Prop) (x : CycleApp α) (y : CycleApp β) : Prop :=
  Script.Lockstep CycleCmd.Alike PyError.SameType T x y

/-- Two pairs of faults that differ at most in the texts of their exceptions. -/
structure CycleFaults.Alike (faults faults' : CycleFaults) : Prop where
  refresh : Option.Rel (fun p q => p.1 = q.1 ∧ PyError.SameType p.2 q.2) faults.refresh
    faults'.refresh
  process : Option.Rel (fun p q => p.1 = q.1 ∧ PyError.SameType p.2 q.2) faults.process
    faults'.process

/-- The commands of the recorder. -/
private def IsRecorderCmd : CycleCmd → Prop
  | .work .commit | .rollback | .insertRun _ | .updateRun .. => True
  | _ => False

private theorem recorder_alike {α : Type} {x : CycleApp α} (h : x.run.Only IsRecorderCmd) :
    CycleApp.Alike Eq x x := by
  refine (Script.lockstep_of_only h fun c r r' hc hr => ?_).mono
    (fun _ _ he => congrArg PyError.withoutText he) fun _ _ ha => ha
  cases c with
  | work c => cases c <;> first | exact hr | exact hc.elim
  | _ => exact hr

private theorem recordScheduler_alike {run : ℕ} {status : SchedulerRunStatus}
    {errorCode : Option String} :
    CycleApp.Alike Eq (SchedulerRunRecorder.recordSchedulerResult run status errorCode)
      (SchedulerRunRecorder.recordSchedulerResult run status errorCode) :=
  recorder_alike ⟨trivial, fun _ => ⟨trivial, fun _ => trivial⟩⟩

private theorem recordWorker_alike {run : ℕ} {status : SchedulerRunStatus}
    {errorCode : Option String} :
    CycleApp.Alike Eq (SchedulerRunRecorder.recordWorkerResult run status errorCode)
      (SchedulerRunRecorder.recordWorkerResult run status errorCode) :=
  recorder_alike ⟨trivial, fun _ => ⟨trivial, fun _ => trivial⟩⟩

private theorem commitSession_alike : CycleApp.Alike Eq commitSession commitSession :=
  recorder_alike ⟨trivial, fun _ => trivial⟩

private theorem rollback_alike : CycleApp.Alike Eq (perform .rollback) (perform .rollback) :=
  recorder_alike ⟨trivial, fun _ => trivial⟩

theorem phase_alike {α β : Type} {T : α → β → Prop} {x : App α} {y : App β}
    (h : App.Alike T x y) : CycleApp.Alike T (phase x) (phase y) :=
  h.embed fun _ _ _ hr => hr

namespace Cycle

variable {x : Cycle} {calendars' : CalendarRoutes} {faults faults' : CycleFaults} {run : ℕ}
  {e e' : PyError}

/-- The cycle with other calendar adapters. -/
def withCalendars (x : Cycle) (calendars : CalendarRoutes) : Cycle :=
  { x with refresh := { x.refresh with calendars := calendars } }

/-- The failure of the refresh phase is recorded by its code. -/
theorem refreshFailed_alike (h : e.SameType e') :
    CycleApp.Alike Eq (refreshFailed run e) (refreshFailed run e') := by
  rw [refreshFailed, refreshFailed, h.adapterErrorCode_eq]
  refine rollback_alike.bind ?_
  rintro _ _ rfl
  refine recordScheduler_alike.bind ?_
  rintro _ _ rfl
  refine recordWorker_alike.bind ?_
  rintro _ _ rfl
  exact Script.lockstep_throw h

/-- So is that of the processing phase. -/
theorem processFailed_alike (h : e.SameType e') :
    CycleApp.Alike Eq (processFailed run e) (processFailed run e') := by
  rw [processFailed, processFailed, h.adapterErrorCode_eq]
  refine rollback_alike.bind ?_
  rintro _ _ rfl
  refine recordWorker_alike.bind ?_
  rintro _ _ rfl
  exact Script.lockstep_throw h

theorem process_alike (hfaults : faults.Alike faults') (refresh : RefreshOutcome) :
    CycleApp.Alike Eq (x.process faults run refresh)
      ((x.withCalendars calendars').process faults' run refresh) := by
  refine commitSession_alike.bind ?_
  rintro _ _ rfl
  refine recordScheduler_alike.bind ?_
  rintro _ _ rfl
  have hphase : CycleApp.Alike Eq (x.claimAndProcess faults)
      ((x.withCalendars calendars').claimAndProcess faults') :=
    phase_alike ((Scheduler.claimAndProcess_alike _ _).interrupt hfaults.process)
  refine hphase.attempt.bind ?_
  rintro (e | processed) (e' | processed') houtcome
  · exact processFailed_alike houtcome
  · exact houtcome.elim
  · exact houtcome.elim
  · obtain rfl : processed = processed' := houtcome
    refine commitSession_alike.bind ?_
    rintro _ _ rfl
    refine recordWorker_alike.bind ?_
    rintro _ _ rfl
    exact Script.lockstep_pure rfl

/-- **A cycle issues the same commands**, whatever the texts of the exceptions of the adapters
and of its phases. -/
theorem program_alike (hcalendars : x.refresh.calendars.Alike calendars')
    (hfaults : faults.Alike faults') :
    CycleApp.Alike Eq (x.program faults) ((x.withCalendars calendars').program faults') := by
  have hstart : CycleApp.Alike Eq (SchedulerRunRecorder.start x.refresh.now)
      (SchedulerRunRecorder.start x.refresh.now) :=
    recorder_alike ⟨trivial, fun _ => ⟨trivial, fun _ => trivial⟩⟩
  refine hstart.bind ?_
  rintro run _ rfl
  have hphase : CycleApp.Alike Eq (x.refreshAndDispatch faults)
      ((x.withCalendars calendars').refreshAndDispatch faults') :=
    phase_alike ((Refresh.program_alike hcalendars).interrupt hfaults.refresh)
  refine hphase.attempt.bind ?_
  rintro (e | refresh) (e' | refresh') houtcome
  · exact refreshFailed_alike houtcome
  · exact houtcome.elim
  · exact houtcome.elim
  · obtain rfl : refresh = refresh' := houtcome
    exact process_alike hfaults refresh

end Cycle

/-! ### Metrics -/

/-- A quota that cannot be read is reported by the code of the exception. -/
theorem sourceQuota_alike (source : String) :
    CycleApp.Alike Eq (sourceQuota source) (sourceQuota source) := by
  have hcheck : App.Alike Eq (checkSource source) (checkSource source) := by
    refine Script.lockstep_op.bind fun port port' hport => ?_
    refine (orRaise_alike hport).bind ?_
    rintro _ _ rfl
    refine Script.lockstep_op.bind fun status status' hstatus => ?_
    exact orRaise_alike hstatus
  refine (phase_alike hcheck).attempt.bind ?_
  rintro (e | status) (e' | status') houtcome
  · dsimp only
    rw [PyError.SameType.adapterErrorCode_eq houtcome]
    exact Script.lockstep_pure rfl
  · exact houtcome.elim
  · exact houtcome.elim
  · obtain rfl : status = status' := houtcome
    exact Script.lockstep_pure rfl

theorem collectSchedulerMetrics_alike (now : Instant) (threshold : ℤ) (sources : List String) :
    CycleApp.Alike Eq (collectSchedulerMetrics now threshold sources)
      (collectSchedulerMetrics now threshold sources) := by
  have hquotas : ∀ sources, CycleApp.Alike Eq (quotaSnapshots sources) (quotaSnapshots sources) := by
    intro sources
    induction sources with
    | nil => exact Script.lockstep_pure rfl
    | cons source rest ih =>
        refine (sourceQuota_alike source).bind ?_
        rintro snapshot _ rfl
        refine ih.bind ?_
        rintro snapshots _ rfl
        exact Script.lockstep_pure rfl
  refine Script.lockstep_op.bind ?_
  rintro pending _ rfl
  refine Script.lockstep_op.bind ?_
  rintro oldest _ rfl
  refine (hquotas sources).bind ?_
  rintro quotas _ rfl
  refine Script.lockstep_op.bind ?_
  rintro done _ rfl
  refine Script.lockstep_op.bind ?_
  rintro failed _ rfl
  refine Script.lockstep_op.bind ?_
  rintro scheduler _ rfl
  refine Script.lockstep_op.bind ?_
  rintro worker _ rfl
  exact Script.lockstep_pure rfl

/-! ### Two runs -/

/-- A cycle, however it ends, and the metrics that are collected after it. -/
def Cycle.observed (x : Cycle) (faults : CycleFaults) (now : Instant) (threshold : ℤ)
    (sources : List String) :
    CycleApp (Except PyError SchedulerCycleResult × SchedulerMetricsSnapshot) := do
  let result ← Script.attempt (x.program faults)
  let snapshot ← collectSchedulerMetrics now threshold sources
  return (result, snapshot)

/-- A cycle that raises does not keep the metrics from being collected. -/
theorem observed_returns {x : Cycle} {faults : CycleFaults} {now : Instant} {threshold : ℤ}
    {sources : List String} {t t' : Transaction} {l l' : Session}
    {r : Except PyError (Except PyError SchedulerCycleResult × SchedulerMetricsSnapshot)}
    (h : (x.observed faults now threshold sources).Executes cycleSemantics t l r t' l') :
    ∃ out, r = .ok out := by
  obtain ⟨result, t₁, l₁, -, h⟩ := Script.executes_attempt_bind.mp h
  obtain ⟨snapshot, t₂, l₂, -, h⟩ := Script.executes_bind_of_returns (fun e t₂ l₂ hfail => by
    obtain ⟨-, _, hr, -⟩ := collectSchedulerMetrics_executes hfail
    exact absurd hr (by simp)) h
  obtain ⟨rfl, -, -⟩ := Script.executes_pure.mp h
  exact ⟨_, rfl⟩

/-- **No text of an adapter's exception reaches anything persisted or reported.** Of two runs
from the same state with adapters that behave identically except for the texts of their
exceptions, the second completes when the first does, with the same database (committed and
uncommitted), the same outcomes of both phases or an exception of the same type, and the same
snapshot. -/
theorem error_texts_invisible {x : Cycle} {calendars' : CalendarRoutes}
    {faults faults' : CycleFaults} {answers answers' : List Answers} {now : Instant}
    {threshold : ℤ} {sources : List String} {t t' : Transaction} {l l' : Session}
    {r : Except PyError (Except PyError SchedulerCycleResult × SchedulerMetricsSnapshot)}
    (hcalendars : x.refresh.calendars.Alike calendars') (hfaults : faults.Alike faults')
    (hanswers : List.Forall₂ Answers.Alike answers answers')
    (h : (x.observed faults now threshold sources).run.execute cycleSemantics answers t l =
      some (r, t', l')) :
    ∃ result result' snapshot, r = .ok (result, snapshot) ∧ SameButTexts result result' ∧
      ((x.withCalendars calendars').observed faults' now threshold sources).run.execute
        cycleSemantics answers' t l = some (.ok (result', snapshot), t', l') := by
  have halike : CycleApp.Alike (fun p q => SameButTexts p.1 q.1 ∧ p.2 = q.2)
      (x.observed faults now threshold sources)
      ((x.withCalendars calendars').observed faults' now threshold sources) := by
    refine (Cycle.program_alike hcalendars hfaults).attempt.bind fun result result' hresult => ?_
    refine (collectSchedulerMetrics_alike now threshold sources).bind ?_
    rintro snapshot _ rfl
    exact Script.lockstep_pure ⟨hresult, rfl⟩
  obtain ⟨r', hrun, hr⟩ := Prog.Lockstep.execute halike
    (fun c e e' t l he => cycleExec_alike c he t l) hanswers h
  obtain ⟨⟨result, snapshot⟩, rfl⟩ := observed_returns ⟨answers, h⟩
  rcases r' with e | ⟨result', snapshot'⟩
  · exact hr.elim
  · obtain ⟨hresult, rfl⟩ : SameButTexts result result' ∧ snapshot = snapshot' := hr
    exact ⟨result, result', snapshot, rfl, hresult, hrun⟩

/-- Two cycles in which the adapter of the only source is missing, each with a text of its
own. -/
theorem error_texts_invisible_missing :
    let x : Cycle := ⟨dailyRefresh 0, 1, "scheduler"⟩
    let missing (text : String) : Answers :=
      { (default : Answers) with port := .error (.adapter "RuntimeError" text) }
    let s : CycleDb := ⟨⟨Table.empty, Table.empty, Table.empty⟩, Table.empty⟩
    ∃ result result' snapshot t l,
      (x.observed ⟨none, none⟩ 0 1 ["fake"]).run.execute cycleSemantics
        (List.replicate 21 (missing "a")) (.start s) Session.new =
          some (.ok (result, snapshot), t, l) ∧
      (x.observed ⟨none, none⟩ 0 1 ["fake"]).run.execute cycleSemantics
        (List.replicate 21 (missing "b")) (.start s) Session.new =
          some (.ok (result', snapshot), t, l) ∧
      result = .ok ⟨⟨0, 0, ["fake: adapter_error"]⟩, .start 0⟩ ∧
      SameButTexts result result' := by
  intro x missing s
  have hrun : (((x.observed ⟨none, none⟩ 0 1 ["fake"]).run.execute cycleSemantics
      (List.replicate 21 (missing "a")) (.start s) Session.new).any fun out =>
        out.1.toOption.any fun out => decide
          (out.1 = .ok ⟨⟨0, 0, ["fake: adapter_error"]⟩, .start 0⟩)) = true := by decide +kernel
  obtain ⟨⟨r, t, l⟩, hout, hend⟩ := (Option.any_eq_true _ _).mp hrun
  have hcalendars : x.refresh.calendars.Alike x.refresh.calendars := fun mic venue =>
    fun _ _ _ _ _ => SameButTexts.refl _
  have hmissing : (missing "a").Alike (missing "b") := ⟨rfl, rfl, rfl, rfl, rfl, rfl⟩
  have hanswers : ∀ n, List.Forall₂ Answers.Alike (List.replicate n (missing "a"))
      (List.replicate n (missing "b")) := by
    intro n
    induction n with
    | zero => exact .nil
    | succ n ih => exact .cons hmissing ih
  have hfaults : CycleFaults.Alike ⟨none, none⟩ ⟨none, none⟩ := ⟨.none, .none⟩
  obtain ⟨result, result', snapshot, rfl, hsame, hrun'⟩ :=
    error_texts_invisible hcalendars hfaults (hanswers 21) hout
  exact ⟨result, result', snapshot, t, l, hout, hrun', of_decide_eq_true hend, hsame⟩

end MarketRelay
