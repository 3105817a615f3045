import MarketRelay.ConsumerApi

/-!
# What a Consumer Can Learn

A scope opens a view of the service: the catalog, what the publication policy lets out, the ages of
the open jobs, or counts by source. Two services that a consumer's scopes show alike answer every
request of the consumer alike, whatever else is different: observations that are not published,
evidence of decisions, cursors and errors of jobs, claims, texts of adapters.

So nothing that is stored of an unpublished source shows, and with it none of the work on it.

## Main results

* `consumer_learns_scopes_only`: the responses are determined by the views of the consumer's
  scopes.
* `unpublished_work_invisible`: whatever any threads do for unpublished sources, a reader of the
  catalog and the observations sees no difference.
-/

open Relational Interaction Gregorian

namespace MarketRelay

/-! ### Published observations -/

namespace ObservationView

variable {db db' : Db}

/-- What is selected is visible. -/
theorem selected_visible {listingId : ℕ} {sessionDate : Date} {observationType : ObservationType}
    {policy : SourcePriorityPolicy} {result : SelectionResult}
    (h : ObservationSelector.select db listingId sessionDate observationType policy = .ok result) :
    result.selected ∈ ObservationSelector.visibleRows db := by
  rw [ObservationSelector.select] at h
  split at h
  · exact absurd h (by simp)
  · rename_i selected hfind
    obtain rfl := Except.ok.inj h
    obtain ⟨source, -, hlookup⟩ := List.exists_of_findSome?_eq_some hfind
    have hentry := mem_of_lookup? hlookup
    rw [ObservationSelector.currentPublishableBySource_eq] at hentry
    obtain ⟨entry, hcandidate, heq⟩ := List.mem_map.mp (mem_groupBest hentry).1
    have heq : entry.2 = selected := heq
    exact heq ▸ List.mem_of_mem_filter (mem_groupBest hcandidate).1

/-- The dates of the authorized sources are the dates of the visible rows. -/
theorem sessionDates_visible (listing : Listing) (observationType : ObservationType)
    (sources : List String) :
    sessionDates db.observations.rows listing observationType
        (sources.filter (PolicyGate.publicationAuthorized db.decisions)) =
      sessionDates (ObservationSelector.visibleRows db) listing observationType sources := by
  rw [sessionDates, sessionDates, ObservationSelector.visibleRows, List.filter_filter]
  refine congrArg _ (List.filter_congr fun o _ => ?_)
  cases hauth : PolicyGate.publicationAuthorized db.decisions o.key.source <;>
    simp [List.mem_filter, hauth]

/-- What is published: the visible rows, and the attribution that their sources require. -/
structure SamePublished (db db' : Db) : Prop where
  rows : ObservationSelector.visibleRows db = ObservationSelector.visibleRows db'
  attribution : ∀ o ∈ ObservationSelector.visibleRows db,
    attributionFor db o.key.source = attributionFor db' o.key.source

namespace SamePublished

variable (h : SamePublished db db') (listing : Listing) (observationType : ObservationType)
  (settings : Settings) (calendar : Calendar)

include h

theorem buildObservationOut (d : Date) :
    buildObservationOut db listing d observationType settings calendar =
      ObservationView.buildObservationOut db' listing d observationType settings calendar := by
  rw [ObservationView.buildObservationOut, ObservationView.buildObservationOut,
    ← select_congr h.rows]
  cases hselect : ObservationSelector.select db listing.id d observationType
      (priorityPolicy settings) with
  | error e => rfl
  | ok result =>
      have hvalue : valueOut db result = valueOut db' result := by
        simp only [valueOut, h.attribution _ (selected_visible hselect)]
      simp only [hvalue]

theorem findLatestObservation (today : Date) :
    findLatestObservation db listing observationType settings calendar today =
      ObservationView.findLatestObservation db' listing observationType settings calendar
        today := by
  have hloop : ∀ offsets,
      findLatestLoop db listing observationType settings calendar today offsets =
        findLatestLoop db' listing observationType settings calendar today offsets := by
    intro offsets
    induction offsets with
    | nil => rfl
    | cons offset rest ih => simp only [findLatestLoop, h.buildObservationOut, ih]
  simp only [ObservationView.findLatestObservation, hloop, h.buildObservationOut]

theorem buildObservationRange (start final : Date) :
    buildObservationRange db listing observationType start final settings calendar =
      ObservationView.buildObservationRange db' listing observationType start final settings
        calendar := by
  have hloop : ∀ left current,
      rangeLoop db listing observationType settings calendar left current =
        rangeLoop db' listing observationType settings calendar left current := by
    intro left
    induction left with
    | zero => exact fun current => rfl
    | succ left ih =>
        intro current
        simp only [rangeLoop, h.buildObservationOut, ih]
  exact hloop _ start

theorem latestPublishableSessionDate :
    latestPublishableSessionDate db listing observationType settings =
      ObservationView.latestPublishableSessionDate db' listing observationType settings := by
  rw [latestPublishableSessionDate_eq, latestPublishableSessionDate_eq, sessionDates_visible,
    sessionDates_visible, h.rows]

end SamePublished

end ObservationView

/-! ### The queue -/

/-- What the operational status shows of the jobs: the status and the age of the open ones. -/
def openJobs (t : JobTable) : List (JobStatus × Instant) :=
  (t.rows.filter fun j => decide (j.status = .pending ∨ j.status = .claimed)).map fun j =>
    (j.status, j.createdAt)

/-- What the metrics show of the jobs. -/
def jobMarks (t : JobTable) : List (String × JobStatus × Instant) :=
  t.rows.map fun j => (j.source, j.status, j.createdAt)

section Queue

variable {t t' : JobTable}

theorem operationalStatus_congr (h : openJobs t = openJobs t') (environment : String)
    (threshold : ℤ) (now : Instant) :
    operationalStatus environment threshold now t =
      operationalStatus environment threshold now t' := by
  have hdepth : ∀ t : JobTable, JobQueue.depth none t = (openJobs t).length := by
    intro t
    rw [JobQueue.depth, openJobs, List.length_map]
    simp
  have hcreated : ∀ t : JobTable,
      (t.rows.filter fun j => decide (j.status = .pending)).map Job.createdAt =
        ((openJobs t).filter fun e => decide (e.1 = .pending)).map Prod.snd := by
    intro t
    rw [openJobs, List.filter_map, List.filter_filter, List.map_map]
    refine congrArg _ (List.filter_congr fun j _ => ?_)
    by_cases hpending : j.status = .pending <;> simp [hpending]
  simp only [operationalStatus, JobQueue.oldestPendingAgeSeconds, hdepth, hcreated, h]

theorem countBySource_congr (h : jobMarks t = jobMarks t') (p : JobStatus → Bool) :
    countBySource p t = countBySource p t' := by
  have hsources : ∀ t : JobTable, (t.rows.filter fun j => p j.status).map Job.source =
      ((jobMarks t).filter fun e => p e.2.1).map Prod.fst := by
    intro t
    rw [jobMarks, List.filter_map, List.map_map]
    rfl
  simp only [countBySource, hsources, h]

theorem oldestPendingBySource_congr (h : jobMarks t = jobMarks t') :
    oldestPendingBySource t = oldestPendingBySource t' := by
  have holdest : ∀ t : JobTable, oldestPendingBySource t =
      (groupBest (fun e : String × JobStatus × Instant => e.1)
        (fun e best => decide (e.2.2 < best.2.2))
        ((jobMarks t).filter fun e => decide (e.2.1 = .pending))).map fun entry =>
          (entry.1, entry.2.2.2) := by
    intro t
    rw [jobMarks, List.filter_map, ← groupBest_map, List.map_map]
    rfl
  rw [holdest, holdest, h]

theorem doneCount_congr (h : jobMarks t = jobMarks t') :
    (t.count fun j => decide (j.status = .done)) = t'.count fun j => decide (j.status = .done) := by
  have hcount : ∀ t : JobTable, (t.count fun j => decide (j.status = .done)) =
      (jobMarks t).countP fun e => decide (e.2.1 = .done) := by
    intro t
    rw [jobMarks, List.countP_map]
    rfl
  rw [hcount, hcount, h]

end Queue

/-! ### Views -/

namespace Service

/-- The services are configured alike. -/
structure SameConfig (s s' : Service) : Prop where
  serviceName : s.serviceName = s'.serviceName
  environmentName : s.environmentName = s'.environmentName
  settings : s.settings = s'.settings
  threshold : s.stalledJobThresholdSeconds = s'.stalledJobThresholdSeconds
  credentials : s.credentials = s'.credentials
  environment : s.environment = s'.environment

/-- The services publish the same of every listing. -/
structure SameData (s s' : Service) : Prop where
  published : ObservationView.SamePublished s.tables.db s'.tables.db
  calendars : s.calendars = s'.calendars
  today : s.today = s'.today

/-- The services have the same open jobs. -/
structure SameQueue (s s' : Service) : Prop where
  jobs : openJobs s.tables.db.jobs = openJobs s'.tables.db.jobs
  now : s.now = s'.now

/-- The services count the same. -/
structure SameCounts (s s' : Service) : Prop where
  jobs : jobMarks s.tables.db.jobs = jobMarks s'.tables.db.jobs
  runs : ∀ phase, (s.tables.runs.count fun run => decide (run.statusOf phase = some .success)) =
    s'.tables.runs.count fun run => decide (run.statusOf phase = some .success)
  quotas : ∀ source ∈ s.settings.enabledSources, s.sourceQuota source = s'.sourceQuota source
  now : s.now = s'.now

/-- The services look alike through the scope. -/
structure Alike (scope : String) (s s' : Service) : Prop where
  catalog : scope = catalogReadScope → s.catalog = s'.catalog ∧ s.SameData s'
  observations : scope = observationsReadScope →
    (∀ listingId, (s.catalog.getListing listingId).map viewed =
      (s'.catalog.getListing listingId).map viewed) ∧ s.SameData s'
  operations : scope = operationsReadScope → s.SameQueue s'
  metrics : scope = operationsMetricsScope → s.SameCounts s'

variable {upperCase : String → String} {s s' : Service}

/-! ### Handlers -/

/-- Listings that are viewed alike are found alike. -/
theorem resolveListing_cases {listingId : ℕ}
    (hlisting : (s.catalog.getListing listingId).map viewed =
      (s'.catalog.getListing listingId).map viewed) :
    (∃ e, s.resolveListing listingId = .error e ∧ s'.resolveListing listingId = .error e) ∨
      ∃ row row', s.resolveListing listingId = .ok row ∧ s'.resolveListing listingId = .ok row' ∧
        viewed row = viewed row' := by
  cases hrow : s.catalog.getListing listingId with
  | none =>
      rw [hrow, Option.map_none, eq_comm, Option.map_eq_none_iff] at hlisting
      exact Or.inl ⟨_, resolveListing_eq_error hrow, resolveListing_eq_error hlisting⟩
  | some row =>
      rw [hrow, Option.map_some, eq_comm, Option.map_eq_some_iff] at hlisting
      obtain ⟨row', hrow', hviewed⟩ := hlisting
      exact Or.inr ⟨row, row', resolveListing_eq_ok hrow, resolveListing_eq_ok hrow', hviewed.symm⟩

variable {listingId : ℕ} {observationType : ObservationType}
  (hlisting : (s.catalog.getListing listingId).map viewed =
    (s'.catalog.getListing listingId).map viewed)
  (hsettings : s.settings = s'.settings) (hdata : s.SameData s')

include hlisting hsettings hdata

theorem latestObservation_congr :
    s.latestObservation listingId observationType =
      s'.latestObservation listingId observationType := by
  rw [latestObservation, latestObservation]
  rcases resolveListing_cases hlisting with ⟨e, he, he'⟩ | ⟨row, row', hrow, hrow', hviewed⟩
  · rw [he, he']
    rfl
  · simp only [hrow, hrow', bind, Except.bind, hviewed, hsettings, hdata.calendars, hdata.today,
      hdata.published.findLatestObservation]

theorem observationRange_congr {start final : Date} :
    s.observationRange listingId start final observationType =
      s'.observationRange listingId start final observationType := by
  rw [observationRange, observationRange]
  split
  · rfl
  split
  · rfl
  rcases resolveListing_cases hlisting with ⟨e, he, he'⟩ | ⟨row, row', hrow, hrow', hviewed⟩
  · rw [he, he']
    rfl
  · simp only [hrow, hrow', bind, Except.bind, hviewed, hsettings, hdata.calendars,
      hdata.published.buildObservationRange]

theorem dataStatus_congr :
    s.dataStatus listingId observationType = s'.dataStatus listingId observationType := by
  rw [dataStatus, dataStatus]
  rcases resolveListing_cases hlisting with ⟨e, he, he'⟩ | ⟨row, row', hrow, hrow', hviewed⟩
  · rw [he, he']
    rfl
  · simp only [hrow, hrow', bind, Except.bind, hviewed, hsettings, hdata.calendars, hdata.today,
      hdata.published.findLatestObservation, hdata.published.latestPublishableSessionDate]

omit hlisting hsettings hdata in
theorem schedulerMetrics_congr (hconfig : s.SameConfig s') (h : s.SameCounts s') :
    s.schedulerMetrics = s'.schedulerMetrics := by
  have hquotas : s.settings.enabledSources.map s.sourceQuota =
      s'.settings.enabledSources.map s'.sourceQuota := by
    rw [← hconfig.settings]
    exact List.map_congr_left h.quotas
  simp only [schedulerMetrics, CycleDb.metrics, countBySource_congr h.jobs,
    oldestPendingBySource_congr h.jobs, doneCount_congr h.jobs, h.runs, h.now, hconfig.threshold,
    hquotas]

omit hlisting hsettings hdata

/-- The handler of a route sees what its scope shows. -/
theorem handle_congr (hconfig : s.SameConfig s') {request : Request} {scope : String}
    (hscope : request.scope = some scope) (halike : s.Alike scope s') :
    s.handle upperCase request = s'.handle upperCase request := by
  cases request with
  | health => exact absurd hscope (by simp [Request.scope])
  | searchInstruments criteria =>
      obtain ⟨hcatalog, -⟩ := halike.catalog (Option.some.inj hscope).symm
      simp only [handle, searchInstruments, hcatalog]
  | getListing listingId =>
      obtain ⟨hcatalog, -⟩ := halike.catalog (Option.some.inj hscope).symm
      simp only [handle, getListing, resolveListing, hcatalog]
  | latestObservation listingId observationType =>
      obtain ⟨hlistings, hdata⟩ := halike.observations (Option.some.inj hscope).symm
      simp only [handle, latestObservation_congr (hlistings listingId) hconfig.settings hdata]
  | observationRange listingId start final observationType =>
      obtain ⟨hlistings, hdata⟩ := halike.observations (Option.some.inj hscope).symm
      simp only [handle, observationRange_congr (hlistings listingId) hconfig.settings hdata]
  | dataStatus listingId observationType =>
      obtain ⟨hcatalog, hdata⟩ := halike.catalog (Option.some.inj hscope).symm
      simp only [handle, dataStatus_congr (by rw [hcatalog]) hconfig.settings hdata]
  | operationalStatus =>
      have hqueue := halike.operations (Option.some.inj hscope).symm
      simp only [handle, operationalStatus_congr hqueue.jobs, hqueue.now, hconfig.environmentName,
        hconfig.threshold]
  | schedulerMetrics =>
      have hcounts := halike.metrics (Option.some.inj hscope).symm
      simp only [handle, schedulerMetrics_congr hconfig hcounts]

end Service

/-- An admitted consumer is authenticated, and has the scope. -/
theorem requireScope_eq_ok {scope correlationId : String} {credentials : List ConsumerCredential}
    {environment : Environment} {authorization : Option String} {identity : ConsumerIdentity}
    (h : requireScope scope credentials environment correlationId authorization = .ok identity) :
    ConsumerAuthenticator.authenticate credentials environment (extractBearerToken authorization) =
      .ok identity ∧ scope ∈ identity.scopes := by
  rw [requireScope] at h
  cases hauthenticate : ConsumerAuthenticator.authenticate credentials environment
      (extractBearerToken authorization) with
  | error e =>
      rw [hauthenticate] at h
      cases e <;> exact absurd h (by simp [bind, Except.bind])
  | ok identity' =>
      rw [hauthenticate] at h
      by_cases hscope : identity'.hasScope scope = true
      · simp only [bind, Except.bind, ConsumerAuthenticator.authorize, hscope, if_true, pure,
          Except.pure] at h
        obtain rfl := Except.ok.inj h
        exact ⟨rfl, by simpa [ConsumerIdentity.hasScope] using hscope⟩
      · exact absurd h (by simp [bind, Except.bind, ConsumerAuthenticator.authorize, hscope])

namespace Service

variable {upperCase : String → String} {s s' : Service} {correlationId : String}
  {authorization : Option String}

/-- The scopes of the consumer who presents the key. -/
def HasScope (s : Service) (authorization : Option String) (scope : String) : Prop :=
  ∃ identity, ConsumerAuthenticator.authenticate s.credentials s.environment
    (extractBearerToken authorization) = .ok identity ∧ scope ∈ identity.scopes

/-- Services that look alike through the scopes of a consumer respond alike. -/
theorem respond_congr (hconfig : s.SameConfig s')
    (halike : ∀ scope, s.HasScope authorization scope → s.Alike scope s') (request : Request) :
    s.respond upperCase correlationId authorization request =
      s'.respond upperCase correlationId authorization request := by
  have haccess : ∀ scope, s.access correlationId authorization scope =
      s'.access correlationId authorization scope := by
    intro scope
    cases scope with
    | none => rfl
    | some scope => rw [access, access, hconfig.credentials, hconfig.environment]
  cases hadmitted : s.access correlationId authorization request.scope with
  | error e =>
      rw [respond_of_refused hadmitted, respond_of_refused ((haccess _).symm.trans hadmitted)]
  | ok u =>
      have hhandle : s.handle upperCase request = s'.handle upperCase request := by
        cases hscope : request.scope with
        | none =>
            cases request with
            | health => simp only [handle, hconfig.serviceName, hconfig.environmentName]
            | _ => exact absurd hscope (by simp [Request.scope])
        | some scope =>
            refine handle_congr hconfig hscope (halike scope ?_)
            rw [hscope, access] at hadmitted
            cases hrequire : requireScope scope s.credentials s.environment correlationId
                authorization with
            | error e =>
                rw [hrequire] at hadmitted
                exact absurd hadmitted (by simp [Except.map])
            | ok identity => exact ⟨identity, requireScope_eq_ok hrequire⟩
      rw [respond_of_admits hadmitted, respond_of_admits ((haccess _).symm.trans hadmitted),
        hhandle]

end Service

/-- **A consumer learns what its scopes show, and nothing else**: two services that are configured
alike, and look alike through each scope of the consumer, answer all its requests alike. -/
theorem consumer_learns_scopes_only {s s' : Service} {authorization : Option String}
    (hconfig : s.SameConfig s')
    (halike : ∀ scope, s.HasScope authorization scope → s.Alike scope s')
    (upperCase : String → String) (correlationId : String) (request : Request) :
    s.respond upperCase correlationId authorization request =
      s'.respond upperCase correlationId authorization request :=
  Service.respond_congr hconfig halike request

/-- The scopes of the consumer of the sample service. -/
theorem sampleService_hasScope {scope : String}
    (h : sampleService.HasScope (some "Bearer key") scope) :
    scope = catalogReadScope ∨ scope = observationsReadScope := by
  obtain ⟨identity, hidentity, hscope⟩ := h
  have hauthenticate : ConsumerAuthenticator.authenticate sampleService.credentials
      sampleService.environment (extractBearerToken (some "Bearer key")) =
        .ok ⟨"holdria", [catalogReadScope, observationsReadScope]⟩ := by decide +kernel
  obtain rfl := Except.ok.inj (hauthenticate.symm.trans hidentity)
  simpa using hscope

/-- A consumer without a scope for the operations does not see that quotas cannot be read. -/
theorem consumer_learns_scopes_only_quotas :
    sampleService.respond id "1" (some "Bearer key") .schedulerMetrics =
      { sampleService with quotas := fun _ => .error .providerTimeout }.respond id "1"
        (some "Bearer key") .schedulerMetrics := by
  have hconfig : sampleService.SameConfig
      { sampleService with quotas := fun _ => .error .providerTimeout } :=
    ⟨rfl, rfl, rfl, rfl, rfl, rfl⟩
  have hdata : sampleService.SameData
      { sampleService with quotas := fun _ => .error .providerTimeout } :=
    ⟨⟨rfl, fun _ _ => rfl⟩, rfl, rfl⟩
  refine consumer_learns_scopes_only hconfig (fun scope hscope => ?_) id "1" _
  have hscopes := sampleService_hasScope hscope
  refine ⟨fun _ => ⟨rfl, hdata⟩, fun _ => ⟨fun _ => rfl, hdata⟩, ?_, ?_⟩
  · rintro rfl
    exact absurd hscopes (by decide)
  · rintro rfl
    exact absurd hscopes (by decide)

/-! ### Unpublished work -/

/-- The command records no decision, and stores nothing of a source whose publication is
authorized. -/
def Cmd.Unpublished (db : Db) : Cmd → Prop
  | .insertDecision _ => False
  | .insertObservation candidate =>
    PolicyGate.publicationAuthorized db.decisions candidate.key.source = false
  | _ => True

/-- Any commands of any threads, one after another, that leave what is published alone. -/
inductive UnpublishedWork : Db → Db → Prop
  | refl (db : Db) : UnpublishedWork db db
  | step {db db' : Db} (h : UnpublishedWork db db') (c : Cmd) (e : Answers) (l : Session)
      (hc : c.Unpublished db') : UnpublishedWork db (exec c e db' l).2.1

/-- Such a command changes no visible row. -/
theorem visibleRows_exec {c : Cmd} {e : Answers} {db : Db} {l : Session} (hc : c.Unpublished db) :
    (exec c e db l).2.1.decisions = db.decisions ∧
      ObservationSelector.visibleRows (exec c e db l).2.1 = ObservationSelector.visibleRows db := by
  have hdecisions : (exec c e db l).2.1.decisions = db.decisions := by
    rcases decisions_exec c e db l with hsame | ⟨d, rfl, -⟩
    · exact hsame
    · exact hc.elim
  refine ⟨hdecisions, ?_⟩
  rw [ObservationSelector.visibleRows, ObservationSelector.visibleRows, hdecisions]
  cases c with
  | insertObservation candidate =>
      rw [exec]
      split
      · rename_i t ht
        have hrows := (Table.insert?_eq_some_iff.mp ht).2
        have hhidden : PolicyGate.publicationAuthorized db.decisions
            (candidate.row (db.observations.draw e.uuid)).key.source = false := hc
        simp only [hrows, List.filter_append, List.filter_cons, hhidden, List.filter_nil]
        simp
      · rfl
  | insertDecision d => exact hc.elim
  | insertJob args | selectJob key =>
      rw [exec]
      split <;> rfl
  | _ => rfl

theorem UnpublishedWork.samePublished {db db' : Db} (h : UnpublishedWork db db') :
    db'.decisions = db.decisions ∧ ObservationView.SamePublished db db' := by
  induction h with
  | refl => exact ⟨rfl, rfl, fun _ _ => rfl⟩
  | step _ c e l hc ih =>
      obtain ⟨hdecisions, hpublished⟩ := ih
      obtain ⟨hdecisions', hrows⟩ := visibleRows_exec (e := e) (l := l) hc
      have hsame := hdecisions'.trans hdecisions
      refine ⟨hsame, hpublished.rows.trans hrows.symm, fun o _ => ?_⟩
      rw [ObservationView.attributionFor, ObservationView.attributionFor, hsame]

/-- **The work on unpublished sources is invisible**: whatever any threads do in the database short
of recording a decision or storing an observation of a published source, and whatever the recorded
runs and the quotas become meanwhile, a consumer without a scope for the operations is answered as
before. -/
theorem unpublished_work_invisible {s : Service} {db : Db} {authorization : Option String}
    (h : UnpublishedWork s.tables.db db)
    (hoperations : ¬ s.HasScope authorization operationsReadScope)
    (hmetrics : ¬ s.HasScope authorization operationsMetricsScope) (runs : RunTable)
    (quotas : String → Except PyError QuotaStatus) (now : Instant) (upperCase : String → String)
    (correlationId : String) (request : Request) :
    { s with tables := ⟨db, runs⟩, quotas := quotas, now := now }.respond upperCase correlationId
        authorization request =
      s.respond upperCase correlationId authorization request := by
  have hdata : s.SameData { s with tables := ⟨db, runs⟩, quotas := quotas, now := now } :=
    ⟨h.samePublished.2, rfl, rfl⟩
  have hconfig : s.SameConfig { s with tables := ⟨db, runs⟩, quotas := quotas, now := now } :=
    ⟨rfl, rfl, rfl, rfl, rfl, rfl⟩
  refine (Service.respond_congr hconfig (fun scope hscope => ?_) request).symm
  refine ⟨fun _ => ⟨rfl, hdata⟩, fun _ => ⟨fun _ => rfl, hdata⟩, ?_, ?_⟩
  · rintro rfl
    exact absurd hscope hoperations
  · rintro rfl
    exact absurd hscope hmetrics

/-- The consumer of the sample service does not see that an observation is stored. -/
theorem unpublished_work_invisible_stored :
    ∃ db, UnpublishedWork sampleService.tables.db db ∧ db.observations.rows ≠ [] ∧
      { sampleService with tables := ⟨db, Table.empty⟩, now := 1 }.respond id "1"
          (some "Bearer key") (.latestObservation 1 .eodClose) =
        sampleService.respond id "1" (some "Bearer key") (.latestObservation 1 .eodClose) := by
  let candidate : ObservationCandidate := ⟨1, ⟨"fake", "default", "BTC", today, .eodClose⟩, 1,
    ⟨"EUR", .finite 1, none, none, none, none, .ok⟩, 0, none, none⟩
  have hwork : UnpublishedWork sampleService.tables.db
      (exec (.insertObservation candidate) default sampleService.tables.db Session.new).2.1 :=
    .step (.refl _) _ _ _ (show PolicyGate.publicationAuthorized sampleService.tables.db.decisions
      "fake" = false by decide +kernel)
  refine ⟨_, hwork, by decide +kernel, ?_⟩
  exact unpublished_work_invisible hwork
    (fun h => absurd (sampleService_hasScope h) (by decide))
    (fun h => absurd (sampleService_hasScope h) (by decide)) Table.empty sampleService.quotas 1 id
    "1" _

end MarketRelay
