import MarketRelay.Catalog
import MarketRelay.Dispatch
import MarketRelay.ObservationStore
import MarketRelay.Runner

/-!
# Refresh and Dispatch

The first phase of a scheduler cycle: for each enabled source, a bounded number of the listings
that currently have an identity in it are planned, and their pending ranges are enqueued. The
plan of a listing starts after its last completed session, which is read from the observations.

A failure of a source's adapters or of one listing is recorded and does not stop the phase. The
catalog is only read.

## Main results

* `Refresh.events`: the phase, with what became of every source and listing.
* `Refresh.program`: the phase as the entry point sees it, with the outcome that it reports.
* `Refresh.events_iterates`: a run of the phase is a sequence of iterations, one for each
  identity that it considers.
-/

open Relational Interaction Gregorian

namespace MarketRelay

/-- `get_calendar_for_listing`, for the registered routes. -/
abbrev CalendarRoutes := Option String → String → Except PyError Calendar

/-- The contract of the calendar port: it classifies each date of the range, once. -/
structure CalendarRoutes.Classifies (calendars : CalendarRoutes) : Prop where
  range : ∀ {mic venue calendar}, calendars mic venue = .ok calendar →
    ∀ {assetClass first last answer}, calendar assetClass venue mic first last = .ok answer →
      ∀ check ∈ answer, first ≤ check.sessionDate ∧ check.sessionDate ≤ last
  once : ∀ {mic venue calendar}, calendars mic venue = .ok calendar →
    ∀ {assetClass first last answer}, calendar assetClass venue mic first last = .ok answer →
      (answer.map SessionCheck.sessionDate).Nodup

/-- The arguments of `refresh_and_dispatch`, and what it finds in the catalog and among the
calendars. -/
structure Refresh where
  settings : Settings
  catalog : Catalog
  calendars : CalendarRoutes
  now : Instant
  today : Date
  maxListingsPerSource : ℕ
  recoveryLimits : Option RecoveryLimits

/-- Result of the refresh-and-dispatch phase. -/
structure RefreshOutcome where
  listingsConsidered : ℕ
  jobsEnqueued : ℕ
  refreshErrors : List String
deriving DecidableEq, Repr

/-- What became of a source whose adapters are missing, or of a listing that was considered. -/
inductive RefreshEvent where
  | source (source : String) (e : PyError)
  /-- The identity names no listing. -/
  | missing (identity : ExternalIdentity)
  | listing (series : SeriesKey) (result : Except PyError DispatchResult)
deriving DecidableEq

/-- The jobs that a dispatch has created. -/
def DispatchResult.created (r : DispatchResult) : ℕ :=
  r.enqueued.countP EnqueueResult.created + r.waitingJob.toList.countP EnqueueResult.created

/-- Count an event. -/
def RefreshOutcome.count (outcome : RefreshOutcome) : RefreshEvent → RefreshOutcome
  | .source source e =>
    { outcome with refreshErrors := outcome.refreshErrors ++ [source ++ ": " ++ e.adapterErrorCode] }
  | .missing _ => { outcome with listingsConsidered := outcome.listingsConsidered + 1 }
  | .listing series (.error e) =>
    { outcome with
      listingsConsidered := outcome.listingsConsidered + 1
      refreshErrors := outcome.refreshErrors ++ [series.source ++ ": " ++ e.adapterErrorCode] }
  | .listing _ (.ok r) =>
    { outcome with
      listingsConsidered := outcome.listingsConsidered + 1
      jobsEnqueued := outcome.jobsEnqueued + r.created }

def RefreshOutcome.ofEvents (events : List RefreshEvent) : RefreshOutcome :=
  events.foldl RefreshOutcome.count ⟨0, 0, []⟩

/-- Funds use the NAV date; equities, ETFs and crypto use the EOD close. -/
def observationTypeFor : AssetClass → ObservationType
  | .fund => .nav
  | _ => .eodClose

namespace Refresh

def defaultCredentialScope : String := "default"

/-- The series of an identity of a listing. -/
def seriesOf (identity : ExternalIdentity) (listing : Listing) : SeriesKey :=
  ⟨identity.source, defaultCredentialScope, identity.externalId,
    observationTypeFor listing.assetClass⟩

/-- The arguments of `plan_and_enqueue` for a listing. -/
def dispatchArgs (x : Refresh) (identity : ExternalIdentity) (listing : Listing)
    (lastCompleted : Option Date) : DispatchArgs where
  limits := x.recoveryLimits
  listingId := listing.id
  assetClass := listing.assetClass
  venue := listing.venue
  mic := listing.mic
  series := seriesOf identity listing
  lastCompletedSession := lastCompleted
  today := x.today
  now := x.now
  waitingRetrySeconds := x.settings.waitingPublicationRetrySeconds

variable (x : Refresh)

/-- The body of the `try` for a listing. -/
def dispatchListing (identity : ExternalIdentity) (listing : Listing) : App DispatchResult := do
  let lastCompleted ← ObservationStore.lastCompletedSession (seriesOf identity listing)
  let calendar ← orRaise (x.calendars listing.mic listing.venue)
  Dispatch.planAndEnqueue calendar (x.dispatchArgs identity listing lastCompleted)

def refreshListing (identity : ExternalIdentity) : App RefreshEvent :=
  match x.catalog.listing? identity.listingId with
  | none => return .missing identity
  | some listing => do
    let result ← Script.attempt (x.dispatchListing identity listing)
    return .listing (seriesOf identity listing) result

/-- The loop over the identities of a source. -/
def refreshListings : List ExternalIdentity → App (List RefreshEvent)
  | [] => return []
  | identity :: rest => do
    let event ← x.refreshListing identity
    let events ← refreshListings rest
    return event :: events

/-- The adapters that a source must have. -/
def getPorts (source : String) : App Unit := do
  let historical ← issue (.getHistoricalPricePort source)
  orRaise historical
  let quota ← issue (.getQuotaPort source)
  orRaise quota

def refreshSource (source : String) : App (List RefreshEvent) := do
  match ← Script.attempt (getPorts source) with
  | .error e => return [.source source e]
  | .ok () => x.refreshListings (x.catalog.selectIdentities source x.today x.maxListingsPerSource)

/-- The loop over the enabled sources. -/
def refreshSources : List String → App (List RefreshEvent)
  | [] => return []
  | source :: rest => do
    let events ← x.refreshSource source
    let rest ← refreshSources rest
    return events ++ rest

/-- The phase, with what became of every source and listing. -/
def events : App (List RefreshEvent) := x.refreshSources x.settings.enabledSources

/-- `refresh_and_dispatch` -/
def program : App RefreshOutcome := do
  let events ← x.events
  return .ofEvents events

/-! ### The phase, run alone -/

variable {x} {identity : ExternalIdentity} {db db' : Db} {l l' : Session}

/-- The plan that the phase makes for an identity, when the listing, its calendar and the
planner allow one. -/
def planned? (x : Refresh) (observations : ObservationTable) (identity : ExternalIdentity) :
    Option (DispatchArgs × RecoveryPlan) :=
  (x.catalog.listing? identity.listingId).bind fun listing =>
    (x.calendars listing.mic listing.venue).toOption.bind fun calendar =>
      let args := x.dispatchArgs identity listing
        (lastCompletedSession (seriesOf identity listing) observations)
      (Dispatch.planOf calendar args).toOption.map fun plan => (args, plan)

/-- Where a plan comes from. -/
theorem planned?_eq_some_iff {observations : ObservationTable} {args : DispatchArgs}
    {plan : RecoveryPlan} :
    x.planned? observations identity = some (args, plan) ↔
      ∃ listing calendar, x.catalog.listing? identity.listingId = some listing ∧
        x.calendars listing.mic listing.venue = .ok calendar ∧
        args = x.dispatchArgs identity listing
          (lastCompletedSession (seriesOf identity listing) observations) ∧
        Dispatch.planOf calendar args = .ok plan := by
  have hok : ∀ {α : Type} {r : Except PyError α} {a : α}, r.toOption = some a ↔ r = .ok a := by
    intro α r a
    cases r <;> simp [Except.toOption]
  simp only [planned?, Option.bind_eq_some_iff, Option.map_eq_some_iff, Prod.mk.injEq, hok]
  constructor
  · rintro ⟨listing, hlisting, calendar, hcalendar, plan', hplan, rfl, rfl⟩
    exact ⟨listing, calendar, hlisting, hcalendar, rfl, hplan⟩
  · rintro ⟨listing, calendar, hlisting, hcalendar, rfl, hplan⟩
    exact ⟨listing, hlisting, calendar, hcalendar, plan, hplan, rfl, rfl⟩

theorem planOf_of_planned? {observations : ObservationTable} {args : DispatchArgs}
    {plan : RecoveryPlan} (h : x.planned? observations identity = some (args, plan)) :
    ∃ calendar, Dispatch.planOf calendar args = .ok plan := by
  obtain ⟨-, calendar, -, -, -, hplan⟩ := planned?_eq_some_iff.mp h
  exact ⟨calendar, hplan⟩

private theorem dispatchListing_executes {listing : Listing} {r : Except PyError DispatchResult}
    (hlisting : x.catalog.listing? identity.listingId = some listing)
    (h : (x.dispatchListing identity listing).Executes semantics db l r db' l') :
    db'.observations = db.observations ∧
      (x.planned? db.observations identity = none ∧ db'.jobs = db.jobs ∨
        ∃ args plan results, x.planned? db.observations identity = some (args, plan) ∧
          Dispatch.Enqueued args plan.ranges results db.jobs db'.jobs) := by
  rw [dispatchListing, ObservationStore.lastCompletedSession] at h
  obtain ⟨_, h⟩ := Script.executes_op_bind.mp h
  let args := x.dispatchArgs identity listing
    (lastCompletedSession (seriesOf identity listing) db.observations)
  cases hcalendar : x.calendars listing.mic listing.venue with
  | error e =>
      rw [hcalendar] at h
      obtain ⟨-, rfl, -⟩ := Script.executes_throw.mp h
      refine ⟨rfl, Or.inl ⟨?_, rfl⟩⟩
      simp [planned?, hlisting, hcalendar, Except.toOption]
  | ok calendar =>
      rw [hcalendar, orRaise, pure_bind] at h
      cases hplan : Dispatch.planOf calendar args with
      | error e =>
          have hplanned : x.planned? db.observations identity = none := by
            simp only [planned?, hlisting, hcalendar, Option.bind_some, Except.toOption]
            rw [show Dispatch.planOf calendar (x.dispatchArgs identity listing _) = _ from hplan]
            rfl
          change (Dispatch.planAndEnqueue calendar args).Executes semantics db l r db' l' at h
          rw [Dispatch.planAndEnqueue, hplan] at h
          obtain ⟨-, rfl, -⟩ := Script.executes_throw.mp h
          exact ⟨rfl, Or.inl ⟨hplanned, rfl⟩⟩
      | ok plan =>
          obtain ⟨hobs, result, -, -, henq⟩ := Dispatch.planAndEnqueue_executes hplan h
          exact ⟨hobs, Or.inr ⟨args, plan, result.results,
            planned?_eq_some_iff.mpr ⟨listing, calendar, hlisting, hcalendar, rfl, hplan⟩, henq⟩⟩

/-- **What the phase does for one identity**: it enqueues the ranges of its plan, if there is
one. -/
theorem refreshListing_executes {r : Except PyError RefreshEvent}
    (h : (x.refreshListing identity).Executes semantics db l r db' l') :
    db'.observations = db.observations ∧ (∃ event, r = .ok event) ∧
      (x.planned? db.observations identity = none ∧ db'.jobs = db.jobs ∨
        ∃ args plan results, x.planned? db.observations identity = some (args, plan) ∧
          Dispatch.Enqueued args plan.ranges results db.jobs db'.jobs) := by
  rw [refreshListing] at h
  cases hlisting : x.catalog.listing? identity.listingId with
  | none =>
      rw [hlisting] at h
      obtain ⟨rfl, rfl, -⟩ := Script.executes_pure.mp h
      exact ⟨rfl, ⟨_, rfl⟩, Or.inl ⟨by simp [planned?, hlisting], rfl⟩⟩
  | some listing =>
      rw [hlisting] at h
      obtain ⟨result, db₁, l₁, hdispatch, h⟩ := Script.executes_attempt_bind.mp h
      obtain ⟨rfl, rfl, -⟩ := Script.executes_pure.mp h
      obtain ⟨hobs, hjobs⟩ := dispatchListing_executes hlisting hdispatch
      exact ⟨hobs, ⟨_, rfl⟩, hjobs⟩

/-- One iteration of the loop over the identities of a source. -/
structure Iteration where
  before : Db
  identity : ExternalIdentity
  after : Db

/-- The iterations lead from one state of the database to another. -/
inductive Iterates (x : Refresh) : Db → List Iteration → Db → Prop
  | nil (db : Db) : Iterates x db [] db
  | cons {i : Iteration} {its : List Iteration} {db' : Db} {l l' : Session}
      {r : Except PyError RefreshEvent}
      (h : (x.refreshListing i.identity).Executes semantics i.before l r i.after l')
      (hrest : Iterates x i.after its db') : Iterates x i.before (i :: its) db'

theorem Iterates.before_eq {i : Iteration} {its : List Iteration}
    (h : x.Iterates db (i :: its) db') : i.before = db := by
  cases h
  rfl

theorem Iterates.append {db'' : Db} {its its' : List Iteration} (h : x.Iterates db its db')
    (h' : x.Iterates db' its' db'') : x.Iterates db (its ++ its') db'' := by
  induction h with
  | nil => exact h'
  | cons h _ ih => exact .cons h (ih h')

theorem Iterates.observations_eq {its : List Iteration} (h : x.Iterates db its db') :
    db'.observations = db.observations ∧ ∀ i ∈ its, i.before.observations = db.observations := by
  induction h with
  | nil => exact ⟨rfl, by simp⟩
  | cons h _ ih =>
      obtain ⟨hobs, -⟩ := refreshListing_executes h
      refine ⟨ih.1.trans hobs, fun i hi => ?_⟩
      rcases List.mem_cons.mp hi with rfl | hi
      · rfl
      · exact (ih.2 i hi).trans hobs

/-- The loop over the identities of a source is one iteration for each. -/
theorem refreshListings_iterates {identities : List ExternalIdentity}
    {r : Except PyError (List RefreshEvent)}
    (h : (x.refreshListings identities).Executes semantics db l r db' l') :
    (∃ events, r = .ok events) ∧
      ∃ its, x.Iterates db its db' ∧ its.map Iteration.identity = identities := by
  induction identities generalizing db l r l' with
  | nil =>
      obtain ⟨rfl, rfl, -⟩ := Script.executes_pure.mp h
      exact ⟨⟨_, rfl⟩, [], .nil db', rfl⟩
  | cons identity rest ih =>
      rw [refreshListings] at h
      rcases Script.executes_bind.mp h with ⟨event, db₁, l₁, hone, h⟩ | ⟨e, hone, -⟩
      swap
      · obtain ⟨-, ⟨event, hr⟩, -⟩ := refreshListing_executes hone
        exact absurd hr (by simp)
      rcases Script.executes_bind.mp h with ⟨events, db₂, l₂, hrest, h⟩ | ⟨e, hrest, -⟩
      swap
      · obtain ⟨⟨events, hr⟩, -⟩ := ih hrest
        exact absurd hr (by simp)
      obtain ⟨rfl, rfl, -⟩ := Script.executes_pure.mp h
      obtain ⟨-, its, hits, hmap⟩ := ih hrest
      refine ⟨⟨_, rfl⟩, ⟨db, identity, db₁⟩ :: its, ?_, congrArg (identity :: ·) hmap⟩
      exact Iterates.cons (i := ⟨db, identity, db₁⟩) hone hits

/-- The adapters of a source are looked up without a change of the database. -/
theorem getPorts_executes {source : String} {r : Except PyError Unit}
    (h : (getPorts source).Executes semantics db l r db' l') : db' = db := by
  have hraise : ∀ {a r' : Except PyError Unit} {s s' : Db} {m m' : Session},
      (orRaise a : App Unit).Executes semantics s m r' s' m' → s' = s := by
    intro a r' s s' m m' h
    cases a with
    | error e => exact (Script.executes_throw.mp h).2.1
    | ok u => exact (Script.executes_pure.mp h).2.1
  obtain ⟨_, hthen⟩ := Script.executes_op_bind.mp h
  rcases Script.executes_bind.mp hthen with ⟨v, db₁, l₁, hhist, hquota⟩ | ⟨e, hhist, -⟩
  · obtain ⟨_, hlast⟩ := Script.executes_op_bind.mp hquota
    exact (hraise hlast).trans (hraise hhist)
  · exact hraise hhist

/-- The identities that the phase considers in a source. -/
def considered (x : Refresh) (source : String) : List ExternalIdentity :=
  x.catalog.selectIdentities source x.today x.maxListingsPerSource

/-- A source is one iteration for each of its identities, unless its adapters are missing. -/
private theorem refreshSource_iterates {source : String} {r : Except PyError (List RefreshEvent)}
    (h : (x.refreshSource source).Executes semantics db l r db' l') :
    ∃ events, r = .ok events ∧ ∃ its, x.Iterates db its db' ∧
      (its.map Iteration.identity = x.considered source ∨
        its = [] ∧ ∃ e, .source source e ∈ events) := by
  obtain ⟨ports, db₁, l₁, hports, hrest⟩ := Script.executes_attempt_bind.mp h
  obtain rfl := getPorts_executes hports
  rcases ports with e | u
  · obtain ⟨rfl, rfl, -⟩ := Script.executes_pure.mp hrest
    exact ⟨_, rfl, [], .nil db', Or.inr ⟨rfl, e, List.mem_singleton_self _⟩⟩
  · obtain ⟨⟨events, rfl⟩, its, hits, hmap⟩ := refreshListings_iterates hrest
    exact ⟨events, rfl, its, hits, Or.inl hmap⟩

private theorem refreshSources_iterates {enabled : List String}
    {r : Except PyError (List RefreshEvent)}
    (h : (x.refreshSources enabled).Executes semantics db l r db' l') :
    ∃ events, r = .ok events ∧ ∃ its, x.Iterates db its db' ∧
      ∃ sources : List String, sources.Sublist enabled ∧
        its.map Iteration.identity = sources.flatMap x.considered ∧
        ∀ source ∈ enabled, source ∈ sources ∨ ∃ e, .source source e ∈ events := by
  induction enabled generalizing db l r l' with
  | nil =>
      obtain ⟨rfl, rfl, -⟩ := Script.executes_pure.mp h
      exact ⟨_, rfl, [], .nil db', [], List.Sublist.refl _, rfl, by simp⟩
  | cons source rest ih =>
      rw [refreshSources] at h
      rcases Script.executes_bind.mp h with ⟨events, db₁, l₁, hone, hrest⟩ | ⟨e, hone, -⟩
      swap
      · obtain ⟨events, hr, -⟩ := refreshSource_iterates hone
        exact absurd hr (by simp)
      obtain ⟨_, hr, its, hits, hmap⟩ := refreshSource_iterates hone
      obtain rfl := Except.ok.inj hr
      rcases Script.executes_bind.mp hrest with ⟨events', db₂, l₂, hrest, hdone⟩ | ⟨e, hrest, -⟩
      swap
      · obtain ⟨events', hr, -⟩ := ih hrest
        exact absurd hr (by simp)
      obtain ⟨rfl, rfl, -⟩ := Script.executes_pure.mp hdone
      obtain ⟨_, hr, its', hits', sources, hsub, hmap', hsources⟩ := ih hrest
      obtain rfl := Except.ok.inj hr
      have hlater : ∀ s ∈ rest, ∀ sources', sources ⊆ sources' →
          s ∈ sources' ∨ ∃ e, .source s e ∈ events ++ events' := by
        intro s hs sources' hsubset
        rcases hsources s hs with hmem | ⟨e, hmem⟩
        · exact Or.inl (hsubset hmem)
        · exact Or.inr ⟨e, List.mem_append_right _ hmem⟩
      refine ⟨_, rfl, its ++ its', hits.append hits', ?_⟩
      rcases hmap with hmap | ⟨rfl, e, hevent⟩
      · refine ⟨source :: sources, hsub.cons_cons source, ?_, fun s hs => ?_⟩
        · rw [List.map_append, hmap, hmap', List.flatMap_cons]
        · rcases List.mem_cons.mp hs with rfl | hs
          · exact Or.inl List.mem_cons_self
          · exact hlater s hs _ (List.subset_cons_self _ _)
      · refine ⟨sources, hsub.cons source, hmap', fun s hs => ?_⟩
        rcases List.mem_cons.mp hs with rfl | hs
        · exact Or.inr ⟨e, List.mem_append_left _ hevent⟩
        · exact hlater s hs _ (List.Subset.refl _)

/-- The iterations are those of a run that reports the events: they visit the identities of the
enabled sources, but for the sources that are reported. -/
def Visits (x : Refresh) (events : List RefreshEvent) (its : List Iteration) : Prop :=
  ∃ sources : List String, sources.Sublist x.settings.enabledSources ∧
    its.map Iteration.identity = sources.flatMap x.considered ∧
    ∀ source ∈ x.settings.enabledSources, source ∈ sources ∨ ∃ e, .source source e ∈ events

/-- **A run of the phase is a sequence of iterations**: one for each identity that it considers,
source by source, but for the sources that it reports. The phase itself never fails. -/
theorem events_iterates {r : Except PyError (List RefreshEvent)}
    (h : x.events.Executes semantics db l r db' l') :
    ∃ events, r = .ok events ∧ ∃ its, x.Iterates db its db' ∧ x.Visits events its :=
  refreshSources_iterates h

/-- The phase considers the identity: it is among the bounded number of an enabled source. -/
def Considers (x : Refresh) (identity : ExternalIdentity) : Prop :=
  ∃ source ∈ x.settings.enabledSources, identity ∈ x.considered source

/-- Every iteration is over an identity that the phase considers. -/
theorem Visits.considers {events : List RefreshEvent} {its : List Iteration}
    (h : x.Visits events its) {i : Iteration} (hi : i ∈ its) : x.Considers i.identity := by
  obtain ⟨sources, hsub, hmap, -⟩ := h
  have hmem : i.identity ∈ sources.flatMap x.considered := hmap ▸ List.mem_map_of_mem hi
  obtain ⟨source, hsource, hidentity⟩ := List.mem_flatMap.mp hmem
  exact ⟨source, hsub.subset hsource, hidentity⟩

/-- The phase as the entry point sees it does what the phase does. -/
theorem events_of_program {r : Except PyError RefreshOutcome}
    (h : x.program.Executes semantics db l r db' l') :
    ∃ r', x.events.Executes semantics db l r' db' l' := by
  rcases Script.executes_bind.mp h with ⟨events, db₁, l₁, hevents, hdone⟩ | ⟨e, hevents, -⟩
  · obtain ⟨-, rfl, rfl⟩ := Script.executes_pure.mp hdone
    exact ⟨_, hevents⟩
  · exact ⟨_, hevents⟩

/-! ### Which commands the phase issues -/

/-- The commands of the phase: it looks for adapters, reads the cursor and enqueues. -/
def IsRefreshCmd : Cmd → Prop
  | .getHistoricalPricePort _ | .getQuotaPort _ | .selectLastCompleted _ | .insertJob _
  | .selectJob _ | .markWaiting _ => True
  | _ => False

section Keeps

variable {G : Type} {K : Contract Cmd Cmd.Resp G} {I : G → Prop}
  (h : ∀ c, IsRefreshCmd c → Script.Keeps K I (issue c))

include h

theorem refreshListing_keeps (x : Refresh) (identity : ExternalIdentity) :
    Script.Keeps K I (x.refreshListing identity) := by
  rw [refreshListing]
  split
  · exact Script.keeps_pure _
  · rename_i listing _
    refine Script.Keeps.bind (Script.Keeps.attempt ?_) fun _ => Script.keeps_pure _
    exact (h (.selectLastCompleted _) trivial).bind fun last =>
      (IngestionRunner.orRaise_keeps _).bind fun calendar =>
        Dispatch.planAndEnqueue_keeps (fun args => h (.insertJob args) trivial)
          (fun key => h (.selectJob key) trivial) (fun id => h (.markWaiting id) trivial) _ _

theorem refreshSource_keeps (x : Refresh) (source : String) :
    Script.Keeps K I (x.refreshSource source) := by
  have hports : Script.Keeps K I (getPorts source) :=
    (h (.getHistoricalPricePort source) trivial).bind fun historical =>
      (IngestionRunner.orRaise_keeps historical).bind fun _ =>
        (h (.getQuotaPort source) trivial).bind fun quota => IngestionRunner.orRaise_keeps quota
  have hlistings : ∀ identities, Script.Keeps K I (x.refreshListings identities) := by
    intro identities
    induction identities with
    | nil => exact Script.keeps_pure _
    | cons identity rest ih =>
        exact (refreshListing_keeps h x identity).bind fun _ =>
          ih.bind fun _ => Script.keeps_pure _
  refine hports.attempt.bind ?_
  rintro (e | _)
  · exact Script.keeps_pure _
  · exact hlistings _

theorem events_keeps (x : Refresh) : Script.Keeps K I x.events := by
  have hsources : ∀ sources, Script.Keeps K I (x.refreshSources sources) := by
    intro sources
    induction sources with
    | nil => exact Script.keeps_pure _
    | cons source rest ih =>
        exact (refreshSource_keeps h x source).bind fun _ => ih.bind fun _ => Script.keeps_pure _
  exact hsources _

/-- The phase keeps what its commands keep. -/
theorem program_keeps (x : Refresh) : Script.Keeps K I x.program :=
  (events_keeps h x).bind fun _ => Script.keeps_pure _

end Keeps

/-- **The phase issues no other commands**; in particular it never commits. -/
theorem program_only (x : Refresh) : x.program.run.Only IsRefreshCmd := by
  let K : Contract Cmd Cmd.Resp Unit := ⟨fun c _ => IsRefreshCmd c, fun _ _ _ _ => True⟩
  have hkeeps : Script.Keeps K (fun _ => True) x.program :=
    program_keeps (fun c hc => Script.keeps_op fun _ _ => ⟨hc, fun _ _ _ => trivial⟩) x
  exact Prog.Only.of_meets (hkeeps () trivial)

end Refresh

/-! ### A refresh on concrete tables -/

/-- A refresh of one listing, day by day from a given number of days ago. -/
def dailyRefresh (lookback : ℤ) : Refresh where
  settings := ⟨["fake"], 300, 3600⟩
  catalog := ⟨[⟨1, "fake", "BTC", today, none⟩], [⟨1, .crypto, "X", none⟩]⟩
  calendars := fun _ _ => .ok dailyCalendar
  now := 0
  today := today
  maxListingsPerSource := 1
  recoveryLimits := some ⟨lookback, 1⟩

theorem dailyRefresh_classifies (lookback : ℤ) : (dailyRefresh lookback).calendars.Classifies where
  range h _ _ _ _ hanswer := by
    obtain rfl := Except.ok.inj h
    exact (dailyCalendar_range hanswer).1
  once h _ _ _ _ hanswer := by
    obtain rfl := Except.ok.inj h
    exact (dailyCalendar_range hanswer).2

end MarketRelay
