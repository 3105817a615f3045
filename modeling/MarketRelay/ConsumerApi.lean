import MarketRelay.CatalogService
import MarketRelay.ConsumerAuth
import MarketRelay.FakeProvider
import MarketRelay.ObservationRange
import MarketRelay.Refresh
import MarketRelay.StatusEndpoints

/-!
# The Consumer API

The routes of `/v1` and `/health`: which scope each of them requires, what it answers, and which
errors it documents. A handler reads the database, the settings and the calendars, and changes
nothing. The scope is checked before the handler runs; what a handler raises, but for its own
`HTTPException`s, ends as the one internal error.

A request is one with well-formed parameters, and is answered from one state of the database.

## Main results

* `Service.Sound.respond_cases`: exactly which requests end as an internal error.
* `api_errors_documented`: every other error is one that its route documents.
-/

open Relational Interaction Gregorian

namespace MarketRelay

/-! ### Responses -/

structure InstrumentOut where
  instrumentId : ℕ
  assetClass : AssetClass
  name : String
  isin : Option String
  figi : Option String
deriving DecidableEq, Repr

/-- A listing, with its instrument embedded. -/
structure ListingOut where
  listingId : ℕ
  instrument : InstrumentOut
  venue : String
  mic : Option String
  ticker : String
  currency : String
deriving DecidableEq, Repr

def InstrumentOut.fromModel (i : Instrument) : InstrumentOut :=
  ⟨i.id, i.assetClass, i.name, i.isin, i.figi⟩

def ListingOut.fromModel (l : InstrumentListing) (i : Instrument) : ListingOut :=
  ⟨l.id, .fromModel i, l.venue, l.mic, l.ticker, l.currency⟩

/-- Data status of a listing, without exposing provenance or quota. -/
structure DataStatusOut where
  listingId : ℕ
  observationType : ObservationType
  lastEffectiveDate : Option Date
  hasPublishableData : Bool
deriving DecidableEq

/-- What a route answers. -/
inductive Body where
  | health (status service environment : String)
  | instruments (results : List ListingOut)
  | listing (listing : ListingOut)
  | observation (out : ObservationOut)
  | range (response : ObservationRangeResponse)
  | dataStatus (out : DataStatusOut)
  | operations (status : OperationalStatus)
  | metrics (snapshot : SchedulerMetricsSnapshot)
deriving DecidableEq

/-! ### Requests -/

inductive Request where
  | health
  | searchInstruments (criteria : ListingSearchCriteria)
  | getListing (listingId : ℕ)
  | latestObservation (listingId : ℕ) (observationType : ObservationType)
  | observationRange (listingId : ℕ) (start «end» : Date) (observationType : ObservationType)
  | dataStatus (listingId : ℕ) (observationType : ObservationType)
  | operationalStatus
  | schedulerMetrics
deriving DecidableEq

def catalogReadScope : String := "catalog:read"

def observationsReadScope : String := "observations:read"

def operationsReadScope : String := "operations:read"

def operationsMetricsScope : String := "operations:metrics"

namespace Request

/-- The scope that the route requires; `/health` is public. -/
def scope : Request → Option String
  | health => none
  | searchInstruments _ | getListing _ | dataStatus .. => some catalogReadScope
  | latestObservation .. | observationRange .. => some observationsReadScope
  | operationalStatus => some operationsReadScope
  | schedulerMetrics => some operationsMetricsScope

/-- The errors that the route documents. -/
def responses : Request → List ℕ
  | health => []
  | searchInstruments _ | operationalStatus | schedulerMetrics => [401, 403]
  | getListing _ | latestObservation .. | dataStatus .. => [401, 403, 404]
  | observationRange .. => [401, 403, 404, 422]

/-- No route documents the internal error. -/
theorem internal_not_mem (request : Request) : 500 ∉ request.responses := by
  cases request <;> simp [responses]

/-- A route with a scope documents that it may be refused. -/
theorem refusals_mem {request : Request} {scope : String} (h : request.scope = some scope) :
    401 ∈ request.responses ∧ 403 ∈ request.responses := by
  cases request with
  | health => exact absurd h (by simp [Request.scope])
  | _ => simp [responses]

end Request

/-! ### Handlers -/

/-- The listing of an identifier, with its instrument. -/
def CatalogTables.getListing (db : CatalogTables) (listingId : ℕ) :
    Option (InstrumentListing × Instrument) :=
  (db.listings.get? listingId).bind fun l =>
    (db.instruments.get? l.instrumentId).map fun i => (l, i)

/-- What the routes read: the settings of the application, the database, and what the adapters of
the calendars and quotas say. -/
structure Service where
  serviceName : String
  environmentName : String
  settings : Settings
  stalledJobThresholdSeconds : ℤ
  credentials : List ConsumerCredential
  environment : Environment
  catalog : CatalogTables
  tables : CycleDb
  calendars : CalendarRoutes
  quotas : String → Except PyError QuotaStatus
  now : Instant
  today : Date

namespace Service

/-- An exception of a handler that is not an `HTTPException`. -/
def orRaised {α : Type} : Except PyError α → Except RangeFault α
  | .ok a => .ok a
  | .error e => .error (.raised e)

variable (upperCase : String → String) (s : Service)

/-- `_resolve_listing` -/
def resolveListing (listingId : ℕ) : Except RangeFault (InstrumentListing × Instrument) :=
  match s.catalog.getListing listingId with
  | none => .error (.http 404 "Listing not found.")
  | some row => .ok row

/-- A listing as the read paths take it. -/
def viewed (row : InstrumentListing × Instrument) : Listing :=
  ⟨row.1.id, row.2.assetClass, row.1.venue, row.1.mic⟩

/-- `search_instruments` -/
def searchInstruments (criteria : ListingSearchCriteria) : List ListingOut :=
  (s.catalog.findListings upperCase criteria).filterMap fun l =>
    (s.catalog.instruments.get? l.instrumentId).map (ListingOut.fromModel l)

/-- `get_listing` -/
def getListing (listingId : ℕ) : Except RangeFault ListingOut := do
  let row ← s.resolveListing listingId
  return ListingOut.fromModel row.1 row.2

/-- `latest_observation` -/
def latestObservation (listingId : ℕ) (observationType : ObservationType) :
    Except RangeFault ObservationOut := do
  let listing := viewed (← s.resolveListing listingId)
  let calendar ← orRaised (s.calendars listing.mic listing.venue)
  orRaised (ObservationView.findLatestObservation s.tables.db listing observationType s.settings
    calendar s.today)

/-- `observation_range`: the dates are checked before the listing is looked up. -/
def observationRange (listingId : ℕ) (start «end» : Date) (observationType : ObservationType) :
    Except RangeFault ObservationRangeResponse :=
  if «end» < start then
    .error (.http 422 "`end` cannot be earlier than `start`.")
  else if maxRangeDays < («end».ordinal : ℤ) - start.ordinal then
    .error (.http 422 ("The maximum range per request is " ++ toString maxRangeDays ++ " days."))
  else do
    let listing := viewed (← s.resolveListing listingId)
    let calendar ← orRaised (s.calendars listing.mic listing.venue)
    let observations ← orRaised (ObservationView.buildObservationRange s.tables.db listing
      observationType start «end» s.settings calendar)
    return ⟨listingId, observationType, start, «end», observations⟩

/-- `data_status` -/
def dataStatus (listingId : ℕ) (observationType : ObservationType) :
    Except RangeFault DataStatusOut := do
  let listing := viewed (← s.resolveListing listingId)
  let lastEffectiveDate := ObservationView.latestPublishableSessionDate s.tables.db listing
    observationType s.settings
  let calendar ← orRaised (s.calendars listing.mic listing.venue)
  let latest ← orRaised (ObservationView.findLatestObservation s.tables.db listing observationType
    s.settings calendar s.today)
  return ⟨listingId, observationType, lastEffectiveDate, decide (latest.availability = .ok)⟩

/-- The quota of a source in the metrics, or the code of the failure to read it. -/
def sourceQuota (source : String) : SourceQuotaSnapshot :=
  match s.quotas source with
  | .error e => ⟨source, none, none, false, some e.adapterErrorCode⟩
  | .ok status => ⟨source, some status.remaining, some status.limit, status.exhausted, none⟩

/-- `scheduler_metrics` -/
def schedulerMetrics : SchedulerMetricsSnapshot :=
  s.tables.metrics s.now s.stalledJobThresholdSeconds (s.settings.enabledSources.map s.sourceQuota)

/-- The handlers. -/
def handle : Request → Except RangeFault Body
  | .health => .ok (.health "ok" s.serviceName s.environmentName)
  | .searchInstruments criteria => .ok (.instruments (s.searchInstruments upperCase criteria))
  | .getListing listingId => (s.getListing listingId).map .listing
  | .latestObservation listingId observationType =>
    (s.latestObservation listingId observationType).map .observation
  | .observationRange listingId start final observationType =>
    (s.observationRange listingId start final observationType).map .range
  | .dataStatus listingId observationType =>
    (s.dataStatus listingId observationType).map .dataStatus
  | .operationalStatus => .ok (.operations (MarketRelay.operationalStatus s.environmentName
      s.stalledJobThresholdSeconds s.now s.tables.db.jobs))
  | .schedulerMetrics => .ok (.metrics s.schedulerMetrics)

/-- The error response of a fault. -/
def errorResponse (correlationId : String) : RangeFault → ErrorResponse
  | .http statusCode detail => ⟨statusCode, detail, []⟩
  | .raised _ => unhandledExceptionHandler correlationId

/-- The scope of the route is checked, if it has one. -/
def access (correlationId : String) (authorization : Option String) :
    Option String → Except ErrorResponse Unit
  | none => .ok ()
  | some scope =>
    (requireScope scope s.credentials s.environment correlationId authorization).map fun _ => ()

/-- The response to a request: first the scope of the route is checked, then its handler runs. -/
def respond (correlationId : String) (authorization : Option String) (request : Request) :
    Except ErrorResponse Body := do
  s.access correlationId authorization request.scope
  (s.handle upperCase request).mapError (errorResponse correlationId)

end Service

/-! ### The latest value -/

namespace ObservationView

variable {db : Db} {listing : Listing} {calendar : Calendar} {today start final : Date}

/-- The calendar classifies every date of the listing but the last representable one. -/
def Classified (listing : Listing) (calendar : Calendar) : Prop :=
  ∀ d : Date, d.ordinal < maxOrdinal → Classifies listing calendar d

variable (hcloses : ∀ o ∈ db.observations.rows, o.value.close.isFinite = true)
  (hcalendar : Classified listing calendar) (observationType : ObservationType)
  (settings : Settings)

include hcloses hcalendar

/-- Every date but the last has a response. -/
theorem buildObservationOut_isOk {d : Date} (hd : d.ordinal < maxOrdinal) :
    ∃ out, buildObservationOut db listing d observationType settings calendar = .ok out :=
  (buildObservationOut_isOk_iff (hcalendar d hd)).mpr (answerable_of_closes hcloses)

/-- The walk into the past returns, as long as it stays within the representable dates. -/
theorem findLatestLoop_isOk {offsets : List ℕ} (hlast : today.ordinal < maxOrdinal)
    (hoffsets : ∀ offset ∈ offsets, offset < today.ordinal) :
    ∃ r, findLatestLoop db listing observationType settings calendar today offsets = .ok r := by
  induction offsets with
  | nil => exact ⟨none, rfl⟩
  | cons offset rest ih =>
      obtain ⟨r, hr⟩ := ih fun o ho => hoffsets o (List.mem_cons_of_mem _ ho)
      obtain ⟨d, hd⟩ : ∃ d, today.addDays (-(offset : ℤ)) = some d :=
        Option.ne_none_iff_exists'.mp fun hnone => by
          have hbounds := Date.addDays_eq_none_iff.mp hnone
          have hmax := today.le_max
          have hoffset := hoffsets offset List.mem_cons_self
          omega
      have hday := Date.addDays_eq_some_iff.mp hd
      obtain ⟨out, hout⟩ := buildObservationOut_isOk hcloses hcalendar observationType settings
        (d := d) (by omega)
      rw [findLatestLoop, hd]
      simp only [RecoveryPlanner.orOverflow, hout, bind, Except.bind]
      split
      · exact ⟨some out, rfl⟩
      · exact ⟨r, hr⟩

theorem findLatestObservation_isOk (htoday : latestLookbackDays < today.ordinal)
    (hlast : today.ordinal < maxOrdinal) :
    ∃ out, findLatestObservation db listing observationType settings calendar today = .ok out := by
  have hoffsets : ∀ offset ∈ List.range (latestLookbackDays + 1), offset < today.ordinal :=
    fun offset hoffset => (Nat.lt_succ_iff.mp (List.mem_range.mp hoffset)).trans_lt htoday
  obtain ⟨r, hr⟩ := findLatestLoop_isOk hcloses hcalendar observationType settings hlast hoffsets
  rw [findLatestObservation, hr]
  cases r with
  | some out => exact ⟨out, rfl⟩
  | none => exact buildObservationOut_isOk hcloses hcalendar observationType settings hlast

/-- A range has a response unless it reaches the last representable date. -/
theorem buildObservationRange_isOk_iff (hle : start ≤ final) :
    (∃ outs, buildObservationRange db listing observationType start final settings calendar =
      .ok outs) ↔ final.ordinal ≠ maxOrdinal := by
  have hsteps : start.ordinal + (final.ordinal + 1 - start.ordinal) = final.ordinal + 1 := by
    have := Date.le_def.mp hle
    omega
  rw [buildObservationRange]
  constructor
  · rintro ⟨outs, houts⟩ hlast
    have hover : maxOrdinal < start.ordinal + (final.ordinal + 1 - start.ordinal) := by omega
    obtain ⟨e, he⟩ : ∃ e, rangeLoop db listing observationType settings calendar
        (final.ordinal + 1 - start.ordinal) start = .error e := rangeLoop_overflow hover
    exact absurd (he.symm.trans houts) (by simp)
  · intro hlast
    have hmax := final.le_max
    have hfits : start.ordinal + (final.ordinal + 1 - start.ordinal) ≤ maxOrdinal := by omega
    obtain ⟨outs, houts, -⟩ := rangeLoop_isOk hfits fun d _ hd =>
      buildObservationOut_isOk hcloses hcalendar observationType settings (d := d) (by omega)
    exact ⟨outs, houts⟩

end ObservationView

/-! ### Errors -/

namespace Service

/-- What the handlers rely on: the stored closes are finite, and every listing has a calendar that
classifies each date but the last one. The current date is not among the first ones that are
representable, nor the last. -/
structure Sound (s : Service) : Prop where
  closes : ∀ o ∈ s.tables.db.observations.rows, o.value.close.isFinite = true
  calendars : ∀ listingId row, s.catalog.getListing listingId = some row →
    ∃ calendar, s.calendars (viewed row).mic (viewed row).venue = .ok calendar ∧
      ObservationView.Classified (viewed row) calendar
  today : ObservationView.latestLookbackDays < s.today.ordinal
  notLast : s.today.ordinal < maxOrdinal

/-- The request is for an admitted range of an existing listing that ends with the last
representable date. -/
def OverrunsDates (s : Service) : Request → Prop
  | .observationRange listingId start final _ =>
    start ≤ final ∧ (final.ordinal : ℤ) - start.ordinal ≤ maxRangeDays ∧
      final.ordinal = maxOrdinal ∧ ∃ row, s.catalog.getListing listingId = some row
  | _ => False

variable {upperCase : String → String} {s : Service} {correlationId : String}
  {authorization : Option String} {request : Request}

theorem resolveListing_eq_error {listingId : ℕ} (h : s.catalog.getListing listingId = none) :
    s.resolveListing listingId = .error (.http 404 "Listing not found.") := by
  rw [resolveListing, h]

theorem resolveListing_eq_ok {listingId : ℕ} {row : InstrumentListing × Instrument}
    (h : s.catalog.getListing listingId = some row) : s.resolveListing listingId = .ok row := by
  rw [resolveListing, h]

/-- The handler answers, or it does so with an error of the list. -/
def Documents {α : Type} (responses : List ℕ) (result : Except RangeFault α) : Prop :=
  (∃ a, result = .ok a) ∨
    ∃ statusCode detail, result = .error (.http statusCode detail) ∧ statusCode ∈ responses

theorem Documents.map {α β : Type} {responses : List ℕ} {result : Except RangeFault α}
    (h : Documents responses result) (f : α → β) : Documents responses (result.map f) := by
  rcases h with ⟨a, rfl⟩ | ⟨statusCode, detail, rfl, hmem⟩
  · exact Or.inl ⟨f a, rfl⟩
  · exact Or.inr ⟨statusCode, detail, rfl, hmem⟩

theorem documents_ok {α : Type} {responses : List ℕ} (a : α) :
    Documents responses (.ok a : Except RangeFault α) := Or.inl ⟨a, rfl⟩

/-- What a handler does with a listing is documented if the absence of the listing is. -/
theorem documents_listing {α : Type} {responses : List ℕ} {listingId : ℕ}
    {rest : InstrumentListing × Instrument → Except RangeFault α} (hnotFound : 404 ∈ responses)
    (hrest : ∀ row, s.catalog.getListing listingId = some row → Documents responses (rest row)) :
    Documents responses (s.resolveListing listingId >>= rest) := by
  cases hrow : s.catalog.getListing listingId with
  | none =>
      rw [resolveListing_eq_error hrow]
      exact Or.inr ⟨404, _, rfl, hnotFound⟩
  | some row =>
      rw [resolveListing_eq_ok hrow]
      exact hrest row hrow

variable (h : s.Sound)

include h

theorem Sound.latestObservation_documents (listingId : ℕ) (observationType : ObservationType) :
    Documents [401, 403, 404] (s.latestObservation listingId observationType) := by
  refine documents_listing (by decide) fun row hrow => ?_
  obtain ⟨calendar, hcalendar, hclassified⟩ := h.calendars listingId row hrow
  obtain ⟨out, hout⟩ := ObservationView.findLatestObservation_isOk h.closes hclassified
    observationType s.settings h.today h.notLast
  simp only [hcalendar, hout, orRaised, bind, Except.bind]
  exact documents_ok out

theorem Sound.dataStatus_documents (listingId : ℕ) (observationType : ObservationType) :
    Documents [401, 403, 404] (s.dataStatus listingId observationType) := by
  refine documents_listing (by decide) fun row hrow => ?_
  obtain ⟨calendar, hcalendar, hclassified⟩ := h.calendars listingId row hrow
  obtain ⟨out, hout⟩ := ObservationView.findLatestObservation_isOk h.closes hclassified
    observationType s.settings h.today h.notLast
  simp only [hcalendar, hout, orRaised, bind, Except.bind]
  exact documents_ok _

/-- A range raises when it overruns the dates. -/
theorem Sound.observationRange_raises {listingId : ℕ} {start final : Date}
    {observationType : ObservationType}
    (hoverruns : s.OverrunsDates (.observationRange listingId start final observationType)) :
    ∃ e, s.observationRange listingId start final observationType = .error (.raised e) := by
  obtain ⟨hle, hdays, hlast, row, hrow⟩ := hoverruns
  obtain ⟨calendar, hcalendar, hclassified⟩ := h.calendars listingId row hrow
  rw [observationRange, if_neg (not_lt.mpr hle), if_neg (not_lt.mpr hdays),
    resolveListing_eq_ok hrow]
  simp only [hcalendar, orRaised, bind, Except.bind]
  cases houts : ObservationView.buildObservationRange s.tables.db (viewed row) observationType start
      final s.settings calendar with
  | error e => exact ⟨e, rfl⟩
  | ok outs =>
      exact absurd hlast ((ObservationView.buildObservationRange_isOk_iff h.closes hclassified
        observationType s.settings hle).mp ⟨outs, houts⟩)

theorem Sound.observationRange_documents {listingId : ℕ} {start final : Date}
    {observationType : ObservationType}
    (hwithin : ¬ s.OverrunsDates (.observationRange listingId start final observationType)) :
    Documents [401, 403, 404, 422] (s.observationRange listingId start final observationType) := by
  rw [observationRange]
  split
  · exact Or.inr ⟨422, _, rfl, by decide⟩
  rename_i hle
  split
  · exact Or.inr ⟨422, _, rfl, by decide⟩
  rename_i hdays
  refine documents_listing (by decide) fun row hrow => ?_
  obtain ⟨calendar, hcalendar, hclassified⟩ := h.calendars listingId row hrow
  have hlast : final.ordinal ≠ maxOrdinal := fun hlast =>
    hwithin ⟨not_lt.mp hle, not_lt.mp hdays, hlast, row, hrow⟩
  obtain ⟨outs, houts⟩ := (ObservationView.buildObservationRange_isOk_iff h.closes hclassified
    observationType s.settings (not_lt.mp hle)).mpr hlast
  simp only [hcalendar, houts, orRaised, bind, Except.bind]
  exact documents_ok _

/-- A handler raises exactly when it overruns the dates; otherwise its errors are documented. -/
theorem Sound.handle_cases (upperCase : String → String) (request : Request) :
    (s.OverrunsDates request ∧ ∃ e, s.handle upperCase request = .error (.raised e)) ∨
      ¬ s.OverrunsDates request ∧ Documents request.responses (s.handle upperCase request) := by
  by_cases hoverruns : s.OverrunsDates request
  · cases request with
    | observationRange listingId start final observationType =>
        obtain ⟨e, he⟩ := h.observationRange_raises hoverruns
        exact Or.inl ⟨hoverruns, e, by rw [handle, he]; rfl⟩
    | _ => exact absurd hoverruns not_false
  · refine Or.inr ⟨hoverruns, ?_⟩
    cases request with
    | getListing listingId =>
        exact (documents_listing (by simp [Request.responses]) fun row _ => documents_ok _).map _
    | latestObservation listingId observationType =>
        exact (h.latestObservation_documents listingId observationType).map _
    | observationRange listingId start final observationType =>
        exact (h.observationRange_documents hoverruns).map _
    | dataStatus listingId observationType =>
        exact (h.dataStatus_documents listingId observationType).map _
    | _ => exact documents_ok _

omit h

/-! ### Access -/

/-- The consumer of the request has the scope of the route, or the route is public. -/
def Admits (s : Service) (correlationId : String) (authorization : Option String)
    (request : Request) : Prop :=
  s.access correlationId authorization request.scope = .ok ()

/-- Access is refused with one of three responses. -/
theorem access_eq_error {scope : Option String} {e : ErrorResponse}
    (he : s.access correlationId authorization scope = .error e) :
    (e = unhandledExceptionHandler correlationId ∧
        ComparesNonAscii s.credentials s.environment (extractBearerToken authorization)) ∨
      e = ⟨401, "Not authenticated.", [("WWW-Authenticate", "Bearer")]⟩ ∨
      e = ⟨403, "Access denied.", []⟩ := by
  cases scope with
  | none => exact absurd he (by simp [access])
  | some scope =>
      rw [access] at he
      cases hrequire :
          requireScope scope s.credentials s.environment correlationId authorization with
      | ok identity =>
          rw [hrequire] at he
          exact absurd he (by simp [Except.map])
      | error e' =>
          rw [hrequire] at he
          obtain rfl : e' = e := Except.error.inj he
          by_cases hinternal : e' = unhandledExceptionHandler correlationId
          · refine Or.inl ⟨hinternal, ?_⟩
            exact (requireScope_internal_iff scope correlationId authorization).mp
              (hinternal ▸ hrequire)
          · right
            rw [requireScope] at hrequire
            split at hrequire
            · exact absurd hrequire (by simp)
            · exact Or.inl (Except.error.inj hrequire).symm
            · exact Or.inr (Except.error.inj hrequire).symm
            · exact absurd (Except.error.inj hrequire).symm hinternal

/-- The request ends as an internal error: its key is compared as a text that is not ASCII, or it
is admitted and overruns the dates. -/
def FailsInternally (s : Service) (correlationId : String) (authorization : Option String)
    (request : Request) : Prop :=
  (request.scope ≠ none ∧
      ComparesNonAscii s.credentials s.environment (extractBearerToken authorization)) ∨
    (s.Admits correlationId authorization request ∧ s.OverrunsDates request)

/-- The internal error of the access. -/
theorem access_eq_internal {scope : String}
    (hcompares : ComparesNonAscii s.credentials s.environment (extractBearerToken authorization)) :
    s.access correlationId authorization (some scope) =
      .error (unhandledExceptionHandler correlationId) := by
  rw [access, (requireScope_internal_iff scope correlationId authorization).mpr hcompares]
  rfl

/-- An admitted request is answered by its handler. -/
theorem respond_of_admits (hadmits : s.Admits correlationId authorization request) :
    s.respond upperCase correlationId authorization request =
      (s.handle upperCase request).mapError (errorResponse correlationId) := by
  rw [respond, show s.access correlationId authorization request.scope = .ok () from hadmits]
  rfl

/-- A refused request is not handled. -/
theorem respond_of_refused {e : ErrorResponse}
    (hrefused : s.access correlationId authorization request.scope = .error e) :
    s.respond upperCase correlationId authorization request = .error e := by
  rw [respond, hrefused]
  rfl

/-- A refused request ends as an internal error exactly when it has to, and otherwise documented.
-/
theorem refused_cases {e : ErrorResponse}
    (hrefused : s.access correlationId authorization request.scope = .error e) :
    (s.FailsInternally correlationId authorization request ∧
        e = unhandledExceptionHandler correlationId) ∨
      ¬ s.FailsInternally correlationId authorization request ∧
        e.statusCode ∈ request.responses := by
  obtain ⟨scope, hscope⟩ : ∃ scope, request.scope = some scope :=
    Option.ne_none_iff_exists'.mp fun hnone => by
      rw [hnone] at hrefused
      exact absurd hrefused (by simp [access])
  have hfails : s.FailsInternally correlationId authorization request →
      e = unhandledExceptionHandler correlationId := by
    rintro (⟨-, hcompares⟩ | ⟨hadmits, -⟩)
    · rw [hscope, access_eq_internal hcompares] at hrefused
      exact (Except.error.inj hrefused).symm
    · exact absurd (hrefused.symm.trans hadmits) (by simp)
  have hdocuments := Request.refusals_mem hscope
  rcases access_eq_error hrefused with ⟨heq, hcompares⟩ | rfl | rfl
  · exact Or.inl ⟨Or.inl ⟨by simp [hscope], hcompares⟩, heq⟩
  · exact Or.inr ⟨fun h => absurd (hfails h) (by simp [unhandledExceptionHandler]),
      hdocuments.1⟩
  · exact Or.inr ⟨fun h => absurd (hfails h) (by simp [unhandledExceptionHandler]),
      hdocuments.2⟩

/-- An admitted request fails internally exactly when it overruns the dates. -/
theorem admitted_iff (hadmits : s.Admits correlationId authorization request) :
    s.FailsInternally correlationId authorization request ↔ s.OverrunsDates request := by
  refine ⟨?_, fun hoverruns => Or.inr ⟨hadmits, hoverruns⟩⟩
  rintro (⟨hscope, hcompares⟩ | ⟨-, hoverruns⟩)
  · obtain ⟨scope, hscope⟩ := Option.ne_none_iff_exists'.mp hscope
    rw [Admits, hscope, access_eq_internal hcompares] at hadmits
    exact absurd hadmits (by simp)
  · exact hoverruns

/-- How a request ends. -/
theorem Sound.respond_cases (h : s.Sound) (upperCase : String → String) (correlationId : String)
    (authorization : Option String) (request : Request) :
    (s.FailsInternally correlationId authorization request ∧
        s.respond upperCase correlationId authorization request =
          .error (unhandledExceptionHandler correlationId)) ∨
      ¬ s.FailsInternally correlationId authorization request ∧
        ((∃ body, s.respond upperCase correlationId authorization request = .ok body) ∨
          ∃ e, s.respond upperCase correlationId authorization request = .error e ∧
            e.statusCode ∈ request.responses) := by
  cases haccess : s.access correlationId authorization request.scope with
  | error e =>
      rw [respond_of_refused haccess]
      rcases refused_cases haccess with ⟨hfails, rfl⟩ | ⟨hfails, hmem⟩
      · exact Or.inl ⟨hfails, rfl⟩
      · exact Or.inr ⟨hfails, Or.inr ⟨e, rfl, hmem⟩⟩
  | ok u =>
      have hadmits : s.Admits correlationId authorization request := haccess
      rw [respond_of_admits hadmits, admitted_iff hadmits]
      rcases h.handle_cases upperCase request with
        ⟨hoverruns, e, he⟩ | ⟨hwithin, ⟨body, hbody⟩ | ⟨statusCode, detail, he, hmem⟩⟩
      · exact Or.inl ⟨hoverruns, by rw [he]; rfl⟩
      · exact Or.inr ⟨hwithin, Or.inl ⟨body, by rw [hbody]; rfl⟩⟩
      · exact Or.inr ⟨hwithin, Or.inr ⟨⟨statusCode, detail, []⟩, by rw [he]; rfl, hmem⟩⟩

end Service

open Service in
/-- **Every error of the API is documented by its route, but for the internal error**, and a
request ends as that exactly when its key is compared as a text that is not ASCII, or when it asks
for a range up to the last representable date. -/
theorem api_errors_documented {s : Service} (h : s.Sound) (upperCase : String → String)
    (correlationId : String) (authorization : Option String) (request : Request) :
    (s.respond upperCase correlationId authorization request =
        .error (unhandledExceptionHandler correlationId) ↔
      s.FailsInternally correlationId authorization request) ∧
    ∀ e, s.respond upperCase correlationId authorization request = .error e →
      e ≠ unhandledExceptionHandler correlationId → e.statusCode ∈ request.responses := by
  rcases h.respond_cases upperCase correlationId authorization request with
    ⟨hfails, hrespond⟩ | ⟨hfails, ⟨body, hrespond⟩ | ⟨e, hrespond, hmem⟩⟩
  · refine ⟨iff_of_true hrespond hfails, fun e he hne => absurd ?_ hne⟩
    exact Except.error.inj (he.symm.trans hrespond)
  · refine ⟨iff_of_false (fun he => absurd (hrespond.symm.trans he) (by simp)) hfails,
      fun e he => absurd (hrespond.symm.trans he) (by simp)⟩
  · refine ⟨iff_of_false (fun he => ?_) hfails, fun e' he' _ => ?_⟩
    · obtain rfl := Except.error.inj (hrespond.symm.trans he)
      exact request.internal_not_mem hmem
    · exact Except.error.inj (hrespond.symm.trans he') ▸ hmem

/-! ### A service with one listing -/

/-- A catalog with one listing. -/
def oneListing : CatalogTables where
  instruments := ⟨[⟨1, .crypto, "Bitcoin", none, none⟩], List.pairwise_singleton _ _⟩
  listings := ⟨[⟨1, 1, none, "X", "BTC", "EUR"⟩], List.pairwise_singleton _ _⟩
  identities := .empty
  listed l hl := by
    obtain rfl := List.mem_singleton.mp hl
    exact ⟨_, rfl⟩
  identified := by simp [Table.empty]
  ordered := CatalogTables.empty.ordered

/-- A service for a consumer that may read the catalog and the observations. -/
def sampleService : Service where
  serviceName := "market-relay"
  environmentName := "test"
  settings := ⟨["fake"], 300, 3600⟩
  stalledJobThresholdSeconds := 3600
  credentials := [⟨"holdria", "API_KEY", [catalogReadScope, observationsReadScope]⟩]
  environment := fun name => if name = "API_KEY" then some "key" else none
  catalog := oneListing
  tables := ⟨⟨Table.empty, Table.empty, Table.empty⟩, Table.empty⟩
  calendars := fun _ _ => .ok dailyCalendar
  quotas := fun source => .ok ⟨source, 10, 10, none⟩
  now := 0
  today := today

/-- The calendar of the fake provider answers for every date but the last. -/
theorem sessionsInRange_classified (listing : Listing) :
    ObservationView.Classified listing FakeMarketDataProvider.sessionsInRange := by
  intro d hd
  have hinterval : Date.interval d d = [d] := by
    rw [Date.interval, Nat.add_sub_cancel_left]
    exact List.filterMap_cons_some (Date.ofOrdinal?_eq_some_iff.mpr rfl)
  refine ⟨⟨d, FakeMarketDataProvider.expectation listing.assetClass d⟩, [], ?_⟩
  rw [FakeMarketDataProvider.sessionsInRange_eq, if_neg fun h => absurd h.2 hd.ne,
    Calendar.ofClassification, hinterval]
  rfl

/-- The service on the calendar of the fake provider, with a stored observation. -/
def fakeCalendarService : Service :=
  { sampleService with
    tables := ⟨viewedDb, Table.empty⟩
    calendars := fun _ _ => .ok FakeMarketDataProvider.sessionsInRange }

theorem fakeCalendarService_sound : fakeCalendarService.Sound where
  closes := by decide
  calendars _ row _ := ⟨FakeMarketDataProvider.sessionsInRange, rfl, sessionsInRange_classified _⟩
  today := by decide
  notLast := by decide

/-- A request for the latest value of an unknown listing is not found, and one for a range up to the
last representable date ends as an internal error. -/
theorem api_errors_documented_unanswered :
    (404 ∈ (Request.latestObservation 2 .eodClose).responses ∧
      ¬ fakeCalendarService.FailsInternally "1" (some "Bearer key")
        (.latestObservation 2 .eodClose)) ∧
    fakeCalendarService.respond id "1" (some "Bearer key") (.observationRange 1
      ⟨maxOrdinal, by decide, by decide⟩ ⟨maxOrdinal, by decide, by decide⟩ .eodClose) =
        .error (unhandledExceptionHandler "1") := by
  have hunknown := api_errors_documented fakeCalendarService_sound id "1" (some "Bearer key")
    (.latestObservation 2 .eodClose)
  have hnotFound : fakeCalendarService.respond id "1" (some "Bearer key")
      (.latestObservation 2 .eodClose) = .error ⟨404, "Listing not found.", []⟩ := by decide
  refine ⟨⟨hunknown.2 _ hnotFound (by decide), fun hfails => ?_⟩, ?_⟩
  · exact absurd (hnotFound.symm.trans (hunknown.1.mpr hfails)) (by decide)
  · refine (api_errors_documented fakeCalendarService_sound id "1" (some "Bearer key") _).1.mpr ?_
    have hadmits : fakeCalendarService.access "1" (some "Bearer key")
        (some observationsReadScope) = .ok () := by decide
    exact Or.inr ⟨hadmits, le_rfl, by decide, rfl, _, rfl⟩

end MarketRelay
