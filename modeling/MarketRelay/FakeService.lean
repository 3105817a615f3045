import MarketRelay.Delivery
import MarketRelay.FakeProvider
import MarketRelay.Registry

/-!
# The Service on the Fake Provider

The default registries serve the source `fake` with one object, and every listing with its calendar.
What the service stores of this source is then determined by its key alone: any two runs agree on
every session that both have stored, however their threads were interleaved.

The provider reports closes only, of a fund as well, whose net asset values are what the service asks
for. The sessions of an equity or an ETF that are dispatched are kept, since the calendar expects
what the prices cover.

## Main results

* `fake_stored`: what is stored of the source, in every state of every run.
* `fake_session_kept`: no dispatched session of an equity or an ETF is lost.
-/

open Relational Interaction Gregorian

namespace MarketRelay

open FakeMarketDataProvider

/-! ### The default registries -/

/-- `SOURCE_NAME` -/
def fakeSourceName : String := "fake"

/-- `_CALENDAR_ROUTES` -/
def defaultRoutes : CalendarRouting := Finmap.singleton "*" fakeSourceName

variable {A : Type}

/-- The registries before any registration. -/
def Registries.default (fake : A) : Registries A
  | .metadata | .latest => ∅
  | _ => Finmap.singleton fakeSourceName fake

/-- The calendars of the listings, by the routes that there are by default. -/
def Registries.calendars (r : Registries A) (sessionsOf : A → Calendar) (upper : String → String) :
    CalendarRoutes :=
  fun mic venue => (getCalendarForListing upper defaultRoutes r mic venue).map sessionsOf

/-- What the registered adapters answer to the fetch of a range. -/
def Registries.provider (r : Registries A)
    (pricesOf : A → String → Date → Date → Except PyError (List RawObservation)) : Provider :=
  fun source listing start «end» raws => ∀ text, listing = some text →
    ∃ adapter, getHistoricalPricePort source r = .ok adapter ∧
      pricesOf adapter text start «end» = .ok raws

/-- The object has the prices and the calendar of the fake provider. -/
structure IsFake (source : PriceSource)
    (pricesOf : A → String → Date → Date → Except PyError (List RawObservation))
    (sessionsOf : A → Calendar) (fake : A) : Prop where
  prices : pricesOf fake = fetchRange source.deterministicPrice
  sessions : sessionsOf fake = sessionsInRange

section

variable [Adapter A] {fake : A} {ops : List (Registration A)}
  {source : PriceSource}
  {pricesOf : A → String → Date → Date → Except PyError (List RawObservation)}
  {sessionsOf : A → Calendar} {upper : String → String}

/-- The default adapter serves its source as long as nothing is registered in its place. -/
theorem getPort_default {c : Capability} (hmetadata : c ≠ .metadata) (hlatest : c ≠ .latest)
    (h : Untouched c fakeSourceName ops) :
    getPort c fakeSourceName ((Registries.default fake).run ops) = .ok fake := by
  rw [getPort_eq_ok_iff, Registries.lookup_run, lastWrite?_eq_none_iff.mpr h, Option.getD_none]
  cases c with
  | metadata => exact absurd rfl hmetadata
  | latest => exact absurd rfl hlatest
  | _ => exact Finmap.lookup_singleton_eq

/-- There is a route for every listing. -/
theorem lookup_defaultRoutes_fallback : defaultRoutes.lookup "*" = some fakeSourceName :=
  Finmap.lookup_singleton_eq

/-- Every route leads to the fake provider. -/
theorem lookup_defaultRoutes {key name : String} (h : defaultRoutes.lookup key = some name) :
    name = fakeSourceName := by
  by_cases hkey : key = "*"
  · subst hkey
    exact (Option.some.inj (lookup_defaultRoutes_fallback.symm.trans h)).symm
  · have habsent : defaultRoutes.lookup key = none :=
      Finmap.lookup_eq_none.mpr fun hmem => hkey ((Finmap.mem_singleton _ _ _).mp hmem)
    exact absurd (habsent.symm.trans h) (by simp)

/-- Every listing has the calendar of the fake provider. -/
theorem calendars_default (hfake : IsFake source pricesOf sessionsOf fake)
    (h : Untouched .calendar fakeSourceName ops) (mic : Option String) (venue : String) :
    ((Registries.default fake).run ops).calendars sessionsOf upper mic venue =
      .ok sessionsInRange := by
  have hroute : ((routeKeys upper mic venue).findSome? fun key => defaultRoutes.lookup key).getD
      fakeSourceName = fakeSourceName := by
    cases hfound : (routeKeys upper mic venue).findSome? fun key => defaultRoutes.lookup key with
    | none => rfl
    | some name =>
        obtain ⟨key, -, hkey⟩ := List.exists_of_findSome?_eq_some hfound
        exact lookup_defaultRoutes hkey
  rw [Registries.calendars, getCalendarForListing_eq lookup_defaultRoutes_fallback, hroute,
    getCalendarPort, getPort_default (by decide) (by decide) h, ← hfake.sessions]
  rfl

/-- What is answered of the source is what the fake provider reports. -/
theorem provider_default (hfake : IsFake source pricesOf sessionsOf fake)
    (h : Untouched .historical fakeSourceName ops) {listing : String} {start «end» : Date}
    {raws : List RawObservation}
    (hanswered : ((Registries.default fake).run ops).provider pricesOf fakeSourceName
      (some listing) start «end» raws) :
    fetchRange source.deterministicPrice listing start «end» = .ok raws := by
  obtain ⟨adapter, hport, hraws⟩ := hanswered listing rfl
  rw [getHistoricalPricePort, getPort_default (by decide) (by decide) h] at hport
  obtain rfl := Except.ok.inj hport
  rw [← hfake.prices, hraws]

end

/-! ### The answers of the fake provider -/

section

variable {deterministicPrice : String → Decimal → Decimal → Decimal} {listing : String}
  {start final : Date} {raws : List RawObservation} {raw : RawObservation}

/-- A row is that of a weekday of the range. -/
theorem mem_fetchRange (h : fetchRange deterministicPrice listing start final = .ok raws) :
    raw ∈ raws ↔ ∃ d, (start ≤ d ∧ d ≤ final) ∧ d.weekday < 5 ∧
      observationOf deterministicPrice listing d = raw := by
  rw [fetchRange_eq] at h
  split at h
  · exact absurd h (by simp)
  · obtain rfl := Except.ok.inj h
    simp only [List.mem_map, List.mem_filter, Date.mem_interval, decide_eq_true_eq, and_assoc]

end

section

variable {A : Type} [Adapter A] {fake : A} {ops : List (Registration A)} {source : PriceSource}
  {pricesOf : A → String → Date → Date → Except PyError (List RawObservation)}
  {sessionsOf : A → Calendar} (hfake : IsFake source pricesOf sessionsOf fake)
  (huntouched : Untouched .historical fakeSourceName ops)

include hfake huntouched

/-- The fake provider never changes a value. -/
theorem stable_default :
    Provider.Stable (((Registries.default fake).run ops).provider pricesOf) fakeSourceName := by
  rintro listing start final raws start' final' raws' hanswered hanswered' raw hraw raw' hraw' - -
    hdate - -
  obtain ⟨d, -, -, rfl⟩ := (mem_fetchRange (provider_default hfake huntouched hanswered)).mp hraw
  obtain ⟨d', -, -, rfl⟩ :=
    (mem_fetchRange (provider_default hfake huntouched hanswered')).mp hraw'
  obtain rfl : d = d' := hdate
  obtain ⟨q, hq, -⟩ := source.deterministicPrice_spec (listing ++ "|" ++ d.isoformat)
  rw [sameValue_self_iff]
  simp [ObservationValue.hasNaN, IngestionRunner.rowValue, observationOf, hq, Decimal.isNaN]

/-- The columns store its prices exactly. -/
theorem exactFor_default :
    Provider.ExactFor (((Registries.default fake).run ops).provider pricesOf) fakeSourceName := by
  intro listing start final raws hanswered raw hraw
  obtain ⟨d, -, -, rfl⟩ := (mem_fetchRange (provider_default hfake huntouched hanswered)).mp hraw
  obtain ⟨q, hq, -, hscale⟩ := source.deterministicPrice_spec (listing ++ "|" ++ d.isoformat)
  have hfits : (Decimal.finite q).HasScale numericScale := hscale.mono (by decide)
  intro value hvalue
  simp only [ObservationValue.decimals, IngestionRunner.rowValue, observationOf, hq,
    List.flatMap_cons, List.flatMap_nil, Option.toList_some, List.cons_append, List.nil_append,
    List.mem_cons, List.not_mem_nil, or_false, or_self] at hvalue
  exact hvalue ▸ hfits

/-- All answers are exact as soon as those of the other sources are. -/
theorem exact_default (hothers : ∀ name, name ≠ fakeSourceName →
      Provider.ExactFor (((Registries.default fake).run ops).provider pricesOf) name) :
    Provider.Exact (((Registries.default fake).run ops).provider pricesOf) := by
  intro name
  by_cases hname : name = fakeSourceName
  · exact hname ▸ exactFor_default hfake huntouched
  · exact hothers name hname

/-- The fake provider publishes the weekdays, as closes. -/
theorem publishes_default {series : SeriesKey} (hsource : series.source = fakeSourceName)
    (htype : series.observationType = .eodClose) {d : Date} (hd : d.weekday < 5) :
    Provider.Publishes (((Registries.default fake).run ops).provider pricesOf) series d := by
  have hcurrency : currencyMatches "EUR" = true := by decide +kernel
  obtain ⟨q, hq, hten, -⟩ :=
    source.deterministicPrice_spec (series.externalListingId ++ "|" ++ d.isoformat)
  intro start final raws hanswered hstart hfinal
  rw [hsource] at hanswered
  refine ⟨observationOf source.deterministicPrice series.externalListingId d,
    (mem_fetchRange (provider_default hfake huntouched hanswered)).mpr
      ⟨d, ⟨hstart, hfinal⟩, hd, rfl⟩, rfl, rfl, htype.symm, hcurrency, q, hq, ?_⟩
  exact lt_of_lt_of_le (by norm_num) hten

end

/-! ### Runs on the fake provider -/

section Runs

variable {ι : Type} [DecidableEq ι] {A : Type} [Adapter A] {fake : A}
  {ops : List (Registration A)} {source : PriceSource}
  {pricesOf : A → String → Date → Date → Except PyError (List RawObservation)}
  {sessionsOf : A → Calendar} {workers : ι → ServiceWorker} {cfg : ServiceConfig ι}
  {decisions : DecisionTable}

/-- **What is stored of the fake source is determined by its key**, in every state of every run,
whatever else has been registered that answers exact values: it is the first revision, and the close
that the provider derives from the listing and the date, which is a weekday. So two runs agree on
every session that both have stored, and no net asset value of the source is stored. -/
theorem fake_stored (ρ : Rounding numericScale) (hfake : IsFake source pricesOf sessionsOf fake)
    (huntouched : Untouched .historical fakeSourceName ops)
    (hothers : ∀ name, name ≠ fakeSourceName →
      Provider.ExactFor (((Registries.default fake).run ops).provider pricesOf) name)
    (hr : Config.Reaches (columnSemantics ρ)
      (Serving (((Registries.default fake).run ops).provider pricesOf) workers)
      (ServiceConfig.start workers Table.empty decisions) cfg)
    {o : Observation} (ho : o ∈ cfg.shared.observations.rows)
    (hsource : o.key.source = fakeSourceName) :
    o.revision = 1 ∧ o.key.observationType = .eodClose ∧ o.key.sessionDate.weekday < 5 ∧
      o.value = IngestionRunner.rowValue (observationOf source.deterministicPrice
        o.key.externalListingId o.key.sessionDate) := by
  have hexact := exact_default hfake huntouched hothers
  refine ⟨ServiceConfig.first ρ hexact hr ho (hsource ▸ stable_default hfake huntouched), ?_⟩
  obtain ⟨⟨j, -, cursor, raws, -, hanswered, raw, hraw, haccepted, scope, -, hkey, hvalue⟩, -⟩ :=
    ServiceConfig.answered ρ hexact hr ho
  obtain ⟨hlisting, -⟩ := validateRawObservation_eq_ok_iff.mp haccepted
  rw [hkey] at hsource
  rw [hlisting, show j.source = fakeSourceName from hsource] at hanswered
  obtain ⟨d, -, hweekday, hrow⟩ :=
    (mem_fetchRange (provider_default hfake huntouched hanswered)).mp hraw
  rw [hkey, hvalue]
  rw [← hrow] at *
  exact ⟨rfl, hweekday, rfl⟩

/-- **No dispatched session of an equity or an ETF is lost** on the fake provider: the calendar that
the refresh plans with expects it on weekdays only, and those have prices. In every state of every
run it is stored, or a job that covers it is still to be processed, or has failed for good. -/
theorem fake_session_kept (hfake : IsFake source pricesOf sessionsOf fake)
    (hhistorical : Untouched .historical fakeSourceName ops)
    (hcalendar : Untouched .calendar fakeSourceName ops)
    {observations : ObservationTable}
    (hr : Config.Reaches semantics
      (Delivers (((Registries.default fake).run ops).provider pricesOf) workers)
      (ServiceConfig.start workers observations decisions) cfg)
    {i : ι} {x : Refresh} (hi : workers i = .refresh x) {upper : String → String}
    (hcalendars : x.calendars = ((Registries.default fake).run ops).calendars sessionsOf upper)
    (hclasses : ∀ listing ∈ x.catalog.listings,
      listing.assetClass = .equity ∨ listing.assetClass = .etf)
    {events : List RefreshEvent} (hret : (cfg.thread i).prog.result? = some (.ok events))
    {series : SeriesKey} (hsource : series.source = fakeSourceName) {r : DispatchResult}
    (hevent : .listing series (.ok r) ∈ events) {chunk : RecoveryChunk}
    (hchunk : chunk ∈ r.plan.chunks) {d : Date} (hd : d ∈ chunk.sessionDates) :
    (∃ o ∈ cfg.shared.observations.rows, o.key = series.at d) ∨
      ∃ j ∈ cfg.shared.jobs.rows, j.Covers series d ∧
        (j.status.ended = false ∨ j.status = .failed) := by
  obtain ⟨hsession, j, hj, hcovers⟩ := ServiceConfig.dispatched hr hi hret hevent hchunk hd
  obtain ⟨identity, -, listing, calendar, first, answer, hlisting, hseries, hcal, hanswer, hmem⟩ :=
    hsession
  have hclass := hclasses listing (List.mem_of_find?_eq_some hlisting)
  rw [hcalendars, calendars_default hfake hcalendar] at hcal
  obtain rfl := Except.ok.inj hcal
  have htype : series.observationType = .eodClose := by
    rw [hseries]
    rcases hclass with hclass | hclass <;> simp [Refresh.seriesOf, observationTypeFor, hclass]
  have hexpected : expectation listing.assetClass d = .expectedPublished := by
    rw [sessionsInRange_eq] at hanswer
    split at hanswer
    · exact absurd hanswer (by simp)
    · obtain rfl := Except.ok.inj hanswer
      obtain ⟨d', -, hcheck⟩ := List.mem_map.mp hmem
      injection hcheck with hdate hexpectation
      exact hdate ▸ hexpectation
  have hweekday : d.weekday < 5 := by
    by_contra hweekend
    have hnone : expectation listing.assetClass d = .noSession := by
      rcases hclass with hclass | hclass <;>
        exact (expectation_eq_noSession_iff (by simp [hclass])).mpr hweekend
    exact absurd (hexpected.symm.trans hnone) (by simp)
  exact ServiceConfig.covered hr hj hcovers
    (publishes_default hfake hhistorical hsource htype hweekday)

end Runs

/-! ### A run on concrete tables -/

/-- The object of the default registries. -/
inductive DefaultAdapter where
  | fake

instance : Adapter DefaultAdapter where
  hasattr _ method := decide (method ≠ .getMetadata ∧ method ≠ .fetchLatest)

/-- The first digits of the digest of the text `BTC|2026-01-02`, and the quotient of the number that
they stand for. -/
def todaysPrices : PriceSource where
  hexdigest _ := "f10354dd".toList
  ratio n := if n = 4043527389 then 941457084832121 / 10 ^ 15 else 0
  ratio_nonneg n := by
    split
    · norm_num
    · rfl

def defaultPrices (_ : DefaultAdapter) :
    String → Date → Date → Except PyError (List RawObservation) :=
  fetchRange todaysPrices.deterministicPrice

def defaultSessions (_ : DefaultAdapter) : Calendar := sessionsInRange

theorem isFake_default : IsFake todaysPrices defaultPrices defaultSessions .fake := ⟨rfl, rfl⟩

/-- The calendar of the fake provider, by what it returns. -/
def weekdayCalendar : Calendar := fun assetClass venue mic start final =>
  if start ≤ final ∧ final.ordinal = maxOrdinal then .error .overflow
  else Calendar.ofClassification (expectation assetClass) assetClass venue mic start final

/-- A refresh of one equity. -/
def equityRefresh : Refresh :=
  { dailyRefresh 0 with
    catalog := ⟨[⟨1, "fake", "BTC", today, none⟩], [⟨1, .equity, "X", none⟩]⟩
    calendars := fun _ _ => .ok weekdayCalendar }

theorem equityRefresh_calendars : equityRefresh.calendars =
    ((Registries.default DefaultAdapter.fake).run []).calendars defaultSessions upper := by
  have hcalendar : sessionsInRange = weekdayCalendar := by
    funext assetClass venue mic start final
    exact sessionsInRange_eq
  funext mic venue
  rw [calendars_default isFake_default fun op hop => absurd hop List.not_mem_nil, hcalendar]
  rfl

def todaysRow : RawObservation := observationOf todaysPrices.deterministicPrice "BTC" today

theorem provider_today :
    ((Registries.default DefaultAdapter.fake).run []).provider defaultPrices "fake" (some "BTC")
      today today [todaysRow] := by
  intro text htext
  obtain rfl := Option.some.inj htext
  refine ⟨.fake, getPort_default (by decide) (by decide) fun op hop =>
    absurd hop List.not_mem_nil, ?_⟩
  rw [defaultPrices, fetchRange_eq]
  decide +kernel

/-- The refresh and the processing phase of the equity. -/
def equityConfig : ServiceConfig Bool :=
  (ServiceConfig.start (refreshAndProcess equityRefresh) Table.empty approvedRegister).run
    semantics (completingSteps [todaysRow])

theorem equityConfig_reaches : Config.Reaches semantics
    (Delivers (((Registries.default DefaultAdapter.fake).run []).provider defaultPrices)
      (refreshAndProcess equityRefresh))
    (ServiceConfig.start (refreshAndProcess equityRefresh) Table.empty approvedRegister)
    equityConfig :=
  reaches_of_fetchesToday provider_today (by decide +kernel)

/-- There is no other source in the default registries. -/
theorem exactFor_others (name : String) (hname : name ≠ fakeSourceName) : Provider.ExactFor
    (((Registries.default DefaultAdapter.fake).run []).provider defaultPrices) name := by
  intro listing start final raws hanswered
  obtain ⟨adapter, hport, -⟩ := hanswered listing rfl
  rw [getHistoricalPricePort, getPort_eq_ok_iff] at hport
  have habsent : (Finmap.singleton fakeSourceName DefaultAdapter.fake :
      Finmap fun _ : String => DefaultAdapter).lookup name = none :=
    Finmap.lookup_eq_none.mpr fun hmem => hname ((Finmap.mem_singleton _ _ _).mp hmem)
  exact absurd (habsent.symm.trans hport) (by simp)

/-- The same run over columns that round. -/
def roundedEquityConfig : ServiceConfig Bool :=
  (ServiceConfig.start (refreshAndProcess equityRefresh) Table.empty approvedRegister).run
    (columnSemantics (.halfAway numericScale)) (completingSteps [todaysRow])

theorem roundedEquityConfig_reaches : Config.Reaches (columnSemantics (.halfAway numericScale))
    (Serving (((Registries.default DefaultAdapter.fake).run []).provider defaultPrices)
      (refreshAndProcess equityRefresh))
    (ServiceConfig.start (refreshAndProcess equityRefresh) Table.empty approvedRegister)
    roundedEquityConfig := by
  have hreaches : Config.Reaches (columnSemantics (.halfAway numericScale))
      (Delivers (((Registries.default DefaultAdapter.fake).run []).provider defaultPrices)
        (refreshAndProcess equityRefresh))
      (ServiceConfig.start (refreshAndProcess equityRefresh) Table.empty approvedRegister)
      roundedEquityConfig := reaches_of_fetchesToday provider_today (by decide +kernel)
  exact hreaches.mono fun _ _ _ h => h.toServing

/-- The close of today is stored as the provider derives it. -/
theorem fake_stored_today : ∃ o ∈ roundedEquityConfig.shared.observations.rows,
    o.value = IngestionRunner.rowValue (observationOf todaysPrices.deterministicPrice
      o.key.externalListingId o.key.sessionDate) ∧ o.value.close = .finite (9473 / 100) := by
  have hstored : roundedEquityConfig.shared.observations.rows.any (fun o =>
      decide (o.key.source = fakeSourceName ∧ o.value.close = .finite (9473 / 100))) = true := by
    decide +kernel
  obtain ⟨o, ho, hfields⟩ := List.any_eq_true.mp hstored
  obtain ⟨hsource, hclose⟩ := of_decide_eq_true hfields
  exact ⟨o, ho, (fake_stored (.halfAway numericScale) isFake_default
    (fun op hop => absurd hop List.not_mem_nil) exactFor_others roundedEquityConfig_reaches ho
    hsource).2.2.2, hclose⟩

/-- The session of today is kept. -/
theorem fake_session_kept_today :
    (∃ o ∈ equityConfig.shared.observations.rows, o.key = todaysDispatch.series.at today) ∨
      ∃ j ∈ equityConfig.shared.jobs.rows, j.Covers todaysDispatch.series today ∧
        (j.status.ended = false ∨ j.status = .failed) := by
  let r : DispatchResult := ⟨todaysPlan, [⟨newJob (Dispatch.jobArgs
    { todaysDispatch with limits := some ⟨0, 1⟩, assetClass := .equity }
    ⟨false, today, today⟩) 0 0, true⟩], none⟩
  have hret : (equityConfig.thread false).prog.result? =
      some (.ok [.listing todaysDispatch.series (.ok r)]) := by decide +kernel
  have hchunk : (⟨today, today, [today]⟩ : RecoveryChunk) ∈ r.plan.chunks :=
    List.mem_singleton_self _
  refine fake_session_kept isFake_default (fun op hop => absurd hop List.not_mem_nil)
    (fun op hop => absurd hop List.not_mem_nil) equityConfig_reaches (i := false) rfl
    equityRefresh_calendars (fun listing hlisting => ?_) hret rfl (List.mem_singleton_self _) hchunk
    (List.mem_singleton_self _)
  obtain rfl := List.mem_singleton.mp hlisting
  exact Or.inl rfl

end MarketRelay
