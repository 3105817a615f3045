import MarketRelay.Delivery
import MarketRelay.Overlap
import MarketRelay.Partition

/-!
# Recovering from Outages

Refreshes may be days apart, and a refresh may miss a listing: its calendar raises, or the bound on
the number of listings leaves it out. Each refresh plans what lies after the last completed
session, but never goes back further than the lookback. So the first refresh on or after the date
of a session decides what becomes of it: either the session is within the lookback, and is
dispatched, or no later refresh ever dispatches it (`Market.Reached`).

A market has fixed sessions; whether the calendar calls one published or awaited may change from
one refresh to the next. Between the refreshes processing phases take their steps, with any answers
of the providers. A processing phase may store a row of another observation type than its job asks
for; it stores nothing else for a series than the sessions of a job of the series as long as no
other series has the identity of the market's (`Market.Separate`).

## Main results

* `MarketRun.recovered`: what the job table contains after a run.
* `Market.Recovered.stored`: what the store contains.
* `session_dispatched_iff_reached`: a session is dispatched exactly when it was within the lookback
  of the first refresh on or after its date.
-/

open Relational Interaction Gregorian

namespace MarketRelay

/-! ### Planning from a start -/

namespace RecoveryPlanner

variable {limits : RecoveryLimits} {last : Option Date} {today start d : Date}

/-- The pending range never starts before the lookback. -/
theorem lookback_le_startDate (h : startDate limits last today = .ok start) :
    (today.ordinal : ℤ) - limits.maxLookbackDays ≤ start.ordinal := by
  by_cases hrepr : Representable limits last today
  · obtain ⟨first, hfirst, hpending⟩ := startDate_eq hrepr
    obtain rfl := Except.ok.inj (hfirst.symm.trans h)
    rw [hpending]
    cases last with
    | none => exact le_rfl
    | some l => exact le_max_right _ _
  · rw [startDate_eq_error hrepr] at h
    exact absurd h (by simp)

/-- A date after the last completed session, within the lookback, is pending. -/
theorem startDate_le (h : startDate limits last today = .ok start) (hlast : ∀ l ∈ last, l < d)
    (hrecent : (today.ordinal : ℤ) - limits.maxLookbackDays ≤ d.ordinal) : start ≤ d := by
  by_cases hrepr : Representable limits last today
  · obtain ⟨first, hfirst, hpending⟩ := startDate_eq hrepr
    obtain rfl := Except.ok.inj (hfirst.symm.trans h)
    have hle : pendingFrom limits last today ≤ d.ordinal := by
      cases last with
      | none => exact hrecent
      | some l =>
          have hlt := Date.lt_def.mp (hlast l rfl)
          exact max_le (by omega) hrecent
    exact Date.le_def.mpr (by omega)
  · rw [startDate_eq_error hrepr] at h
    exact absurd h (by simp)

/-- A published session of the answer is in a chunk. -/
theorem mem_chunks {size : ℤ} {answer : List SessionCheck} {cs : List RecoveryChunk}
    (hsize : 1 ≤ size) (h : chunks size (datesOf .expectedPublished (inOrder answer)) = .ok cs)
    (hd : ⟨d, .expectedPublished⟩ ∈ answer) : ∃ c ∈ cs, d ∈ c.sessionDates := by
  obtain ⟨cs', hcs', hslices, -⟩ :=
    chunks_eq size hsize (datesOf .expectedPublished (inOrder answer))
  obtain rfl := Except.ok.inj (hcs'.symm.trans h)
  have hflat : d ∈ (slices size.toNat (datesOf .expectedPublished (inOrder answer))).flatten := by
    rw [slices_flatten (by omega)]
    exact mem_datesOf.mpr hd
  rw [← hslices, ← List.flatMap_def] at hflat
  exact List.mem_flatMap.mp hflat

end RecoveryPlanner

/-! ### The market of a series -/

/-- A series, with the limits of its recovery and the dates on which its market has a session. -/
structure Market where
  series : SeriesKey
  limits : RecoveryLimits
  sized : 1 ≤ limits.maxSessionsPerChunk
  Trades : Date → Prop

namespace Market

/-- The session of the date is stored. -/
def Stored (m : Market) (observations : ObservationTable) (d : Date) : Prop :=
  ∃ o ∈ observations.rows, o.key = m.series.at d

/-- A job covers the session of the date. -/
def Dispatched (m : Market) (jobs : JobTable) (d : Date) : Prop :=
  ∃ j ∈ jobs.rows, j.Covers m.series d

/-- The first of the refreshes on or after the date came within the lookback. -/
def Reached (m : Market) (days : List Date) (d : Date) : Prop :=
  ∃ day, days.find? (fun day => decide (d ≤ day)) = some day ∧
    (day.ordinal : ℤ) - m.limits.maxLookbackDays ≤ d.ordinal

/-- The series is the market's, or it has another identity and none of the market's keys. -/
structure Separate (m : Market) (series : SeriesKey) : Prop where
  identity : series.source = m.series.source → series.credentialScope = m.series.credentialScope →
    series.externalListingId = m.series.externalListingId → series = m.series
  keys : ∀ range range',
    Dispatch.dedupeKey series range = Dispatch.dedupeKey m.series range' → series = m.series

variable {m : Market} {days : List Date} {day d : Date}

/-- What was reached stays reached. -/
theorem Reached.concat (h : m.Reached days d) : m.Reached (days ++ [day]) d := by
  obtain ⟨first, hfirst, hrecent⟩ := h
  exact ⟨first, by rw [List.find?_append, hfirst, Option.some_or], hrecent⟩

/-- A date within the lookback of the last refresh is reached. -/
theorem reached_of_recent (hlater : ∀ day' ∈ days, day' ≤ day) (hle : d ≤ day)
    (hrecent : (day.ordinal : ℤ) - m.limits.maxLookbackDays ≤ d.ordinal) :
    m.Reached (days ++ [day]) d := by
  cases hfirst : days.find? fun day => decide (d ≤ day) with
  | none =>
      refine ⟨day, ?_, hrecent⟩
      rw [List.find?_append, hfirst, Option.none_or, List.find?_singleton,
        if_pos (by simpa using hle)]
  | some first =>
      have hday := Date.le_def.mp (hlater first (List.mem_of_find?_eq_some hfirst))
      exact Reached.concat ⟨first, hfirst, by omega⟩

/-- A date that only the last refresh reaches is after all refreshes before it. -/
theorem Reached.of_concat (h : m.Reached (days ++ [day]) d) : m.Reached days d ∨
    (∀ day' ∈ days, day' < d) ∧ d ≤ day ∧
      (day.ordinal : ℤ) - m.limits.maxLookbackDays ≤ d.ordinal := by
  obtain ⟨first, hfirst, hrecent⟩ := h
  rw [List.find?_append] at hfirst
  cases hbefore : days.find? fun day => decide (d ≤ day) with
  | some first' =>
      rw [hbefore, Option.some_or] at hfirst
      obtain rfl := Option.some.inj hfirst
      exact Or.inl ⟨first', hbefore, hrecent⟩
  | none =>
      rw [hbefore, Option.none_or] at hfirst
      obtain rfl := List.mem_singleton.mp (List.mem_of_find?_eq_some hfirst)
      refine Or.inr ⟨fun day' hday' => not_le.mp ?_, ?_, hrecent⟩
      · simpa using List.find?_eq_none.mp hbefore day' hday'
      · simpa using List.find?_some hfirst

end Market

/-- The greatest stored date of a series. -/
theorem lastCompletedSession_eq_some {series : SeriesKey} {observations : ObservationTable}
    {last : Date} (h : lastCompletedSession series observations = some last) :
    ∃ o ∈ observations.rows, o.key = series.at last := by
  obtain ⟨o, ho, rfl⟩ := List.mem_map.mp (List.max?_mem h)
  obtain ⟨hmem, hkey⟩ := List.mem_filter.mp ho
  simp only [Bool.and_eq_true, decide_eq_true_eq] at hkey
  obtain ⟨⟨⟨hsource, hscope⟩, hexternal⟩, htype⟩ := hkey
  refine ⟨o, hmem, ?_⟩
  rw [SeriesKey.at, ← hsource, ← hscope, ← hexternal, ← htype]

/-! ### Refreshes of the market -/

namespace Refresh

/-- The phase plans the series of the market within the limits of the market, and its calendars
keep their contract: for each session of the market in the range they answer that there is one, be
it published or awaited. Every other series that it considers is separate from the market's. -/
structure Serves (x : Refresh) (m : Market) : Prop where
  limits : x.recoveryLimits.getD .default = m.limits
  classifies : x.calendars.Classifies
  sessions : ∀ identity listing, x.catalog.listing? identity.listingId = some listing →
    seriesOf identity listing = m.series →
      ∀ calendar, x.calendars listing.mic listing.venue = .ok calendar → ∀ first answer,
        calendar listing.assetClass listing.venue listing.mic first x.today = .ok answer →
          ∀ d, m.Trades d → first ≤ d → d ≤ x.today →
            ⟨d, .expectedPublished⟩ ∈ answer ∨ ⟨d, .waitingForPublication⟩ ∈ answer
  separate : ∀ identity, x.Considers identity → ∀ listing,
    x.catalog.listing? identity.listingId = some listing → m.Separate (seriesOf identity listing)

/-- The phase, with these events, has visited the identity and planned it as the series. -/
structure PlansSeries (x : Refresh) (observations : ObservationTable) (events : List RefreshEvent)
    (identity : ExternalIdentity) (series : SeriesKey) : Prop where
  considered : x.Considers identity
  ports : ∀ e, .source identity.source e ∉ events
  planned : ∃ args plan, x.planned? observations identity = some (args, plan) ∧
    args.series = series

variable {x : Refresh} {m : Market} {db db' : Db} {l l' : Session} {its : List Iteration}

theorem Iterates.jobs_grow (h : x.Iterates db its db') : db.jobs.rows <+: db'.jobs.rows := by
  induction h with
  | nil => exact List.prefix_rfl
  | cons hexec _ ih =>
      obtain ⟨-, -, ⟨-, hjobs⟩ | ⟨args, plan, results, -, henq⟩⟩ := refreshListing_executes hexec
      · exact hjobs ▸ ih
      · exact henq.rows_grow.trans ih

/-- A job that a refresh has added is the job of a range of a plan, and not over. -/
theorem Iterates.exists_planned (h : x.Iterates db its db') {j : Job} (hj : j ∈ db'.jobs.rows) :
    j ∈ db.jobs.rows ∨ ∃ i ∈ its, ∃ args plan range,
      x.planned? db.observations i.identity = some (args, plan) ∧ range ∈ plan.ranges ∧
        j.OfRange args.series range ∧ j.status.ended = false := by
  induction h with
  | nil => exact Or.inl hj
  | @cons i its db' l l' r hexec hrest ih =>
      obtain ⟨hobs, -, hjobs⟩ := refreshListing_executes hexec
      rcases ih hj with hbefore | ⟨i', hi', args, plan, range, hplan, hrange⟩
      · rcases hjobs with ⟨-, hjobs⟩ | ⟨args, plan, results, hplan, henq⟩
        · exact Or.inl (hjobs ▸ hbefore)
        · obtain ⟨new, hrows, hnew⟩ := henq.adds
          rcases List.mem_append.mp (hrows ▸ hbefore) with hold | hadded
          · exact Or.inl hold
          · obtain ⟨range, hr, hjob, -⟩ := hnew j hadded
            exact Or.inr ⟨i, List.mem_cons_self, args, plan, range, hplan, hr, hjob.ofRange,
              hjob.not_ended⟩
      · exact Or.inr ⟨i', List.mem_cons_of_mem i hi', args, plan, range, hobs ▸ hplan, hrange⟩

/-- An identity that is considered, and whose source is not reported, has an iteration. -/
theorem Visits.exists_iteration {events : List RefreshEvent} (h : x.Visits events its)
    {identity : ExternalIdentity} (hid : x.Considers identity)
    (hports : ∀ e, .source identity.source e ∉ events) : ∃ i ∈ its, i.identity = identity := by
  obtain ⟨sources, -, hmap, hreported⟩ := h
  obtain ⟨source, henabled, hmem⟩ := hid
  obtain rfl := (Catalog.mem_selectIdentities hmem).2.1
  rcases hreported _ henabled with hsource | ⟨e, he⟩
  · have hvisited : identity ∈ its.map Iteration.identity :=
      hmap ▸ List.mem_flatMap.mpr ⟨_, hsource, hmem⟩
    obtain ⟨i, hi, heq⟩ := List.mem_map.mp hvisited
    exact ⟨i, hi, heq⟩
  · exact absurd he (hports e)

/-- What a visit of an identity with a plan enqueues. -/
theorem Iterates.enqueued (h : x.Iterates db its db') {i : Iteration} (hi : i ∈ its)
    {args : DispatchArgs} {plan : RecoveryPlan}
    (hplan : x.planned? db.observations i.identity = some (args, plan)) {range : PlannedRange}
    (hr : range ∈ plan.ranges) :
    ∃ j ∈ db'.jobs.rows, j.dedupeKey = Dispatch.dedupeKey args.series range := by
  induction h with
  | nil => exact absurd hi List.not_mem_nil
  | cons hexec hrest ih =>
      obtain ⟨hobs, -, hjobs⟩ := refreshListing_executes hexec
      rcases List.mem_cons.mp hi with rfl | hi
      · rcases hjobs with ⟨hnone, -⟩ | ⟨args', plan', results, hplan', henq⟩
        · exact absurd (hnone.symm.trans hplan) (by simp)
        · obtain ⟨rfl, rfl⟩ := Prod.mk.inj (Option.some.inj (hplan'.symm.trans hplan))
          obtain ⟨j, hj, hkey⟩ := henq.keys range hr
          exact ⟨j, hrest.jobs_grow.subset hj, hkey⟩
      · exact ih hi (hobs ▸ hplan)

/-- A job stays in the table while a refresh adds others. -/
theorem Iterates.get?_eq_some (h : x.Iterates db its db') {id : ℕ} {j : Job}
    (hj : db.jobs.get? id = some j) : db'.jobs.get? id = some j := by
  obtain ⟨hmem, hid⟩ := Table.get?_eq_some_iff.mp hj
  exact Table.get?_eq_some_iff.mpr ⟨h.jobs_grow.subset hmem, hid⟩

/-- What another thread knows stays true while a refresh runs. -/
theorem Iterates.knows {provider : Provider} {facts : List Finding} (h : x.Iterates db its db')
    (hknows : ServiceWorker.Knows provider db l facts) :
    ServiceWorker.Knows provider db' l facts := by
  refine ⟨fun fact hfact => ?_, fun id j hj => ?_⟩
  · have hholds := hknows.facts fact hfact
    cases fact with
    | job id source cursor =>
        obtain ⟨j, hj, hfields⟩ := hholds
        exact ⟨j, h.get?_eq_some hj, hfields⟩
    | response => exact hholds
    | stored key revision value =>
        obtain ⟨o, ho, hfields⟩ := hholds
        exact ⟨o, h.observations_eq.1 ▸ ho, hfields⟩
  · obtain ⟨hid, j', hj', hfields⟩ := hknows.copies id j hj
    exact ⟨hid, j', h.get?_eq_some hj', hfields⟩

/-- A refresh stores nothing and completes no job. -/
theorem Iterates.kept {provider : Provider} {observations : ObservationTable}
    (h : x.Iterates db its db') (hkept : db.Kept provider observations) :
    db'.Kept provider observations := by
  have hobs := h.observations_eq.1
  refine ⟨fun j hj hdone => ?_, fun o ho => ?_⟩
  · rw [hobs]
    rcases h.exists_planned hj with hold | ⟨_, _, _, _, _, _, _, _, hlive⟩
    · exact hkept.done j hold hdone
    · rw [hdone] at hlive
      exact absurd hlive (by decide)
  · rw [hobs] at ho ⊢
    refine (hkept.provided o ho).imp_right fun ⟨hprovided, hcorrects⟩ => ⟨?_, hcorrects⟩
    obtain ⟨j, hj, hanswered⟩ := hprovided
    exact ⟨j, h.jobs_grow.subset hj, hanswered⟩

variable {observations : ObservationTable} {identity : ExternalIdentity} {args : DispatchArgs}
  {plan : RecoveryPlan} {range : PlannedRange} {d : Date}

/-- What is planned is separate from the market's, or the market's. -/
theorem Serves.separate_planned (hx : x.Serves m) (hid : x.Considers identity)
    (hplan : x.planned? observations identity = some (args, plan)) : m.Separate args.series := by
  obtain ⟨listing, -, hlisting, -, rfl, -⟩ := planned?_eq_some_iff.mp hplan
  exact hx.separate identity hid listing hlisting

/-- The dates of a planned range are within the lookback. -/
theorem Serves.recent (hx : x.Serves m)
    (hplan : x.planned? observations identity = some (args, plan)) (hr : range ∈ plan.ranges)
    (hd : range.start ≤ d ∧ d ≤ range.end) :
    d ≤ x.today ∧ (x.today.ordinal : ℤ) - m.limits.maxLookbackDays ≤ d.ordinal := by
  obtain ⟨first, hfirst, hstart, hend⟩ :=
    JobTable.Disjoint.pending_window hx.classifies hplan hr
  obtain ⟨listing, -, -, -, rfl, -⟩ := planned?_eq_some_iff.mp hplan
  have hback := RecoveryPlanner.lookback_le_startDate hfirst
  have hle := Date.le_def.mp (hstart.trans hd.1)
  refine ⟨hd.2.trans hend, ?_⟩
  rw [← hx.limits]
  exact hback.trans (by omega)

/-- A session after the last completed one, within the lookback, is planned. -/
theorem Serves.mem_dates (hx : x.Serves m)
    (hplan : x.planned? observations identity = some (args, plan))
    (hseries : args.series = m.series) (htrades : m.Trades d)
    (hlast : ∀ l ∈ lastCompletedSession m.series observations, l < d)
    (hle : d ≤ x.today) (hrecent : (x.today.ordinal : ℤ) - m.limits.maxLookbackDays ≤ d.ordinal) :
    d ∈ plan.dates := by
  obtain ⟨listing, calendar, hlisting, hcalendar, rfl, hok⟩ := planned?_eq_some_iff.mp hplan
  have hseries : seriesOf identity listing = m.series := hseries
  obtain ⟨first, hfirst, hcases⟩ := RecoveryPlanner.plan_cases hok
  have hfirstle : first ≤ d :=
    RecoveryPlanner.startDate_le hfirst (hseries ▸ hlast) (hx.limits.symm ▸ hrecent)
  rcases hcases with ⟨hlt, -⟩ | ⟨-, answer, cs, hanswer, hchunks, rfl⟩
  · exact absurd (hfirstle.trans hle) (not_le.mpr hlt)
  · have hsize : 1 ≤ (x.recoveryLimits.getD .default).maxSessionsPerChunk := hx.limits ▸ m.sized
    rcases hx.sessions identity listing hlisting hseries calendar hcalendar first answer hanswer d
        htrades hfirstle hle with hmem | hmem
    · exact List.mem_append_left _
        (List.mem_flatMap.mpr (RecoveryPlanner.mem_chunks hsize hchunks hmem))
    · exact List.mem_append_right _
        (RecoveryPlanner.mem_datesOf.mpr hmem)

end Refresh

/-! ### Runs -/

/-- Whatever a provider answers. -/
abbrev Provider.any : Provider := fun _ _ _ _ _ => True

section Runs

variable {ι : Type} [DecidableEq ι]

/-- A run of the service for a market that starts without jobs, with the days of the refreshes that
have planned the series. A refresh that plans it for no identity misses it. Between the refreshes
any thread may take a step: a processing phase, with any answer of the providers, or a program that
completes no job and inserts no observation. No thread inserts a job. -/
inductive MarketRun (m : Market) (workers : ι → ServiceWorker) (observations : ObservationTable) :
    List Date → ServiceConfig ι → Prop
  | start (decisions : DecisionTable) :
      MarketRun m workers observations [] (ServiceConfig.start workers observations decisions)
  | refresh {days : List Date} {cfg : ServiceConfig ι} {db' : Db} {l l' : Session} (x : Refresh)
      {events : List RefreshEvent} {identity : ExternalIdentity}
      (h : MarketRun m workers observations days cfg) (hserves : x.Serves m)
      (hlater : ∀ day ∈ days, day ≤ x.today)
      (hexec : x.events.Executes semantics cfg.shared l (.ok events) db' l')
      (hplans : x.PlansSeries cfg.shared.observations events identity m.series) :
      MarketRun m workers observations (days ++ [x.today]) ⟨db', cfg.thread⟩
  | missed {days : List Date} {cfg : ServiceConfig ι} {db' : Db} {l l' : Session} (x : Refresh)
      {events : List RefreshEvent} (h : MarketRun m workers observations days cfg)
      (hserves : x.Serves m)
      (hexec : x.events.Executes semantics cfg.shared l (.ok events) db' l')
      (hmissed : ∀ identity, x.Considers identity → ∀ args plan,
        x.planned? cfg.shared.observations identity = some (args, plan) → args.series ≠ m.series) :
      MarketRun m workers observations days ⟨db', cfg.thread⟩
  | step {days : List Date} {cfg : ServiceConfig ι}
      (h : MarketRun m workers observations days cfg) (i : ι) (e : Answers)
      (hserving : Serving Provider.any workers cfg i e)
      (hinserts : ∀ args, (cfg.thread i).prog.next? ≠ some (.insertJob args)) :
      MarketRun m workers observations days (cfg.step semantics i e)

end Runs

/-- What the job table contains, given the store at the start and the days of the refreshes. -/
structure Market.Recovered (m : Market) (observations : ObservationTable) (days : List Date)
    (db : Db) : Prop where
  jobs : ∀ j ∈ db.jobs.rows, ∃ series range, j.OfRange series range ∧ m.Separate series
  reached : ∀ d, m.Dispatched db.jobs d → m.Reached days d
  dispatched : ∀ d, m.Trades d → (∀ d₀, m.Stored observations d₀ → d₀ < d) → m.Reached days d →
    m.Dispatched db.jobs d

namespace Market.Recovered

variable {m : Market} {observations : ObservationTable} {days : List Date} {db db' : Db}
  {x : Refresh} {its : List Refresh.Iteration} {d : Date}

/-- **What is stored was stored at the start, or is the session of a job**, since the row of a job
that has the identity of the market is the row of a job of the market. -/
theorem stored {provider : Provider} (h : m.Recovered observations days db)
    (hkept : db.Kept provider observations) (hd : m.Stored db.observations d) :
    m.Stored observations d ∨ m.Reached days d := by
  obtain ⟨o, ho, hkey⟩ := hd
  rcases hkept.provided o ho with hinitial | ⟨hprovided, -⟩
  · exact Or.inl ⟨o, hinitial, hkey⟩
  obtain ⟨j, hj, cursor, raws, hparse, -, raw, -, haccepted, scope, hscope, hrow, -⟩ := hprovided
  obtain ⟨series, range, hjob, hseparate⟩ := h.jobs j hj
  obtain ⟨hlisting, hdates, -⟩ := validateRawObservation_eq_ok_iff.mp haccepted
  obtain ⟨hsource, hcursor, -⟩ := hjob
  have hparsed := hparse
  rw [hcursor, FetchCursor.parse_serialize] at hparsed
  obtain rfl := Except.ok.inj hparsed
  have hscope : some series.credentialScope = some scope := (Json.text?_ofText _).symm.trans hscope
  have hlisting : some series.externalListingId = some raw.externalListingId :=
    (Json.text?_ofText _).symm.trans hlisting
  rw [hkey, IngestionRunner.rowKey, SeriesKey.at] at hrow
  injection hrow with hsame hsame' hsame'' hdate
  have hseries : series = m.series := hseparate.identity (hsource.symm.trans hsame.symm)
    ((Option.some.inj hscope).trans hsame'.symm) ((Option.some.inj hlisting).trans hsame''.symm)
  refine Or.inr (h.reached d ⟨j, hj, ?_⟩)
  rw [hseries] at hsource hcursor
  exact (Job.covers_of_cursor hsource hcursor).mpr (hdate ▸ hdates)

/-- Whatever a refresh adds is the job of a range of a series that is separate from the market's. -/
theorem jobs_iterates (h : m.Recovered observations days db) (hx : x.Serves m)
    (hits : x.Iterates db its db') {events : List RefreshEvent} (hvisits : x.Visits events its) :
    ∀ j ∈ db'.jobs.rows, ∃ series range, j.OfRange series range ∧ m.Separate series := by
  intro j hj
  rcases hits.exists_planned hj with hold | ⟨i, hi, args, plan, range, hplan, -, hjob, -⟩
  · exact h.jobs j hold
  · exact ⟨args.series, range, hjob, hx.separate_planned (hvisits.considers hi) hplan⟩

/-- A date that a job of a refresh covers was covered before, or is one of a plan. -/
theorem dispatched_iterates (hits : x.Iterates db its db') (hd : m.Dispatched db'.jobs d) :
    m.Dispatched db.jobs d ∨ ∃ i ∈ its, ∃ args plan range,
      x.planned? db.observations i.identity = some (args, plan) ∧ range ∈ plan.ranges ∧
        args.series = m.series ∧ range.start ≤ d ∧ d ≤ range.end := by
  obtain ⟨j, hj, hcovers⟩ := hd
  rcases hits.exists_planned hj with hold | ⟨i, hi, args, plan, range, hplan, hr, hjob⟩
  · exact Or.inl ⟨j, hold, hcovers⟩
  · obtain ⟨hseries, hdates⟩ := hjob.1.covers hcovers
    exact Or.inr ⟨i, hi, args, plan, range, hplan, hr, hseries.symm, hdates⟩

/-- What a job covered is covered after the refresh. -/
theorem dispatched_mono (hits : x.Iterates db its db') (hd : m.Dispatched db.jobs d) :
    m.Dispatched db'.jobs d := by
  obtain ⟨j, hj, hcovers⟩ := hd
  exact ⟨j, hits.jobs_grow.subset hj, hcovers⟩

/-- **A refresh dispatches what it is the first to reach**, and nothing else. -/
theorem refresh {provider : Provider} (h : m.Recovered observations days db)
    (hkept : db.Kept provider observations) (hx : x.Serves m)
    (hlater : ∀ day ∈ days, day ≤ x.today) (hits : x.Iterates db its db')
    {events : List RefreshEvent} (hvisits : x.Visits events its) {identity : ExternalIdentity}
    (hplans : x.PlansSeries db.observations events identity m.series) :
    m.Recovered observations (days ++ [x.today]) db' := by
  have hjobs := h.jobs_iterates hx hits hvisits
  refine ⟨hjobs, fun d hd => ?_, fun d htrades hafter hreached => ?_⟩
  · rcases dispatched_iterates hits hd with hold | ⟨i, -, args, plan, range, hplan, hr, -, hdates⟩
    · exact (h.reached d hold).concat
    · obtain ⟨hle, hrecent⟩ := hx.recent hplan hr hdates
      exact Market.reached_of_recent hlater hle hrecent
  · rcases hreached.of_concat with hreached | ⟨hnew, hle, hrecent⟩
    · exact dispatched_mono hits (h.dispatched d htrades hafter hreached)
    · obtain ⟨args, plan, hplan, hseries⟩ := hplans.planned
      -- no stored session is on or after the date: no refresh has come as far
      have hlast : ∀ l ∈ lastCompletedSession m.series db.observations, l < d := by
        intro l hl
        rcases h.stored hkept (lastCompletedSession_eq_some hl) with hinitial | ⟨day, hday, -⟩
        · exact hafter l hinitial
        · have hl : l ≤ day := by simpa using List.find?_some hday
          exact hl.trans_lt (hnew day (List.mem_of_find?_eq_some hday))
      have hdate := hx.mem_dates hplan hseries htrades hlast hle hrecent
      obtain ⟨listing, calendar, -, -, -, hok⟩ := Refresh.planned?_eq_some_iff.mp hplan
      obtain ⟨range, hr, hrange⟩ := Dispatch.exists_range hok hdate
      obtain ⟨i, hi, rfl⟩ := hvisits.exists_iteration hplans.considered hplans.ports
      obtain ⟨j, hj, hkey⟩ := hits.enqueued hi hplan hr
      obtain ⟨series, range', hjob, hseparate⟩ := hjobs j hj
      -- the job that has the key of the range is the job of the range
      have hkeys := hjob.2.2.symm.trans (hseries ▸ hkey)
      obtain rfl := hseparate.keys range' range hkeys
      obtain rfl := Dispatch.dedupeKey_injective _ hkeys
      exact ⟨j, hj, (Job.covers_of_cursor hjob.1 hjob.2.1).mpr hrange⟩

/-- A refresh that misses the series changes nothing for it. -/
theorem missed (h : m.Recovered observations days db) (hx : x.Serves m)
    (hits : x.Iterates db its db') {events : List RefreshEvent} (hvisits : x.Visits events its)
    (hmissed : ∀ identity, x.Considers identity → ∀ args plan,
      x.planned? db.observations identity = some (args, plan) → args.series ≠ m.series) :
    m.Recovered observations days db' := by
  refine ⟨h.jobs_iterates hx hits hvisits, fun d hd => ?_,
    fun d htrades hafter hreached => dispatched_mono hits (h.dispatched d htrades hafter hreached)⟩
  rcases dispatched_iterates hits hd with hold | ⟨i, hi, args, plan, -, hplan, -, hseries, -⟩
  · exact h.reached d hold
  · exact absurd hseries (hmissed i.identity (hvisits.considers hi) args plan hplan)

/-- A command that inserts no job covers the same dates as before. -/
theorem command (h : m.Recovered observations days db) {c : Cmd} {e : Answers} {l : Session}
    (hc : ∀ args, c ≠ .insertJob args) : m.Recovered observations days (exec c e db l).2.1 := by
  have hold : ∀ j ∈ (exec c e db l).2.1.jobs.rows, ∃ j₀ ∈ db.jobs.rows, j = c.row j₀ := by
    intro j hj
    rcases mem_jobs_exec hj with hrow | ⟨args, hinsert, -⟩
    · exact hrow
    · exact absurd hinsert (hc args)
  have hcovers : ∀ {j : Job} {d : Date}, (c.row j).Covers m.series d ↔ j.Covers m.series d :=
    Job.covers_congr (by simp) (by simp)
  refine ⟨fun j hj => ?_, fun d hd => ?_, fun d htrades hafter hreached => ?_⟩
  · obtain ⟨j₀, hj₀, rfl⟩ := hold j hj
    obtain ⟨series, range, hjob, hseparate⟩ := h.jobs j₀ hj₀
    exact ⟨series, range, hjob.row c, hseparate⟩
  · obtain ⟨j, hj, hd⟩ := hd
    obtain ⟨j₀, hj₀, rfl⟩ := hold j hj
    exact h.reached d ⟨j₀, hj₀, hcovers.mp hd⟩
  · obtain ⟨j, hj, hd⟩ := h.dispatched d htrades hafter hreached
    exact ⟨c.row j, row_mem_exec hj, hcovers.mpr hd⟩

end Market.Recovered

section Runs

variable {ι : Type} [DecidableEq ι] {m : Market} {workers : ι → ServiceWorker}
  {observations : ObservationTable} {days : List Date} {cfg : ServiceConfig ι} {d : Date}

/-- The invariant holds in every run, and the threads write only what their findings warrant. -/
theorem MarketRun.recovered (h : MarketRun m workers observations days cfg) :
    m.Recovered observations days cfg.shared ∧
      cfg.Sound (fun i => (workers i).contract) (fun _ _ _ => True)
        (Db.Kept Provider.any observations)
        fun _ db th facts => ServiceWorker.Knows Provider.any db th.loc facts := by
  induction h with
  | start decisions =>
      refine ⟨⟨fun j hj => absurd hj List.not_mem_nil, fun d hd => ?_,
        fun d _ _ hreached => ?_⟩, ServiceConfig.sound_start⟩
      · obtain ⟨j, hj, -⟩ := hd
        exact absurd hj List.not_mem_nil
      · obtain ⟨day, hday, -⟩ := hreached
        exact absurd (List.mem_of_find?_eq_some hday) List.not_mem_nil
  | refresh x _ hserves hlater hexec hplans ih =>
      obtain ⟨hrecovered, hsound⟩ := ih
      obtain ⟨_, hr, its, hits, hvisits⟩ := Refresh.events_iterates hexec
      obtain rfl := Except.ok.inj hr
      exact ⟨hrecovered.refresh hsound.inv hserves hlater hits hvisits hplans,
        hits.kept hsound.inv, fun i => (hsound.thread i).imp fun facts h => h.imp_left hits.knows⟩
  | missed x _ hserves hexec hmissed ih =>
      obtain ⟨hrecovered, hsound⟩ := ih
      obtain ⟨_, -, its, hits, hvisits⟩ := Refresh.events_iterates hexec
      exact ⟨hrecovered.missed hserves hits hvisits hmissed,
        hits.kept hsound.inv, fun i => (hsound.thread i).imp fun facts h => h.imp_left hits.knows⟩
  | @step days cfg _ i e hserving hinserts ih =>
      obtain ⟨hrecovered, hsound⟩ := ih
      refine ⟨?_, hsound.step (ServiceWorker.kept_obligation writesExactly_semantics) hserving⟩
      cases hp : (cfg.thread i).prog with
      | ret r => rwa [Config.step_ret hp]
      | call c k =>
          rw [Config.step_call hp]
          refine hrecovered.command fun args hc => hinserts args ?_
          rw [← hc]
          exact Prog.next?_eq_some_iff.mpr ⟨k, hp⟩

/-- A schedule whose steps insert no job is part of a run. -/
theorem MarketRun.steps {steps : List (ι × Answers)}
    (h : MarketRun m workers observations days cfg)
    (hserving : ∀ cfg i e, Serving Provider.any workers cfg i e)
    (hcheck : Config.checkRun semantics (fun cfg i _ => match (cfg.thread i).prog.next? with
      | some (.insertJob _) => false
      | _ => true) cfg steps = true) :
    MarketRun m workers observations days (cfg.run semantics steps) := by
  induction steps generalizing cfg with
  | nil => exact h
  | cons ie rest ih =>
      rw [Config.checkRun, Bool.and_eq_true] at hcheck
      refine ih (h.step ie.1 ie.2 (hserving _ _ _) fun args hnext => ?_) hcheck.2
      simp [hnext] at hcheck

/-- **A session is dispatched exactly when the first refresh on or after its date came within the
lookback**, and never stored otherwise. A session that this refresh missed is lost: whatever
refreshes follow, no job covers it. -/
theorem session_dispatched_iff_reached (h : MarketRun m workers observations days cfg)
    (htrades : m.Trades d) (hafter : ∀ d₀, m.Stored observations d₀ → d₀ < d) :
    (m.Dispatched cfg.shared.jobs d ↔ m.Reached days d) ∧
      (m.Stored cfg.shared.observations d → m.Reached days d) := by
  obtain ⟨hrecovered, hsound⟩ := h.recovered
  refine ⟨⟨hrecovered.reached d, hrecovered.dispatched d htrades hafter⟩, fun hstored => ?_⟩
  rcases hrecovered.stored hsound.inv hstored with hinitial | hreached
  · exact absurd (hafter d hinitial) (lt_irrefl d)
  · exact hreached

end Runs

/-! ### A run on concrete tables -/

/-- The market of a listing that is traded every day. -/
def dailyMarket : Market where
  series := ⟨"fake", "default", "BTC", .eodClose⟩
  limits := ⟨0, 1⟩
  sized := le_rfl
  Trades := fun _ => True

/-- The calendar answers for every date of the range. -/
theorem mem_dailyCalendar {assetClass : AssetClass} {venue : String} {mic : Option String}
    {first last d : Date} {answer : List SessionCheck}
    (h : dailyCalendar assetClass venue mic first last = .ok answer) (hfirst : first ≤ d)
    (hlast : d ≤ last) : ⟨d, .expectedPublished⟩ ∈ answer := by
  obtain rfl := Except.ok.inj h
  have hfirst := Date.le_def.mp hfirst
  have hlast := Date.le_def.mp hlast
  refine List.mem_filterMap.mpr ⟨d.ordinal - first.ordinal, List.mem_range.mpr (by omega), ?_⟩
  rw [Date.addDays_eq_some_iff.mpr (show (d.ordinal : ℤ) = first.ordinal +
    ((d.ordinal - first.ordinal : ℕ) : ℤ) by omega), Option.map_some]

/-- A refresh of the market with a lookback of zero. -/
def outageRefresh (date : Date) : Refresh := { dailyRefresh 0 with today := date }

def dailyIdentity : ExternalIdentity := ⟨1, "fake", "BTC", today, none⟩

/-- The identity has no end. -/
theorem outageRefresh_considered (date : Date) :
    (outageRefresh date).considered "fake" = [dailyIdentity] := rfl

theorem outageRefresh_considers {date : Date} {identity : ExternalIdentity} :
    (outageRefresh date).Considers identity ↔ identity = dailyIdentity := by
  constructor
  · rintro ⟨source, hsource, hmem⟩
    obtain rfl := List.mem_singleton.mp hsource
    rw [outageRefresh_considered] at hmem
    exact List.mem_singleton.mp hmem
  · rintro rfl
    exact ⟨"fake", List.mem_singleton_self _,
      outageRefresh_considered date ▸ List.mem_singleton_self _⟩

theorem outageRefresh_serves (date : Date) : (outageRefresh date).Serves dailyMarket where
  limits := rfl
  classifies := dailyRefresh_classifies 0
  sessions _ _ _ _ _ hcalendar _ _ hanswer _ _ hfirst hlast := by
    obtain rfl := Except.ok.inj hcalendar
    exact Or.inl (mem_dailyCalendar hanswer hfirst hlast)
  separate identity hid listing hlisting := by
    obtain rfl := outageRefresh_considers.mp hid
    have hfound : (dailyRefresh 0).catalog.listing? 1 = some ⟨1, .crypto, "X", none⟩ := by decide
    obtain rfl := Option.some.inj (hfound.symm.trans hlisting)
    exact ⟨fun _ _ _ => rfl, fun _ _ _ => rfl⟩

/-- The tables after a refresh. -/
def refreshedDb (date : Date) (db : Db) : Db :=
  (((outageRefresh date).events.run.execute semantics (List.replicate 4 default) db
    Session.new).map fun result => result.2.1).getD db

/-- The refresh returns, reports no source, and plans the series. -/
def refreshPlans (date : Date) (db : Db) : Bool :=
  (((outageRefresh date).events.run.execute semantics (List.replicate 4 default) db
      Session.new).any fun result =>
    result.1.toOption.any fun events => events.all fun event => match event with
      | .source .. => false
      | _ => true) &&
  ((outageRefresh date).planned? db.observations dailyIdentity).any
    fun p => decide (p.1.series = dailyMarket.series)

theorem MarketRun.refreshed {ι : Type} [DecidableEq ι] {workers : ι → ServiceWorker}
    {observations : ObservationTable} {days : List Date} {cfg : ServiceConfig ι} {date : Date}
    (h : MarketRun dailyMarket workers observations days cfg) (hlater : ∀ day ∈ days, day ≤ date)
    (hplans : refreshPlans date cfg.shared = true) :
    MarketRun dailyMarket workers observations (days ++ [date])
      ⟨refreshedDb date cfg.shared, cfg.thread⟩ := by
  rw [refreshPlans, Bool.and_eq_true] at hplans
  obtain ⟨⟨r, db', l'⟩, hexec, hclean⟩ := (Option.any_eq_true _ _).mp hplans.1
  obtain ⟨events, rfl, -⟩ := Refresh.events_iterates ⟨_, hexec⟩
  obtain ⟨⟨args, plan⟩, hplan, hseries⟩ := (Option.any_eq_true _ _).mp hplans.2
  have hdb : refreshedDb date cfg.shared = db' := by
    rw [refreshedDb, hexec]
    rfl
  rw [hdb]
  refine h.refresh (outageRefresh date) (outageRefresh_serves date) hlater ⟨_, hexec⟩
    ⟨outageRefresh_considers.mpr rfl, fun e he => ?_, args, plan, hplan, of_decide_eq_true hseries⟩
  exact absurd (List.all_eq_true.mp hclean _ he) (by simp)

/-- The day after tomorrow. -/
def afterOutage : Date := ⟨739620, by decide, by decide⟩

/-- A processing phase works on the market. -/
def marketWorkers : Unit → ServiceWorker := fun _ => .processing ⟨⟨["fake"], 300, 3600⟩, 0, 1⟩

/-- A refresh, and the phase until its job is completed. -/
def workedConfig : ServiceConfig Unit :=
  Config.run semantics
    ⟨refreshedDb today ⟨Table.empty, Table.empty, approvedRegister⟩,
      (ServiceConfig.start marketWorkers Table.empty approvedRegister).thread⟩
    (List.replicate 35 ((), { (default : Answers) with fetched := .ok [dayRow "EUR" (.finite 1)] }))

/-- The phase inserts no job. -/
theorem workedConfig_run :
    MarketRun dailyMarket marketWorkers Table.empty [today] workedConfig := by
  refine MarketRun.steps (MarketRun.refreshed (.start approvedRegister)
    (fun _ hday => absurd hday List.not_mem_nil) (by decide +kernel)) (fun _ _ _ => ?_)
    (by decide +kernel)
  exact ⟨fun _ _ _ _ _ _ _ => trivial, fun _ hworker => absurd hworker (by simp [marketWorkers])⟩

/-- With a lookback of zero, the session of the first refresh is dispatched, and stored by the
processing phase; the session of the day on which no refresh comes is lost. -/
theorem session_dispatched_iff_reached_outage :
    ∃ cfg, MarketRun dailyMarket marketWorkers Table.empty [today, afterOutage] cfg ∧
      dailyMarket.Dispatched cfg.shared.jobs today ∧
      dailyMarket.Stored cfg.shared.observations today ∧
      ∀ d, today < d → d < afterOutage → ¬ dailyMarket.Dispatched cfg.shared.jobs d ∧
        ¬ dailyMarket.Stored cfg.shared.observations d := by
  have hlater : ∀ day ∈ [today], day ≤ afterOutage := by decide
  have hrun := workedConfig_run.refreshed hlater (by decide +kernel)
  have hafter : ∀ d d₀, dailyMarket.Stored Table.empty d₀ → d₀ < d := by
    rintro d d₀ ⟨o, ho, -⟩
    exact absurd ho List.not_mem_nil
  have hstored : dailyMarket.Stored (refreshedDb afterOutage workedConfig.shared).observations
      today := by
    have hrow : (refreshedDb afterOutage workedConfig.shared).observations.rows.any
        (fun o => decide (o.key = dailyMarket.series.at today)) = true := by decide +kernel
    simpa [List.any_eq_true, Market.Stored] using hrow
  refine ⟨_, hrun, (session_dispatched_iff_reached hrun trivial (hafter today)).1.mpr ?_, ?_,
    fun d hd hd' => ?_⟩
  · exact ⟨today, by simp, by simp [dailyMarket]⟩
  · exact hstored
  · obtain ⟨hdispatched, honly⟩ := session_dispatched_iff_reached hrun trivial (hafter d)
    -- the first refresh on or after the date is the second one, which does not go back to it
    have hlost : ¬ dailyMarket.Reached [today, afterOutage] d := by
      rintro ⟨day, hday, hrecent⟩
      rw [List.find?_cons_of_neg (by simpa using hd),
        List.find?_cons_of_pos (by simpa using hd'.le)] at hday
      obtain rfl := Option.some.inj hday
      have hlt := Date.lt_def.mp hd'
      simp only [dailyMarket, sub_zero] at hrecent
      omega
    exact ⟨fun h => hlost (hdispatched.mp h), fun h => hlost (honly h)⟩

end MarketRelay
