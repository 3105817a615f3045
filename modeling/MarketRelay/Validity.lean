import MarketRelay.Refresh

/-!
# The Validity of Identities

A provider's identifier denotes a listing on the dates of its validity only. A refresh
considers the identities that have not expired, but it neither asks whether they are valid
already, nor clips the range that it plans to their validity.

The end of a validity is respected all the same: an identity that has not expired is valid at
least up to today, and nothing is planned beyond today. So what goes wrong is decided by the
first date that is pending.

## Main results

* `refresh_within_validity_iff`: exactly when the jobs of an identity are within its validity.
* `refresh_before_validity`: a refresh that enqueues a date before the identity is valid.
-/

open Relational Interaction Gregorian

namespace MarketRelay

/-- The identifier denotes the listing on the date. -/
def ExternalIdentity.ValidOn (identity : ExternalIdentity) (d : Date) : Prop :=
  identity.validFrom ≤ d ∧ ∀ validTo, identity.validTo = some validTo → d ≤ validTo

/-- The job is one of the identity, which is valid today and on every date of its range. -/
def Job.WithinValidity (j : Job) (identity : ExternalIdentity) (today : Date) : Prop :=
  identity.ValidOn today ∧ j.source = identity.source ∧ j.listingId = some identity.listingId ∧
    ∃ c, FetchCursor.parse j.cursor = .ok c ∧
      c.externalListingId = Json.ofText identity.externalId ∧
      ∀ d, c.start ≤ d → d ≤ c.end → identity.ValidOn d

namespace Refresh

variable {x : Refresh} {identity : ExternalIdentity} {observations : ObservationTable}
  {args : DispatchArgs} {plan : RecoveryPlan}

/-- No date that is pending for the identity lies before its validity. -/
def PendingWithin (x : Refresh) (observations : ObservationTable) (identity : ExternalIdentity) :
    Prop :=
  ∀ args plan, x.planned? observations identity = some (args, plan) →
    ∀ d ∈ plan.dates, identity.validFrom ≤ d

/-- Nothing is planned beyond today. -/
theorem date_le_today (hcal : x.calendars.Classifies)
    (hplan : x.planned? observations identity = some (args, plan)) {d : Date}
    (hd : d ∈ plan.dates) : d ≤ x.today := by
  obtain ⟨listing, calendar, -, hcalendar, rfl, hplan⟩ := planned?_eq_some_iff.mp hplan
  obtain ⟨first, answer, check, -, hanswer, hcheck, rfl, -⟩ :=
    Dispatch.date_expectation hplan hd
  exact (hcal.range hcalendar hanswer check hcheck).2

/-- A considered identity has not expired. -/
theorem Considers.today_le (h : x.Considers identity) {validTo : Date}
    (hvalid : identity.validTo = some validTo) : x.today ≤ validTo := by
  obtain ⟨source, -, hmem⟩ := h
  exact (Catalog.mem_selectIdentities hmem).2.2 validTo hvalid

/-- The job of a range is within the validity exactly when the range does not start before. -/
theorem withinValidity_iff (hcal : x.calendars.Classifies) (hid : x.Considers identity)
    (hplan : x.planned? observations identity = some (args, plan)) {range : PlannedRange}
    (hr : range ∈ plan.ranges) {j : Job} (hj : Dispatch.IsJobOf args range j) :
    j.WithinValidity identity x.today ↔ identity.validFrom ≤ range.start := by
  obtain ⟨listing, calendar, hlisting, -, rfl, hok⟩ := planned?_eq_some_iff.mp hplan
  obtain ⟨hstart, hend, hle⟩ := Dispatch.range_bounds hok hr
  have hlistingId : listing.id = identity.listingId := by simpa using List.find?_some hlisting
  obtain ⟨hsource, hlistingId', hparse⟩ : j.source = identity.source ∧ j.listingId = some listing.id ∧
      FetchCursor.parse j.cursor =
        .ok ((Dispatch.cursor (seriesOf identity listing) range).map Json.ofText) := by
    obtain ⟨id, createdAt, rfl⟩ := hj
    split <;> exact ⟨rfl, rfl, FetchCursor.parse_serialize _⟩
  constructor
  · rintro ⟨-, -, -, c, hc, -, hvalid⟩
    obtain rfl := Except.ok.inj (hparse.symm.trans hc)
    exact (hvalid range.start le_rfl hle).1
  · intro hvalid
    have htoday : ∀ d ∈ plan.dates, d ≤ x.today := fun d hd => date_le_today hcal hplan hd
    refine ⟨⟨hvalid.trans (htoday _ hstart), fun validTo hto => hid.today_le hto⟩, hsource,
      hlistingId'.trans (congrArg some hlistingId), _, hparse, rfl, fun d hd hd' => ?_⟩
    exact ⟨hvalid.trans hd, fun validTo hto => hd'.trans ((htoday _ hend).trans (hid.today_le hto))⟩

/-- One iteration of an identity, on any queue. -/
theorem iteration_within_iff (hcal : x.calendars.Classifies) (hid : x.Considers identity)
    (decisions : DecisionTable) :
    (∀ jobs l r db' l', (x.refreshListing identity).Executes semantics
        ⟨jobs, observations, decisions⟩ l r db' l' →
        ∀ j ∈ db'.jobs.rows, j ∉ jobs.rows → j.WithinValidity identity x.today) ↔
      x.PendingWithin observations identity := by
  constructor
  · intro h args plan hplan d hd
    -- On an empty queue the range of the date is enqueued.
    obtain ⟨r, db', l', hexec⟩ := Prog.exists_executes semantics (x.refreshListing identity).run
      ⟨Table.empty, observations, decisions⟩ Session.new
    obtain ⟨-, -, ⟨hnone, -⟩ | ⟨args', plan', results, hplan', henq⟩⟩ :=
      refreshListing_executes hexec
    · exact absurd (hplan.symm.trans hnone) (by simp)
    obtain ⟨rfl, rfl⟩ := Prod.mk.inj (Option.some.inj (hplan.symm.trans hplan'))
    obtain ⟨calendar, hok⟩ := planOf_of_planned? hplan
    obtain ⟨range, hr, hle, -⟩ := Dispatch.exists_range hok hd
    obtain ⟨j, hj, hjob⟩ := henq.job_of_free hr fun j hj => absurd hj List.not_mem_nil
    have hwithin := h Table.empty Session.new r db' l' hexec j hj List.not_mem_nil
    exact ((withinValidity_iff hcal hid hplan hr hjob).mp hwithin).trans hle
  · intro h jobs l r db' l' hexec j hj hnew
    obtain ⟨-, -, ⟨-, hjobs⟩ | ⟨args, plan, results, hplan, henq⟩⟩ := refreshListing_executes hexec
    · rw [hjobs] at hj
      exact absurd hj hnew
    · obtain ⟨new, hrows, hadded⟩ := henq.adds
      rw [hrows] at hj
      rcases List.mem_append.mp hj with hj | hj
      · exact absurd hj hnew
      · obtain ⟨range, hr, hjob, -⟩ := hadded j hj
        obtain ⟨calendar, hok⟩ := planOf_of_planned? hplan
        exact (withinValidity_iff hcal hid hplan hr hjob).mpr
          (h args plan hplan range.start (Dispatch.range_bounds hok hr).1)

/-- A job that the iterations have added was added by one of them. -/
theorem Iterates.exists_iteration {db db' : Db} {its : List Iteration} (h : x.Iterates db its db')
    {j : Job} (hj : j ∈ db'.jobs.rows) (hnew : j ∉ db.jobs.rows) :
    ∃ i ∈ its, ∃ l r l', (x.refreshListing i.identity).Executes semantics i.before l r i.after l' ∧
      j ∈ i.after.jobs.rows ∧ j ∉ i.before.jobs.rows := by
  induction h with
  | nil => exact absurd hj hnew
  | @cons i its db' l l' r h _ ih =>
      by_cases hafter : j ∈ i.after.jobs.rows
      · exact ⟨i, List.mem_cons_self, l, r, l', h, hafter, hnew⟩
      · obtain ⟨i', hi', hstep⟩ := ih hj hafter
        exact ⟨i', List.mem_cons_of_mem _ hi', hstep⟩

end Refresh

/-- **The jobs of a refresh are within the validity of their identities exactly when** no date
that is pending for an identity lies before its validity: so it is for each identity that is
considered, whatever is enqueued already, and so it is for the jobs of a whole refresh. -/
theorem refresh_within_validity_iff {x : Refresh} (hcal : x.calendars.Classifies)
    (observations : ObservationTable) (decisions : DecisionTable) :
    ((∀ identity, x.Considers identity → ∀ jobs l r db' l',
      (x.refreshListing identity).Executes semantics ⟨jobs, observations, decisions⟩ l r db' l' →
        ∀ j ∈ db'.jobs.rows, j ∉ jobs.rows → j.WithinValidity identity x.today) ↔
      ∀ identity, x.Considers identity → x.PendingWithin observations identity) ∧
    ((∀ identity, x.Considers identity → x.PendingWithin observations identity) →
      ∀ jobs l r db' l', x.program.Executes semantics ⟨jobs, observations, decisions⟩ l r db' l' →
        ∀ j ∈ db'.jobs.rows, j ∉ jobs.rows →
          ∃ identity, x.Considers identity ∧ j.WithinValidity identity x.today) := by
  refine ⟨forall₂_congr fun identity hid => Refresh.iteration_within_iff hcal hid decisions,
    fun hpending jobs l r db' l' hexec j hj hnew => ?_⟩
  obtain ⟨r', hevents⟩ := Refresh.events_of_program hexec
  obtain ⟨events, -, its, hits, hvisits⟩ := Refresh.events_iterates hevents
  obtain ⟨i, hi, l₁, r₁, l₂, hstep, hafter, hbefore⟩ := hits.exists_iteration hj hnew
  have hobs : i.before.observations = observations := hits.observations_eq.2 i hi
  refine ⟨i.identity, hvisits.considers hi, ?_⟩
  refine (Refresh.iteration_within_iff hcal (hvisits.considers hi) i.before.decisions).mpr
    (hpending i.identity (hvisits.considers hi)) i.before.jobs l₁ r₁ i.after l₂ ?_ j hafter hbefore
  rw [← hobs]
  exact hstep

/-! ### A refresh on concrete tables -/

/-- A refresh of today alone is within the validity of an identity that is valid from today. -/
theorem refresh_within_validity_today :
    ∃ r db' l', (dailyRefresh 0).program.Executes semantics ⟨Table.empty, Table.empty, Table.empty⟩
      Session.new r db' l' ∧ ∀ j ∈ db'.jobs.rows, j ∉ (Table.empty : JobTable).rows →
        ∃ identity, (dailyRefresh 0).Considers identity ∧ j.WithinValidity identity today := by
  obtain ⟨r, db', l', h⟩ := Prog.exists_executes semantics (dailyRefresh 0).program.run
    ⟨Table.empty, Table.empty, Table.empty⟩ Session.new
  have hdates : ∀ identity ∈ (dailyRefresh 0).catalog.identities,
      (((dailyRefresh 0).planned? Table.empty identity).all fun p =>
        decide (∀ d ∈ p.2.dates, identity.validFrom ≤ d)) = true := by decide +kernel
  refine ⟨r, db', l', h, (refresh_within_validity_iff (dailyRefresh_classifies 0) Table.empty
    Table.empty).2 (fun identity hid args plan hplan d hd => ?_) Table.empty Session.new r db' l' h⟩
  obtain ⟨source, -, hmem⟩ := hid
  have hall := hdates identity (Catalog.mem_selectIdentities hmem).1
  rw [hplan] at hall
  exact of_decide_eq_true hall d hd

/-- **A job can be enqueued for a date on which the identity is not valid**: the identity is
valid from today, and the lookback reaches to yesterday. -/
theorem refresh_before_validity :
    ¬ ∀ (x : Refresh) (db : Db) (l : Session) (r : Except PyError RefreshOutcome) (db' : Db)
      (l' : Session), x.calendars.Classifies → x.program.Executes semantics db l r db' l' →
      ∀ j ∈ db'.jobs.rows, j ∉ db.jobs.rows →
        ∃ identity, x.Considers identity ∧ j.WithinValidity identity x.today := by
  intro hall
  let x : Refresh := dailyRefresh 1
  let db : Db := ⟨Table.empty, Table.empty, Table.empty⟩
  have hrun : ((x.program.run.execute semantics (List.replicate 5 default) db Session.new).any
      fun out => out.2.1.jobs.rows.any fun j =>
        (FetchCursor.parse j.cursor).toOption.any fun c =>
          decide (c.start < today ∧ c.start ≤ c.end)) = true := by
    decide +kernel
  obtain ⟨⟨r, db', l'⟩, hexec, hrows⟩ := (Option.any_eq_true _ _).mp hrun
  obtain ⟨j, hj, hcursor⟩ := List.any_eq_true.mp hrows
  obtain ⟨identity, ⟨source, -, hmem⟩, -, -, -, c, hc, -, hvalid⟩ :=
    hall x db Session.new r db' l' (dailyRefresh_classifies 1) ⟨_, hexec⟩ j hj List.not_mem_nil
  obtain rfl : identity = ⟨1, "fake", "BTC", today, none⟩ :=
    List.mem_singleton.mp (Catalog.mem_selectIdentities hmem).1
  rw [hc] at hcursor
  obtain ⟨hbefore, hle⟩ := of_decide_eq_true hcursor
  exact absurd (hvalid c.start le_rfl hle).1 (not_le.mpr hbefore)

end MarketRelay
