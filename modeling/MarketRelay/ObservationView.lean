import MarketRelay.Catalog
import MarketRelay.Planning
import MarketRelay.Selection

/-!
# The Read Paths

What the consumer API publishes of a listing: the value of a date, the latest value in a bounded
window, a range of dates, and the last date with publishable data. Each path is a function of one
state of the database, of the settings and of the market calendar, which may raise.

## Main results

* `hidden_rows_invisible`: no path depends on the rows of unauthorized sources.
* `latest_session_agrees`: the status path and the value paths agree.
-/

open Relational Interaction Gregorian

namespace MarketRelay

/-- Availability of an observation. -/
inductive ObservationAvailability where
  | ok
  | noSession
  | waitingForPublication
  | unavailable
deriving DecidableEq, Repr

/-- Present only when the observation is available. -/
structure ObservationValueOut where
  observationType : ObservationType
  currency : String
  close : Decimal
  source : String
  revision : ℕ
  retrievedAt : Instant
  requiresAttribution : Bool
  attribution : Option String
  hasDiscrepancy : Bool
deriving DecidableEq

structure ObservationOut where
  listingId : ℕ
  sessionDate : Date
  availability : ObservationAvailability
  value : Option ObservationValueOut
deriving DecidableEq

/-- Deterministic priority policy: the order of `enabled_sources`. -/
def priorityPolicy (settings : Settings) : SourcePriorityPolicy :=
  ⟨"configured-sources", settings.enabledSources⟩

/-- `_AVAILABILITY_BY_EXPECTATION` -/
def availabilityByExpectation : SessionExpectation → ObservationAvailability
  | .noSession => .noSession
  | .waitingForPublication => .waitingForPublication
  | .expectedPublished => .unavailable

namespace ObservationView

/-- `_LATEST_LOOKBACK_DAYS` -/
def latestLookbackDays : ℕ := 10

/-- `checks[0].expectation` of the calendar's answer for one date. -/
def sessionExpectation (calendar : Calendar) (listing : Listing) (sessionDate : Date) :
    Except PyError SessionExpectation := do
  match ← calendar listing.assetClass listing.venue listing.mic sessionDate sessionDate with
  | [] => .error .index
  | check :: _ => .ok check.expectation

/-- `_attribution_for` -/
def attributionFor (db : Db) (source : String) : Bool × Option String :=
  let requires := decide (PolicyGate.statusIn db.decisions source .attribute = .approved)
  (requires, if requires then some ("Source: " ++ source ++ ".") else none)

/-- The response with the value of a selection. Its model refuses a close that is not finite. -/
def valueOut (db : Db) (result : SelectionResult) : Except PyError ObservationValueOut := do
  let observation := result.selected
  let attribution := attributionFor db observation.key.source
  let hasDiscrepancy ← result.hasDiscrepancy
  if observation.value.close.isFinite then
    return {
      observationType := observation.key.observationType
      currency := observation.value.currency
      close := observation.value.close
      source := observation.key.source
      revision := observation.revision
      retrievedAt := observation.retrievedAt
      requiresAttribution := attribution.1
      attribution := attribution.2
      hasDiscrepancy := hasDiscrepancy }
  else
    throw .value

/-- Publishable observation of a date, or the explicit state of its absence. -/
def buildObservationOut (db : Db) (listing : Listing) (sessionDate : Date)
    (observationType : ObservationType) (settings : Settings) (calendar : Calendar) :
    Except PyError ObservationOut :=
  match ObservationSelector.select db listing.id sessionDate observationType
      (priorityPolicy settings) with
  | .error _ => do
    let expectation ← sessionExpectation calendar listing sessionDate
    return ⟨listing.id, sessionDate, availabilityByExpectation expectation, none⟩
  | .ok result => do
    let value ← valueOut db result
    return ⟨listing.id, sessionDate, .ok, some value⟩

/-- A finite close without signaling alternatives has a response. -/
theorem valueOut_of_finite (db : Db) {result : SelectionResult} {b : Bool}
    (hb : result.hasDiscrepancy = .ok b) (hclose : result.selected.value.close.isFinite = true) :
    ∃ value, valueOut db result = .ok value ∧ value.source = result.selected.key.source ∧
      value.close = result.selected.value.close ∧
      value.currency = result.selected.value.currency ∧ value.hasDiscrepancy = b := by
  rw [valueOut, hb]
  simp only [bind, Except.bind, hclose, if_true]
  exact ⟨_, rfl, rfl, rfl, rfl, rfl⟩

/-- **When a selection has a response**: its close is finite, and no comparison of closes signals.
-/
theorem valueOut_isOk_iff (db : Db) {result : SelectionResult} :
    (∃ value, valueOut db result = .ok value) ↔
      result.selected.value.close.isFinite = true ∧ ∃ b, result.hasDiscrepancy = .ok b := by
  constructor
  · rintro ⟨value, h⟩
    rw [valueOut] at h
    cases hb : result.hasDiscrepancy with
    | error e =>
        rw [hb] at h
        exact absurd h (by simp [bind, Except.bind])
    | ok b =>
        rw [hb] at h
        cases hclose : result.selected.value.close.isFinite with
        | true => exact ⟨rfl, b, rfl⟩
        | false =>
            simp only [bind, Except.bind, hclose] at h
            exact nomatch h
  · rintro ⟨hclose, b, hb⟩
    obtain ⟨value, hvalue, -⟩ := valueOut_of_finite db hb hclose
    exact ⟨value, hvalue⟩

/-- The loop over the offsets into the past; absent when no date has an available
observation. -/
def findLatestLoop (db : Db) (listing : Listing) (observationType : ObservationType)
    (settings : Settings) (calendar : Calendar) (today : Date) :
    List ℕ → Except PyError (Option ObservationOut)
  | [] => .ok none
  | offset :: rest => do
    let candidateDate ← RecoveryPlanner.orOverflow (today.addDays (-(offset : ℤ)))
    let out ← buildObservationOut db listing candidateDate observationType settings calendar
    if out.availability = .ok then
      return some out
    else
      findLatestLoop db listing observationType settings calendar today rest

/-- The most recent publishable observation within a bounded window. -/
def findLatestObservation (db : Db) (listing : Listing) (observationType : ObservationType)
    (settings : Settings) (calendar : Calendar) (today : Date) : Except PyError ObservationOut := do
  match ← findLatestLoop db listing observationType settings calendar today
      (List.range (latestLookbackDays + 1)) with
  | some out => return out
  | none => buildObservationOut db listing today observationType settings calendar

/-- The session dates of the rows of some sources. -/
def sessionDates (rows : List Observation) (listing : Listing) (observationType : ObservationType)
    (sources : List String) : List Date :=
  (rows.filter fun o => decide (o.listingId = listing.id) &&
    decide (o.key.observationType = observationType) &&
    decide (o.key.source ∈ sources)).map fun o => o.key.sessionDate

/-- The most recent session date with a currently publishable observation. -/
def latestPublishableSessionDate (db : Db) (listing : Listing) (observationType : ObservationType)
    (settings : Settings) : Option Date :=
  let authorizedSources := settings.enabledSources.filter
    (PolicyGate.publicationAuthorized db.decisions)
  if authorizedSources.isEmpty then none
  else (sessionDates db.observations.rows listing observationType authorizedSources).max?

/-- The loop of `build_observation_range`, with the number of dates that are left. -/
def rangeLoop (db : Db) (listing : Listing) (observationType : ObservationType)
    (settings : Settings) (calendar : Calendar) : ℕ → Date → Except PyError (List ObservationOut)
  | 0, _ => .ok []
  | left + 1, current => do
    let out ← buildObservationOut db listing current observationType settings calendar
    let next ← RecoveryPlanner.orOverflow (current.addDays 1)
    let results ← rangeLoop db listing observationType settings calendar left next
    return out :: results

/-- One response per date of a range, in order. -/
def buildObservationRange (db : Db) (listing : Listing) (observationType : ObservationType)
    (start «end» : Date) (settings : Settings) (calendar : Calendar) :
    Except PyError (List ObservationOut) :=
  rangeLoop db listing observationType settings calendar («end».ordinal + 1 - start.ordinal) start

/-! ### Hidden rows -/

section Hidden

variable {db db' : Db} (hdecisions : db.decisions = db'.decisions)
  (hvisible : ObservationSelector.visibleRows db = ObservationSelector.visibleRows db')

include hdecisions hvisible

omit hdecisions in
/-- A selection depends on the visible rows. -/
theorem select_congr (listingId : ℕ) (sessionDate : Date) (observationType : ObservationType)
    (policy : SourcePriorityPolicy) :
    ObservationSelector.select db listingId sessionDate observationType policy =
      ObservationSelector.select db' listingId sessionDate observationType policy := by
  have hcandidates : ObservationSelector.currentPublishableBySource db listingId sessionDate
      observationType = ObservationSelector.currentPublishableBySource db' listingId sessionDate
        observationType := by
    rw [ObservationSelector.currentPublishableBySource_eq,
      ObservationSelector.currentPublishableBySource_eq, hvisible]
  simp only [ObservationSelector.select, hcandidates]

theorem buildObservationOut_congr (listing : Listing) (sessionDate : Date)
    (observationType : ObservationType) (settings : Settings) (calendar : Calendar) :
    buildObservationOut db listing sessionDate observationType settings calendar =
      buildObservationOut db' listing sessionDate observationType settings calendar := by
  have hvalue : ∀ result, valueOut db result = valueOut db' result := fun result => by
    simp only [valueOut, attributionFor, hdecisions]
  simp only [buildObservationOut, select_congr hvisible, hvalue]

theorem findLatestObservation_congr (listing : Listing) (observationType : ObservationType)
    (settings : Settings) (calendar : Calendar) (today : Date) :
    findLatestObservation db listing observationType settings calendar today =
      findLatestObservation db' listing observationType settings calendar today := by
  have hloop : ∀ offsets,
      findLatestLoop db listing observationType settings calendar today offsets =
        findLatestLoop db' listing observationType settings calendar today offsets := by
    intro offsets
    induction offsets with
    | nil => rfl
    | cons offset rest ih =>
        simp only [findLatestLoop, buildObservationOut_congr hdecisions hvisible, ih]
  simp only [findLatestObservation, hloop, buildObservationOut_congr hdecisions hvisible]

theorem buildObservationRange_congr (listing : Listing) (observationType : ObservationType)
    (start «end» : Date) (settings : Settings) (calendar : Calendar) :
    buildObservationRange db listing observationType start «end» settings calendar =
      buildObservationRange db' listing observationType start «end» settings calendar := by
  have hloop : ∀ left current,
      rangeLoop db listing observationType settings calendar left current =
        rangeLoop db' listing observationType settings calendar left current := by
    intro left
    induction left with
    | zero => exact fun current => rfl
    | succ left ih =>
        intro current
        simp only [rangeLoop, buildObservationOut_congr hdecisions hvisible, ih]
  exact hloop _ start

theorem latestPublishableSessionDate_congr (listing : Listing) (observationType : ObservationType)
    (settings : Settings) :
    latestPublishableSessionDate db listing observationType settings =
      latestPublishableSessionDate db' listing observationType settings := by
  -- The rows of the authorized enabled sources are visible rows.
  have hrows : ∀ db : Db, sessionDates db.observations.rows listing observationType
      (settings.enabledSources.filter (PolicyGate.publicationAuthorized db.decisions)) =
      sessionDates (ObservationSelector.visibleRows db) listing observationType
        (settings.enabledSources.filter (PolicyGate.publicationAuthorized db.decisions)) := by
    intro db
    rw [sessionDates, sessionDates, ObservationSelector.visibleRows, List.filter_filter]
    refine congrArg _ (List.filter_congr fun o _ => ?_)
    cases hauth : PolicyGate.publicationAuthorized db.decisions o.key.source <;>
      simp [List.mem_filter, hauth]
  rw [latestPublishableSessionDate, latestPublishableSessionDate]
  rw [hrows db, hrows db', hvisible, hdecisions]

end Hidden

end ObservationView

/-- **Unauthorized data is invisible**: two states whose decisions are the same and whose rows
of authorized sources are the same, in the same order, are the same to every read path. -/
theorem hidden_rows_invisible {db db' : Db} (hdecisions : db.decisions = db'.decisions)
    (hvisible : (db.observations.rows.filter fun o =>
        PolicyGate.publicationAuthorized db.decisions o.key.source) =
      db'.observations.rows.filter fun o =>
        PolicyGate.publicationAuthorized db'.decisions o.key.source)
    (listing : Listing) (observationType : ObservationType) (sessionDate start «end» today : Date)
    (settings : Settings) (calendar : Calendar) :
    ObservationView.buildObservationOut db listing sessionDate observationType settings calendar =
        ObservationView.buildObservationOut db' listing sessionDate observationType settings
          calendar ∧
      ObservationView.findLatestObservation db listing observationType settings calendar today =
        ObservationView.findLatestObservation db' listing observationType settings calendar
          today ∧
      ObservationView.buildObservationRange db listing observationType start «end» settings
          calendar =
        ObservationView.buildObservationRange db' listing observationType start «end» settings
          calendar ∧
      ObservationView.latestPublishableSessionDate db listing observationType settings =
        ObservationView.latestPublishableSessionDate db' listing observationType settings :=
  ⟨ObservationView.buildObservationOut_congr hdecisions hvisible ..,
    ObservationView.findLatestObservation_congr hdecisions hvisible ..,
    ObservationView.buildObservationRange_congr hdecisions hvisible ..,
    ObservationView.latestPublishableSessionDate_congr hdecisions hvisible ..⟩

/-- A stored row of a source without decisions is as good as absent. -/
theorem hidden_rows_invisible_ungoverned :
    let o : Observation := ⟨1, 1, ⟨"fake", "default", "BTC", ⟨739618, by decide, by decide⟩,
      .eodClose⟩, 1, ⟨"EUR", .finite 1, none, none, none, none, .ok⟩, 0, none, none⟩
    let db : Db := ⟨Table.empty, ⟨[o], by decide⟩, Table.empty⟩
    let db' : Db := ⟨Table.empty, Table.empty, Table.empty⟩
    let settings : Settings := ⟨["fake"], 300, 3600⟩
    ObservationView.latestPublishableSessionDate db ⟨1, .crypto, "X", none⟩ .eodClose settings =
      ObservationView.latestPublishableSessionDate db' ⟨1, .crypto, "X", none⟩ .eodClose
        settings := by
  intro o db db' settings
  have hdecisions : db.decisions = db'.decisions := rfl
  have hvisible : (db.observations.rows.filter fun o =>
        PolicyGate.publicationAuthorized db.decisions o.key.source) =
      db'.observations.rows.filter fun o =>
        PolicyGate.publicationAuthorized db'.decisions o.key.source := by decide
  exact (hidden_rows_invisible hdecisions hvisible ⟨1, .crypto, "X", none⟩ .eodClose
    o.key.sessionDate o.key.sessionDate o.key.sessionDate o.key.sessionDate settings
    fun _ _ _ _ _ => .ok []).2.2.2

/-! ### The status path and the value paths -/

namespace ObservationView

variable (db : Db) (listing : Listing) (observationType : ObservationType) (settings : Settings)

/-- The date can be selected under the configured priority policy. -/
def Selectable (d : Date) : Prop :=
  ∃ result, ObservationSelector.select db listing.id d observationType (priorityPolicy settings) =
    .ok result

variable {db listing observationType settings} {calendar : Calendar} {today d : Date}

/-- The dates of the rows of the authorized enabled sources are the selectable dates. -/
theorem mem_sessionDates_iff :
    d ∈ sessionDates db.observations.rows listing observationType
      (settings.enabledSources.filter (PolicyGate.publicationAuthorized db.decisions)) ↔
      Selectable db listing observationType settings d := by
  rw [Selectable, ObservationSelector.select_isOk_iff, sessionDates, List.mem_map]
  simp only [List.mem_filter, Bool.and_eq_true, decide_eq_true_eq, priorityPolicy]
  constructor
  · rintro ⟨o, ⟨ho, ⟨hlisting, htype⟩, hsource, hauth⟩, rfl⟩
    exact ⟨_, hsource, hauth, o, ho, hlisting, rfl, htype, rfl⟩
  · rintro ⟨source, hsource, hauth, o, ho, hlisting, hdate, htype, rfl⟩
    exact ⟨o, ⟨ho, ⟨hlisting, htype⟩, hsource, hauth⟩, hdate⟩

/-- The early return for no authorized source is the maximum of no dates. -/
theorem latestPublishableSessionDate_eq :
    latestPublishableSessionDate db listing observationType settings =
      (sessionDates db.observations.rows listing observationType
        (settings.enabledSources.filter (PolicyGate.publicationAuthorized db.decisions))).max? := by
  rw [latestPublishableSessionDate]
  split
  · rename_i hempty
    rw [List.isEmpty_iff.mp hempty]
    simp [sessionDates]
  · rfl

/-- **The status path reports the greatest selectable date.** -/
theorem latestPublishableSessionDate_eq_some_iff :
    latestPublishableSessionDate db listing observationType settings = some d ↔
      Selectable db listing observationType settings d ∧
        ∀ d', Selectable db listing observationType settings d' → d' ≤ d := by
  rw [latestPublishableSessionDate_eq, List.max?_eq_some_iff]
  simp only [mem_sessionDates_iff]

/-- **The status path reports no date when none is selectable.** -/
theorem latestPublishableSessionDate_eq_none_iff :
    latestPublishableSessionDate db listing observationType settings = none ↔
      ∀ d, ¬ Selectable db listing observationType settings d := by
  rw [latestPublishableSessionDate_eq, List.max?_eq_none_iff, List.eq_nil_iff_forall_not_mem]
  simp only [mem_sessionDates_iff]

/-- A date that cannot be selected has no eligible observation. -/
theorem not_selectable_iff :
    ¬ Selectable db listing observationType settings d ↔
      ObservationSelector.select db listing.id d observationType (priorityPolicy settings) =
        .error (.noEligibleObservation "configured-sources" listing.id d observationType) := by
  rw [Selectable]
  cases hselect : ObservationSelector.select db listing.id d observationType
      (priorityPolicy settings) with
  | error e =>
      obtain rfl := ObservationSelector.select_eq_error hselect
      simp [priorityPolicy]
  | ok result => simp

variable (listing calendar) in
/-- The calendar classifies the date of the listing. -/
def Classifies (d : Date) : Prop :=
  ∃ check rest, calendar listing.assetClass listing.venue listing.mic d d = .ok (check :: rest)

/-- The response of a selectable date is available when the stored closes are finite. -/
theorem buildObservationOut_of_selectable (calendar : Calendar)
    (hcloses : ∀ o ∈ db.observations.rows, o.value.close.isFinite = true)
    (h : Selectable db listing observationType settings d) :
    ∃ out, buildObservationOut db listing d observationType settings calendar = .ok out ∧
      out.availability = .ok ∧ out.sessionDate = d := by
  obtain ⟨result, hselect⟩ := h
  obtain ⟨value, hvalue⟩ := (valueOut_isOk_iff db).mpr (result.answerable hselect hcloses)
  simp only [buildObservationOut, hselect, hvalue]
  exact ⟨_, rfl, rfl, rfl⟩

/-- The response of any other date is the state of its absence. -/
theorem buildObservationOut_of_not_selectable (hcalendar : Classifies listing calendar d)
    (h : ¬ Selectable db listing observationType settings d) :
    ∃ out, buildObservationOut db listing d observationType settings calendar = .ok out ∧
      out.availability ≠ .ok := by
  obtain ⟨check, rest, hcheck⟩ := hcalendar
  rw [not_selectable_iff] at h
  simp only [buildObservationOut, h, sessionExpectation, hcheck]
  refine ⟨_, rfl, ?_⟩
  cases check.expectation <;> simp [availabilityByExpectation]

section Window

theorem findLatestLoop_overflow {offset : ℕ} (h : today.addDays (-(offset : ℤ)) = none)
    (rest : List ℕ) :
    findLatestLoop db listing observationType settings calendar today (offset :: rest) =
      .error .overflow := by
  rw [findLatestLoop, h]
  rfl

variable (hcloses : ∀ o ∈ db.observations.rows, o.value.close.isFinite = true)

include hcloses

theorem findLatestLoop_found {offset : ℕ} (h : today.addDays (-(offset : ℤ)) = some d)
    (hselect : Selectable db listing observationType settings d) (rest : List ℕ) :
    ∃ out, findLatestLoop db listing observationType settings calendar today (offset :: rest) =
      .ok (some out) ∧ out.availability = .ok ∧ out.sessionDate = d := by
  obtain ⟨out, hout, hok, hsession⟩ :=
    buildObservationOut_of_selectable calendar hcloses hselect
  refine ⟨out, ?_, hok, hsession⟩
  rw [findLatestLoop, h]
  simp only [RecoveryPlanner.orOverflow, hout, hok, bind, Except.bind, if_true, pure, Except.pure]

omit hcloses in
theorem findLatestLoop_skip {offset : ℕ} (h : today.addDays (-(offset : ℤ)) = some d)
    (hcalendar : Classifies listing calendar d)
    (hselect : ¬ Selectable db listing observationType settings d) (rest : List ℕ) :
    findLatestLoop db listing observationType settings calendar today (offset :: rest) =
      findLatestLoop db listing observationType settings calendar today rest := by
  obtain ⟨out, hout, hok⟩ := buildObservationOut_of_not_selectable hcalendar hselect
  rw [findLatestLoop, h]
  simp only [RecoveryPlanner.orOverflow, hout, hok, bind, Except.bind, if_false]

/-- The walk over `n` dates from `a` days ago stops at the first selectable one, if there is
one. -/
theorem findLatestLoop_spec (observationType : ObservationType) (settings : Settings)
    (today : Date) (n a : ℕ) (hcalendar : ∀ d : Date, d.ordinal + a ≤ today.ordinal →
      today.ordinal < d.ordinal + a + n → Classifies listing calendar d) :
    (∃ out, findLatestLoop db listing observationType settings calendar today
        (List.range' a n) = .ok (some out) ∧ out.availability = .ok ∧
      Selectable db listing observationType settings out.sessionDate ∧
      out.sessionDate.ordinal + a ≤ today.ordinal ∧
      today.ordinal < out.sessionDate.ordinal + a + n ∧
      ∀ d, Selectable db listing observationType settings d → d.ordinal + a ≤ today.ordinal →
        d ≤ out.sessionDate) ∨
    ((∀ out, findLatestLoop db listing observationType settings calendar today
        (List.range' a n) ≠ .ok (some out)) ∧
      ∀ d, Selectable db listing observationType settings d → d.ordinal + a ≤ today.ordinal →
        d.ordinal + a + n ≤ today.ordinal) := by
  induction n generalizing a with
  | zero => exact Or.inr ⟨fun out h => by simp [findLatestLoop] at h, fun d _ h => h⟩
  | succ n ih =>
      rw [List.range'_succ]
      cases hdate : today.addDays (-(a : ℤ)) with
      | none =>
          -- The walk leaves the representable dates: none is left to be selected.
          rw [findLatestLoop_overflow hdate]
          refine Or.inr ⟨fun out h => absurd h (by simp), fun d _ hd => ?_⟩
          have hbounds := Date.addDays_eq_none_iff.mp hdate
          have hone := d.one_le
          have hmax := today.le_max
          omega
      | some candidate =>
          have hcandidate := Date.addDays_eq_some_iff.mp hdate
          by_cases hselect : Selectable db listing observationType settings candidate
          · obtain ⟨out, hout, hok, rfl⟩ := findLatestLoop_found hcloses hdate hselect
              (List.range' (a + 1) n)
            exact Or.inl ⟨out, hout, hok, hselect, by omega, by omega,
              fun d _ hd => Date.le_def.mpr (by omega)⟩
          · rw [findLatestLoop_skip hdate (hcalendar candidate (by omega) (by omega)) hselect]
            have hnext : ∀ d, Selectable db listing observationType settings d →
                d.ordinal + a ≤ today.ordinal → d.ordinal + (a + 1) ≤ today.ordinal := by
              intro d hd hle
              by_contra hlt
              have heq : d = candidate := Date.ext (by omega)
              exact hselect (heq ▸ hd)
            have hrest : ∀ d : Date, d.ordinal + (a + 1) ≤ today.ordinal →
                today.ordinal < d.ordinal + (a + 1) + n → Classifies listing calendar d :=
              fun d hlow hhigh => hcalendar d (by omega) (by omega)
            rcases ih (a + 1) hrest with ⟨out, hout, hok, hsel, hle, hlt, hmax⟩ | ⟨hnone, hall⟩
            · exact Or.inl ⟨out, hout, hok, hsel, by omega, by omega,
                fun d hd hd' => hmax d hd (hnext d hd hd')⟩
            · refine Or.inr ⟨hnone, fun d hd hd' => ?_⟩
              have := hall d hd (hnext d hd hd')
              omega

/-- **The value path finds the greatest selectable date of its window**, if there is one. -/
theorem findLatestObservation_spec (observationType : ObservationType) (settings : Settings)
    (today : Date) (hcalendar : ∀ d, d ≤ today → today.ordinal ≤ d.ordinal + latestLookbackDays →
      Classifies listing calendar d) :
    (∃ out, findLatestObservation db listing observationType settings calendar today = .ok out ∧
      out.availability = .ok ∧ Selectable db listing observationType settings out.sessionDate ∧
      out.sessionDate ≤ today ∧ today.ordinal ≤ out.sessionDate.ordinal + latestLookbackDays ∧
      ∀ d, Selectable db listing observationType settings d → d ≤ today → d ≤ out.sessionDate) ∨
    ((∀ out, findLatestObservation db listing observationType settings calendar today = .ok out →
        out.availability ≠ .ok) ∧
      ∀ d, Selectable db listing observationType settings d → d ≤ today →
        d.ordinal + latestLookbackDays < today.ordinal) := by
  rcases findLatestLoop_spec hcloses observationType settings today (latestLookbackDays + 1) 0
    fun d hlow hhigh => hcalendar d (Date.le_def.mpr hlow) (by omega) with
    ⟨out, hout, hok, hselect, hle, hlt, hmax⟩ | ⟨hnone, hall⟩
  · refine Or.inl ⟨out, ?_, hok, hselect, Date.le_def.mpr (by omega), by omega,
      fun d hd hd' => hmax d hd (by rw [Date.le_def] at hd'; omega)⟩
    rw [findLatestObservation, List.range_eq_range', hout]
    rfl
  · have houtside : ∀ d, Selectable db listing observationType settings d → d ≤ today →
        d.ordinal + latestLookbackDays < today.ordinal := by
      intro d hd hd'
      have := hall d hd (by rw [Date.le_def] at hd'; omega)
      omega
    refine Or.inr ⟨fun out hout => ?_, houtside⟩
    have htoday : ¬ Selectable db listing observationType settings today := fun h => by
      have := houtside today h le_rfl
      omega
    rw [findLatestObservation, List.range_eq_range'] at hout
    cases hloop : findLatestLoop db listing observationType settings calendar today
        (List.range' 0 (latestLookbackDays + 1)) with
    | error e => rw [hloop] at hout; exact absurd hout (by simp [bind, Except.bind])
    | ok r =>
        cases r with
        | some out' => exact absurd hloop (hnone out')
        | none =>
            rw [hloop] at hout
            have hclassifies := hcalendar today le_rfl (Nat.le_add_right _ _)
            obtain ⟨out', hout', hok⟩ := buildObservationOut_of_not_selectable hclassifies htoday
            obtain rfl := Except.ok.inj (hout'.symm.trans hout)
            exact hok

end Window

end ObservationView

/-- **The status path agrees with the value path**: it reports the greatest date that can be
selected; the latest value is available exactly when a date of the window can be selected, and
is then of the greatest such date, which is the reported one when that lies in the window. -/
theorem latest_session_agrees {db : Db} {listing : Listing} {calendar : Calendar}
    (observationType : ObservationType) (settings : Settings) (today : Date)
    (hcloses : ∀ o ∈ db.observations.rows, o.value.close.isFinite = true)
    (hcalendar : ∀ d, d ≤ today → today.ordinal ≤ d.ordinal + ObservationView.latestLookbackDays →
      ∃ check rest, calendar listing.assetClass listing.venue listing.mic d d =
        .ok (check :: rest)) :
    let selectable : Date → Prop := fun d => ∃ result, ObservationSelector.select db listing.id d
      observationType (priorityPolicy settings) = .ok result
    let window : Date → Prop := fun d =>
      d ≤ today ∧ today.ordinal ≤ d.ordinal + ObservationView.latestLookbackDays
    let latest := ObservationView.latestPublishableSessionDate db listing observationType settings
    let found := ObservationView.findLatestObservation db listing observationType settings calendar
      today
    (∀ d, latest = some d ↔ selectable d ∧ ∀ d', selectable d' → d' ≤ d) ∧
      (latest = none ↔ ∀ d, ObservationSelector.select db listing.id d observationType
        (priorityPolicy settings) =
          .error (.noEligibleObservation "configured-sources" listing.id d observationType)) ∧
      ((∃ out, found = .ok out ∧ out.availability = .ok) ↔ ∃ d, window d ∧ selectable d) ∧
      (∀ out, found = .ok out → out.availability = .ok →
        window out.sessionDate ∧ selectable out.sessionDate ∧
          ∀ d, window d → selectable d → d ≤ out.sessionDate) ∧
      ∀ d, latest = some d → window d →
        ∃ out, found = .ok out ∧ out.availability = .ok ∧ out.sessionDate = d := by
  intro selectable window latest found
  have hlatest : ∀ d, latest = some d ↔ selectable d ∧ ∀ d', selectable d' → d' ≤ d :=
    fun d => ObservationView.latestPublishableSessionDate_eq_some_iff
  refine ⟨hlatest, ?_, ?_⟩
  · exact ObservationView.latestPublishableSessionDate_eq_none_iff.trans
      (forall_congr' fun d => ObservationView.not_selectable_iff)
  rcases ObservationView.findLatestObservation_spec hcloses observationType settings today
    hcalendar with ⟨out, hout, hok, hselect, hle, hwindow, hmax⟩ | ⟨hnone, houtside⟩
  · refine ⟨⟨fun _ => ⟨_, ⟨hle, hwindow⟩, hselect⟩, fun _ => ⟨out, hout, hok⟩⟩, ?_, ?_⟩
    · intro out' hout' _
      obtain rfl := Except.ok.inj (hout.symm.trans hout')
      exact ⟨⟨hle, hwindow⟩, hselect, fun d hd hsel => hmax d hsel hd.1⟩
    · intro d hd hdwindow
      obtain ⟨hdselect, hdmax⟩ := (hlatest d).mp hd
      exact ⟨out, hout, hok, le_antisymm (hdmax _ hselect) (hmax d hdselect hdwindow.1)⟩
  · have hempty : ∀ d, window d → ¬ selectable d := by
      rintro d ⟨hle, hwindow⟩ hsel
      have := houtside d hsel hle
      omega
    refine ⟨⟨?_, ?_⟩, ?_, ?_⟩
    · rintro ⟨out, hout, hok⟩
      exact absurd hok (hnone out hout)
    · rintro ⟨d, hd, hsel⟩
      exact absurd hsel (hempty d hd)
    · exact fun out hout hok => absurd hok (hnone out hout)
    · exact fun d hd hdwindow => absurd ((hlatest d).mp hd).1 (hempty d hdwindow)

/-- A database with a published observation and a denied one of a later date. -/
def viewedDb : Db where
  jobs := .empty
  observations := ⟨[⟨1, 1, ⟨"fake", "default", "BTC", today, .eodClose⟩, 1,
      ⟨"EUR", .finite 1, none, none, none, none, .ok⟩, 0, none, none⟩,
    ⟨2, 1, ⟨"hidden", "default", "BTC", ⟨739619, by decide, by decide⟩, .eodClose⟩, 1,
      ⟨"EUR", .finite 2, none, none, none, none, .ok⟩, 0, none, none⟩], by decide⟩
  decisions := ⟨[⟨1, "fake", .store, 1, .approved, "contract", "reviewer", 0, none⟩,
    ⟨2, "fake", .display, 1, .approved, "contract", "reviewer", 0, none⟩,
    ⟨3, "fake", .redistribute, 1, .approved, "contract", "reviewer", 0, none⟩], by decide⟩

/-- Two days after it, both paths report the date of the published observation. -/
theorem latest_session_agrees_published :
    let listing : Listing := ⟨1, .crypto, "X", none⟩
    let settings : Settings := ⟨["hidden", "fake"], 300, 3600⟩
    let now : Date := ⟨739620, by decide, by decide⟩
    ObservationView.latestPublishableSessionDate viewedDb listing .eodClose settings = some today ∧
      (¬ ∃ result, ObservationSelector.select viewedDb 1 now .eodClose (priorityPolicy settings) =
        .ok result) ∧
      ∃ out, ObservationView.findLatestObservation viewedDb listing .eodClose settings
          (fun _ _ _ first _ => .ok [⟨first, .expectedPublished⟩]) now = .ok out ∧
        out.availability = .ok ∧ out.sessionDate = today ∧
        ∀ d, d ≤ now → now.ordinal ≤ d.ordinal + 10 → (∃ result, ObservationSelector.select
          viewedDb 1 d .eodClose (priorityPolicy settings) = .ok result) → d ≤ today := by
  intro listing settings now
  let calendar : Calendar := fun _ _ _ first _ => .ok [⟨first, .expectedPublished⟩]
  have hcalendar : ∀ d, d ≤ now → now.ordinal ≤ d.ordinal + ObservationView.latestLookbackDays →
      ∃ check rest, calendar listing.assetClass listing.venue listing.mic d d =
        .ok (check :: rest) := fun d _ _ => ⟨_, _, rfl⟩
  have hcloses : ∀ o ∈ viewedDb.observations.rows, o.value.close.isFinite = true := by decide
  obtain ⟨hlatest, -, -, hfound, hwindow⟩ :=
    latest_session_agrees .eodClose settings now hcloses hcalendar
  have hsome : ObservationView.latestPublishableSessionDate viewedDb listing .eodClose settings =
      some today := by decide +kernel
  obtain ⟨out, hout, hok, hdate⟩ := hwindow today hsome ⟨by decide, by decide⟩
  have hgreatest := (hlatest today).mp hsome
  refine ⟨hsome, fun hnow => ?_, out, hout, hok, hdate, fun d hle hrecent hselect => ?_⟩
  · exact absurd (hgreatest.2 now hnow) (by decide)
  · exact hdate ▸ (hfound out hout hok).2.2 d ⟨hle, hrecent⟩ hselect

end MarketRelay
