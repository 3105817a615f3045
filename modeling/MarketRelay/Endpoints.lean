import MarketRelay.ConsumerApi
import MarketRelay.Priority
import MarketRelay.Processed

/-!
# The Endpoints of a Listing

Three routes report on one listing: the latest observation, the observations of a range, and the
status of the data. Each finds its answer in a way of its own (a walk into the past, a loop over
the dates, one query), and the calendar is asked by the first two only. Answered from one state
they tell the same: what is available in a range is what the walk finds and what the status dates.

## Main results

* `ObservationView.available_iff`: a response is available when its date can be selected.
* `endpoints_agree`: how the three answers are related.
-/

open Relational Interaction Gregorian

namespace MarketRelay

/-! ### The response of a date -/

namespace ObservationView

variable {db : Db} {listing : Listing} {observationType : ObservationType} {settings : Settings}
  {calendar : Calendar} {today start final d : Date} {out : ObservationOut}

/-- A response is that of its session date, and is available when the date can be selected. -/
theorem available_iff
    (h : buildObservationOut db listing d observationType settings calendar = .ok out) :
    out.sessionDate = d ∧
      (out.availability = .ok ↔ Selectable db listing observationType settings d) := by
  rw [buildObservationOut] at h
  rw [Selectable]
  cases hselect : ObservationSelector.select db listing.id d observationType
      (priorityPolicy settings) with
  | error e =>
      rw [hselect] at h
      cases hexpectation : sessionExpectation calendar listing d with
      | error e' => simp [hexpectation, bind, Except.bind] at h
      | ok expectation =>
          simp only [hexpectation, bind, Except.bind, pure, Except.pure, Except.ok.injEq] at h
          subst h
          refine ⟨rfl, iff_of_false ?_ (by simp)⟩
          cases expectation <;> simp [availabilityByExpectation]
  | ok result =>
      rw [hselect] at h
      cases hvalue : valueOut db result with
      | error e => simp [hvalue, bind, Except.bind] at h
      | ok value =>
          simp only [hvalue, bind, Except.bind, pure, Except.pure, Except.ok.injEq] at h
          subst h
          exact ⟨rfl, iff_of_true rfl ⟨result, rfl⟩⟩

variable (db listing observationType settings calendar today) in
/-- The response is that of the greatest selectable date among the `n` dates up to `a` days ago. -/
structure IsLatest (a n : ℕ) (out : ObservationOut) : Prop where
  built : buildObservationOut db listing out.sessionDate observationType settings calendar =
    .ok out
  available : out.availability = .ok
  past : out.sessionDate.ordinal + a ≤ today.ordinal
  recent : today.ordinal < out.sessionDate.ordinal + a + n
  greatest : ∀ d, Selectable db listing observationType settings d →
    d.ordinal + a ≤ today.ordinal → d ≤ out.sessionDate

/-- A walk that returns has found the greatest selectable date, or there is none. -/
theorem findLatestLoop_returns {a n : ℕ} {found : Option ObservationOut}
    (h : findLatestLoop db listing observationType settings calendar today (List.range' a n) =
      .ok found) :
    (∃ out, found = some out ∧
        IsLatest db listing observationType settings calendar today a n out) ∨
      found = none ∧ ∀ d, Selectable db listing observationType settings d →
        d.ordinal + a ≤ today.ordinal → d.ordinal + a + n ≤ today.ordinal := by
  induction n generalizing a with
  | zero => exact Or.inr ⟨(Except.ok.inj h).symm, fun d _ hd => hd⟩
  | succ n ih =>
      rw [List.range'_succ, findLatestLoop] at h
      cases hdate : today.addDays (-(a : ℤ)) with
      | none => simp [hdate, RecoveryPlanner.orOverflow, bind, Except.bind] at h
      | some candidate =>
          have hday := Date.addDays_eq_some_iff.mp hdate
          cases hout : buildObservationOut db listing candidate observationType settings
              calendar with
          | error e => simp [hdate, hout, RecoveryPlanner.orOverflow, bind, Except.bind] at h
          | ok out =>
              simp only [hdate, hout, RecoveryPlanner.orOverflow, bind, Except.bind, pure,
                Except.pure] at h
              obtain ⟨rfl, havailable⟩ := available_iff hout
              split at h
              · rename_i hok
                exact Or.inl ⟨out, (Except.ok.inj h).symm, hout, hok, by omega, by omega,
                  fun d _ hd => Date.le_def.mpr (by omega)⟩
              · rename_i hok
                -- The candidate cannot be selected, and the walk goes on before it.
                have hnext : ∀ d, Selectable db listing observationType settings d →
                    d.ordinal + a ≤ today.ordinal → d.ordinal + (a + 1) ≤ today.ordinal := by
                  intro d hd hle
                  by_contra hlt
                  have heq : d = out.sessionDate := Date.ext (by omega)
                  exact hok (havailable.mpr (heq ▸ hd))
                rcases ih h with ⟨out', hfound, hlatest⟩ | ⟨hnone, hall⟩
                · have hpast := hlatest.past
                  have hrecent := hlatest.recent
                  exact Or.inl ⟨out', hfound, hlatest.built, hlatest.available, by omega, by omega,
                    fun d hd hle => hlatest.greatest d hd (hnext d hd hle)⟩
                · refine Or.inr ⟨hnone, fun d hd hle => ?_⟩
                  have := hall d hd (hnext d hd hle)
                  omega

/-- The latest observation is that of the greatest selectable date of the window, or else the
response of today. -/
theorem findLatestObservation_returns
    (h : findLatestObservation db listing observationType settings calendar today = .ok out) :
    IsLatest db listing observationType settings calendar today 0 (latestLookbackDays + 1) out ∨
      buildObservationOut db listing today observationType settings calendar = .ok out ∧
        ∀ d, Selectable db listing observationType settings d → d ≤ today →
          d.ordinal + latestLookbackDays < today.ordinal := by
  rw [findLatestObservation, List.range_eq_range'] at h
  cases hloop : findLatestLoop db listing observationType settings calendar today
      (List.range' 0 (latestLookbackDays + 1)) with
  | error e => simp [hloop, bind, Except.bind] at h
  | ok found =>
      simp only [hloop, bind, Except.bind] at h
      rcases findLatestLoop_returns hloop with ⟨out', rfl, hlatest⟩ | ⟨rfl, hall⟩
      · obtain rfl := Except.ok.inj h
        exact Or.inl hlatest
      · refine Or.inr ⟨h, fun d hd hle => ?_⟩
        have := hall d hd (Date.le_def.mp hle)
        omega

/-- The latest observation is the response of its session date. -/
theorem findLatestObservation_built
    (h : findLatestObservation db listing observationType settings calendar today = .ok out) :
    buildObservationOut db listing out.sessionDate observationType settings calendar =
      .ok out := by
  rcases findLatestObservation_returns h with hlatest | ⟨hout, -⟩
  · exact hlatest.built
  · rwa [(available_iff hout).1]

/-- The entries of a range are the responses of its dates. -/
theorem mem_rangeLoop {left : ℕ} {current : Date} {outs : List ObservationOut}
    (h : rangeLoop db listing observationType settings calendar left current = .ok outs) :
    out ∈ outs ↔ (current.ordinal ≤ out.sessionDate.ordinal ∧
      out.sessionDate.ordinal < current.ordinal + left) ∧
      buildObservationOut db listing out.sessionDate observationType settings calendar =
        .ok out := by
  induction left generalizing current outs with
  | zero =>
      obtain rfl := Except.ok.inj h
      exact iff_of_false List.not_mem_nil fun hrange => by omega
  | succ left ih =>
      rw [rangeLoop] at h
      cases hfirst : buildObservationOut db listing current observationType settings calendar with
      | error e => simp [hfirst, bind, Except.bind] at h
      | ok first =>
          cases hnext : current.addDays 1 with
          | none => simp [hfirst, hnext, RecoveryPlanner.orOverflow, bind, Except.bind] at h
          | some next =>
              cases hrest : rangeLoop db listing observationType settings calendar left next with
              | error e =>
                  simp [hfirst, hnext, hrest, RecoveryPlanner.orOverflow, bind, Except.bind] at h
              | ok rest =>
                  simp only [hfirst, hnext, hrest, RecoveryPlanner.orOverflow, bind, Except.bind,
                    pure, Except.pure, Except.ok.injEq] at h
                  subst h
                  have hday := Date.addDays_eq_some_iff.mp hnext
                  rw [List.mem_cons, ih hrest]
                  constructor
                  · rintro (rfl | ⟨hrange, hout⟩)
                    · rw [(available_iff hfirst).1]
                      exact ⟨by omega, hfirst⟩
                    · exact ⟨by omega, hout⟩
                  · rintro ⟨hrange, hout⟩
                    by_cases hcurrent : out.sessionDate = current
                    · rw [hcurrent] at hout
                      exact Or.inl (Except.ok.inj (hout.symm.trans hfirst))
                    · have hne : out.sessionDate.ordinal ≠ current.ordinal := fun heq =>
                        hcurrent (Date.ext heq)
                      exact Or.inr ⟨by omega, hout⟩

/-- A range that is answered has a response for each of its dates. -/
theorem exists_of_rangeLoop {left : ℕ} {current : Date} {outs : List ObservationOut}
    (h : rangeLoop db listing observationType settings calendar left current = .ok outs)
    (hd : current.ordinal ≤ d.ordinal ∧ d.ordinal < current.ordinal + left) :
    ∃ out, buildObservationOut db listing d observationType settings calendar = .ok out := by
  induction left generalizing current outs with
  | zero => omega
  | succ left ih =>
      rw [rangeLoop] at h
      cases hfirst : buildObservationOut db listing current observationType settings calendar with
      | error e => simp [hfirst, bind, Except.bind] at h
      | ok first =>
          by_cases hcurrent : d = current
          · exact ⟨first, hcurrent ▸ hfirst⟩
          · have hne : d.ordinal ≠ current.ordinal := fun heq => hcurrent (Date.ext heq)
            cases hnext : current.addDays 1 with
            | none => simp [hfirst, hnext, RecoveryPlanner.orOverflow, bind, Except.bind] at h
            | some next =>
                have hday := Date.addDays_eq_some_iff.mp hnext
                cases hrest : rangeLoop db listing observationType settings calendar left next with
                | error e =>
                    simp [hfirst, hnext, hrest, RecoveryPlanner.orOverflow, bind, Except.bind] at h
                | ok rest => exact ih hrest (by omega)

/-- The entries of a range, by their dates. -/
theorem mem_buildObservationRange {outs : List ObservationOut} (hle : start ≤ final)
    (h : buildObservationRange db listing observationType start final settings calendar =
      .ok outs) :
    out ∈ outs ↔ (start ≤ out.sessionDate ∧ out.sessionDate ≤ final) ∧
      buildObservationOut db listing out.sessionDate observationType settings calendar =
        .ok out := by
  rw [mem_rangeLoop h]
  refine and_congr ?_ Iff.rfl
  rw [Date.le_def] at hle
  rw [Date.le_def, Date.le_def]
  omega

/-- A date of a range that can be selected has an available entry. -/
theorem exists_entry {outs : List ObservationOut} (hstart : start ≤ d) (hfinal : d ≤ final)
    (h : buildObservationRange db listing observationType start final settings calendar =
      .ok outs) (hselect : Selectable db listing observationType settings d) :
    ∃ out ∈ outs, out.sessionDate = d ∧ out.availability = .ok := by
  have hrange : start.ordinal ≤ d.ordinal ∧
      d.ordinal < start.ordinal + (final.ordinal + 1 - start.ordinal) := by
    rw [Date.le_def] at hstart hfinal
    omega
  obtain ⟨out, hout⟩ := exists_of_rangeLoop h hrange
  obtain ⟨rfl, havailable⟩ := available_iff hout
  exact ⟨out, (mem_buildObservationRange (hstart.trans hfinal) h).mpr ⟨⟨hstart, hfinal⟩, hout⟩, rfl,
    havailable.mpr hselect⟩

end ObservationView

/-! ### The three routes -/

/-- What three answers about one listing tell of each other. -/
structure Agree (today start final : Date) (latest : ObservationOut)
    (range : List ObservationOut) (status : DataStatusOut) : Prop where
  /-- The flag of the status is the availability of the latest observation. -/
  flag : status.hasPublishableData = true ↔ latest.availability = .ok
  /-- The latest observation is an entry of the range. -/
  entry : start ≤ latest.sessionDate → latest.sessionDate ≤ final → latest ∈ range
  /-- No available entry of the window is later than the latest observation. -/
  window : ∀ out ∈ range, out.availability = .ok → out.sessionDate ≤ today →
    today.ordinal ≤ out.sessionDate.ordinal + ObservationView.latestLookbackDays →
      latest.availability = .ok ∧ out.sessionDate ≤ latest.sessionDate
  /-- No available observation is later than the date of the status. -/
  bound : ∀ out, out ∈ range ∨ out = latest → out.availability = .ok →
    ∃ d, status.lastEffectiveDate = some d ∧ out.sessionDate ≤ d
  /-- The date of the status is that of an available entry. -/
  dated : ∀ d, status.lastEffectiveDate = some d → start ≤ d → d ≤ final →
    ∃ out ∈ range, out.sessionDate = d ∧ out.availability = .ok

/-! ### What the routes answer -/

namespace Service

variable {upperCase : String → String} {s : Service} {correlationId : String}
  {authorization : Option String} {request : Request} {listingId : ℕ}
  {observationType : ObservationType} {start final : Date}

/-- A response that is no error is what the handler has returned. -/
theorem handle_of_respond {body : Body}
    (h : s.respond upperCase correlationId authorization request = .ok body) :
    s.handle upperCase request = .ok body := by
  cases haccess : s.access correlationId authorization request.scope with
  | error e =>
      rw [respond_of_refused haccess] at h
      exact absurd h (by simp)
  | ok u =>
      rw [respond_of_admits haccess] at h
      cases hhandle : s.handle upperCase request with
      | error e => simp [hhandle, Except.mapError] at h
      | ok body' =>
          rw [hhandle] at h
          exact congrArg Except.ok (Except.ok.inj h)

variable (s listingId) in
/-- The listing of a request, and its calendar. -/
def Resolves (listing : Listing) (calendar : Calendar) : Prop :=
  ∃ row, s.catalog.getListing listingId = some row ∧ listing = viewed row ∧
    s.calendars listing.mic listing.venue = .ok calendar

theorem bind_eq_ok {α β : Type} {x : Except RangeFault α} {f : α → Except RangeFault β} {b : β}
    (h : x >>= f = .ok b) : ∃ a, x = .ok a ∧ f a = .ok b := by
  cases x with
  | error e => exact absurd h (by simp [bind, Except.bind])
  | ok a => exact ⟨a, rfl, h⟩

theorem orRaised_eq_ok {α : Type} {x : Except PyError α} {a : α} (h : orRaised x = .ok a) :
    x = .ok a := by
  cases x with
  | error e => exact absurd h (by simp [orRaised])
  | ok a' => exact congrArg Except.ok (Except.ok.inj h)

theorem map_eq_ok {α β : Type} {x : Except RangeFault α} {f : α → β} {b : β}
    (h : x.map f = .ok b) : ∃ a, x = .ok a ∧ f a = b := by
  cases x with
  | error e => exact absurd h (by simp [Except.map])
  | ok a => exact ⟨a, rfl, Except.ok.inj h⟩

/-- A handler that goes on has found the listing and its calendar. -/
theorem resolves {row : InstrumentListing × Instrument} {calendar : Calendar}
    (hrow : s.resolveListing listingId = .ok row)
    (hcalendar : orRaised (s.calendars (viewed row).mic (viewed row).venue) = .ok calendar) :
    s.Resolves listingId (viewed row) calendar := by
  refine ⟨row, ?_, rfl, orRaised_eq_ok hcalendar⟩
  cases hget : s.catalog.getListing listingId with
  | none => exact absurd (resolveListing_eq_error hget ▸ hrow) (by simp)
  | some row' =>
      rw [resolveListing_eq_ok hget] at hrow
      exact congrArg some (Except.ok.inj hrow)

/-- The listing and the calendar are determined. -/
theorem Resolves.unique {listing listing' : Listing} {calendar calendar' : Calendar}
    (h : s.Resolves listingId listing calendar) (h' : s.Resolves listingId listing' calendar') :
    listing = listing' ∧ calendar = calendar' := by
  obtain ⟨row, hrow, rfl, hcalendar⟩ := h
  obtain ⟨row', hrow', rfl, hcalendar'⟩ := h'
  obtain rfl := Option.some.inj (hrow.symm.trans hrow')
  exact ⟨rfl, Except.ok.inj (hcalendar.symm.trans hcalendar')⟩

theorem latestObservation_eq_ok {latest : ObservationOut}
    (h : s.latestObservation listingId observationType = .ok latest) :
    ∃ listing calendar, s.Resolves listingId listing calendar ∧
      ObservationView.findLatestObservation s.tables.db listing observationType s.settings calendar
        s.today = .ok latest := by
  obtain ⟨row, hrow, h⟩ := bind_eq_ok h
  obtain ⟨calendar, hcalendar, h⟩ := bind_eq_ok h
  exact ⟨viewed row, calendar, resolves hrow hcalendar, orRaised_eq_ok h⟩

theorem observationRange_eq_ok {response : ObservationRangeResponse}
    (h : s.observationRange listingId start final observationType = .ok response) :
    start ≤ final ∧ ∃ listing calendar, s.Resolves listingId listing calendar ∧
      ObservationView.buildObservationRange s.tables.db listing observationType start final
        s.settings calendar = .ok response.observations := by
  rw [observationRange] at h
  split at h
  · exact absurd h (by simp)
  rename_i hle
  split at h
  · exact absurd h (by simp)
  obtain ⟨row, hrow, h⟩ := bind_eq_ok h
  obtain ⟨calendar, hcalendar, h⟩ := bind_eq_ok h
  obtain ⟨observations, hobservations, h⟩ := bind_eq_ok h
  obtain rfl := Except.ok.inj h
  exact ⟨not_lt.mp hle, viewed row, calendar, resolves hrow hcalendar,
    orRaised_eq_ok hobservations⟩

theorem dataStatus_eq_ok {status : DataStatusOut}
    (h : s.dataStatus listingId observationType = .ok status) :
    ∃ listing calendar latest, s.Resolves listingId listing calendar ∧
      ObservationView.findLatestObservation s.tables.db listing observationType s.settings calendar
        s.today = .ok latest ∧
      status.lastEffectiveDate = ObservationView.latestPublishableSessionDate s.tables.db listing
        observationType s.settings ∧
      status.hasPublishableData = decide (latest.availability = .ok) := by
  obtain ⟨row, hrow, h⟩ := bind_eq_ok h
  obtain ⟨calendar, hcalendar, h⟩ := bind_eq_ok h
  obtain ⟨latest, hlatest, h⟩ := bind_eq_ok h
  obtain rfl := Except.ok.inj h
  exact ⟨viewed row, calendar, latest, resolves hrow hcalendar, orRaised_eq_ok hlatest, rfl, rfl⟩

end Service

open Service ObservationView in
/-- **The endpoints of a listing agree**: whoever has asked for them, answers from one state of the
service about the latest observation, a range and the status of a listing fit together. -/
theorem endpoints_agree {s : Service} {upperCase : String → String} {listingId : ℕ}
    {observationType : ObservationType} {start final : Date}
    {correlationId correlationId' correlationId'' : String}
    {authorization authorization' authorization'' : Option String} {latest : ObservationOut}
    {response : ObservationRangeResponse} {status : DataStatusOut}
    (hlatest : s.respond upperCase correlationId authorization
      (.latestObservation listingId observationType) = .ok (.observation latest))
    (hrange : s.respond upperCase correlationId' authorization'
      (.observationRange listingId start final observationType) = .ok (.range response))
    (hstatus : s.respond upperCase correlationId'' authorization''
      (.dataStatus listingId observationType) = .ok (.dataStatus status)) :
    Agree s.today start final latest response.observations status := by
  obtain ⟨_, hfirst, heq⟩ := map_eq_ok (handle_of_respond hlatest)
  obtain rfl := (Body.observation.inj heq).symm
  obtain ⟨_, hsecond, heq⟩ := map_eq_ok (handle_of_respond hrange)
  obtain rfl := (Body.range.inj heq).symm
  obtain ⟨_, hthird, heq⟩ := map_eq_ok (handle_of_respond hstatus)
  obtain rfl := (Body.dataStatus.inj heq).symm
  obtain ⟨listing, calendar, hresolves, hlatest⟩ := latestObservation_eq_ok hfirst
  obtain ⟨hle, listing', calendar', hresolves', hrange⟩ := observationRange_eq_ok hsecond
  obtain ⟨rfl, rfl⟩ := hresolves.unique hresolves'
  obtain ⟨listing', calendar', latest', hresolves', hlatest', hdate, hflag⟩ :=
    dataStatus_eq_ok hthird
  obtain ⟨rfl, rfl⟩ := hresolves.unique hresolves'
  obtain rfl := Except.ok.inj (hlatest.symm.trans hlatest')
  have hbuilt := findLatestObservation_built hlatest
  have hselectable : ∀ out, out ∈ response.observations ∨ out = latest →
      out.availability = .ok → Selectable s.tables.db listing observationType s.settings
        out.sessionDate := by
    rintro out (hout | rfl) hok
    · exact (available_iff ((mem_buildObservationRange hle hrange).mp hout).2).2.mp hok
    · exact (available_iff hbuilt).2.mp hok
  refine ⟨by rw [hflag, decide_eq_true_eq], fun hstart hfinal => ?_,
    fun out hout hok hpast hwindow => ?_, fun out hout hok => ?_, fun d hd hstart hfinal => ?_⟩
  · exact (mem_buildObservationRange hle hrange).mpr ⟨⟨hstart, hfinal⟩, hbuilt⟩
  · have hselect := hselectable out (Or.inl hout) hok
    rcases findLatestObservation_returns hlatest with hfound | ⟨-, hall⟩
    · exact ⟨hfound.available, hfound.greatest _ hselect (Date.le_def.mp hpast)⟩
    · have hold := hall _ hselect hpast
      omega
  · have hselect := hselectable out hout hok
    rw [hdate]
    cases hlast : latestPublishableSessionDate s.tables.db listing observationType s.settings with
    | none => exact absurd hselect (latestPublishableSessionDate_eq_none_iff.mp hlast _)
    | some d => exact ⟨d, rfl, (latestPublishableSessionDate_eq_some_iff.mp hlast).2 _ hselect⟩
  · rw [hdate] at hd
    exact exists_entry hstart hfinal hrange (latestPublishableSessionDate_eq_some_iff.mp hd).1

/-- A service that publishes the close of today. -/
def publishingService : Service :=
  { sampleService with
    tables := ⟨⟨Table.empty, holding (dayRow "EUR" (.finite 1)), publishedRegister⟩, Table.empty⟩ }

/-- All three tell of the close of today. -/
theorem endpoints_agree_today :
    let latest : ObservationOut :=
      ⟨1, today, .ok, some ⟨.eodClose, "EUR", .finite 1, "fake", 1, 0, false, none, false⟩⟩
    Agree today today today latest [latest] ⟨1, .eodClose, some today, true⟩ := by
  intro latest
  have hlatest : publishingService.respond id "1" (some "Bearer key")
      (.latestObservation 1 .eodClose) = .ok (.observation latest) := by decide +kernel
  have hrange : publishingService.respond id "2" (some "Bearer key")
      (.observationRange 1 today today .eodClose) =
        .ok (.range ⟨1, .eodClose, today, today, [latest]⟩) := by decide +kernel
  have hstatus : publishingService.respond id "3" (some "Bearer key")
      (.dataStatus 1 .eodClose) = .ok (.dataStatus ⟨1, .eodClose, some today, true⟩) := by
    decide +kernel
  exact endpoints_agree hlatest hrange hstatus

end MarketRelay
