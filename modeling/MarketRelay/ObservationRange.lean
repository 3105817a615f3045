import MarketRelay.ObservationView

/-!
# Requests for a Range of Observations

The handler of a range request: two checks of the dates, the listing, and one response per date. The
loop adds a day after the last date too, which is not representable for the last date of all.

## Main results

* `ObservationView.rangeLoop_isOk`, `ObservationView.rangeLoop_overflow`: when the loop returns.
* `observationRange_covers_iff`: the requests that are answered date by date.
* `observationRange_overflows`: the last representable date cannot be asked for.
-/

open Relational Interaction Gregorian

namespace MarketRelay

/-! ### The handler -/

structure ObservationRangeResponse where
  listingId : ℕ
  observationType : ObservationType
  start : Date
  «end» : Date
  observations : List ObservationOut
deriving DecidableEq

/-- How a request ends without a response. -/
inductive RangeFault where
  | http (statusCode : ℕ) (detail : String)
  | raised (e : PyError)
deriving DecidableEq

/-- `_MAX_RANGE_DAYS` -/
def maxRangeDays : ℤ := 366

/-- One observation per date in the range. The listing is what its identifier resolves to, and the
calendar the one of the listing. -/
def observationRange (db : Db) (listing : Option Listing) (start «end» : Date)
    (observationType : ObservationType) (settings : Settings) (calendar : Calendar) :
    Except RangeFault ObservationRangeResponse :=
  if «end» < start then
    .error (.http 422 "`end` cannot be earlier than `start`.")
  else if maxRangeDays < («end».ordinal : ℤ) - start.ordinal then
    .error (.http 422 ("The maximum range per request is " ++ toString maxRangeDays ++ " days."))
  else
    match listing with
    | none => .error (.http 404 "Listing not found.")
    | some listing =>
      match ObservationView.buildObservationRange db listing observationType start «end» settings
        calendar with
      | .error e => .error (.raised e)
      | .ok observations => .ok ⟨listing.id, observationType, start, «end», observations⟩

namespace ObservationView

variable {db : Db} {listing : Listing} {observationType : ObservationType} {settings : Settings}
  {calendar : Calendar} {start final d : Date}

/-! ### One date -/

variable (db listing observationType settings) in
/-- The response of the date, if it has a value, has a finite close, and no comparison of its close
with another one signals. -/
def Answerable (d : Date) : Prop :=
  ∀ result, ObservationSelector.select db listing.id d observationType (priorityPolicy settings) =
    .ok result → result.selected.value.close.isFinite = true ∧ ∃ b, result.hasDiscrepancy = .ok b

/-- A store of finite closes can be answered from. -/
theorem answerable_of_closes
    (hcloses : ∀ o ∈ db.observations.rows, o.value.close.isFinite = true) :
    Answerable db listing observationType settings d :=
  fun result hselect => result.answerable hselect hcloses

/-- A date that the calendar classifies has a response exactly when it can be answered. -/
theorem buildObservationOut_isOk_iff (hcalendar : Classifies listing calendar d) :
    (∃ out, buildObservationOut db listing d observationType settings calendar = .ok out) ↔
      Answerable db listing observationType settings d := by
  rw [Answerable]
  cases hselect : ObservationSelector.select db listing.id d observationType
      (priorityPolicy settings) with
  | error e =>
      obtain ⟨check, rest, hcheck⟩ := hcalendar
      simp only [buildObservationOut, hselect, sessionExpectation, hcheck]
      exact iff_of_true ⟨_, rfl⟩ fun _ h => absurd h (by simp)
  | ok result =>
      simp only [buildObservationOut, hselect, Except.ok.injEq, forall_eq',
        ← valueOut_isOk_iff db]
      cases hvalue : valueOut db result with
      | error e =>
          refine iff_of_false ?_ ?_
          · rintro ⟨_, h⟩
            cases h
          · rintro ⟨_, h⟩
            cases h
      | ok value => exact iff_of_true ⟨_, rfl⟩ ⟨value, rfl⟩

/-! ### The loop -/

/-- **The loop returns** one response per date, as long as it does not step past the last date. -/
theorem rangeLoop_isOk {left : ℕ} {current : Date} (h : current.ordinal + left ≤ maxOrdinal)
    (hout : ∀ d : Date, current ≤ d → d.ordinal < current.ordinal + left →
      ∃ out, buildObservationOut db listing d observationType settings calendar = .ok out) :
    ∃ outs, rangeLoop db listing observationType settings calendar left current = .ok outs ∧
      outs.map Except.ok = ((List.range' current.ordinal left).filterMap fun n : ℕ =>
        Date.ofOrdinal? n).map fun d =>
          buildObservationOut db listing d observationType settings calendar := by
  induction left generalizing current with
  | zero => exact ⟨[], rfl, rfl⟩
  | succ left ih =>
      obtain ⟨next, hnext⟩ : ∃ next, current.addDays 1 = some next :=
        Option.ne_none_iff_exists'.mp fun hnone => by
          have := Date.addDays_eq_none_iff.mp hnone
          omega
      have hday := Date.addDays_eq_some_iff.mp hnext
      obtain ⟨out, hcurrent⟩ := hout current le_rfl (by omega)
      have hrest : ∀ d : Date, next ≤ d → d.ordinal < next.ordinal + left →
          ∃ out, buildObservationOut db listing d observationType settings calendar = .ok out := by
        intro d hd hlt
        rw [Date.le_def] at hd
        exact hout d (Date.le_def.mpr (by omega)) (by omega)
      obtain ⟨outs, hloop, hmap⟩ := ih (by omega) hrest
      have hordinal : current.ordinal + 1 = next.ordinal := by omega
      have hdates : (List.range' current.ordinal (left + 1)).filterMap
          (fun n : ℕ => Date.ofOrdinal? n) = current ::
            (List.range' next.ordinal left).filterMap fun n : ℕ => Date.ofOrdinal? n := by
        rw [List.range'_succ, hordinal]
        exact List.filterMap_cons_some (Date.ofOrdinal?_eq_some_iff.mpr rfl)
      refine ⟨out :: outs, ?_, ?_⟩
      · rw [rangeLoop, hnext]
        simp only [hcurrent, RecoveryPlanner.orOverflow, hloop, bind, Except.bind, pure,
          Except.pure]
      · rw [hdates, List.map_cons, List.map_cons, hcurrent, hmap]

/-- **The loop overflows** when it steps past the last date, if it does not raise before. -/
theorem rangeLoop_overflow {left : ℕ} {current : Date} (h : maxOrdinal < current.ordinal + left) :
    ∃ e, rangeLoop db listing observationType settings calendar left current = .error e := by
  induction left generalizing current with
  | zero => exact absurd current.le_max (by omega)
  | succ left ih =>
      rw [rangeLoop]
      cases buildObservationOut db listing current observationType settings calendar with
      | error e => exact ⟨e, rfl⟩
      | ok out =>
          cases hnext : current.addDays 1 with
          | none => exact ⟨.overflow, rfl⟩
          | some next =>
              have hday := Date.addDays_eq_some_iff.mp hnext
              obtain ⟨e, he⟩ := @ih next (by omega)
              refine ⟨e, ?_⟩
              simp only [RecoveryPlanner.orOverflow, he, bind, Except.bind]

/-- The request is answered with one response per date of the range, in order, each the one of
its date. -/
def Covers (db : Db) (listing : Listing) (start final : Date) (observationType : ObservationType)
    (settings : Settings) (calendar : Calendar) : Prop :=
  ∃ (response : ObservationRangeResponse) (dates : List Date),
    observationRange db (some listing) start final observationType settings calendar =
      .ok response ∧
    dates.Pairwise (· < ·) ∧ (∀ d, d ∈ dates ↔ start ≤ d ∧ d ≤ final) ∧
    response.observations.map Except.ok = dates.map fun d =>
      buildObservationOut db listing d observationType settings calendar

/-- A request for an admitted range is answered as the loop is. -/
theorem observationRange_eq (hle : start ≤ final)
    (hdays : (final.ordinal : ℤ) - start.ordinal ≤ maxRangeDays) :
    observationRange db (some listing) start final observationType settings calendar =
      match buildObservationRange db listing observationType start final settings calendar with
      | .error e => .error (.raised e)
      | .ok observations => .ok ⟨listing.id, observationType, start, final, observations⟩ := by
  rw [observationRange, if_neg (not_lt.mpr hle), if_neg (not_lt.mpr hdays)]

end ObservationView

open ObservationView in
/-- **A request for an admitted range is answered date by date exactly when** it does not reach the
last representable date and every date can be answered. -/
theorem observationRange_covers_iff {db : Db} {listing : Listing} {calendar : Calendar}
    {start final : Date} (observationType : ObservationType) (settings : Settings)
    (hle : start ≤ final) (hdays : (final.ordinal : ℤ) - start.ordinal ≤ maxRangeDays)
    (hcalendar : ∀ d, start ≤ d → d ≤ final → ∃ check rest,
      calendar listing.assetClass listing.venue listing.mic d d = .ok (check :: rest)) :
    Covers db listing start final observationType settings calendar ↔
      final.ordinal ≠ maxOrdinal ∧
        ∀ d, start ≤ d → d ≤ final → Answerable db listing observationType settings d := by
  have hsteps : start.ordinal + (final.ordinal + 1 - start.ordinal) = final.ordinal + 1 := by
    have := Date.le_def.mp hle
    omega
  rw [Covers]
  simp only [observationRange_eq hle hdays, buildObservationRange]
  constructor
  · rintro ⟨response, dates, hok, -, hmem, hmap⟩
    refine ⟨fun hlast => ?_, fun d hlow hhigh => ?_⟩
    · have hpast : maxOrdinal < start.ordinal + (final.ordinal + 1 - start.ordinal) := by
        rw [hsteps, hlast]
        exact Nat.lt_succ_self _
      obtain ⟨e, he⟩ := rangeLoop_overflow hpast
      rw [he] at hok
      exact nomatch hok
    · have hd : buildObservationOut db listing d observationType settings calendar ∈
          response.observations.map Except.ok :=
        hmap ▸ List.mem_map_of_mem ((hmem d).mpr ⟨hlow, hhigh⟩)
      obtain ⟨out, -, hout⟩ := List.mem_map.mp hd
      exact (buildObservationOut_isOk_iff (hcalendar d hlow hhigh)).mp ⟨out, hout.symm⟩
  · rintro ⟨hlast, hanswerable⟩
    have hmax := final.le_max
    have hwithin : start.ordinal + (final.ordinal + 1 - start.ordinal) ≤ maxOrdinal := by omega
    obtain ⟨outs, hloop, hmap⟩ := rangeLoop_isOk hwithin fun d hlow hhigh => by
      have hhigh' : d ≤ final := Date.le_def.mpr (by omega)
      exact (buildObservationOut_isOk_iff (hcalendar d hlow hhigh')).mpr
        (hanswerable d hlow hhigh')
    rw [hloop]
    exact ⟨_, Date.interval start final, rfl, Date.interval_strict start final,
      fun d => Date.mem_interval, hmap⟩

/-- A week of an empty store is answered date by date. -/
theorem observationRange_covers_week :
    ObservationView.Covers ⟨Table.empty, Table.empty, Table.empty⟩ ⟨1, .crypto, "X", none⟩
      ⟨739618, by decide, by decide⟩ ⟨739624, by decide, by decide⟩ .eodClose ⟨["fake"], 300, 3600⟩
      fun _ _ _ first _ => .ok [⟨first, .expectedPublished⟩] :=
  (observationRange_covers_iff .eodClose ⟨["fake"], 300, 3600⟩ (by decide) (by decide)
    fun _ _ _ => ⟨_, _, rfl⟩).mpr ⟨by decide, fun _ _ _ =>
      ObservationView.answerable_of_closes fun _ h => absurd h List.not_mem_nil⟩

/-- **The last representable date cannot be asked for**: the loop adds a day to it. -/
theorem observationRange_overflows :
    observationRange ⟨Table.empty, Table.empty, Table.empty⟩ (some ⟨1, .crypto, "X", none⟩)
        ⟨maxOrdinal, by decide, by decide⟩ ⟨maxOrdinal, by decide, by decide⟩ .eodClose
        ⟨["fake"], 300, 3600⟩ (fun _ _ _ first _ => .ok [⟨first, .expectedPublished⟩]) =
      .error (.raised .overflow) ∧
    ¬ ObservationView.Covers ⟨Table.empty, Table.empty, Table.empty⟩ ⟨1, .crypto, "X", none⟩
      ⟨maxOrdinal, by decide, by decide⟩ ⟨maxOrdinal, by decide, by decide⟩ .eodClose
      ⟨["fake"], 300, 3600⟩ fun _ _ _ first _ => .ok [⟨first, .expectedPublished⟩] := by
  have hraises : observationRange ⟨Table.empty, Table.empty, Table.empty⟩
      (some ⟨1, .crypto, "X", none⟩) ⟨maxOrdinal, by decide, by decide⟩
      ⟨maxOrdinal, by decide, by decide⟩ .eodClose ⟨["fake"], 300, 3600⟩
      (fun _ _ _ first _ => .ok [⟨first, .expectedPublished⟩]) = .error (.raised .overflow) := by
    decide +kernel
  refine ⟨hraises, ?_⟩
  rintro ⟨response, dates, hok, -⟩
  exact nomatch hraises.symm.trans hok

end MarketRelay
