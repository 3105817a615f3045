import MarketRelay.Dispatch

/-!
# The Columns of a Job

A deduplication key is stored in a column of 256 characters, and a cursor in one of 512. A key joins
the source, the scope and the external identifier, whose own columns hold 64, 64 and 128 characters,
with the rest of the key: the longest key does not fit. A cursor is JSON restricted to ASCII, which
writes a character with up to twelve, so how long it is depends on the characters.

## Main results

* `Dispatch.length_dedupeKey`, `Dispatch.length_serialize`: how long they are.
* `dispatch_fits_iff`: exactly when all jobs that a dispatch builds fit their columns.
* `dispatch_exceeds_columns`: names within their own limits for which one does not.
-/

open Relational Interaction Gregorian

namespace MarketRelay

/-! ### The columns -/

/-- The size of `Job.dedupe_key`. -/
def dedupeKeySize : ℕ := 256

/-- The size of `Job.cursor`. -/
def cursorSize : ℕ := 512

/-- The key and the cursor of the job fit their columns. -/
structure Job.FitsColumns (j : Job) : Prop where
  dedupeKey : j.dedupeKey.length ≤ dedupeKeySize
  cursor : ∀ text ∈ j.cursor, text.length ≤ cursorSize

namespace Dispatch

/-! ### How long they are -/

/-- **The length of a key.** -/
theorem length_dedupeKey (series : SeriesKey) (range : PlannedRange) :
    (dedupeKey series range).length =
      37 + series.source.length + series.credentialScope.length +
        series.externalListingId.length + series.observationType.value.length +
          (if range.waiting then 8 else 0) := by
  have hdate : ∀ d : Date, d.isoformat.length = 10 := fun d => by
    rw [← String.length_toList, Date.length_isoformat]
  have htype : jobTypeFetchRange.length = 11 := rfl
  have hcolon : ":".length = 1 := rfl
  simp only [dedupeKey, seriesText, rangeText, String.length_append, hdate, htype, hcolon]
  cases range.waiting
  · simp only [Bool.false_eq_true, if_false, String.length_empty]
    omega
  · have hwaiting : "waiting:".length = 8 := rfl
    simp only [if_true, hwaiting]
    omega

/-- A date is encoded as it is. -/
theorem escapedLength_isoformat (d : Date) : Json.escapedLength d.isoformat = 10 := by
  rw [Json.escapedLength_eq_length, ← String.length_toList, Date.length_isoformat]
  intro c hc
  rcases Date.mem_isoformat hc with rfl | ⟨hlo, hhi⟩
  · decide
  · have hlo' : 48 ≤ c.toNat := hlo
    have hhi' : c.toNat ≤ 57 := hhi
    refine ⟨⟨by omega, by omega⟩, ?_, ?_⟩
    · rintro rfl
      exact absurd hlo' (by decide)
    · rintro rfl
      exact absurd hhi' (by decide)

/-- **The length of a cursor.** -/
theorem length_serialize (series : SeriesKey) (range : PlannedRange) :
    (cursor series range).serialize.length =
      119 + Json.escapedLength series.credentialScope +
        Json.escapedLength series.externalListingId + series.observationType.value.length := by
  have htype : Json.escapedLength series.observationType.value =
      series.observationType.value.length := by
    cases series.observationType <;> decide +kernel
  obtain ⟨hscope, hend, hlisting, hkind, hstart⟩ :
      Json.escapedLength "credential_scope" = 16 ∧ Json.escapedLength "end" = 3 ∧
        Json.escapedLength "external_listing_id" = 19 ∧
          Json.escapedLength "observation_type" = 16 ∧ Json.escapedLength "start" = 5 := by
    decide +kernel
  rw [FetchCursor.serialize, Json.length_encodeObject (by simp [FetchCursor.payload])]
  simp only [FetchCursor.payload, cursor, List.map_cons, List.map_nil, List.sum_cons, List.sum_nil,
    hscope, hend, hlisting, hkind, hstart, htype, escapedLength_isoformat]
  omega

end Dispatch

/-! ### When the jobs fit -/

/-- The names of the series leave room for the rest of the key, which marks a waiting range, and of
the cursor. -/
structure SeriesKey.LeavesRoom (series : SeriesKey) (waiting : Bool) : Prop where
  key : series.source.length + series.credentialScope.length + series.externalListingId.length +
    series.observationType.value.length + (if waiting then 8 else 0) ≤ 219
  cursor : Json.escapedLength series.credentialScope +
    Json.escapedLength series.externalListingId + series.observationType.value.length ≤ 393

namespace Dispatch

variable {calendar : Calendar} {args : DispatchArgs} {plan : RecoveryPlan} {range : PlannedRange}
  {j : Job}

/-- A job is built with the key and the cursor of its range. -/
theorem IsJobOf.texts (h : IsJobOf args range j) :
    j.dedupeKey = dedupeKey args.series range ∧
      j.cursor = some (cursor args.series range).serialize := by
  obtain ⟨id, createdAt, rfl⟩ := h
  split <;> exact ⟨rfl, rfl⟩

theorem IsJobOf.fitsColumns_iff (h : IsJobOf args range j) :
    j.FitsColumns ↔ args.series.LeavesRoom range.waiting := by
  have hkey : j.dedupeKey.length ≤ dedupeKeySize ↔
      args.series.source.length + args.series.credentialScope.length +
        args.series.externalListingId.length + args.series.observationType.value.length +
          (if range.waiting then 8 else 0) ≤ 219 := by
    rw [h.texts.1, length_dedupeKey, dedupeKeySize]
    omega
  have hcursor : (∀ text ∈ j.cursor, text.length ≤ cursorSize) ↔
      Json.escapedLength args.series.credentialScope +
        Json.escapedLength args.series.externalListingId +
          args.series.observationType.value.length ≤ 393 := by
    rw [h.texts.2]
    simp only [Option.mem_def, Option.some.injEq, forall_eq', length_serialize, cursorSize]
    omega
  exact ⟨fun hfits => ⟨hkey.mp hfits.dedupeKey, hcursor.mp hfits.cursor⟩,
    fun hroom => ⟨hkey.mpr hroom.key, hcursor.mpr hroom.cursor⟩⟩

/-- From an empty table, every range of the plan gets a job. -/
theorem exists_job_of_range (hplan : planOf calendar args = .ok plan) (hrange : range ∈ plan.ranges) :
    ∃ r db' l' j, (planAndEnqueue calendar args).Executes semantics
      ⟨Table.empty, Table.empty, Table.empty⟩ Session.new r db' l' ∧ j ∈ db'.jobs.rows ∧
        IsJobOf args range j := by
  obtain ⟨r, db', l', h⟩ := Prog.exists_executes semantics (planAndEnqueue calendar args).run
    ⟨Table.empty, Table.empty, Table.empty⟩ Session.new
  obtain ⟨-, result, -, -, henq⟩ := planAndEnqueue_executes hplan h
  obtain ⟨j, hj, hjob⟩ := henq.job_of_free hrange fun j hj => absurd hj List.not_mem_nil
  exact ⟨r, db', l', j, h, hj, hjob⟩

end Dispatch

/-- **All jobs that a dispatch builds fit their columns exactly when** the names leave room for the
rest of the key and of the cursor, for each range of the plan. -/
theorem dispatch_fits_iff (calendar : Calendar) (args : DispatchArgs) :
    (∀ db l r db' l', (Dispatch.planAndEnqueue calendar args).Executes semantics db l r db' l' →
      ∀ j ∈ db'.jobs.rows, j ∉ db.jobs.rows → j.FitsColumns) ↔
      ∀ plan, Dispatch.planOf calendar args = .ok plan →
        ∀ range ∈ plan.ranges, args.series.LeavesRoom range.waiting := by
  constructor
  · intro hfits plan hplan range hrange
    obtain ⟨r, db', l', j, h, hj, hjob⟩ := Dispatch.exists_job_of_range hplan hrange
    exact hjob.fitsColumns_iff.mp (hfits _ _ r db' l' h j hj List.not_mem_nil)
  · intro hroom db l r db' l' h j hj hnew
    cases hplan : Dispatch.planOf calendar args with
    | error e =>
        rw [Dispatch.planAndEnqueue, hplan] at h
        obtain ⟨-, rfl, -⟩ := Script.executes_throw.mp h
        exact absurd hj hnew
    | ok plan =>
        obtain ⟨-, result, -, -, henq⟩ := Dispatch.planAndEnqueue_executes hplan h
        obtain ⟨new, hrows, hjobs⟩ := henq.adds
        rw [hrows] at hj
        obtain ⟨range, hrange, hjob, -⟩ := hjobs j ((List.mem_append.mp hj).resolve_left hnew)
        exact hjob.fitsColumns_iff.mpr (hroom plan hplan range hrange)

/-- A series whose names are as long as their columns allow. -/
def longestSeries : SeriesKey where
  source := String.ofList (List.replicate 64 's')
  credentialScope := String.ofList (List.replicate 64 'c')
  externalListingId := String.ofList (List.replicate 128 'x')
  observationType := .eodClose

/-- **A job can exceed its columns** although every name fits its own: the longest key has 302
characters. -/
theorem dispatch_exceeds_columns :
    ¬ ∀ (calendar : Calendar) (args : DispatchArgs), args.series.source.length ≤ 64 →
      args.series.credentialScope.length ≤ 64 → args.series.externalListingId.length ≤ 128 →
      ∀ db l r db' l', (Dispatch.planAndEnqueue calendar args).Executes semantics db l r db' l' →
        ∀ j ∈ db'.jobs.rows, j ∉ db.jobs.rows → j.FitsColumns := by
  intro hall
  let args : DispatchArgs := { todaysDispatch with series := longestSeries }
  have hplan : Dispatch.planOf dailyCalendar args = .ok todaysPlan := planOf_todaysDispatch
  have hsource : args.series.source.length = 64 := by decide +kernel
  have hscope : args.series.credentialScope.length = 64 := by decide +kernel
  have hlisting : args.series.externalListingId.length = 128 := by decide +kernel
  have hrange : (⟨false, today, today⟩ : PlannedRange) ∈ todaysPlan.ranges := by decide
  obtain ⟨r, db', l', j, h, hj, hjob⟩ := Dispatch.exists_job_of_range hplan hrange
  have hfits := hall dailyCalendar args hsource.le hscope.le hlisting.le _ _ r db' l' h j hj
    List.not_mem_nil
  have hkey := (hjob.fitsColumns_iff.mp hfits).key
  rw [hsource, hscope, hlisting] at hkey
  omega

end MarketRelay
