import MarketRelay.Dispatch
import MarketRelay.Lib.Separated

/-!
# What a Deduplication Key Identifies

The key of a dispatched job joins seven components with colons: source, credential scope, external
listing identifier, observation type, kind, first and last date. The last four are read off the end
of the key, which is of a fixed form. The first three are free texts that are joined as they are, so
a colon in one of them is taken for the end of it.

## Main results

* `Dispatch.dedupeKey_eq_iff`: which jobs share a key.
* `dedupeKey_identifies_iff`: which jobs can be told by their key.
* `dispatch_drops`: a dispatch of a series that shares its keys with another one adds no job.
-/

open Relational Interaction Gregorian

namespace MarketRelay

/-- The free texts of a series. -/
def SeriesKey.texts (series : SeriesKey) : List (List Char) :=
  [series.source.toList, series.credentialScope.toList, series.externalListingId.toList]

/-- The texts and the type are the series. -/
theorem SeriesKey.ext_texts {series series' : SeriesKey} (htexts : series.texts = series'.texts)
    (htype : series.observationType = series'.observationType) : series = series' := by
  obtain ⟨source, scope, external, type⟩ := series
  obtain ⟨source', scope', external', type'⟩ := series'
  simp only [texts, List.cons.injEq, and_true] at htexts
  obtain ⟨hsource, hscope, hexternal⟩ := htexts
  obtain rfl := String.toList_inj.mp hsource
  obtain rfl := String.toList_inj.mp hscope
  obtain rfl := String.toList_inj.mp hexternal
  obtain rfl : type = type' := htype
  rfl

/-- Three texts are the texts of a series. -/
theorem SeriesKey.exists_texts {parts : List (List Char)} (h : parts.length = 3)
    (type : ObservationType) :
    ∃ series : SeriesKey, series.texts = parts ∧ series.observationType = type := by
  obtain ⟨a, b, c, rfl⟩ := List.length_eq_three.mp h
  exact ⟨⟨String.ofList a, String.ofList b, String.ofList c, type⟩, by simp [texts], rfl⟩

namespace Dispatch

/-- The type and the kind in a key. -/
def kindText (type : ObservationType) (waiting : Bool) : List Char :=
  ':' :: (type.value.toList ++ ':' :: (if waiting then "waiting:" else "").toList)

/-- The dates in a key. -/
def datesText (first last : Date) : List Char :=
  first.isoformat.toList ++ ':' :: last.isoformat.toList

theorem dedupeKey_toList (series : SeriesKey) (r : PlannedRange) :
    (dedupeKey series r).toList = "fetch_range:".toList ++ ([':'].intercalate series.texts ++
      (kindText series.observationType r.waiting ++ datesText r.start r.end)) := by
  simp [dedupeKey, seriesText, rangeText, jobTypeFetchRange, SeriesKey.texts, kindText, datesText,
    List.intercalate_cons_cons]

/-- Whatever stands before them, type and kind are read off their last characters. -/
theorem kindText_inj {before before' : List Char} {type type' : ObservationType}
    {waiting waiting' : Bool}
    (h : before ++ kindText type waiting = before' ++ kindText type' waiting') :
    before = before' ∧ type = type' ∧ waiting = waiting' := by
  have hreverse : (kindText type waiting).reverse ++ before.reverse =
      (kindText type' waiting').reverse ++ before'.reverse := by
    rw [← List.reverse_append, ← List.reverse_append, h]
  have hkind : type = type' ∧ waiting = waiting' := by
    clear h
    revert hreverse
    cases type <;> cases waiting <;> cases type' <;> cases waiting' <;>
      simp [kindText, ObservationType.value]
  obtain ⟨rfl, rfl⟩ := hkind
  exact ⟨List.append_cancel_right h, rfl, rfl⟩

theorem datesText_inj {before before' : List Char} {first first' last last' : Date}
    (h : before ++ datesText first last = before' ++ datesText first' last') :
    before = before' ∧ first = first' ∧ last = last' := by
  have hlength : ∀ d e : Date, (datesText d e).length = 21 := by
    intro d e
    rw [datesText, List.length_append, List.length_cons, Date.length_isoformat,
      Date.length_isoformat]
  obtain ⟨hbefore, hdates⟩ := List.append_inj' h (by rw [hlength, hlength])
  obtain ⟨hfirst, hlast⟩ := List.append_inj hdates
    (by rw [Date.length_isoformat, Date.length_isoformat])
  exact ⟨hbefore, Date.isoformat_injective (String.toList_inj.mp hfirst),
    Date.isoformat_injective (String.toList_inj.mp (List.cons.inj hlast).2)⟩

/-- **Jobs that share a key**: of one type, kind and range, with free texts that are joined to the
same text. -/
theorem dedupeKey_eq_iff {series series' : SeriesKey} {r r' : PlannedRange} :
    dedupeKey series r = dedupeKey series' r' ↔
      [':'].intercalate series.texts = [':'].intercalate series'.texts ∧
        series.observationType = series'.observationType ∧ r = r' := by
  rw [← String.toList_inj, dedupeKey_toList, dedupeKey_toList, List.append_right_inj]
  constructor
  · intro h
    rw [← List.append_assoc, ← List.append_assoc] at h
    obtain ⟨h, hstart, hend⟩ := datesText_inj h
    obtain ⟨htexts, htype, hwaiting⟩ := kindText_inj h
    refine ⟨htexts, htype, ?_⟩
    obtain ⟨waiting, start, last⟩ := r
    obtain rfl : waiting = r'.waiting := hwaiting
    obtain rfl : start = r'.start := hstart
    obtain rfl : last = r'.end := hend
    rfl
  · rintro ⟨htexts, htype, rfl⟩
    rw [htexts, htype]

/-- The key of a job of a plan identifies it among all the jobs that dispatches build. -/
def Identified (args : DispatchArgs) (range : PlannedRange) : Prop :=
  ∀ (calendar' : Calendar) (args' : DispatchArgs) (plan' : RecoveryPlan) (range' : PlannedRange),
    planOf calendar' args' = .ok plan' → range' ∈ plan'.ranges →
      (jobArgs args' range').dedupeKey = (jobArgs args range).dedupeKey →
        args'.series = args.series ∧ range' = range

variable {calendar : Calendar} {args args' : DispatchArgs} {plan : RecoveryPlan}
  {range : PlannedRange}

/-- **The jobs that their key identifies** are those whose free texts contain no colon. -/
theorem dedupeKey_identifies_iff (hplan : planOf calendar args = .ok plan)
    (hrange : range ∈ plan.ranges) :
    Identified args range ↔ ':' ∉ args.series.source.toList ∧
      ':' ∉ args.series.credentialScope.toList ∧ ':' ∉ args.series.externalListingId.toList := by
  have hfree : (':' ∉ args.series.source.toList ∧ ':' ∉ args.series.credentialScope.toList ∧
      ':' ∉ args.series.externalListingId.toList) ↔ ∀ text ∈ args.series.texts, ':' ∉ text := by
    simp [SeriesKey.texts]
  rw [hfree, ← Separated.intercalate_unique_iff (by simp [SeriesKey.texts])]
  constructor
  · -- Other texts with the same join are those of a series that is dispatched in the same way.
    intro hidentified parts hlength hjoin
    obtain ⟨series, rfl, htype⟩ := SeriesKey.exists_texts hlength args.series.observationType
    have hkey : dedupeKey series range = dedupeKey args.series range :=
      dedupeKey_eq_iff.mpr ⟨hjoin, htype, rfl⟩
    have hseries := (hidentified calendar { args with series := series } plan range hplan hrange
      hkey).1
    exact congrArg SeriesKey.texts hseries
  · intro hunique calendar' args' plan' range' _ _ hkey
    obtain ⟨hjoin, htype, rfl⟩ := dedupeKey_eq_iff.mp hkey
    exact ⟨SeriesKey.ext_texts (hunique _ (by simp [SeriesKey.texts]) hjoin) htype, rfl⟩

/-- **A dispatch whose keys are taken by another series drops its jobs**: right after a dispatch of
another series with the same join, type and plan, it adds none and reports none as created. -/
theorem dispatch_drops (hplan : planOf calendar args = .ok plan)
    (hplan' : planOf calendar args' = .ok plan)
    (hjoin : [':'].intercalate args.series.texts = [':'].intercalate args'.series.texts)
    (htype : args.series.observationType = args'.series.observationType)
    {db db₁ db₂ : Db} {l l₁ l₂ : Session} {r r' : Except PyError DispatchResult}
    (h : (planAndEnqueue calendar args).Executes semantics db l r db₁ l₁)
    (h' : (planAndEnqueue calendar args').Executes semantics db₁ l₁ r' db₂ l₂) :
    db₂.jobs.rows = db₁.jobs.rows ∧
      ∃ result, r' = .ok result ∧ ∀ e ∈ result.results, e.created = false := by
  obtain ⟨-, result, -, -, hfirst⟩ := planAndEnqueue_executes hplan h
  obtain ⟨-, result', rfl, -, hsecond⟩ := planAndEnqueue_executes hplan' h'
  have htaken : ∀ range ∈ plan.ranges, ∃ j ∈ db₁.jobs.rows,
      j.dedupeKey = dedupeKey args'.series range := by
    intro range hrange
    obtain ⟨j, hj, hkey⟩ := hfirst.keys range hrange
    exact ⟨j, hj, hkey.trans (dedupeKey_eq_iff.mpr ⟨hjoin, htype, rfl⟩)⟩
  refine ⟨?_, result', rfl, fun e he => Bool.eq_false_iff.mpr fun hcreated => ?_⟩
  · obtain ⟨new, hrows, hnew⟩ := hsecond.adds
    cases new with
    | nil => rw [hrows, List.append_nil]
    | cons j new =>
        obtain ⟨range, hrange, -, hfree⟩ := hnew j List.mem_cons_self
        obtain ⟨j', hj', hkey⟩ := htaken range hrange
        exact absurd hkey (hfree j' hj')
  · obtain ⟨range, hrange, -, hfree⟩ := hsecond.created e he hcreated
    obtain ⟨j', hj', hkey⟩ := htaken range hrange
    exact hfree j' hj' hkey

/-! ### Two accounts on one key -/

/-- The listing `BTC` is told by its key. -/
theorem dedupeKey_identifies_btc : Identified todaysDispatch ⟨false, today, today⟩ :=
  (dedupeKey_identifies_iff planOf_todaysDispatch (List.mem_singleton_self _)).mpr (by decide)

/-- A dispatch of today's session of the listing `X:BTC`. -/
def colonDispatch : DispatchArgs :=
  { todaysDispatch with series := ⟨"fake", "default", "X:BTC", .eodClose⟩ }

/-- A dispatch of today's session of the listing `BTC` under the scope `default:X`. -/
def shadowedDispatch : DispatchArgs :=
  { todaysDispatch with series := ⟨"fake", "default:X", "BTC", .eodClose⟩ }

/-- **Two series with one key**: the second dispatch adds no job. -/
theorem dedupeKey_shared :
    ¬ Identified colonDispatch ⟨false, today, today⟩ ∧
      ∃ r r' db₁ db₂ l₁ l₂,
        (planAndEnqueue dailyCalendar colonDispatch).Executes semantics
          ⟨Table.empty, Table.empty, Table.empty⟩ Session.new r db₁ l₁ ∧
        (planAndEnqueue dailyCalendar shadowedDispatch).Executes semantics db₁ l₁ r' db₂ l₂ ∧
        db₂.jobs.rows = db₁.jobs.rows := by
  -- A plan does not depend on the series.
  have hplan : planOf dailyCalendar colonDispatch = .ok todaysPlan := planOf_todaysDispatch
  have hplan' : planOf dailyCalendar shadowedDispatch = .ok todaysPlan := planOf_todaysDispatch
  constructor
  · intro h
    have hsame := h dailyCalendar shadowedDispatch todaysPlan ⟨false, today, today⟩ hplan'
      (List.mem_singleton_self _) (by decide +kernel)
    exact absurd hsame.1 (by decide)
  · obtain ⟨r, db₁, l₁, h⟩ := Prog.exists_executes semantics
      (planAndEnqueue dailyCalendar colonDispatch).run
      ⟨Table.empty, Table.empty, Table.empty⟩ Session.new
    obtain ⟨r', db₂, l₂, h'⟩ := Prog.exists_executes semantics
      (planAndEnqueue dailyCalendar shadowedDispatch).run db₁ l₁
    exact ⟨r, r', db₁, db₂, l₁, l₂, h, h',
      (dispatch_drops hplan hplan' (by decide) rfl h h').1⟩

end Dispatch

end MarketRelay
