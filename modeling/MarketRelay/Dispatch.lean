import MarketRelay.Cursor
import MarketRelay.JobQueue
import MarketRelay.Lib.Execution
import MarketRelay.Planning

/-!
# Dispatch

`plan_and_enqueue`: each chunk of a recovery plan is enqueued as a pending job, and the dates
that await publication as one waiting job, each under a deduplication key that names its
range. A range whose key is taken is not enqueued again, whatever has become of the job that
took it.

## Main results

* `Dispatch.planAndEnqueue_executes`: a dispatch adds a job for each range whose key is free.
* `dispatch_covers_iff`: exactly when every planned date has live work after a dispatch.
* `dispatch_leaves_uncovered`: a run after which a planned date has none.
-/

open Relational Interaction Gregorian

namespace MarketRelay

/-- The arguments of `plan_and_enqueue`. -/
structure DispatchArgs where
  limits : Option RecoveryLimits
  listingId : ℕ
  assetClass : AssetClass
  venue : String
  mic : Option String
  series : SeriesKey
  lastCompletedSession : Option Date
  today : Date
  now : Instant
  waitingRetrySeconds : ℤ
deriving DecidableEq, Repr

structure DispatchResult where
  plan : RecoveryPlan
  enqueued : List EnqueueResult
  waitingJob : Option EnqueueResult
deriving DecidableEq, Repr

/-- The results of a dispatch, in the order of its calls. -/
def DispatchResult.results (r : DispatchResult) : List EnqueueResult :=
  r.enqueued ++ r.waitingJob.toList

/-- The range of a job that a plan calls for: a chunk to recover, or the dates that await
publication. -/
structure PlannedRange where
  waiting : Bool
  start : Date
  «end» : Date
deriving DecidableEq, Repr

def RecoveryChunk.range (c : RecoveryChunk) : PlannedRange := ⟨false, c.start, c.end⟩

/-- The range from the first to the last waiting date. -/
def RecoveryPlan.waitingRange (p : RecoveryPlan) : Option PlannedRange :=
  match p.waitingForPublication with
  | [] => none
  | first :: rest => some ⟨true, first, (first :: rest).getLast (List.cons_ne_nil first rest)⟩

/-- The ranges of a plan, in the order in which they are enqueued. -/
def RecoveryPlan.ranges (p : RecoveryPlan) : List PlannedRange :=
  p.chunks.map RecoveryChunk.range ++ p.waitingRange.toList

/-- The dates of a plan that call for work. -/
def RecoveryPlan.dates (p : RecoveryPlan) : List Date :=
  p.chunks.flatMap RecoveryChunk.sessionDates ++ p.waitingForPublication

namespace Dispatch

def jobTypeFetchRange : String := "fetch_range"

/-- The end of a deduplication key, which names the range. -/
def rangeText (r : PlannedRange) : String :=
  (if r.waiting then "waiting:" else "") ++ (r.start.isoformat ++ (":" ++ r.end.isoformat))

/-- The beginning of a deduplication key, which names the series. -/
def seriesText (series : SeriesKey) : String :=
  jobTypeFetchRange ++ ":" ++ series.source ++ ":" ++ series.credentialScope ++ ":" ++
    series.externalListingId ++ ":" ++ series.observationType.value ++ ":"

def dedupeKey (series : SeriesKey) (r : PlannedRange) : String := seriesText series ++ rangeText r

def cursor (series : SeriesKey) (r : PlannedRange) : FetchCursor String :=
  ⟨series.externalListingId, series.credentialScope, series.observationType, r.start, r.end⟩

/-- The job of a range. -/
def jobArgs (args : DispatchArgs) (r : PlannedRange) : EnqueueArgs where
  jobType := jobTypeFetchRange
  source := args.series.source
  dedupeKey := dedupeKey args.series r
  listingId := some args.listingId
  cursor := some (cursor args.series r).serialize
  runAt := if r.waiting then args.now + seconds args.waitingRetrySeconds else args.now
  maxAttempts := 5

/-- The loop over the chunks. -/
def enqueueChunks (args : DispatchArgs) : List RecoveryChunk → App (List EnqueueResult)
  | [] => return []
  | chunk :: rest => do
    let result ← JobQueue.enqueueIdempotent (jobArgs args chunk.range)
    let results ← enqueueChunks args rest
    return result :: results

/-- `if waiting_job.created: waiting_job.job.status = ...` -/
def wait (result : EnqueueResult) : App EnqueueResult :=
  if result.created then do
    issue (.markWaiting result.job.id)
    return { result with job := result.job.wait }
  else
    return result

/-- The job of the dates that await publication, if there are any. -/
def enqueueWaiting (args : DispatchArgs) (plan : RecoveryPlan) : App (Option EnqueueResult) :=
  match plan.waitingRange with
  | none => return none
  | some r => do
    let result ← JobQueue.enqueueIdempotent (jobArgs args r)
    let result ← wait result
    return some result

/-- The plan of the arguments. -/
def planOf (calendar : Calendar) (args : DispatchArgs) : Except PyError RecoveryPlan :=
  RecoveryPlanner.plan calendar args.limits args.assetClass args.venue args.mic
    args.lastCompletedSession args.today

def planAndEnqueue (calendar : Calendar) (args : DispatchArgs) : App DispatchResult := do
  let plan ← orRaise (planOf calendar args)
  let enqueued ← enqueueChunks args plan.chunks
  let waitingJob ← enqueueWaiting args plan
  return ⟨plan, enqueued, waitingJob⟩

/-- Planning and enqueuing keeps what its commands keep. -/
theorem planAndEnqueue_keeps {G : Type} {K : Contract Cmd Cmd.Resp G} {I : G → Prop}
    (hinsert : ∀ args, Script.Keeps K I (issue (.insertJob args)))
    (hselect : ∀ key, Script.Keeps K I (issue (.selectJob key)))
    (hwait : ∀ id, Script.Keeps K I (issue (.markWaiting id))) (calendar : Calendar)
    (args : DispatchArgs) : Script.Keeps K I (planAndEnqueue calendar args) := by
  have henqueue := JobQueue.enqueueIdempotent_keeps hinsert hselect
  have hchunks : ∀ chunks, Script.Keeps K I (enqueueChunks args chunks) := by
    intro chunks
    induction chunks with
    | nil => exact Script.keeps_pure _
    | cons chunk rest ih =>
        exact (henqueue _).bind fun _ => ih.bind fun _ => Script.keeps_pure _
  rw [planAndEnqueue]
  cases planOf calendar args with
  | error e => exact Script.keeps_throw e
  | ok plan =>
      refine (hchunks plan.chunks).bind fun _ => Script.Keeps.bind ?_ fun _ => Script.keeps_pure _
      rw [enqueueWaiting]
      split
      · exact Script.keeps_pure _
      · refine (henqueue _).bind fun result =>
          Script.Keeps.bind ?_ fun _ => Script.keeps_pure _
        rw [wait]
        split
        · exact (hwait result.job.id).bind fun _ => Script.keeps_pure _
        · exact Script.keeps_pure _

/-! ### The ranges of a plan -/

section Ranges

variable {calendar : Calendar} {args : DispatchArgs} {plan : RecoveryPlan}

/-- The range of the waiting dates starts with the first of them and ends with the last. -/
theorem mem_waitingRange {range : PlannedRange} (h : plan.waitingRange = some range) :
    ∃ hne : plan.waitingForPublication ≠ [],
      range = ⟨true, plan.waitingForPublication.head hne, plan.waitingForPublication.getLast hne⟩ := by
  rw [RecoveryPlan.waitingRange] at h
  split at h
  · exact absurd h (by simp)
  · rename_i first rest hwaiting
    obtain rfl := Option.some.inj h
    refine ⟨by simp [hwaiting], ?_⟩
    simp only [hwaiting, List.head_cons]

/-- A range starts with a date of the plan, and ends with one that is not earlier. -/
theorem range_bounds (h : planOf calendar args = .ok plan) {range : PlannedRange}
    (hr : range ∈ plan.ranges) :
    range.start ∈ plan.dates ∧ range.end ∈ plan.dates ∧ range.start ≤ range.end := by
  rcases List.mem_append.mp hr with hr | hr
  · obtain ⟨c, hc, rfl⟩ := List.mem_map.mp hr
    obtain ⟨-, -, -, -, -, hgroup⟩ := RecoveryPlanner.chunk_group h hc
    obtain ⟨hstart, hend⟩ := RecoveryPlanner.chunk_bounds hgroup
    have hdates : c.sessionDates ⊆ plan.dates := fun d hd =>
      List.mem_append_left _ (List.mem_flatMap.mpr ⟨c, hc, hd⟩)
    exact ⟨hdates hstart, hdates hend, (RecoveryPlanner.mem_chunk_range h hc hstart).2⟩
  · obtain ⟨hne, rfl⟩ := mem_waitingRange (Option.mem_toList.mp hr)
    have hhead := List.head_mem hne
    exact ⟨List.mem_append_right _ hhead, List.mem_append_right _ (List.getLast_mem hne),
      (RecoveryPlanner.mem_waiting_range h hhead).2⟩

/-- A date of the plan lies in one of its ranges. -/
theorem exists_range (h : planOf calendar args = .ok plan) {d : Date} (hd : d ∈ plan.dates) :
    ∃ range ∈ plan.ranges, range.start ≤ d ∧ d ≤ range.end := by
  rcases List.mem_append.mp hd with hd | hd
  · obtain ⟨c, hc, hd⟩ := List.mem_flatMap.mp hd
    exact ⟨c.range, List.mem_append_left _ (List.mem_map_of_mem hc),
      RecoveryPlanner.mem_chunk_range h hc hd⟩
  · have hne := List.ne_nil_of_mem hd
    refine ⟨⟨true, plan.waitingForPublication.head hne, plan.waitingForPublication.getLast hne⟩,
      List.mem_append_right _ (Option.mem_toList.mpr ?_), RecoveryPlanner.mem_waiting_range h hd⟩
    obtain ⟨first, rest, hwaiting⟩ := List.exists_cons_of_ne_nil hne
    simp only [RecoveryPlan.waitingRange, hwaiting, List.head_cons]

/-- A date of the plan is one that the calendar has answered for the pending range. -/
theorem date_expectation (h : planOf calendar args = .ok plan) {d : Date} (hd : d ∈ plan.dates) :
    ∃ first answer check,
      RecoveryPlanner.startDate (args.limits.getD .default) args.lastCompletedSession args.today =
        .ok first ∧
      calendar args.assetClass args.venue args.mic first args.today = .ok answer ∧
      check ∈ answer ∧ check.sessionDate = d ∧ check.expectation ≠ .noSession := by
  rcases List.mem_append.mp hd with hd | hd
  · obtain ⟨c, hc, hd⟩ := List.mem_flatMap.mp hd
    obtain ⟨first, answer, hfirst, hanswer, hmem⟩ := RecoveryPlanner.chunk_expectation h hc hd
    exact ⟨first, answer, _, hfirst, hanswer, hmem, rfl, by simp⟩
  · obtain ⟨first, answer, hfirst, hanswer, hmem⟩ := RecoveryPlanner.waiting_expectation h hd
    exact ⟨first, answer, _, hfirst, hanswer, hmem, rfl, by simp⟩

end Ranges

/-! ### The deduplication key -/

private theorem length_rangeText (r : PlannedRange) :
    (rangeText r).toList.length = if r.waiting then 29 else 21 := by
  rw [rangeText]
  cases r.waiting <;> simp [String.toList_append, Date.length_isoformat]

theorem rangeText_injective : Function.Injective rangeText := by
  rintro ⟨w, s, e⟩ ⟨w', s', e'⟩ h
  obtain rfl : w = w' := by
    have hlen := length_rangeText ⟨w, s, e⟩
    rw [h, length_rangeText] at hlen
    cases w <;> cases w' <;> simp_all
  replace h := congrArg String.toList h
  simp only [rangeText, String.toList_append] at h
  obtain ⟨hstart, h⟩ := List.append_inj (List.append_cancel_left h)
    (by rw [Date.length_isoformat, Date.length_isoformat])
  have hend := List.append_cancel_left h
  obtain rfl := Date.isoformat_injective (String.toList_injective hstart)
  obtain rfl := Date.isoformat_injective (String.toList_injective hend)
  rfl

/-- The ranges of a series have distinct keys. -/
theorem dedupeKey_injective (series : SeriesKey) : Function.Injective (dedupeKey series) := by
  intro r r' h
  have hlist := congrArg String.toList h
  simp only [dedupeKey, String.toList_append, List.append_right_inj] at hlist
  exact rangeText_injective (String.toList_injective hlist)

/-! ### What a dispatch adds -/

/-- The job is a new job of a range. -/
def IsJobOf (args : DispatchArgs) (r : PlannedRange) (j : Job) : Prop :=
  ∃ id createdAt, j = if r.waiting then (newJob (jobArgs args r) id createdAt).wait
    else newJob (jobArgs args r) id createdAt

theorem IsJobOf.dedupeKey_eq {args : DispatchArgs} {r : PlannedRange} {j : Job}
    (h : IsJobOf args r j) : j.dedupeKey = dedupeKey args.series r := by
  obtain ⟨id, createdAt, rfl⟩ := h
  split <;> rfl

/-- What enqueuing some ranges does to the job table: it adds a job for a range whose key was
free, and reports it as created; in the end every range's key is taken. -/
structure Enqueued (args : DispatchArgs) (ranges : List PlannedRange)
    (results : List EnqueueResult) (t t' : JobTable) : Prop where
  adds : ∃ new, t'.rows = t.rows ++ new ∧ ∀ j ∈ new, ∃ r ∈ ranges, IsJobOf args r j ∧
    ∀ j' ∈ t.rows, j'.dedupeKey ≠ dedupeKey args.series r
  keys : ∀ r ∈ ranges, ∃ j ∈ t'.rows, j.dedupeKey = dedupeKey args.series r
  created : ∀ result ∈ results, result.created = true → ∃ r ∈ ranges,
    result.job.dedupeKey = dedupeKey args.series r ∧
      ∀ j ∈ t.rows, j.dedupeKey ≠ dedupeKey args.series r
  reports : ∀ r ∈ ranges, (∀ j ∈ t.rows, j.dedupeKey ≠ dedupeKey args.series r) →
    ∃ result ∈ results, result.created = true ∧
      result.job.dedupeKey = dedupeKey args.series r

namespace Enqueued

variable {args : DispatchArgs} {rs rs' : List PlannedRange} {results results' : List EnqueueResult}
  {t t' t'' : JobTable} {range : PlannedRange}

theorem nil (args : DispatchArgs) (t : JobTable) : Enqueued args [] [] t t :=
  ⟨⟨[], by simp, by simp⟩, by simp, by simp, by simp⟩

/-- The rows of the table stay as they are. -/
theorem rows_grow (h : Enqueued args rs results t t') : t.rows <+: t'.rows := by
  obtain ⟨new, hrows, -⟩ := h.adds
  exact ⟨new, hrows.symm⟩

/-- A range whose key was free has a job. -/
theorem job_of_free (h : Enqueued args rs results t t') (hr : range ∈ rs)
    (hfree : ∀ j ∈ t.rows, j.dedupeKey ≠ dedupeKey args.series range) :
    ∃ j ∈ t'.rows, IsJobOf args range j := by
  obtain ⟨new, hrows, hnew⟩ := h.adds
  obtain ⟨j, hj, hkey⟩ := h.keys range hr
  refine ⟨j, hj, ?_⟩
  rw [hrows] at hj
  rcases List.mem_append.mp hj with hj | hj
  · exact absurd hkey (hfree j hj)
  · obtain ⟨r, -, hjob, -⟩ := hnew j hj
    obtain rfl := dedupeKey_injective args.series (hjob.dedupeKey_eq.symm.trans hkey)
    exact hjob

theorem append (h : Enqueued args rs results t t') (h' : Enqueued args rs' results' t' t'') :
    Enqueued args (rs ++ rs') (results ++ results') t t'' := by
  have hfree : ∀ r : PlannedRange, (∀ j ∈ t'.rows, j.dedupeKey ≠ dedupeKey args.series r) →
      ∀ j ∈ t.rows, j.dedupeKey ≠ dedupeKey args.series r :=
    fun r hr j hj => hr j (h.rows_grow.subset hj)
  obtain ⟨new, hrows, hnew⟩ := h.adds
  obtain ⟨new', hrows', hnew'⟩ := h'.adds
  refine ⟨⟨new ++ new', by rw [hrows', hrows, List.append_assoc], fun j hj => ?_⟩,
    fun r hr => ?_, fun result hresult hcreated => ?_, fun r hr hnone => ?_⟩
  · rcases List.mem_append.mp hj with hj | hj
    · obtain ⟨r, hr, hjob, hnone⟩ := hnew j hj
      exact ⟨r, List.mem_append_left _ hr, hjob, hnone⟩
    · obtain ⟨r, hr, hjob, hnone⟩ := hnew' j hj
      exact ⟨r, List.mem_append_right _ hr, hjob, hfree r hnone⟩
  · rcases List.mem_append.mp hr with hr | hr
    · obtain ⟨j, hj, hkey⟩ := h.keys r hr
      exact ⟨j, h'.rows_grow.subset hj, hkey⟩
    · exact h'.keys r hr
  · rcases List.mem_append.mp hresult with hresult | hresult
    · obtain ⟨r, hr, hkey, hnone⟩ := h.created result hresult hcreated
      exact ⟨r, List.mem_append_left _ hr, hkey, hnone⟩
    · obtain ⟨r, hr, hkey, hnone⟩ := h'.created result hresult hcreated
      exact ⟨r, List.mem_append_right _ hr, hkey, hfree r hnone⟩
  · have hfirst : ∀ r' ∈ rs, dedupeKey args.series r' = dedupeKey args.series r →
        ∃ result ∈ results ++ results', result.created = true ∧
          result.job.dedupeKey = dedupeKey args.series r := by
      intro r' hr' hkey
      obtain ⟨result, hresult, hcreated, hkey'⟩ := h.reports r' hr' (hkey ▸ hnone)
      exact ⟨result, List.mem_append_left _ hresult, hcreated, hkey'.trans hkey⟩
    rcases List.mem_append.mp hr with hr | hr
    · exact hfirst r hr rfl
    by_cases htaken : ∃ j ∈ t'.rows, j.dedupeKey = dedupeKey args.series r
    · -- The key was free before the first part, so a range of the first part has taken it.
      obtain ⟨j, hj, hkey⟩ := htaken
      rw [hrows] at hj
      rcases List.mem_append.mp hj with hj | hj
      · exact absurd hkey (hnone j hj)
      · obtain ⟨r', hr', hjob, -⟩ := hnew j hj
        exact hfirst r' hr' (hjob.dedupeKey_eq.symm.trans hkey)
    · push Not at htaken
      obtain ⟨result, hresult, hcreated⟩ := h'.reports r hr htaken
      exact ⟨result, List.mem_append_right _ hresult, hcreated⟩

/-- One row added for a range whose key was free. -/
theorem of_new {j j' : Job} (hfree : ∀ j' ∈ t.rows, j'.dedupeKey ≠ dedupeKey args.series range)
    (hrows : t'.rows = t.rows ++ [j]) (hjob : IsJobOf args range j)
    (hkey : j'.dedupeKey = dedupeKey args.series range) :
    Enqueued args [range] [⟨j', true⟩] t t' := by
  refine ⟨⟨[j], hrows, fun j₁ hj₁ => ?_⟩, fun r hr => ?_, fun result hresult _ => ?_,
    fun r hr _ => ?_⟩
  · obtain rfl := List.mem_singleton.mp hj₁
    exact ⟨range, List.mem_singleton_self _, hjob, hfree⟩
  · obtain rfl := List.mem_singleton.mp hr
    exact ⟨j, hrows ▸ List.mem_append_right _ (List.mem_singleton_self _), hjob.dedupeKey_eq⟩
  · obtain rfl := List.mem_singleton.mp hresult
    exact ⟨range, List.mem_singleton_self _, hkey, hfree⟩
  · obtain rfl := List.mem_singleton.mp hr
    exact ⟨_, List.mem_singleton_self _, rfl, hkey⟩

/-- Nothing added for a range whose key was taken. -/
theorem of_taken {existing : Job} (h : ∃ j ∈ t.rows, j.dedupeKey = dedupeKey args.series range) :
    Enqueued args [range] [⟨existing, false⟩] t t := by
  obtain ⟨j, hj, hkey⟩ := h
  refine ⟨⟨[], by simp, by simp⟩, fun r hr => ?_, fun result hresult hcreated => ?_,
    fun r hr hfree => ?_⟩
  · obtain rfl := List.mem_singleton.mp hr
    exact ⟨j, hj, hkey⟩
  · obtain rfl := List.mem_singleton.mp hresult
    exact absurd hcreated (by simp)
  · obtain rfl := List.mem_singleton.mp hr
    exact absurd hkey (hfree j hj)

end Enqueued

variable {calendar : Calendar} {args : DispatchArgs} {db db' : Db} {l l' : Session}

/-- The loop enqueues the ranges of its chunks. -/
theorem enqueueChunks_executes {chunks : List RecoveryChunk}
    {r : Except PyError (List EnqueueResult)}
    (h : (enqueueChunks args chunks).Executes semantics db l r db' l') :
    db'.observations = db.observations ∧ ∃ results, r = .ok results ∧
      Enqueued args (chunks.map RecoveryChunk.range) results db.jobs db'.jobs := by
  induction chunks generalizing db l r with
  | nil =>
      obtain ⟨rfl, rfl, rfl⟩ := Script.executes_pure.mp h
      exact ⟨rfl, _, rfl, .nil args db'.jobs⟩
  | cons chunk rest ih =>
      obtain ⟨result, db₁, l₁, hrange, h⟩ := Script.executes_bind_of_returns
        (fun e _ _ => JobQueue.enqueueIdempotent_returns e) h
      have hone : db₁.observations = db.observations ∧
          Enqueued args [chunk.range] [result] db.jobs db₁.jobs := by
        obtain ⟨hobs, ⟨id, createdAt, hins, hr⟩ | ⟨hkey, rfl, existing, hr⟩⟩ :=
          JobQueue.enqueueIdempotent_executes hrange
        · obtain rfl := Except.ok.inj hr
          obtain ⟨hclash, hrows⟩ := Table.insert?_eq_some_iff.mp hins
          exact ⟨hobs, .of_new (fun j hj hkey => hclash j hj (Or.inr hkey)) hrows
            ⟨id, createdAt, rfl⟩ rfl⟩
        · obtain rfl := Except.ok.inj hr
          exact ⟨hobs, .of_taken hkey⟩
      rcases Script.executes_bind.mp h with ⟨results, db₂, l₂, hrest, h⟩ | ⟨e, hrest, -⟩
      · obtain ⟨rfl, rfl, rfl⟩ := Script.executes_pure.mp h
        obtain ⟨hobs, results', hr, henq⟩ := ih hrest
        obtain rfl := Except.ok.inj hr
        exact ⟨hobs.trans hone.1, _, rfl, hone.2.append henq⟩
      · obtain ⟨-, results, hr, -⟩ := ih hrest
        exact absurd hr (by simp)

/-- The status of a job that has just been inserted is assigned to it alone: no other row has
its identifier. -/
theorem update_inserted {t t' : JobTable} {j : Job} (h : t.insert? j = some t') :
    (t'.update (fun j' => decide (j'.id = j.id)) Job.waitEdit).rows = t.rows ++ [j.wait] := by
  obtain ⟨hclash, hrows⟩ := Table.insert?_eq_some_iff.mp h
  change t'.rows.map (Table.updateRow (fun j' => decide (j'.id = j.id)) Job.waitEdit) = _
  rw [hrows, List.map_append]
  congr 1
  · refine (List.map_congr_left fun j' hj' => ?_).trans (List.map_id _)
    have hne : j'.id ≠ j.id := fun hid => hclash j' hj' (Or.inl hid)
    simp [Table.updateRow, hne]
  · rw [List.map_cons, Table.updateRow, if_pos (decide_eq_true rfl)]
    rfl

theorem wait_executes {result : EnqueueResult} {r : Except PyError EnqueueResult}
    (h : (wait result).Executes semantics db l r db' l') :
    db'.observations = db.observations ∧ r = .ok (if result.created then
        ⟨result.job.wait, true⟩ else result) ∧
      db'.jobs = if result.created then
        db.jobs.update (fun j => decide (j.id = result.job.id)) Job.waitEdit else db.jobs := by
  obtain ⟨job, created⟩ := result
  rw [wait] at h
  cases created with
  | false =>
      obtain ⟨rfl, rfl, rfl⟩ := Script.executes_pure.mp h
      exact ⟨rfl, rfl, rfl⟩
  | true =>
      obtain ⟨_, hdone⟩ := Script.executes_op_bind.mp h
      obtain ⟨rfl, rfl, rfl⟩ := Script.executes_pure.mp hdone
      exact ⟨rfl, rfl, rfl⟩

/-- The range of the waiting dates is one of a waiting job. -/
theorem waitingRange_waiting {plan : RecoveryPlan} {range : PlannedRange}
    (h : plan.waitingRange = some range) : range.waiting = true := by
  rw [RecoveryPlan.waitingRange] at h
  split at h
  · exact absurd h (by simp)
  · obtain rfl := Option.some.inj h
    rfl

/-- The two writes of a waiting job are one insert of a job that waits. -/
theorem enqueueWaiting_executes {plan : RecoveryPlan}
    {r : Except PyError (Option EnqueueResult)}
    (h : (enqueueWaiting args plan).Executes semantics db l r db' l') :
    db'.observations = db.observations ∧ ∃ result, r = .ok result ∧
      Enqueued args plan.waitingRange.toList result.toList db.jobs db'.jobs := by
  rw [enqueueWaiting] at h
  cases hrange : plan.waitingRange with
  | none =>
      rw [hrange] at h
      obtain ⟨rfl, rfl, rfl⟩ := Script.executes_pure.mp h
      exact ⟨rfl, _, rfl, .nil args db'.jobs⟩
  | some range =>
      rw [hrange] at h
      obtain ⟨result, db₁, l₁, hone, hrest⟩ := Script.executes_bind_of_returns
        (fun e _ _ => JobQueue.enqueueIdempotent_returns e) h
      obtain ⟨waited, db₂, l₂, hwait, hdone⟩ := Script.executes_bind_of_returns
        (fun e _ _ hfail => absurd (wait_executes hfail).2.1 (by simp)) hrest
      obtain ⟨rfl, rfl, rfl⟩ := Script.executes_pure.mp hdone
      obtain ⟨hobs', hr', hjobs⟩ := wait_executes hwait
      obtain rfl := Except.ok.inj hr'
      obtain ⟨hobs, ⟨id, createdAt, hins, hr⟩ | ⟨hkey, rfl, existing, hr⟩⟩ :=
        JobQueue.enqueueIdempotent_executes hone
      · obtain rfl := Except.ok.inj hr
        have hclash := (Table.insert?_eq_some_iff.mp hins).1
        have hrows : db'.jobs.rows =
            db.jobs.rows ++ [(newJob (jobArgs args range) id createdAt).wait] := by
          rw [hjobs]
          exact update_inserted hins
        have hjob : IsJobOf args range (newJob (jobArgs args range) id createdAt).wait :=
          ⟨id, createdAt, (if_pos (waitingRange_waiting hrange)).symm⟩
        exact ⟨hobs'.trans hobs, _, rfl,
          .of_new (fun j hj hkey => hclash j hj (Or.inr hkey)) hrows hjob rfl⟩
      · obtain rfl := Except.ok.inj hr
        have htable : db'.jobs = db₁.jobs := hjobs
        rw [htable]
        exact ⟨hobs', _, rfl, .of_taken hkey⟩

/-- **A dispatch enqueues the ranges of its plan**; only planning can fail. -/
theorem planAndEnqueue_executes {plan : RecoveryPlan} (hplan : planOf calendar args = .ok plan)
    {r : Except PyError DispatchResult}
    (h : (planAndEnqueue calendar args).Executes semantics db l r db' l') :
    db'.observations = db.observations ∧ ∃ result, r = .ok result ∧ result.plan = plan ∧
      Enqueued args plan.ranges result.results db.jobs db'.jobs := by
  rw [planAndEnqueue, hplan, orRaise, pure_bind] at h
  rcases Script.executes_bind.mp h with ⟨enqueued, db₁, l₁, hchunks, h⟩ | ⟨e, hchunks, -⟩
  swap
  · obtain ⟨-, results, hr, -⟩ := enqueueChunks_executes hchunks
    exact absurd hr (by simp)
  obtain ⟨hobs, results, hr, henq⟩ := enqueueChunks_executes hchunks
  obtain rfl := Except.ok.inj hr
  rcases Script.executes_bind.mp h with ⟨waiting, db₂, l₂, hwait, h⟩ | ⟨e, hwait, -⟩
  · obtain ⟨rfl, rfl, rfl⟩ := Script.executes_pure.mp h
    obtain ⟨hobs', result, hr', henq'⟩ := enqueueWaiting_executes hwait
    obtain rfl := Except.ok.inj hr'
    exact ⟨hobs'.trans hobs, _, rfl, rfl, henq.append henq'⟩
  · obtain ⟨-, result, hr', -⟩ := enqueueWaiting_executes hwait
    exact absurd hr' (by simp)

end Dispatch

/-! ### Live work -/

/-- The job's cursor is of the series, and its range contains the date. -/
def Job.Covers (j : Job) (series : SeriesKey) (d : Date) : Prop :=
  j.source = series.source ∧ ∃ c, FetchCursor.parse j.cursor = .ok c ∧
    c.credentialScope = Json.ofText series.credentialScope ∧
    c.externalListingId = Json.ofText series.externalListingId ∧
    c.observationType = series.observationType ∧ c.start ≤ d ∧ d ≤ c.end

/-- The source and the cursor of a job say which dates it covers. -/
theorem Job.covers_congr {j j' : Job} (hsource : j.source = j'.source)
    (hcursor : j.cursor = j'.cursor) {series : SeriesKey} {d : Date} :
    j.Covers series d ↔ j'.Covers series d := by
  rw [Job.Covers, Job.Covers, hsource, hcursor]

/-- A job with the cursor of a range covers the dates of the range. -/
theorem Job.covers_of_cursor {j : Job} {series : SeriesKey} {r : PlannedRange}
    (hsource : j.source = series.source)
    (hcursor : j.cursor = some (Dispatch.cursor series r).serialize) {d : Date} :
    j.Covers series d ↔ r.start ≤ d ∧ d ≤ r.end := by
  have hparse : FetchCursor.parse j.cursor = .ok ((Dispatch.cursor series r).map Json.ofText) := by
    rw [hcursor]
    exact FetchCursor.parse_serialize _
  constructor
  · rintro ⟨-, c, hc, -, -, -, hd⟩
    obtain rfl := Except.ok.inj (hparse.symm.trans hc)
    exact hd
  · exact fun hd => ⟨hsource, _, hparse, rfl, rfl, rfl, hd⟩

/-- The job was enqueued for a range of the series. -/
def Job.OfRange (j : Job) (series : SeriesKey) (range : PlannedRange) : Prop :=
  j.source = series.source ∧ j.cursor = some (Dispatch.cursor series range).serialize ∧
    j.dedupeKey = Dispatch.dedupeKey series range

instance (j : Job) (series : SeriesKey) (range : PlannedRange) :
    Decidable (j.OfRange series range) := inferInstanceAs (Decidable (_ ∧ _ ∧ _))

theorem Dispatch.IsJobOf.ofRange {args : DispatchArgs} {range : PlannedRange} {j : Job}
    (h : IsJobOf args range j) : j.OfRange args.series range := by
  obtain ⟨id, createdAt, rfl⟩ := h
  split <;> exact ⟨rfl, rfl, rfl⟩

namespace Job.OfRange

variable {j : Job} {series series' : SeriesKey} {range : PlannedRange} {d : Date}

/-- The job covers the dates of its range, for its own series only. -/
theorem covers (h : j.OfRange series range) (hd : j.Covers series' d) :
    series' = series ∧ range.start ≤ d ∧ d ≤ range.end := by
  obtain ⟨hsource, hcursor, -⟩ := h
  obtain ⟨hsource', c, hc, hscope, hexternal, htype, hdates⟩ := hd
  rw [hcursor, FetchCursor.parse_serialize] at hc
  obtain rfl := Except.ok.inj hc
  refine ⟨?_, hdates⟩
  obtain ⟨source, scope, external, type⟩ := series'
  obtain ⟨source', scope', external', type'⟩ := series
  obtain rfl : source' = source := hsource.symm.trans hsource'
  obtain rfl : scope' = scope := Json.ofText_injective hscope
  obtain rfl : external' = external := Json.ofText_injective hexternal
  obtain rfl : type' = type := htype
  rfl

/-- A command keeps what a job was enqueued for. -/
theorem row (h : j.OfRange series range) (c : Cmd) : (c.row j).OfRange series range := by
  rw [OfRange, Cmd.row_source, Cmd.row_cursor, Cmd.row_dedupeKey]
  exact h

end Job.OfRange

/-- A job of the table that is neither `DONE` nor `FAILED` covers the date. -/
def JobTable.HasWork (t : JobTable) (series : SeriesKey) (d : Date) : Prop :=
  ∃ j ∈ t.rows, j.status.ended = false ∧ j.Covers series d

/-- The job of a range covers the dates of the range. -/
theorem Dispatch.IsJobOf.covers_iff {args : DispatchArgs} {r : PlannedRange} {j : Job}
    (h : IsJobOf args r j) {d : Date} : j.Covers args.series d ↔ r.start ≤ d ∧ d ≤ r.end := by
  obtain ⟨id, createdAt, rfl⟩ := h
  split <;> exact Job.covers_of_cursor rfl rfl

theorem Dispatch.IsJobOf.not_ended {args : DispatchArgs} {r : PlannedRange} {j : Job}
    (h : IsJobOf args r j) : j.status.ended = false := by
  obtain ⟨id, createdAt, rfl⟩ := h
  split <;> rfl

/-- After the ranges have been enqueued a date has live work exactly when it had it before,
or lies in a range whose key was free. -/
theorem Dispatch.Enqueued.hasWork_iff {args : DispatchArgs} {ranges : List PlannedRange}
    {results : List EnqueueResult} {t t' : JobTable} (h : Enqueued args ranges results t t')
    {d : Date} :
    t'.HasWork args.series d ↔ t.HasWork args.series d ∨
      ∃ r ∈ ranges, (r.start ≤ d ∧ d ≤ r.end) ∧
        ∀ j ∈ t.rows, j.dedupeKey ≠ dedupeKey args.series r := by
  obtain ⟨new, hrows, hnew⟩ := h.adds
  constructor
  · rintro ⟨j, hj, hlive, hcovers⟩
    rw [hrows] at hj
    rcases List.mem_append.mp hj with hj | hj
    · exact Or.inl ⟨j, hj, hlive, hcovers⟩
    · obtain ⟨r, hr, hjob, hfree⟩ := hnew j hj
      exact Or.inr ⟨r, hr, hjob.covers_iff.mp hcovers, hfree⟩
  · rintro (⟨j, hj, hlive, hcovers⟩ | ⟨r, hr, hd, hfree⟩)
    · exact ⟨j, h.rows_grow.subset hj, hlive, hcovers⟩
    · obtain ⟨j, hj, hjob⟩ := h.job_of_free hr hfree
      exact ⟨j, hj, hjob.not_ended, hjob.covers_iff.mpr hd⟩

/-- **Dispatch leaves no planned date without live work exactly when** each planned date that
had none lies in a range of the plan whose deduplication key no row had, whatever the tables
and the plan. -/
theorem dispatch_covers_iff {calendar : Calendar} {args : DispatchArgs} {plan : RecoveryPlan}
    (hplan : Dispatch.planOf calendar args = .ok plan) {db db' : Db} {l l' : Session}
    {r : Except PyError DispatchResult}
    (h : (Dispatch.planAndEnqueue calendar args).Executes semantics db l r db' l') :
    (∀ d ∈ plan.dates, db'.jobs.HasWork args.series d) ↔
      ∀ d ∈ plan.dates, db.jobs.HasWork args.series d ∨
        ∃ range ∈ plan.ranges, (range.start ≤ d ∧ d ≤ range.end) ∧
          ∀ j ∈ db.jobs.rows, j.dedupeKey ≠ Dispatch.dedupeKey args.series range :=
  forall₂_congr fun _ _ =>
    (Dispatch.planAndEnqueue_executes hplan h).2.choose_spec.2.2.hasWork_iff

/-! ### Dispatches on concrete tables -/

/-- A market without holidays: a session on every date, published by the end of the day. -/
def dailyCalendar : Calendar := fun _ _ _ first last =>
  .ok ((List.range (last.ordinal + 1 - first.ordinal)).filterMap fun k : ℕ =>
    (first.addDays k).map fun d => ⟨d, .expectedPublished⟩)

theorem dailyCalendar_range {assetClass : AssetClass} {venue : String} {mic : Option String}
    {first last : Date} {answer : List SessionCheck}
    (h : dailyCalendar assetClass venue mic first last = .ok answer) :
    (∀ check ∈ answer, first ≤ check.sessionDate ∧ check.sessionDate ≤ last) ∧
      (answer.map SessionCheck.sessionDate).Nodup := by
  obtain rfl := Except.ok.inj h
  have hday : ∀ {k : ℕ} {d : Date}, first.addDays k = some d → d.ordinal = first.ordinal + k := by
    intro k d hd
    have := Date.addDays_eq_some_iff.mp hd
    omega
  constructor
  · intro check hcheck
    obtain ⟨k, hk, hmem⟩ := List.mem_filterMap.mp hcheck
    obtain ⟨d, hd, rfl⟩ := Option.map_eq_some_iff.mp hmem
    have hlt := List.mem_range.mp hk
    have heq := hday hd
    constructor
    · exact Date.le_def.mpr (show first.ordinal ≤ d.ordinal by omega)
    · exact Date.le_def.mpr (show d.ordinal ≤ last.ordinal by omega)
  · rw [List.map_filterMap]
    refine List.Nodup.filterMap (fun a b d ha hb => ?_) List.nodup_range
    simp only [Option.mem_def, Option.map_map, Option.map_eq_some_iff, Function.comp_apply] at ha hb
    obtain ⟨d₁, hd₁, rfl⟩ := ha
    obtain ⟨d₂, hd₂, rfl⟩ := hb
    have := hday hd₁
    have := hday hd₂
    omega

/-- A dispatch of today's session alone. -/
def todaysDispatch : DispatchArgs where
  limits := some ⟨0, 20⟩
  listingId := 1
  assetClass := .crypto
  venue := "X"
  mic := none
  series := ⟨"fake", "default", "BTC", .eodClose⟩
  lastCompletedSession := none
  today := today
  now := 0
  waitingRetrySeconds := 3600

def todaysPlan : RecoveryPlan := ⟨[⟨today, today, [today]⟩], [], [], none⟩

theorem planOf_todaysDispatch : Dispatch.planOf dailyCalendar todaysDispatch = .ok todaysPlan := by
  decide +kernel

/-- A dispatch of two sessions, of which the second has been dispatched before and is still pending,
leaves live work for both. -/
theorem dispatch_covers_again :
    let args : DispatchArgs := { todaysDispatch with limits := some ⟨1, 1⟩ }
    let yesterday : Date := ⟨739617, by decide, by decide⟩
    let db : Db := ⟨runEvents Table.empty [.enqueue (Dispatch.jobArgs args ⟨false, today, today⟩) 1 0],
      Table.empty, Table.empty⟩
    ∃ r db' l', (Dispatch.planAndEnqueue dailyCalendar args).Executes semantics db Session.new r db'
        l' ∧
      db.jobs.rows.length = 1 ∧ ∀ d ∈ [yesterday, today], db'.jobs.HasWork args.series d := by
  intro args yesterday db
  let plan : RecoveryPlan := ⟨[⟨yesterday, yesterday, [yesterday]⟩, ⟨today, today, [today]⟩], [],
    [], none⟩
  have hplan : Dispatch.planOf dailyCalendar args = .ok plan := by decide +kernel
  let job : Job := newJob (Dispatch.jobArgs args ⟨false, today, today⟩) 1 0
  have hjobs : db.jobs.rows = [job] := by decide +kernel
  obtain ⟨r, db', l', h⟩ := Prog.exists_executes semantics
    (Dispatch.planAndEnqueue dailyCalendar args).run db Session.new
  refine ⟨r, db', l', h, by rw [hjobs]; rfl, (dispatch_covers_iff hplan h).mpr fun d hd => ?_⟩
  have hd : d = yesterday ∨ d = today := by simpa [plan, RecoveryPlan.dates] using hd
  rcases hd with rfl | rfl
  · refine Or.inr ⟨⟨false, yesterday, yesterday⟩, by simp [plan, RecoveryPlan.ranges,
      RecoveryChunk.range], ⟨le_rfl, le_rfl⟩, fun j hj => ?_⟩
    obtain rfl := List.mem_singleton.mp (hjobs ▸ hj)
    decide +kernel
  · exact Or.inl ⟨job, by rw [hjobs]; exact List.mem_singleton_self _, rfl,
      (Job.covers_of_cursor rfl rfl).mpr ⟨le_rfl, le_rfl⟩⟩

/-- **A planned date can be left without live work**: its range was fetched before, the
response was empty, and the job is `DONE`; the same range is planned again, and its key is
taken. -/
theorem dispatch_leaves_uncovered :
    ¬ ∀ (calendar : Calendar) (args : DispatchArgs) (events : List JobEvent)
      (observations : ObservationTable) (decisions : DecisionTable) (l l' : Session)
      (result : DispatchResult) (db' : Db),
      (Dispatch.planAndEnqueue calendar args).Executes semantics
        ⟨runEvents Table.empty events, observations, decisions⟩ l (.ok result) db' l' →
      ∀ d ∈ result.plan.dates, db'.jobs.HasWork args.series d := by
  intro hall
  let range : PlannedRange := ⟨false, today, today⟩
  let events : List JobEvent :=
    [.enqueue (Dispatch.jobArgs todaysDispatch range) 1 0, .statement (.claim 1 "scheduler" 0),
      .statement (.owned 1 "scheduler" 1 .markRunning),
      .statement (.owned 1 "scheduler" 1 .markDone)]
  let db : Db := ⟨runEvents Table.empty events, Table.empty, Table.empty⟩
  have hrows : db.jobs.rows ≠ [] ∧ ∀ j ∈ db.jobs.rows, j.status.ended = true ∧
      j.dedupeKey = Dispatch.dedupeKey todaysDispatch.series range := by decide +kernel
  obtain ⟨r, db', l', h⟩ := Prog.exists_executes semantics
    (Dispatch.planAndEnqueue dailyCalendar todaysDispatch).run db Session.new
  obtain ⟨-, result, rfl, hplan, henq⟩ :=
    Dispatch.planAndEnqueue_executes planOf_todaysDispatch h
  have hwork := hall dailyCalendar todaysDispatch events Table.empty Table.empty Session.new l'
    result db' h today (by simp [hplan, todaysPlan, RecoveryPlan.dates])
  rcases henq.hasWork_iff.mp hwork with ⟨j, hj, hlive, -⟩ | ⟨r, hr, -, hfree⟩
  · rw [(hrows.2 j hj).1] at hlive
    exact absurd hlive (by simp)
  · obtain rfl : r = range := by
      simpa [todaysPlan, RecoveryPlan.ranges, RecoveryPlan.waitingRange, RecoveryChunk.range]
        using hr
    obtain ⟨j, hj⟩ := List.exists_mem_of_ne_nil _ hrows.1
    exact hfree j hj (hrows.2 j hj).2

end MarketRelay
