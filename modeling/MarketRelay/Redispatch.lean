import MarketRelay.Dispatch

/-!
# Redispatch

The planner runs again and again with the same plan, while the jobs that it has enqueued are
promoted, claimed and processed. Each dispatch is one transaction; between two of them the
other threads issue commands of any kind, but enqueue nothing.

A job never loses its deduplication key, whatever state it reaches. So the first dispatch takes
the keys of the plan that are still free, and every later one finds them all taken.

## Main results

* `Dispatch.Redispatched.of_run`: which keys are taken after a run, and which transaction has
  reported each of them as created.
* `redispatch_noop`: a later dispatch leaves the job table as it is.
-/

open Relational Interaction Gregorian

namespace MarketRelay

/-- A job of the table has the deduplication key. -/
def JobTable.Taken (t : JobTable) (key : String) : Prop := ∃ j ∈ t.rows, j.dedupeKey = key

instance (t : JobTable) (key : String) : Decidable (t.Taken key) :=
  inferInstanceAs (Decidable (∃ j ∈ t.rows, j.dedupeKey = key))

/-- The transaction reports that it has created the job of a deduplication key. -/
def DispatchResult.reportsCreated (r : DispatchResult) (key : String) : Bool :=
  r.results.any fun result => result.created && decide (result.job.dedupeKey = key)

/-- Keys are never given up, and only an insertion takes one. -/
theorem taken_exec {c : Cmd} (hc : ∀ args, c ≠ .insertJob args) {e : Answers} {db : Db}
    {l : Session} {key : String} :
    (exec c e db l).2.1.jobs.Taken key ↔ db.jobs.Taken key := by
  constructor
  · rintro ⟨j, hj, hkey⟩
    rcases mem_jobs_exec hj with ⟨j₀, hj₀, rfl⟩ | ⟨args, rfl, -⟩
    · exact ⟨j₀, hj₀, (Cmd.row_dedupeKey c j₀).symm.trans hkey⟩
    · exact absurd rfl (hc args)
  · rintro ⟨j, hj, hkey⟩
    exact ⟨c.row j, row_mem_exec hj, (Cmd.row_dedupeKey c j).trans hkey⟩

namespace Dispatch

variable {calendar : Calendar} {args : DispatchArgs} {plan : RecoveryPlan} {ranges : List PlannedRange}
  {db db' start : Db} {l l' : Session} {results : List DispatchResult}
  {result : DispatchResult}

/-- A run from `start`, in which some transactions dispatch the same arguments. It leaves the
database `db`, and `results` are what the transactions have returned, in their order. -/
inductive Redispatches (calendar : Calendar) (args : DispatchArgs) (start : Db) :
    Db → List DispatchResult → Prop
  | start : Redispatches calendar args start start []
  | dispatch {db db' : Db} {l l' : Session} {results : List DispatchResult}
      {result : DispatchResult} (h : Redispatches calendar args start db results)
      (hd : (planAndEnqueue calendar args).Executes semantics db l (.ok result) db' l') :
      Redispatches calendar args start db' (results ++ [result])
  /-- A command of another thread. -/
  | command {db : Db} {results : List DispatchResult}
      (h : Redispatches calendar args start db results) (c : Cmd) (e : Answers) (l : Session)
      (hc : ∀ args', c ≠ .insertJob args') :
      Redispatches calendar args start (exec c e db l).2.1 results

/-! ### One dispatch -/

/-- A transaction reports exactly the keys that were free. -/
theorem Enqueued.reportsCreated_iff {t t' : JobTable}
    (h : Enqueued args ranges result.results t t') {range : PlannedRange} (hr : range ∈ ranges) :
    result.reportsCreated (dedupeKey args.series range) = true ↔
      ¬ t.Taken (dedupeKey args.series range) := by
  simp only [DispatchResult.reportsCreated, List.any_eq_true, Bool.and_eq_true, decide_eq_true_eq]
  constructor
  · rintro ⟨r, hmem, hcreated, hkey⟩ ⟨j, hj, htaken⟩
    obtain ⟨range', -, hkey', hfree⟩ := h.created r hmem hcreated
    exact hfree j hj (htaken.trans (hkey.symm.trans hkey'))
  · intro hfree
    exact h.reports range hr fun j hj hkey => hfree ⟨j, hj, hkey⟩

theorem Enqueued.taken_mono {t t' : JobTable} {rs : List EnqueueResult}
    (h : Enqueued args ranges rs t t') {key : String} (hkey : t.Taken key) : t'.Taken key := by
  obtain ⟨j, hj, hkey⟩ := hkey
  exact ⟨j, h.rows_grow.subset hj, hkey⟩

/-- Nothing is added when every key is taken. -/
theorem Enqueued.eq_of_taken {t t' : JobTable} {rs : List EnqueueResult}
    (h : Enqueued args ranges rs t t')
    (htaken : ∀ range ∈ ranges, t.Taken (dedupeKey args.series range)) : t' = t := by
  obtain ⟨new, hrows, hnew⟩ := h.adds
  have hnone : new = [] := by
    refine List.eq_nil_iff_forall_not_mem.mpr fun j hj => ?_
    obtain ⟨range, hr, -, hfree⟩ := hnew j hj
    obtain ⟨j', hj', hkey⟩ := htaken range hr
    exact hfree j' hj' hkey
  rw [hnone, List.append_nil] at hrows
  exact Table.ext hrows

/-! ### Runs -/

/-- Which keys are taken after a run, and which transactions have reported one as created. -/
structure Redispatched (args : DispatchArgs) (ranges : List PlannedRange) (start db : Db)
    (results : List DispatchResult) : Prop where
  before : results = [] → ∀ key, db.jobs.Taken key ↔ start.jobs.Taken key
  after : results ≠ [] → ∀ range ∈ ranges, db.jobs.Taken (dedupeKey args.series range)
  kept : ∀ key, start.jobs.Taken key → db.jobs.Taken key
  reports : ∀ range ∈ ranges,
    results.countP (fun result => result.reportsCreated (dedupeKey args.series range)) =
      if results = [] ∨ start.jobs.Taken (dedupeKey args.series range) then 0 else 1

/-- A dispatch reports the keys that were free, which are taken from then on. -/
theorem Redispatched.dispatch (h : Redispatched args ranges start db results)
    (henq : Enqueued args ranges result.results db.jobs db'.jobs) :
    Redispatched args ranges start db' (results ++ [result]) := by
  refine ⟨fun hnil => absurd hnil (by simp), fun _ range hr => henq.keys range hr,
    fun key hkey => henq.taken_mono (h.kept key hkey), fun range hr => ?_⟩
  have hone := henq.reportsCreated_iff hr
  rw [List.countP_append, h.reports range hr]
  by_cases hstart : start.jobs.Taken (dedupeKey args.series range)
  · have hnot : result.reportsCreated (dedupeKey args.series range) ≠ true :=
      fun hreport => hone.mp hreport (h.kept _ hstart)
    simp [hstart, hnot]
  by_cases hnil : results = []
  · have hyes : result.reportsCreated (dedupeKey args.series range) = true :=
      hone.mpr fun htaken => hstart ((h.before hnil _).mp htaken)
    simp [hstart, hnil, hyes]
  · have hnot : result.reportsCreated (dedupeKey args.series range) ≠ true :=
      fun hreport => hone.mp hreport (h.after hnil range hr)
    simp [hstart, hnil, hnot]

/-- The commands of the other threads leave the keys as they are. -/
theorem Redispatched.command (h : Redispatched args ranges start db results) {c : Cmd}
    (hc : ∀ args', c ≠ .insertJob args') (e : Answers) (l : Session) :
    Redispatched args ranges start (exec c e db l).2.1 results where
  before hnil key := (taken_exec hc).trans (h.before hnil key)
  after hne range hr := (taken_exec hc).mpr (h.after hne range hr)
  kept key hkey := (taken_exec hc).mpr (h.kept key hkey)
  reports := h.reports

/-- **Every key of the plan is taken by the first dispatch**, and reported once. -/
theorem Redispatched.of_run (hplan : planOf calendar args = .ok plan)
    (h : Redispatches calendar args start db results) :
    Redispatched args plan.ranges start db results := by
  induction h with
  | start =>
      exact ⟨fun _ _ => Iff.rfl, fun hne => absurd rfl hne, fun _ hkey => hkey, fun _ _ => rfl⟩
  | dispatch h hd ih =>
      obtain ⟨-, _, hr, -, henq⟩ := planAndEnqueue_executes hplan hd
      obtain rfl := Except.ok.inj hr
      exact ih.dispatch henq
  | command h c e l hc ih => exact ih.command hc e l

end Dispatch

/-- **Redispatch is a no-op**: however often the same plan is dispatched, and whatever happens
to its jobs in between, each range has at most one row, exactly one transaction reports it as
created (none if its row was there before), and a dispatch leaves the rows that exist as they
are; after the first one it leaves the whole table as it is. -/
theorem redispatch_noop {calendar : Calendar} {args : DispatchArgs} {plan : RecoveryPlan}
    (hplan : Dispatch.planOf calendar args = .ok plan) {start db : Db}
    {results : List DispatchResult} (h : Dispatch.Redispatches calendar args start db results) :
    (∀ range ∈ plan.ranges,
      db.jobs.count (fun j => decide (j.dedupeKey = Dispatch.dedupeKey args.series range)) ≤ 1 ∧
      results.countP
          (fun result => result.reportsCreated (Dispatch.dedupeKey args.series range)) =
        if results = [] ∨ start.jobs.Taken (Dispatch.dedupeKey args.series range) then 0 else 1) ∧
    ∀ l r db' l', (Dispatch.planAndEnqueue calendar args).Executes semantics db l r db' l' →
      (∃ result, r = .ok result ∧ result.plan = plan) ∧ db.jobs.rows <+: db'.jobs.rows ∧
        (results ≠ [] → db'.jobs = db.jobs) := by
  have hrun := Dispatch.Redispatched.of_run hplan h
  refine ⟨fun range hr => ⟨Table.count_le_one fun a b ha hb => Or.inr ?_, hrun.reports range hr⟩,
    fun l r db' l' hd => ?_⟩
  · exact (of_decide_eq_true ha).trans (of_decide_eq_true hb).symm
  · obtain ⟨-, result, hr, hresult, henq⟩ := Dispatch.planAndEnqueue_executes hplan hd
    exact ⟨⟨result, hr, hresult⟩, henq.rows_grow, fun hne => henq.eq_of_taken (hrun.after hne)⟩

/-- Two dispatches of today's session, the job of which is claimed in between. -/
theorem redispatch_noop_twice :
    ∃ db db' l result r l', Dispatch.Redispatches dailyCalendar todaysDispatch
      ⟨Table.empty, Table.empty, Table.empty⟩ db [result] ∧
      (Dispatch.planAndEnqueue dailyCalendar todaysDispatch).Executes semantics db l r db' l' ∧
      db'.jobs = db.jobs := by
  obtain ⟨r₁, db₁, l₁, hfirst⟩ := Prog.exists_executes semantics
    (Dispatch.planAndEnqueue dailyCalendar todaysDispatch).run
    ⟨Table.empty, Table.empty, Table.empty⟩ Session.new
  obtain ⟨-, result, rfl, -⟩ := Dispatch.planAndEnqueue_executes planOf_todaysDispatch hfirst
  have hrun := Dispatch.Redispatches.command (.dispatch .start hfirst)
    (.update (.claim 0 "scheduler" 0)) default Session.new (by simp)
  obtain ⟨r, db', l', hsecond⟩ := Prog.exists_executes semantics
    (Dispatch.planAndEnqueue dailyCalendar todaysDispatch).run _ Session.new
  exact ⟨_, db', Session.new, result, r, l', hrun, hsecond,
    ((redispatch_noop planOf_todaysDispatch hrun).2 _ _ _ _ hsecond).2.2 (by simp)⟩

end MarketRelay
