import MarketRelay.Lifecycle
import MarketRelay.Refresh

/-!
# Overlapping Jobs

A refresh recomputes the pending range of a listing and splits it anew, and a range is
enqueued again only if exactly the same range has not been. So the jobs of two refreshes can
overlap: when the pending range has moved, the chunks have other boundaries. The jobs of one
plan can overlap too, since the job of the waiting dates has the range from the first to the
last of them.

As long as neither happens, every date is the work of one live job at most.

## Main results

* `Dispatch.ranges_disjoint`: when the ranges of one plan are disjoint.
* `live_jobs_disjoint`: the runs in which the live jobs of a series are disjoint.
* `live_jobs_overlap`: two refreshes on consecutive days, after which they are not.
-/

open Relational Interaction Gregorian

namespace MarketRelay

/-- No two live jobs of a series have a date in common. -/
def JobTable.LiveDisjoint (t : JobTable) : Prop :=
  ∀ j ∈ t.rows, ∀ j' ∈ t.rows, j.status.ended = false → j'.status.ended = false →
    ∀ series d, j.Covers series d → j'.Covers series d → j = j'

/-! ### The ranges of one plan -/

/-- In the plan every published session comes before every date that awaits publication. -/
def RecoveryPlan.PublishedFirst (plan : RecoveryPlan) : Prop :=
  ∀ c ∈ plan.chunks, ∀ d ∈ c.sessionDates, ∀ w ∈ plan.waitingForPublication, d < w

/-- **The ranges of one plan are disjoint**, if the published sessions come first and the
calendar classifies each date once. -/
theorem Dispatch.ranges_disjoint {calendar : Calendar} {args : DispatchArgs} {plan : RecoveryPlan}
    (h : planOf calendar args = .ok plan) (hfirst : plan.PublishedFirst)
    (honce : ∀ first answer, calendar args.assetClass args.venue args.mic first args.today =
      .ok answer → (answer.map SessionCheck.sessionDate).Nodup)
    {r r' : PlannedRange} (hr : r ∈ plan.ranges) (hr' : r' ∈ plan.ranges) {d : Date}
    (hd : r.start ≤ d ∧ d ≤ r.end) (hd' : r'.start ≤ d ∧ d ≤ r'.end) : r = r' := by
  have hchunks : plan.chunks.Pairwise fun a b => a.end < b.start := by
    rcases RecoveryPlanner.plan_eq_ok h with ⟨hnil, -⟩ | ⟨start, answer, -, hanswer, hcs, -⟩
    · rw [hnil]
      exact List.Pairwise.nil
    · exact RecoveryPlanner.chunks_pairwise hcs
        (RecoveryPlanner.datesOf_strict (honce start answer hanswer))
  have hmixed : ∀ c ∈ plan.chunks, ∀ w, plan.waitingRange = some w → c.end < w.start := by
    intro c hc w hw
    obtain ⟨-, -, -, -, -, hgroup⟩ := RecoveryPlanner.chunk_group h hc
    obtain ⟨hne, rfl⟩ := mem_waitingRange hw
    exact hfirst c hc _ (RecoveryPlanner.chunk_bounds hgroup).2 _ (List.head_mem hne)
  have hone : ∀ {a b : PlannedRange}, a.end < b.start → a.start ≤ d ∧ d ≤ a.end →
      b.start ≤ d ∧ d ≤ b.end → False := fun hlt ha hb =>
    absurd (ha.2.trans_lt (hlt.trans_le hb.1)) (lt_irrefl d)
  have hlist : plan.ranges.Pairwise fun a b => a.end < b.start := by
    refine List.pairwise_append.mpr ⟨List.pairwise_map.mpr hchunks, ?_, ?_⟩
    · cases plan.waitingRange with
      | none => exact List.Pairwise.nil
      | some w => exact List.pairwise_singleton _ _
    · intro a ha b hb
      obtain ⟨c, hc, rfl⟩ := List.mem_map.mp ha
      exact hmixed c hc b (Option.mem_toList.mp hb)
  by_contra hne
  have hsymm : Std.Symm fun a b : PlannedRange => a.end < b.start ∨ b.end < a.start :=
    ⟨fun _ _ => Or.symm⟩
  have heither : plan.ranges.Pairwise fun a b => a.end < b.start ∨ b.end < a.start :=
    hlist.imp Or.inl
  rcases heither.forall hr hr' hne with hlt | hlt
  · exact hone hlt hd hd'
  · exact hone hlt hd' hd

/-! ### Steps -/

/-- The jobs of the table were enqueued for ranges, and the live ones are disjoint. -/
structure JobTable.Disjoint (t : JobTable) : Prop where
  ranges : ∀ j ∈ t.rows, ∃ series range, j.OfRange series range
  live : t.LiveDisjoint

/-- The pending range of the identity is split as it was when its live jobs were enqueued:
each of them that reaches into it has one of the ranges of the plan. The published sessions of
the plan come first. -/
structure Refresh.Steady (x : Refresh) (db : Db) (identity : ExternalIdentity) : Prop where
  publishedFirst : ∀ args plan, x.planned? db.observations identity = some (args, plan) →
    plan.PublishedFirst
  kept : ∀ args plan, x.planned? db.observations identity = some (args, plan) →
    ∀ first, RecoveryPlanner.startDate (args.limits.getD .default) args.lastCompletedSession
      args.today = .ok first →
    ∀ j ∈ db.jobs.rows, j.status.ended = false →
      ∀ d, first ≤ d → d ≤ args.today → j.Covers args.series d →
        ∃ range ∈ plan.ranges, j.dedupeKey = Dispatch.dedupeKey args.series range

/-- The command is not one of a dispatch. -/
def Cmd.IsProcessing : Cmd → Prop
  | insertJob _ | markWaiting _ => False
  | _ => True

/-- A job that is over stays so while jobs are processed. -/
theorem Cmd.ended_row {c : Cmd} (hc : c.IsProcessing) {j : Job}
    (h : (c.row j).status.ended = false) : j.status.ended = false := by
  cases c with
  | update op =>
      cases hended : j.status.ended with
      | false => rfl
      | true =>
          rw [Cmd.row, op.row_eq_self_of_ended hended, hended] at h
          exact h
  | markWaiting id => exact absurd hc not_false
  | _ => exact h

namespace JobTable.Disjoint

/-- **Processing keeps the live jobs disjoint.** -/
theorem command {db : Db} (h : db.jobs.Disjoint) {c : Cmd} (hc : c.IsProcessing) (e : Answers)
    (l : Session) : (exec c e db l).2.1.jobs.Disjoint := by
  have hold : ∀ j ∈ (exec c e db l).2.1.jobs.rows, ∃ j₀ ∈ db.jobs.rows, j = c.row j₀ := by
    intro j hj
    rcases mem_jobs_exec hj with hrow | ⟨args, rfl, -⟩
    · exact hrow
    · exact absurd hc not_false
  have hcovers : ∀ {j : Job} {series : SeriesKey} {d : Date}, (c.row j).Covers series d →
      j.Covers series d := fun h => (Job.covers_congr (by simp) (by simp)).mp h
  refine ⟨fun j hj => ?_, fun j hj j' hj' hlive hlive' series d hd hd' => ?_⟩
  · obtain ⟨j₀, hj₀, rfl⟩ := hold j hj
    obtain ⟨series, range, hrange⟩ := h.ranges j₀ hj₀
    exact ⟨series, range, hrange.row c⟩
  · obtain ⟨j₀, hj₀, rfl⟩ := hold j hj
    obtain ⟨j₁, hj₁, rfl⟩ := hold j' hj'
    rw [h.live j₀ hj₀ j₁ hj₁ (Cmd.ended_row hc hlive) (Cmd.ended_row hc hlive') series d
      (hcovers hd) (hcovers hd')]

/-- The ranges of a plan lie in the pending range. -/
theorem pending_window {x : Refresh} {observations : ObservationTable}
    {identity : ExternalIdentity} {args : DispatchArgs} {plan : RecoveryPlan}
    (hcal : x.calendars.Classifies)
    (hplan : x.planned? observations identity = some (args, plan)) {range : PlannedRange}
    (hr : range ∈ plan.ranges) :
    ∃ first, RecoveryPlanner.startDate (args.limits.getD .default) args.lastCompletedSession
      args.today = .ok first ∧ first ≤ range.start ∧ range.end ≤ args.today := by
  obtain ⟨listing, calendar, -, hcalendar, rfl, hok⟩ := Refresh.planned?_eq_some_iff.mp hplan
  obtain ⟨hstart, hend, -⟩ := Dispatch.range_bounds hok hr
  obtain ⟨first, answer, check, hfirst, hanswer, hcheck, hdate, -⟩ :=
    Dispatch.date_expectation hok hstart
  obtain ⟨first', answer', check', -, hanswer', hcheck', hdate', -⟩ :=
    Dispatch.date_expectation hok hend
  exact ⟨first, hfirst, hdate ▸ (hcal.range hcalendar hanswer check hcheck).1,
    hdate' ▸ (hcal.range hcalendar hanswer' check' hcheck').2⟩

/-- **A steady iteration keeps the live jobs disjoint.** -/
theorem iteration {x : Refresh} {identity : ExternalIdentity} {db db' : Db} {l l' : Session}
    {r : Except PyError RefreshEvent} (hcal : x.calendars.Classifies) (h : db.jobs.Disjoint)
    (hok : x.Steady db identity)
    (hexec : (x.refreshListing identity).Executes semantics db l r db' l') :
    db'.jobs.Disjoint := by
  obtain ⟨-, -, ⟨-, hjobs⟩ | ⟨args, plan, results, hplan, henq⟩⟩ :=
    Refresh.refreshListing_executes hexec
  · rw [hjobs]
    exact h
  obtain ⟨new, hrows, hnew⟩ := henq.adds
  have hsplit : ∀ j ∈ db'.jobs.rows, j ∈ db.jobs.rows ∨ j ∈ new := fun j hj =>
    List.mem_append.mp (hrows ▸ hj)
  obtain ⟨listing, calendar, -, hcalendar, hargs, hok'⟩ := Refresh.planned?_eq_some_iff.mp hplan
  have hdisjoint : ∀ {r r' : PlannedRange}, r ∈ plan.ranges → r' ∈ plan.ranges → ∀ {d : Date},
      r.start ≤ d ∧ d ≤ r.end → r'.start ≤ d ∧ d ≤ r'.end → r = r' := by
    refine fun hr hr' _ hd hd' => Dispatch.ranges_disjoint hok'
      (hok.publishedFirst args plan hplan) (fun first answer hanswer => ?_) hr hr' hd hd'
    rw [hargs] at hanswer
    exact hcal.once hcalendar hanswer
  -- A new job and an old one that is live have no date in common.
  have hmixed : ∀ j ∈ db.jobs.rows, j.status.ended = false → ∀ j' ∈ new, ∀ series d,
      j.Covers series d → j'.Covers series d → False := by
    intro j hj hlive j' hj' series d hd hd'
    obtain ⟨range, hr, hjob, hfree⟩ := hnew j' hj'
    obtain ⟨rfl, hdates⟩ := hjob.ofRange.covers hd'
    obtain ⟨first, hfirst, hwindow⟩ := pending_window hcal hplan hr
    obtain ⟨range', hr', hkey⟩ := hok.kept args plan hplan first hfirst j hj hlive d
      (hwindow.1.trans hdates.1) (hdates.2.trans hwindow.2) hd
    obtain ⟨series, range₀, hrange⟩ := h.ranges j hj
    obtain ⟨rfl, hdates'⟩ := hrange.covers hd
    obtain rfl := Dispatch.dedupeKey_injective args.series (hrange.2.2.symm.trans hkey)
    obtain rfl := hdisjoint hr hr' hdates hdates'
    exact hfree j hj hkey
  refine ⟨fun j hj => ?_, fun j hj j' hj' hlive hlive' series d hd hd' => ?_⟩
  · rcases hsplit j hj with hj | hj
    · exact h.ranges j hj
    · obtain ⟨range, -, hjob, -⟩ := hnew j hj
      exact ⟨args.series, range, hjob.ofRange⟩
  · rcases hsplit j hj with hold | hadded <;> rcases hsplit j' hj' with hold' | hadded'
    · exact h.live j hold j' hold' hlive hlive' series d hd hd'
    · exact absurd (hmixed j hold hlive j' hadded' series d hd hd') not_false
    · exact absurd (hmixed j' hold' hlive' j hadded series d hd' hd) not_false
    · obtain ⟨range, hr, hjob, -⟩ := hnew j hadded
      obtain ⟨range', hr', hjob', -⟩ := hnew j' hadded'
      obtain rfl := hdisjoint hr hr' (hjob.ofRange.covers hd).2 (hjob'.ofRange.covers hd').2
      exact Table.eq_of_clash hj hj' (Or.inr (hjob.dedupeKey_eq.trans hjob'.dedupeKey_eq.symm))

end JobTable.Disjoint

/-! ### Runs -/

/-- A run of the service up to a date: refreshes, never for an earlier date than the one
before, and between them the processing of jobs with whatever outcome. Every iteration of a
refresh satisfies `ok`. -/
inductive RefreshRun (ok : Refresh → Refresh.Iteration → Prop) : Date → Db → Prop
  | start (today : Date) (observations : ObservationTable) (decisions : DecisionTable) :
      RefreshRun ok today ⟨Table.empty, observations, decisions⟩
  | refresh {today : Date} {db db' : Db} (x : Refresh) {l l' : Session}
      {r : Except PyError RefreshOutcome} {its : List Refresh.Iteration}
      (h : RefreshRun ok today db) (hle : today ≤ x.today) (hcal : x.calendars.Classifies)
      (hexec : x.program.Executes semantics db l r db' l') (hits : x.Iterates db its db')
      (hok : ∀ i ∈ its, ok x i) : RefreshRun ok x.today db'
  | processing {today : Date} {db : Db} (h : RefreshRun ok today db) (c : Cmd) (e : Answers)
      (l : Session) (hc : c.IsProcessing) : RefreshRun ok today (exec c e db l).2.1

theorem JobTable.Disjoint.iterates {x : Refresh} (hcal : x.calendars.Classifies) {db db' : Db}
    {its : List Refresh.Iteration} (hits : x.Iterates db its db')
    (hok : ∀ i ∈ its, x.Steady i.before i.identity) (h : db.jobs.Disjoint) :
    db'.jobs.Disjoint := by
  induction hits with
  | nil => exact h
  | cons hexec _ ih =>
      exact ih (fun i hi => hok i (List.mem_cons_of_mem _ hi))
        (h.iteration hcal (hok _ List.mem_cons_self) hexec)

/-- **The live jobs of a series are disjoint** in every state of a run all of whose iterations
are steady: the published sessions of the pending range come first, and the live jobs that
reach into it have ranges of the plan. -/
theorem live_jobs_disjoint {today : Date} {db : Db}
    (h : RefreshRun (fun x i => x.Steady i.before i.identity) today db) :
    db.jobs.LiveDisjoint := by
  have hinv : db.jobs.Disjoint := by
    induction h with
    | start =>
        exact ⟨fun j hj => absurd hj List.not_mem_nil, fun j hj => absurd hj List.not_mem_nil⟩
    | refresh x _ _ hcal _ hits hok ih => exact ih.iterates hcal hits hok
    | processing _ c e l hc ih => exact ih.command hc e l
  exact hinv.live

/-! ### Runs on concrete tables -/

/-- A refresh of one listing is steady when its one iteration is. -/
theorem RefreshRun.steadily {today : Date} {db db' : Db} {x : Refresh} {source : String}
    {identity : ExternalIdentity} {l l' : Session} {r : Except PyError RefreshOutcome}
    (h : RefreshRun (fun x i => x.Steady i.before i.identity) today db) (hle : today ≤ x.today)
    (hcal : x.calendars.Classifies) (hsources : x.settings.enabledSources = [source])
    (hconsidered : x.considered source = [identity]) (hsteady : x.Steady db identity)
    (hexec : x.program.Executes semantics db l r db' l') :
    RefreshRun (fun x i => x.Steady i.before i.identity) x.today db' := by
  obtain ⟨r', hevents⟩ := Refresh.events_of_program hexec
  obtain ⟨-, -, its, hits, sources, hsub, hmap, -⟩ := Refresh.events_iterates hevents
  rw [hsources] at hsub
  refine .refresh x h hle hcal hexec hits fun i hi => ?_
  have hidentity : ∀ i ∈ its, i.identity = identity := by
    intro i hi
    have hmem := List.mem_map_of_mem (f := Refresh.Iteration.identity) hi
    rw [hmap] at hmem
    obtain ⟨source', hsource, hmem⟩ := List.mem_flatMap.mp hmem
    obtain rfl := List.mem_singleton.mp (hsub.subset hsource)
    exact List.mem_singleton.mp (hconsidered ▸ hmem)
  have hlen : its.length ≤ 1 := by
    rw [← List.length_map (f := Refresh.Iteration.identity), hmap]
    rcases List.sublist_singleton.mp hsub with rfl | rfl
    · exact Nat.zero_le _
    · simp [hconsidered]
  obtain ⟨i', hsingle⟩ := List.length_eq_one_iff.mp
    (le_antisymm hlen (List.length_pos_of_mem hi))
  obtain rfl : its = [i] := by
    rw [hsingle] at hi ⊢
    rw [List.mem_singleton.mp hi]
  rw [hits.before_eq, hidentity i hi]
  exact hsteady

/-- No planned date awaits publication, and every job has one of the keys of the plan. -/
def Refresh.keepsKeys (x : Refresh) (db : Db) (identity : ExternalIdentity) : Bool :=
  (x.planned? db.observations identity).all fun p => p.2.waitingForPublication.isEmpty &&
    db.jobs.rows.all fun j => p.2.ranges.any fun range =>
      j.dedupeKey = Dispatch.dedupeKey p.1.series range

theorem Refresh.steady_of_keepsKeys {x : Refresh} {db : Db} {identity : ExternalIdentity}
    (h : x.keepsKeys db identity = true) : x.Steady db identity := by
  have hkeeps : ∀ args plan, x.planned? db.observations identity = some (args, plan) →
      plan.waitingForPublication = [] ∧ ∀ j ∈ db.jobs.rows, ∃ range ∈ plan.ranges,
        j.dedupeKey = Dispatch.dedupeKey args.series range := by
    intro args plan hplan
    rw [keepsKeys, hplan] at h
    simpa using h
  refine ⟨fun args plan hplan c _ d _ w hw => ?_,
    fun args plan hplan _ _ j hj _ _ _ _ _ => (hkeeps args plan hplan).2 j hj⟩
  rw [(hkeeps args plan hplan).1] at hw
  exact absurd hw List.not_mem_nil

/-- A refresh of the last two days, in one chunk. -/
def twoDayRefresh (date : Date) : Refresh :=
  { dailyRefresh 1 with today := date, recoveryLimits := some ⟨1, 2⟩ }

/-- A session a job, today and tomorrow: the job of today is one of tomorrow's plan, and both jobs
are live. -/
theorem live_jobs_disjoint_next_day :
    ∃ db, RefreshRun (fun x i => x.Steady i.before i.identity) ⟨739619, by decide, by decide⟩ db ∧
      db.jobs.LiveDisjoint ∧ db.jobs.rows.length = 2 ∧
      ∀ j ∈ db.jobs.rows, j.status.ended = false := by
  let tomorrow : Date := ⟨739619, by decide, by decide⟩
  let identity : ExternalIdentity := ⟨1, "fake", "BTC", today, none⟩
  let x : Refresh := dailyRefresh 0
  let x' : Refresh := { dailyRefresh 1 with today := tomorrow }
  have hrun : ((x.program.run.execute semantics (List.replicate 4 default)
      ⟨Table.empty, Table.empty, Table.empty⟩ Session.new).any fun first =>
        x'.keepsKeys first.2.1 identity &&
        (x'.program.run.execute semantics (List.replicate 6 default) first.2.1 Session.new).any
          fun second => decide (second.2.1.jobs.rows.length = 2 ∧
            ∀ j ∈ second.2.1.jobs.rows, j.status.ended = false)) = true := by decide +kernel
  obtain ⟨⟨r, db, l⟩, hfirst, hrun⟩ := (Option.any_eq_true _ _).mp hrun
  obtain ⟨hkeeps, hrun⟩ := Bool.and_eq_true_iff.mp hrun
  obtain ⟨⟨r', db', l'⟩, hsecond, hrun⟩ := (Option.any_eq_true _ _).mp hrun
  obtain ⟨hlen, hlive⟩ := of_decide_eq_true hrun
  have hstart : x.Steady ⟨Table.empty, Table.empty, Table.empty⟩ identity :=
    Refresh.steady_of_keepsKeys (by decide +kernel)
  have hrun : RefreshRun (fun x i => x.Steady i.before i.identity) x.today db :=
    (RefreshRun.start today Table.empty Table.empty).steadily le_rfl (dailyRefresh_classifies 0) rfl
      (by decide +kernel) hstart ⟨_, hfirst⟩
  have hrun' : RefreshRun (fun x i => x.Steady i.before i.identity) x'.today db' :=
    hrun.steadily (by decide) (dailyRefresh_classifies 1) rfl (by decide +kernel)
      (Refresh.steady_of_keepsKeys hkeeps) ⟨_, hsecond⟩
  exact ⟨db', hrun', live_jobs_disjoint hrun', hlen, hlive⟩

/-- **Live jobs can overlap**: the last two days are enqueued as one chunk, today and again
tomorrow, while the first job is still pending. -/
theorem live_jobs_overlap :
    ¬ ∀ today db, RefreshRun (fun _ _ => True) today db → db.jobs.LiveDisjoint := by
  intro hall
  let tomorrow : Date := ⟨739619, by decide, by decide⟩
  have hstep : ∀ {date date' : Date} {db db' : Db} {es : List Answers}
      {r : Except PyError RefreshOutcome} {l' : Session},
      RefreshRun (fun _ _ => True) date db → date ≤ date' →
      (twoDayRefresh date').program.run.execute semantics es db Session.new = some (r, db', l') →
      RefreshRun (fun _ _ => True) date' db' := by
    intro date date' db db' es r l' h hle hexec
    obtain ⟨r', hevents⟩ := Refresh.events_of_program ⟨es, hexec⟩
    obtain ⟨-, -, its, hits, -⟩ := Refresh.events_iterates hevents
    exact .refresh (twoDayRefresh date') h hle (dailyRefresh_classifies 1) ⟨es, hexec⟩ hits
      fun _ _ => trivial
  have hrun : (((twoDayRefresh today).program.run.execute semantics (List.replicate 4 default)
      ⟨Table.empty, Table.empty, Table.empty⟩ Session.new).any fun first =>
        ((twoDayRefresh tomorrow).program.run.execute semantics (List.replicate 4 default)
          first.2.1 Session.new).any fun second =>
          second.2.1.jobs.rows[0]?.any fun a => second.2.1.jobs.rows[1]?.any fun b =>
            decide (a.status.ended = false ∧ b.status.ended = false ∧
              a.source = "fake" ∧ a.cursor = some (Dispatch.cursor todaysDispatch.series
                ⟨false, ⟨739617, by decide, by decide⟩, today⟩).serialize ∧
              b.source = "fake" ∧ b.cursor = some (Dispatch.cursor todaysDispatch.series
                ⟨false, today, tomorrow⟩).serialize)) = true := by decide +kernel
  obtain ⟨⟨r, db, l⟩, hfirst, hrun⟩ := (Option.any_eq_true _ _).mp hrun
  obtain ⟨⟨r', db', l'⟩, hsecond, hrun⟩ := (Option.any_eq_true _ _).mp hrun
  have hdisjoint := hall tomorrow db' (hstep (hstep (.start today Table.empty Table.empty) le_rfl hfirst)
    (by decide) hsecond)
  obtain ⟨a, ha, hrun⟩ := (Option.any_eq_true _ _).mp hrun
  obtain ⟨b, hb, hrun⟩ := (Option.any_eq_true _ _).mp hrun
  obtain ⟨hlive, hlive', hsource, hcursor, hsource', hcursor'⟩ := of_decide_eq_true hrun
  have hab : a = b := hdisjoint a (List.mem_of_getElem? ha) b (List.mem_of_getElem? hb) hlive hlive'
    todaysDispatch.series today
    ((Job.covers_of_cursor hsource hcursor).mpr ⟨by decide, le_rfl⟩)
    ((Job.covers_of_cursor hsource' hcursor').mpr ⟨le_rfl, by decide⟩)
  have hstarts := FetchCursor.serialize_injective
    (Option.some.inj (hcursor.symm.trans (hab ▸ hcursor')))
  exact absurd (congrArg FetchCursor.start hstarts) (by decide)

end MarketRelay
