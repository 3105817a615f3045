import MarketRelay.Refresh
import MarketRelay.SchedulerFencing

/-!
# The Recovery Cursor

The plan of a listing starts after its last completed session, the greatest date with a stored
observation. That is sound as long as every session that an earlier plan has dispatched is
stored, or is still the work of a live job.

A job is over as `DONE` once its response has been recorded, whichever sessions the response
contains, and as `FAILED` after its last attempt. If that happens to a session that is neither
stored nor the work of another job, then nothing keeps the cursor from passing it.

## Main results

* `Refresh.events_meets`: what a refresh has enqueued when it returns.
* `resumption_sound`: in every run that abandons no session, every dispatched session is stored
  or live.
* `resumption_skips`: a run in which the cursor passes a session that is neither.
-/

open Relational Interaction Gregorian

namespace MarketRelay

/-- The session is stored, or a live job covers it. -/
def Db.Accounts (db : Db) (series : SeriesKey) (d : Date) : Prop :=
  (∃ o ∈ db.observations.rows, o.key = series.at d) ∨ db.jobs.HasWork series d

/-! ### What a refresh enqueues -/

namespace Refresh

variable (x : Refresh)

/-- The plan is one that the refresh can make for a listing of the series. -/
def Plans (series : SeriesKey) (plan : RecoveryPlan) : Prop :=
  ∃ identity ∈ x.catalog.identities, ∃ listing calendar lastCompleted,
    x.catalog.listing? identity.listingId = some listing ∧
    series = seriesOf identity listing ∧
    x.calendars listing.mic listing.venue = .ok calendar ∧
    Dispatch.planOf calendar (x.dispatchArgs identity listing lastCompleted) = .ok plan

/-- The calendar of a listing of the series classifies the date as `EXPECTED_PUBLISHED`. -/
def IsSession (series : SeriesKey) (d : Date) : Prop :=
  ∃ identity ∈ x.catalog.identities, ∃ listing calendar first answer,
    x.catalog.listing? identity.listingId = some listing ∧
    series = seriesOf identity listing ∧
    x.calendars listing.mic listing.venue = .ok calendar ∧
    calendar listing.assetClass listing.venue listing.mic first x.today = .ok answer ∧
    ⟨d, .expectedPublished⟩ ∈ answer

variable {x} {series : SeriesKey} {plan : RecoveryPlan}

/-- The dates of a plan's chunks are sessions, each in the range of its chunk. -/
theorem Plans.session (h : x.Plans series plan) {chunk : RecoveryChunk} (hc : chunk ∈ plan.chunks)
    {d : Date} (hd : d ∈ chunk.sessionDates) :
    x.IsSession series d ∧ chunk.start ≤ d ∧ d ≤ chunk.end := by
  obtain ⟨identity, hid, listing, calendar, last, hlisting, hseries, hcalendar, hplan⟩ := h
  obtain ⟨first, answer, -, hanswer, hmem⟩ := RecoveryPlanner.chunk_expectation hplan hc hd
  exact ⟨⟨identity, hid, listing, calendar, first, answer, hlisting, hseries, hcalendar, hanswer,
    hmem⟩, RecoveryPlanner.mem_chunk_range hplan hc hd⟩

end Refresh

/-- The ghost state is the list of the sources and cursors that have been enqueued. -/
def enqueueContract : Contract Cmd Cmd.Resp (List (String × Option String)) where
  pre _ _ := True
  post
    | .insertJob args, g, _, g' => g' = (args.source, args.cursor) :: g
    | _, g, _, g' => g' = g

/-- What has been enqueued stays enqueued. -/
theorem enqueueContract_stable {c : Cmd} {g g' : List (String × Option String)} {r : c.Resp}
    (h : enqueueContract.post c g r g') {p : String × Option String} (hp : p ∈ g) : p ∈ g' := by
  cases c with
  | insertJob args =>
      obtain rfl : g' = _ := h
      exact List.mem_cons_of_mem _ hp
  | _ =>
      obtain rfl : g' = g := h
      exact hp

namespace Dispatch

/-- The source and the cursor of the job of a range. -/
def token (series : SeriesKey) (r : PlannedRange) : String × Option String :=
  (series.source, some (cursor series r).serialize)

/-- Facts about what has been enqueued are kept by every script. -/
theorem kept {α : Type} (x : App α) {g : List (String × Option String)}
    {I : List (String × Option String) → Prop} (hI : ∀ g g', g ⊆ g' → I g → I g') (h : I g) :
    x.Meets enqueueContract (fun _ => I) (fun _ => I) g :=
  Script.meets_run.mp (Prog.meets_of_stable (fun _ _ => trivial)
    (fun _ _ _ _ hpost hg => hI _ _ (fun _ hp => enqueueContract_stable hpost hp) hg) x.run h)

theorem enqueueIdempotent_meets (args : DispatchArgs) (range : PlannedRange)
    (g : List (String × Option String)) :
    (JobQueue.enqueueIdempotent (jobArgs args range)).Meets enqueueContract
      (fun _ g' => token args.series range ∈ g') (fun _ _ => True) g := by
  have hmono : ∀ g g' : List (String × Option String), g ⊆ g' →
      token args.series range ∈ g → token args.series range ∈ g' := fun _ _ hg hp => hg hp
  rw [JobQueue.enqueueIdempotent, Script.meets_bind, meets_issue]
  refine ⟨trivial, fun r g' hpost => ?_⟩
  obtain rfl : g' = _ := hpost
  exact (kept _ hmono List.mem_cons_self).mono (fun _ _ h => h) fun _ _ _ => trivial

/-- The loop enqueues the range of every chunk. -/
theorem enqueueChunks_meets (args : DispatchArgs) (chunks : List RecoveryChunk)
    (g : List (String × Option String)) :
    (enqueueChunks args chunks).Meets enqueueContract
      (fun _ g' => ∀ c ∈ chunks, token args.series c.range ∈ g') (fun _ _ => True) g := by
  induction chunks generalizing g with
  | nil => exact fun c hc => absurd hc List.not_mem_nil
  | cons chunk rest ih =>
      rw [enqueueChunks, Script.meets_bind]
      refine (enqueueIdempotent_meets args chunk.range g).mono (fun _ g₁ h₁ => ?_) fun _ _ h => h
      have hmono : ∀ g g' : List (String × Option String), g ⊆ g' →
          token args.series chunk.range ∈ g → token args.series chunk.range ∈ g' :=
        fun _ _ hg hp => hg hp
      rw [Script.meets_bind]
      refine (Script.Meets.and (ih g₁) (kept _ hmono h₁)).mono (fun _ g₂ h₂ => ?_)
        fun _ _ _ => trivial
      intro c hc
      rcases List.mem_cons.mp hc with rfl | hc
      · exact h₂.2
      · exact h₂.1 c hc

/-- **A dispatch that returns has enqueued the chunks of its plan.** -/
theorem planAndEnqueue_meets (calendar : Calendar) (args : DispatchArgs)
    (g : List (String × Option String)) :
    (planAndEnqueue calendar args).Meets enqueueContract
      (fun r g' => planOf calendar args = .ok r.plan ∧
        ∀ c ∈ r.plan.chunks, token args.series c.range ∈ g') (fun _ _ => True) g := by
  rw [planAndEnqueue]
  cases hplan : planOf calendar args with
  | error e => exact trivial
  | ok plan =>
      rw [orRaise, pure_bind, Script.meets_bind]
      refine (enqueueChunks_meets args plan.chunks g).mono (fun _ g₁ h₁ => ?_) fun _ _ h => h
      rw [Script.meets_bind]
      have hmono : ∀ g g' : List (String × Option String), g ⊆ g' →
          (∀ c ∈ plan.chunks, token args.series c.range ∈ g) →
          ∀ c ∈ plan.chunks, token args.series c.range ∈ g' := fun _ _ hg h c hc => hg (h c hc)
      exact (kept _ hmono h₁).mono (fun _ g₂ h₂ => ⟨rfl, h₂⟩) fun _ _ _ => trivial

end Dispatch

namespace Refresh

variable {x : Refresh}

/-- What the event reports as dispatched was planned, and has been enqueued. -/
def Reports (x : Refresh) (g : List (String × Option String)) : RefreshEvent → Prop
  | .listing series (.ok r) =>
    x.Plans series r.plan ∧ ∀ c ∈ r.plan.chunks, Dispatch.token series c.range ∈ g
  | _ => True

theorem Reports.mono {g g' : List (String × Option String)} (hg : g ⊆ g') {event : RefreshEvent}
    (h : x.Reports g event) : x.Reports g' event := by
  rcases event with _ | _ | ⟨series, _ | r⟩
  · trivial
  · trivial
  · trivial
  · exact ⟨h.1, fun c hc => hg (h.2 c hc)⟩

theorem refreshListing_meets {identity : ExternalIdentity}
    (hid : identity ∈ x.catalog.identities) (g : List (String × Option String)) :
    (x.refreshListing identity).Meets enqueueContract (fun event g' => x.Reports g' event)
      (fun _ _ => True) g := by
  rw [refreshListing]
  cases hlisting : x.catalog.listing? identity.listingId with
  | none => exact trivial
  | some listing =>
      refine Script.meets_bind.mpr (Script.meets_attempt.mpr ?_)
      rw [dispatchListing, Script.meets_bind, ObservationStore.lastCompletedSession, meets_issue]
      refine ⟨trivial, fun lastCompleted g₁ _ => ?_⟩
      cases hcalendar : x.calendars listing.mic listing.venue with
      | error e => exact trivial
      | ok calendar =>
          rw [orRaise, pure_bind]
          refine (Dispatch.planAndEnqueue_meets calendar _ g₁).mono ?_ fun _ _ _ => trivial
          rintro r g₂ ⟨hplan, henq⟩
          exact ⟨⟨identity, hid, listing, calendar, lastCompleted, hlisting, rfl, hcalendar,
            hplan⟩, henq⟩

/-- A sequence of two parts reports what each of them reports. -/
private theorem reports_bind {α : Type} {p : App α} {q : App (List RefreshEvent)}
    {m : α → List RefreshEvent} {g : List (String × Option String)}
    (hp : p.Meets enqueueContract (fun a g' => ∀ event ∈ m a, x.Reports g' event)
      (fun _ _ => True) g)
    (hq : ∀ g, q.Meets enqueueContract (fun events g' => ∀ event ∈ events, x.Reports g' event)
      (fun _ _ => True) g) :
    (do
      let a ← p
      let events ← q
      return m a ++ events : App (List RefreshEvent)).Meets enqueueContract
      (fun events g' => ∀ event ∈ events, x.Reports g' event) (fun _ _ => True) g := by
  rw [Script.meets_bind]
  refine hp.mono (fun a g₁ h₁ => ?_) fun _ _ h => h
  have hmono : ∀ g g' : List (String × Option String), g ⊆ g' →
      (∀ event ∈ m a, x.Reports g event) → ∀ event ∈ m a, x.Reports g' event :=
    fun _ _ hg h event hevent => (h event hevent).mono hg
  rw [Script.meets_bind]
  refine (Script.Meets.and (hq g₁) (Dispatch.kept _ hmono h₁)).mono (fun events g₂ h₂ => ?_)
    fun _ _ _ => trivial
  intro event hevent
  rcases List.mem_append.mp hevent with hevent | hevent
  · exact h₂.2 event hevent
  · exact h₂.1 event hevent

theorem refreshListings_meets {identities : List ExternalIdentity}
    (hid : ∀ identity ∈ identities, identity ∈ x.catalog.identities)
    (g : List (String × Option String)) :
    (x.refreshListings identities).Meets enqueueContract
      (fun events g' => ∀ event ∈ events, x.Reports g' event) (fun _ _ => True) g := by
  induction identities generalizing g with
  | nil => exact fun event hevent => absurd hevent List.not_mem_nil
  | cons identity rest ih =>
      refine reports_bind (m := fun event => [event]) ?_
        (ih fun i hi => hid i (List.mem_cons_of_mem _ hi))
      refine (refreshListing_meets (hid identity List.mem_cons_self) g).mono
        (fun event g' h => ?_) fun _ _ h => h
      intro event' hevent'
      obtain rfl := List.mem_singleton.mp hevent'
      exact h

/-- **What a refresh has enqueued when it returns**: the chunks of every plan that it reports. -/
theorem events_meets (x : Refresh) (g : List (String × Option String)) :
    x.events.Meets enqueueContract (fun events g' => ∀ event ∈ events, x.Reports g' event)
      (fun _ _ => True) g := by
  have hsource : ∀ source g, (x.refreshSource source).Meets enqueueContract
      (fun events g' => ∀ event ∈ events, x.Reports g' event) (fun _ _ => True) g := by
    intro source g
    have hports : (getPorts source).Meets enqueueContract (fun _ _ => True) (fun _ _ => True) g :=
      Dispatch.kept _ (fun _ _ _ h => h) trivial
    refine Script.meets_bind.mpr (Script.meets_attempt.mpr ?_)
    refine hports.mono (fun _ g₁ _ => ?_) fun e g₁ _ => ?_
    · exact refreshListings_meets (fun i hi => (Catalog.mem_selectIdentities hi).1) g₁
    · intro event hevent
      obtain rfl := List.mem_singleton.mp hevent
      trivial
  rw [events]
  induction x.settings.enabledSources generalizing g with
  | nil => exact fun event hevent => absurd hevent List.not_mem_nil
  | cons source rest ih => exact reports_bind (m := id) (hsource source g) ih

end Refresh

/-! ### Runs of the service -/

/-- What a thread runs: a refresh, a processing phase, or any other program. -/
inductive ServiceWorker where
  | refresh (x : Refresh)
  | processing (x : Execution)
  | other (program : App (List RefreshEvent))

def ServiceWorker.program : ServiceWorker → App (List RefreshEvent)
  | refresh x => x.events
  | processing x => do
    let _ ← x.program
    return []
  | other program => program

variable {ι : Type}

abbrev ServiceConfig (ι : Type) :=
  Config Cmd Cmd.Resp Db Session (Except PyError (List RefreshEvent)) ι

/-- The threads before their first step, on an empty queue. -/
def ServiceConfig.start (workers : ι → ServiceWorker) (observations : ObservationTable)
    (decisions : DecisionTable) : ServiceConfig ι :=
  ⟨⟨Table.empty, observations, decisions⟩, fun i => ⟨Session.new, (workers i).program.run⟩⟩

/-- A calendar of one of the refreshes classifies the date as `EXPECTED_PUBLISHED`. -/
def IsSession (workers : ι → ServiceWorker) (series : SeriesKey) (d : Date) : Prop :=
  ∃ i x, workers i = .refresh x ∧ x.IsSession series d

/-- The next command of the thread abandons no session: a job becomes `DONE` or `FAILED` only
when every session that it covers is stored or is covered by a job that remains live, and a
deduplication key is taken only by a job of the same source and cursor. -/
structure Retains (workers : ι → ServiceWorker) (cfg : ServiceConfig ι) (i : ι) (_ : Answers) :
    Prop where
  ends : ∀ c, (cfg.thread i).prog.next? = some c → ∀ j ∈ cfg.shared.jobs.rows,
    j.status.ended = false → (c.row j).status.ended = true →
    ∀ series d, IsSession workers series d → j.Covers series d →
      (∃ o ∈ cfg.shared.observations.rows, o.key = series.at d) ∨
        ∃ j' ∈ cfg.shared.jobs.rows, (c.row j').status.ended = false ∧ j'.Covers series d
  keys : ∀ args, (cfg.thread i).prog.next? = some (.insertJob args) →
    ∀ j ∈ cfg.shared.jobs.rows, j.dedupeKey = args.dedupeKey →
      j.source = args.source ∧ j.cursor = args.cursor

section Runs

variable [DecidableEq ι] {workers : ι → ServiceWorker} {cfg cfg' : ServiceConfig ι} {i : ι}
  {e : Answers} {series : SeriesKey} {d : Date}

private theorem covers_row {c : Cmd} {j : Job} : (c.row j).Covers series d ↔ j.Covers series d :=
  Job.covers_congr (by simp) (by simp)

/-- A session that is accounted for stays so. -/
theorem accounts_step {c : Cmd} {k : c.Resp → Prog Cmd Cmd.Resp (Except PyError _)}
    (hp : (cfg.thread i).prog = .call c k) (hok : Retains workers cfg i e)
    (hsession : IsSession workers series d) (h : cfg.shared.Accounts series d) :
    (cfg.step semantics i e).shared.Accounts series d := by
  rw [Config.step_call hp]
  have hstored : (∃ o ∈ cfg.shared.observations.rows, o.key = series.at d) →
      ∃ o ∈ (exec c e cfg.shared (cfg.thread i).loc).2.1.observations.rows,
        o.key = series.at d := by
    rintro ⟨o, ho, hkey⟩
    exact ⟨o, (observations_exec c e cfg.shared _).subset ho, hkey⟩
  rcases h with hdone | ⟨j, hj, hlive, hcovers⟩
  · exact Or.inl (hstored hdone)
  · cases hended : (c.row j).status.ended with
    | false => exact Or.inr ⟨c.row j, row_mem_exec hj, hended, covers_row.mpr hcovers⟩
    | true =>
        have hnext : (cfg.thread i).prog.next? = some c := by rw [hp]; rfl
        rcases hok.ends c hnext j hj hlive hended series d hsession hcovers with
          hdone | ⟨j', hj', hlive', hcovers'⟩
        · exact Or.inl (hstored hdone)
        · exact Or.inr ⟨c.row j', row_mem_exec hj', hlive', covers_row.mpr hcovers'⟩

/-- **Every session that a job covers is accounted for**, in every run that abandons none. -/
theorem covered_accounts {observations : ObservationTable} {decisions : DecisionTable}
    (hr : Config.Reaches semantics (Retains workers)
      (ServiceConfig.start workers observations decisions) cfg)
    {j : Job} (hj : j ∈ cfg.shared.jobs.rows) (hsession : IsSession workers series d)
    (hcovers : j.Covers series d) : cfg.shared.Accounts series d := by
  let Inv : ServiceConfig ι → Prop := fun cfg => ∀ j ∈ cfg.shared.jobs.rows,
    j.Covers series d → cfg.shared.Accounts series d
  have hinv : Inv cfg := by
    refine hr.invariant (P := Inv) (fun cfg i e c k hp hok hinv j hj hcovers => ?_)
      fun j hj => absurd hj List.not_mem_nil
    rw [Config.step_call hp] at hj
    rcases mem_jobs_exec hj with ⟨j₀, hj₀, rfl⟩ | ⟨args, rfl, rfl⟩
    · exact accounts_step hp hok hsession (hinv j₀ hj₀ (covers_row.mp hcovers))
    · rw [Config.step_call hp]
      exact Or.inr ⟨_, hj, rfl, hcovers⟩
  exact hinv j hj hcovers

/-- What the threads know: everything that they have enqueued has a row. -/
def ServiceWorker.HasRows (s : Db) (g : List (String × Option String)) : Prop :=
  ∀ p ∈ g, ∃ j ∈ s.jobs.rows, j.source = p.1 ∧ j.cursor = p.2

/-- What a thread reports when it returns. -/
def ServiceWorker.Reports (worker : ServiceWorker) (r : Except PyError (List RefreshEvent))
    (g : List (String × Option String)) : Prop :=
  ∀ x events, worker = .refresh x → r = .ok events → ∀ event ∈ events, x.Reports g event

/-- A deduplication key that the thread is about to take is taken only by a job of the same source
and cursor. -/
def KeysMatch (cfg : ServiceConfig ι) (i : ι) : Prop :=
  ∀ args, (cfg.thread i).prog.next? = some (.insertJob args) →
    ∀ j ∈ cfg.shared.jobs.rows, j.dedupeKey = args.dedupeKey →
      j.source = args.source ∧ j.cursor = args.cursor

variable {ok : ServiceConfig ι → ι → Answers → Prop}

omit [DecidableEq ι] in
theorem ServiceWorker.obligation (hkeys : ∀ cfg i e, ok cfg i e → KeysMatch cfg i) :
    Config.Obligation (Except PyError (List RefreshEvent)) semantics
      (fun _ : ι => enqueueContract) (fun _ => True) (fun _ s _ g => ServiceWorker.HasRows s g)
      ok := by
  intro cfg i e c k g hp hok _ hknows _
  have hstable : ∀ g', ServiceWorker.HasRows cfg.shared g' →
      ServiceWorker.HasRows (exec c e cfg.shared (cfg.thread i).loc).2.1 g' := by
    intro g' h p hmem
    obtain ⟨j, hj, hsource, hcursor⟩ := h p hmem
    exact ⟨c.row j, row_mem_exec hj, by rw [Cmd.row_source, hsource], by rw [Cmd.row_cursor, hcursor]⟩
  refine ⟨trivial, ?_, fun j g' _ h => hstable g' h⟩
  cases c with
  | insertJob args =>
      refine ⟨(args.source, args.cursor) :: g, rfl, fun p hmem => ?_⟩
      rcases List.mem_cons.mp hmem with rfl | hmem
      · have hnext : (cfg.thread i).prog.next? = some (.insertJob args) := by rw [hp]; rfl
        rcases exec_insertJob args e cfg.shared (cfg.thread i).loc with
          ⟨t, j, rfl, hins, hexec⟩ | ⟨⟨j, hj, hkey⟩, hexec⟩
        · simp only [semantics_exec, hexec]
          obtain ⟨-, hrows⟩ := Table.insert?_eq_some_iff.mp hins
          exact ⟨_, hrows ▸ List.mem_append_right _ (List.mem_singleton_self _), rfl, rfl⟩
        · simp only [semantics_exec, hexec]
          exact ⟨j, hj, hkeys cfg i e hok args hnext j hj hkey⟩
      · exact hstable g hknows p hmem
  | _ => exact ⟨g, rfl, hstable g hknows⟩

/-- What the threads know and report, in every run in which the keys match. -/
theorem ServiceWorker.sound_of (hkeys : ∀ cfg i e, ok cfg i e → KeysMatch cfg i)
    {observations : ObservationTable} {decisions : DecisionTable}
    (hr : Config.Reaches semantics ok
      (ServiceConfig.start workers observations decisions) cfg) :
    cfg.Sound (fun _ => enqueueContract) (fun i => (workers i).Reports) (fun _ => True)
      fun _ s _ g => ServiceWorker.HasRows s g := by
  refine hr.sound (ServiceWorker.obligation hkeys) ⟨trivial, fun i => ⟨[], ?_, ?_⟩⟩
  · exact fun p hp => absurd hp List.not_mem_nil
  · change (workers i).program.run.Meets enqueueContract _ _
    cases hworker : workers i with
    | refresh x =>
        refine Script.meets_run.mpr ((x.events_meets []).mono (fun events g h => ?_) ?_)
        · intro x' events' hx hevents
          obtain rfl := Except.ok.inj hevents
          obtain rfl := ServiceWorker.refresh.inj hx
          exact h
        · exact fun e g _ x' events' _ hevents => absurd hevents (by simp)
    | processing x =>
        exact (Prog.meets_of_stable (I := fun _ => True) (fun _ _ => trivial)
          (fun _ _ _ _ _ h => h) _ trivial).mono fun _ _ _ x' _ hx => absurd hx (by simp)
    | other program =>
        exact (Prog.meets_of_stable (I := fun _ => True) (fun _ _ => trivial)
          (fun _ _ _ _ _ h => h) _ trivial).mono fun _ _ _ x' _ hx => absurd hx (by simp)

theorem ServiceWorker.sound {observations : ObservationTable} {decisions : DecisionTable}
    (hr : Config.Reaches semantics (Retains workers)
      (ServiceConfig.start workers observations decisions) cfg) :
    cfg.Sound (fun _ => enqueueContract) (fun i => (workers i).Reports) (fun _ => True)
      fun _ s _ g => ServiceWorker.HasRows s g :=
  ServiceWorker.sound_of (fun _ _ _ hok => hok.keys) hr

/-- **The recovery cursor is a sound resumption point**: in every run that abandons no session,
every session that a refresh has dispatched is stored or is covered by a job that is neither
`DONE` nor `FAILED`, whether or not the cursor has passed it. -/
theorem resumption_sound {observations : ObservationTable} {decisions : DecisionTable}
    (hr : Config.Reaches semantics (Retains workers)
      (ServiceConfig.start workers observations decisions) cfg)
    {x : Refresh} (hi : workers i = .refresh x) {events : List RefreshEvent}
    (hret : (cfg.thread i).prog.result? = some (.ok events)) {r : DispatchResult}
    (hevent : .listing series (.ok r) ∈ events) {chunk : RecoveryChunk}
    (hchunk : chunk ∈ r.plan.chunks) (hd : d ∈ chunk.sessionDates) :
    (∃ o ∈ cfg.shared.observations.rows, o.key = series.at d) ∨
      cfg.shared.jobs.HasWork series d := by
  obtain ⟨g, hknows, hreports⟩ :=
    (ServiceWorker.sound hr).ret (Prog.result?_eq_some_iff.mp hret)
  obtain ⟨hplan, henq⟩ := hreports x events hi rfl _ hevent
  obtain ⟨hsession, hrange⟩ := hplan.session hchunk hd
  obtain ⟨j, hj, hsource, hcursor⟩ := hknows _ (henq chunk hchunk)
  exact covered_accounts hr hj ⟨i, x, hi, hsession⟩
    ((Job.covers_of_cursor hsource hcursor).mpr hrange)

end Runs

/-! ### Runs on concrete tables -/

/-- A refresh has returned, and reports the date as dispatched. -/
def reportsDate (result? : Option (Except PyError (List RefreshEvent))) (series : SeriesKey)
    (d : Date) : Bool :=
  result?.any fun result => result.toOption.any fun events => events.any fun event =>
    match event with
    | .listing series' (.ok r) => decide (series' = series) &&
        r.plan.chunks.any fun chunk => decide (d ∈ chunk.sessionDates)
    | _ => false

theorem exists_of_reportsDate {result? : Option (Except PyError (List RefreshEvent))}
    {series : SeriesKey} {d : Date} (h : reportsDate result? series d = true) :
    ∃ events r chunk, result? = some (.ok events) ∧ .listing series (.ok r) ∈ events ∧
      chunk ∈ r.plan.chunks ∧ d ∈ chunk.sessionDates := by
  obtain ⟨result, hresult, h⟩ := (Option.any_eq_true _ _).mp h
  rcases result with e | events
  · exact absurd h (by simp [Except.toOption])
  obtain ⟨event, hevent, h⟩ := List.any_eq_true.mp h
  rcases event with _ | _ | ⟨series', e | r⟩
  · exact absurd h (by simp)
  · exact absurd h (by simp)
  · exact absurd h (by simp)
  obtain ⟨hseries, hchunks⟩ := Bool.and_eq_true_iff.mp h
  obtain rfl := of_decide_eq_true hseries
  obtain ⟨chunk, hchunk, hd⟩ := List.any_eq_true.mp hchunks
  exact ⟨events, r, chunk, hresult, hevent, hchunk, of_decide_eq_true hd⟩

/-- The refreshes of today and of tomorrow, and a processing phase between them. -/
def twoDayWorkers : Option Bool → ServiceWorker
  | some false => .refresh (dailyRefresh 0)
  | some true => .processing ⟨⟨["fake"], 300, 3600⟩, 0, 1⟩
  | none => .refresh { dailyRefresh 0 with today := (today.addDays 1).getD today }

/-- The phase completes today's job, with a response that contains the session. -/
def twoDaySteps : List (Option Bool × Answers) :=
  List.replicate 4 (some false, default) ++
    List.replicate 35 (some true, { (default : Answers) with
      fetched := .ok [⟨"BTC", today, .eodClose, "EUR", .finite 1, none, none, none, none⟩] }) ++
    List.replicate 4 (none, default)

/-- Only a job of today's session ends, once the session is stored, and the keys of the inserted
jobs are free. -/
def endsStored (cfg : ServiceConfig (Option Bool)) (i : Option Bool) (_ : Answers) : Bool :=
  match (cfg.thread i).prog.next? with
  | some (.insertJob args) => cfg.shared.jobs.rows.all fun j => j.dedupeKey ≠ args.dedupeKey
  | some c => cfg.shared.jobs.rows.all fun j => j.status.ended || !(c.row j).status.ended ||
    decide (j.OfRange todaysDispatch.series ⟨false, today, today⟩) &&
      cfg.shared.observations.rows.any fun o => o.key = todaysDispatch.series.at today
  | none => true

theorem retains_of_endsStored {cfg : ServiceConfig (Option Bool)} {i : Option Bool} {e : Answers}
    (h : endsStored cfg i e = true) : Retains twoDayWorkers cfg i e := by
  refine ⟨fun c hnext j hj hlive hended series d _ hcovers => Or.inl ?_,
    fun args hnext j hj hkey => ?_⟩
  · have hrow : (j.OfRange todaysDispatch.series ⟨false, today, today⟩) ∧
        ∃ o ∈ cfg.shared.observations.rows, o.key = todaysDispatch.series.at today := by
      cases c with
      | insertJob args => exact absurd (hlive.symm.trans hended) (by simp)
      | _ =>
          simp only [endsStored, hnext] at h
          simpa [hlive, hended] using List.all_eq_true.mp h j hj
    obtain ⟨hrange, o, ho, hkey⟩ := hrow
    obtain ⟨rfl, hfirst, hlast⟩ := hrange.covers hcovers
    exact ⟨o, ho, (le_antisymm hlast hfirst : d = today) ▸ hkey⟩
  · simp only [endsStored, hnext] at h
    exact absurd hkey (by simpa using List.all_eq_true.mp h j hj)

/-- Today's session is stored when the next refresh comes, and the one of tomorrow is live after
it. -/
theorem resumption_sound_next_day :
    let cfg := (ServiceConfig.start twoDayWorkers Table.empty approvedRegister).run semantics
      twoDaySteps
    (∀ d : Date, d = today ∨ d = ⟨739619, by decide, by decide⟩ →
      (∃ o ∈ cfg.shared.observations.rows, o.key = todaysDispatch.series.at d) ∨
        cfg.shared.jobs.HasWork todaysDispatch.series d) ∧
      (∃ j ∈ cfg.shared.jobs.rows, j.status = .done) ∧
      ∃ j ∈ cfg.shared.jobs.rows, j.status = .pending := by
  have hr : Config.Reaches semantics (Retains twoDayWorkers)
      (ServiceConfig.start twoDayWorkers Table.empty approvedRegister)
      ((ServiceConfig.start twoDayWorkers Table.empty approvedRegister).run semantics
        twoDaySteps) :=
    Config.reaches_of_checkRun (fun _ _ _ => retains_of_endsStored) (by decide +kernel)
  intro cfg
  have hreports : reportsDate (cfg.thread (some false)).prog.result? todaysDispatch.series today =
        true ∧
      reportsDate (cfg.thread none).prog.result? todaysDispatch.series
        ⟨739619, by decide, by decide⟩ = true ∧
      (cfg.shared.jobs.rows.any fun j => j.status = .done) = true ∧
      (cfg.shared.jobs.rows.any fun j => j.status = .pending) = true := by decide +kernel
  obtain ⟨hfirst, hsecond, hdone, hpending⟩ := hreports
  refine ⟨?_, by simpa using hdone, by simpa using hpending⟩
  rintro d (rfl | rfl)
  · obtain ⟨events, r, chunk, hret, hevent, hchunk, hd⟩ := exists_of_reportsDate hfirst
    exact resumption_sound hr rfl hret hevent hchunk hd
  · obtain ⟨events, r, chunk, hret, hevent, hchunk, hd⟩ := exists_of_reportsDate hsecond
    exact resumption_sound hr rfl hret hevent hchunk hd

/-- **The cursor can pass a session for good**: a chunk is fetched, the response is empty and the
job is `DONE`; the next chunk is stored, and the cursor is beyond the first. -/
theorem resumption_skips :
    ¬ ∀ (x : Refresh) (y : Execution)
      (classify : AssetClass → String → Option String → Date → SessionExpectation)
      (decisions : DecisionTable) (cfg : ServiceConfig Bool) (events : List RefreshEvent)
      (series : SeriesKey) (r : DispatchResult) (chunk : RecoveryChunk) (d last : Date),
      (∀ mic venue calendar, x.calendars mic venue = .ok calendar →
        ∀ assetClass first last answer, calendar assetClass venue mic first last = .ok answer →
          ∀ check ∈ answer,
            check.expectation = classify assetClass venue mic check.sessionDate) →
      Config.Reaches semantics (fun _ _ _ => True) (ServiceConfig.start (fun processing =>
        if processing then .processing y else .refresh x) Table.empty decisions) cfg →
      (cfg.thread false).prog.result? = some (.ok events) →
      .listing series (.ok r) ∈ events → chunk ∈ r.plan.chunks → d ∈ chunk.sessionDates →
      lastCompletedSession series cfg.shared.observations = some last → d ≤ last →
      cfg.shared.Accounts series d := by
  intro h
  let x : Refresh := dailyRefresh 1
  let y : Execution := ⟨⟨["fake"], 300, 3600⟩, 0, 2⟩
  let yesterday : Date := ⟨739617, by decide, by decide⟩
  let raw : RawObservation := ⟨"BTC", today, .eodClose, "EUR", .finite 1, none, none, none, none⟩
  let schedule : List (Bool × Answers) :=
    List.replicate 5 (false, default) ++ List.replicate 55 (true, default) ++
      [(true, { (default : Answers) with fetched := .ok [raw] })] ++
      List.replicate 12 (true, default)
  let cfg := (ServiceConfig.start (fun processing => if processing then .processing y
    else .refresh x) Table.empty approvedRegister).run semantics schedule
  have hfixed : ∀ mic venue calendar, x.calendars mic venue = .ok calendar →
      ∀ assetClass first last answer, calendar assetClass venue mic first last = .ok answer →
        ∀ check ∈ answer, check.expectation = .expectedPublished := by
    rintro mic venue calendar hcalendar assetClass first last answer hanswer check hcheck
    obtain rfl := Except.ok.inj hcalendar
    obtain rfl := Except.ok.inj hanswer
    obtain ⟨k, -, hk⟩ := List.mem_filterMap.mp hcheck
    obtain ⟨d, -, rfl⟩ := Option.map_eq_some_iff.mp hk
    rfl
  have hrun : reportsDate (cfg.thread false).prog.result? todaysDispatch.series yesterday = true ∧
      lastCompletedSession todaysDispatch.series cfg.shared.observations = some today ∧
      (∀ o ∈ cfg.shared.observations.rows, o.key ≠ todaysDispatch.series.at yesterday) ∧
      ∀ j ∈ cfg.shared.jobs.rows, j.status.ended = true := by decide +kernel
  obtain ⟨hdispatched, hlast, hstored, hended⟩ := hrun
  obtain ⟨events, r, chunk, hresult, hevent, hchunk, hd⟩ := exists_of_reportsDate hdispatched
  have haccounts : cfg.shared.Accounts todaysDispatch.series yesterday :=
    h x y (fun _ _ _ _ => .expectedPublished) approvedRegister cfg events
      todaysDispatch.series r chunk yesterday today hfixed (Config.reaches_run _ schedule) hresult
      hevent hchunk hd hlast (by decide)
  rcases haccounts with ⟨o, ho, hkey⟩ | ⟨j, hj, hlive, -⟩
  · exact hstored o ho hkey
  · rw [hended j hj] at hlive
    exact absurd hlive (by simp)

end MarketRelay
