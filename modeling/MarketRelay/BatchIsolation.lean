import MarketRelay.Rounds

/-!
# Isolation of the Jobs of a Batch

The loop over a claimed batch among other workers, with a job and without it. The loop without the
job runs among the same statements of the others, and its rounds get the same answers. As long as the
rounds go on undisturbed (`Undisturbed`), both return, and the other jobs end with the same rows and
the same observations.

## Main results

* `Scheduler.processJobs_without`: the loop with a job and without it.
* `JobQueue.claimNext_waits`: what a claimed batch looks like among other workers.
* `claim_and_process_isolated`: one failing job never affects another, in undisturbed runs.
* `claim_and_process_escapes`: the handler's own transition can raise out of the loop.
-/

open Relational Interaction Gregorian

namespace MarketRelay

/-! ### Undisturbed rounds -/

/-- The rounds of the jobs go on undisturbed. -/
def Undisturbed (workerId : String) (now : Instant) :
    List ℕ → List (Turn QueueOp Answers) → Db → Session → Prop
  | [], _, _, _ => True
  | id :: rest, turns, db, l =>
    RoundUndisturbed workerId now id rest turns db l ∧
      ∀ run ∈ Prog.advance arena turns (Scheduler.round id workerId now).run db l,
        Undisturbed workerId now rest run.2.2.2 run.2.1 run.2.2.1

instance decidableUndisturbed (workerId : String) (now : Instant) :
    (ids : List ℕ) → (turns : List (Turn QueueOp Answers)) → (db : Db) → (l : Session) →
      Decidable (Undisturbed workerId now ids turns db l)
  | [], _, _, _ => isTrue trivial
  | _ :: rest, turns, db, l =>
    have : DecidablePred fun run : Except PyError (ProcessOutcome → ProcessOutcome) × Db × Session ×
        List (Turn QueueOp Answers) => Undisturbed workerId now rest run.2.2.2 run.2.1 run.2.2.1 :=
      fun run => decidableUndisturbed workerId now rest run.2.2.2 run.2.1 run.2.2.1
    inferInstanceAs (Decidable (_ ∧ ∀ run ∈ Prog.advance arena turns _ db l, _))

/-- What the run of a batch with a job shares with the one without it: the rows of the other jobs, and
what their rounds have stored. -/
structure SameOthers (k : ℕ) (db : Db) (l : Session) (db₀ : Db) (l₀ : Session) : Prop where
  rows : ∀ id, id ≠ k → db.jobs.get? id = db₀.jobs.get? id
  /-- The round of the job has stored `own`, under natural keys of its own. -/
  stored : ∃ before own after, l.stored = before ++ own ++ after ∧ l₀.stored = before ++ after ∧
    (∀ o ∈ before ++ after, ∀ o' ∈ own, o'.key ≠ o.key) ∧
    ∀ key, (∀ o ∈ own, o.key ≠ key) →
      revisionsOf key db.observations = revisionsOf key db₀.observations

section

variable {workerId : String} {k id : ℕ} {rest : List ℕ} {before own after : List Observation}
  {db db' db₀ : Db} {l l' l₀ : Session} {now : Instant} {turns : List (Turn QueueOp Answers)}

theorem Apart.sameOthers (h : Apart workerId k rest before own after db l db₀ l₀) :
    SameOthers k db l db₀ l₀ :=
  ⟨h.jobs.rows, before, own, after, h.store.stored, h.store.stored₀, h.store.disjoint,
    h.store.revisions⟩

/-- Before the round of `k` the two runs are in the same state. -/
theorem Apart.start (hwaits : ∀ i ∈ rest, Waits workerId i db l) (hk : k ∉ rest) :
    Apart workerId k rest l.stored [] [] db l db l :=
  ⟨⟨fun _ _ => rfl, rfl, hwaits, fun _ _ => Or.inl rfl, hk⟩,
    ⟨fun _ _ => rfl, fun _ h => h, by simp, by simp, by simp⟩⟩

namespace Scheduler

/-- The rounds after that of `k` do the same in both runs. -/
theorem processJobs_both {ids : List ℕ} {outcome : ProcessOutcome} (outcome₀ : ProcessOutcome)
    {r : Except PyError ProcessOutcome}
    (h : Apart workerId k ids before own after db l db₀ l₀) (hnodup : ids.Nodup)
    (hothers : ∀ op ∈ Turn.others turns, op.Foreign workerId)
    (hrounds : Undisturbed workerId now ids turns db l)
    (hrun : Prog.finish arena turns (processJobs workerId now ids outcome).run db l =
      some (r, db', l')) :
    (∃ total, r = .ok total) ∧ ∃ turns₀ total₀ db₀' l₀',
      List.Forall₂ (Turn.Same Answers.SameButUuid) turns turns₀ ∧
      Prog.finish arena turns₀ (processJobs workerId now ids outcome₀).run db₀ l₀ =
        some (.ok total₀, db₀', l₀') ∧
      SameOthers k db' l' db₀' l₀' := by
  induction ids generalizing outcome outcome₀ turns db l db₀ l₀ after with
  | nil =>
      rw [processJobs, ExceptT.run_pure, Prog.pure_def, Prog.finish_ret, Option.some.injEq,
        Prod.mk.injEq, Prod.mk.injEq] at hrun
      obtain ⟨rfl, rfl, rfl⟩ := hrun
      refine ⟨⟨outcome, rfl⟩, turns, outcome₀, _, l₀,
        List.forall₂_same.mpr fun turn _ => .refl .refl turn, ?_, (h.actAll hothers).sameOthers⟩
      rw [processJobs, ExceptT.run_pure, Prog.pure_def, Prog.finish_ret]
  | cons id rest ih =>
      obtain ⟨hover, hnodup⟩ := List.nodup_cons.mp hnodup
      rw [processJobs_cons] at hrun
      obtain ⟨a, db₁, l₁, turns₁, hround⟩ := Script.exists_of_finish_bind hrun
      obtain ⟨used, used₀, count, db₁₀, l₁₀, after₁, rfl, rfl, hused, hround₀, hapart⟩ :=
        round_both h hover hothers hrounds.1 hround
      rw [Script.finish_bind hround] at hrun
      obtain ⟨hr, turns₀, total₀, db₀', l₀', hturns, hend, hsame⟩ :=
        ih (count outcome₀) hapart hnodup (fun op hop => hothers op (by
          rw [Turn.others_append]; exact List.mem_append_right _ hop)) (hrounds.2 _ hround) hrun
      refine ⟨hr, used₀ ++ turns₀, total₀, db₀', l₀', List.rel_append hused hturns, ?_, hsame⟩
      rw [processJobs_cons, Script.finish_bind (hround₀ turns₀)]
      exact hend

/-- **The loop with a job and without it**: both return, and the other jobs end alike. -/
theorem processJobs_without {pre post : List ℕ} {outcome : ProcessOutcome} (outcome₀ : ProcessOutcome)
    {r : Except PyError ProcessOutcome} (hnodup : (pre ++ k :: post).Nodup)
    (hwaits : ∀ i ∈ pre ++ k :: post, Waits workerId i db l)
    (hothers : ∀ op ∈ Turn.others turns, op.Foreign workerId)
    (hrounds : Undisturbed workerId now (pre ++ k :: post) turns db l)
    (hrun : Prog.finish arena turns (processJobs workerId now (pre ++ k :: post) outcome).run db l =
      some (r, db', l')) :
    (∃ total, r = .ok total) ∧ ∃ turns₀ total₀ db₀' l₀',
      Turn.Skips Answers.SameButUuid turns turns₀ ∧
      Prog.finish arena turns₀ (processJobs workerId now (pre ++ post) outcome₀).run db l =
        some (.ok total₀, db₀', l₀') ∧
      SameOthers k db' l' db₀' l₀' := by
  induction pre generalizing outcome outcome₀ turns db l with
  | nil =>
      obtain ⟨hk, hnodup⟩ := List.nodup_cons.mp hnodup
      rw [List.nil_append, processJobs_cons] at hrun
      obtain ⟨a, db₁, l₁, turns₁, hround⟩ := Script.exists_of_finish_bind hrun
      obtain ⟨used, count, own, rfl, rfl, hapart⟩ :=
        round_alone (Apart.start (fun i hi => hwaits i (List.mem_cons_of_mem _ hi)) hk)
          (hwaits k List.mem_cons_self).known hothers hrounds.1 hround
      rw [Script.finish_bind hround] at hrun
      obtain ⟨hr, turns₀, total₀, db₀', l₀', hturns, hend, hsame⟩ :=
        processJobs_both outcome₀ hapart hnodup (fun op hop => hothers op (by
          rw [Turn.others_append]; exact List.mem_append_right _ hop)) (hrounds.2 _ hround) hrun
      refine ⟨hr, (Turn.others used).map .other ++ turns₀, total₀, db₀', l₀',
        ⟨[], used, turns₁, turns₀, rfl, rfl, hturns⟩, ?_, hsame⟩
      rw [List.nil_append, Prog.finish_map_other]
      exact hend
  | cons id pre ih =>
      rw [List.cons_append] at hnodup hwaits hrounds hrun
      obtain ⟨hover, hnodup⟩ := List.nodup_cons.mp hnodup
      have hknown := (hwaits id List.mem_cons_self).known
      have hrest := fun i hi => hwaits i (List.mem_cons_of_mem id hi)
      rw [processJobs_cons] at hrun
      obtain ⟨a, db₁, l₁, turns₁, hround⟩ := Script.exists_of_finish_bind hrun
      obtain ⟨-, count, -, -, rfl, -⟩ :=
        round_alone (Apart.start hrest hover) hknown hothers hrounds.1 hround
      obtain ⟨-, hwaits₁⟩ := round_concerns.advance hothers hround hknown hover hrest
      obtain ⟨used, rfl, hround₀⟩ := Prog.exists_used hround
      rw [Script.finish_bind hround] at hrun
      obtain ⟨hr, turns₀, total₀, db₀', l₀', hturns, hend, hsame⟩ :=
        ih (count outcome₀) hnodup hwaits₁ (fun op hop => hothers op (by
          rw [Turn.others_append]; exact List.mem_append_right _ hop)) (hrounds.2 _ hround) hrun
      refine ⟨hr, used ++ turns₀, total₀, db₀', l₀', hturns.append used, ?_, hsame⟩
      rw [List.cons_append, processJobs_cons, Script.finish_bind (hround₀ turns₀)]
      exact hend

end Scheduler

end

/-! ### The claim of the batch -/

/-- What is known while a batch is claimed: candidates that exist, and the jobs claimed so far. -/
structure Claiming where
  candidates : List ℕ
  claimed : List ℕ

/-- The commands that claim a batch. -/
def Cmd.Claims : Cmd → Claiming → Prop
  | update (.claim id ..), g => id ∉ g.claimed
  | update (.recoverExpired ..), g | update (.promoteDueWaiting _), g => g.claimed = []
  | load id, g => id ∈ g.candidates
  | commit, _ | selectCandidates .., _ => True
  | _, _ => False

/-- What they make known. -/
def Cmd.Claimed : (c : Cmd) → Claiming → c.Resp → Claiming → Prop
  | selectCandidates .., g, ids, g' => ids.Nodup ∧ g' = ⟨ids, g.claimed⟩
  | load id, g, r, g' => (∃ j, r = some j ∧ j.id = id) ∧ g' = ⟨g.candidates, g.claimed ++ [id]⟩
  | _, g, _, g' => g' = g

namespace JobQueue

variable {workerId : String} {now : Instant}

/-- The loop claims every job at most once, and never fails. -/
theorem claimLoop_claims {limit : ℕ} {ids claimed : List ℕ} {g : Claiming}
    (hids : ids ⊆ g.candidates) (hclaimed : g.claimed = claimed) (hnodup : (claimed ++ ids).Nodup) :
    Script.Meets ⟨Cmd.Claims, Cmd.Claimed⟩ (claimLoop workerId now limit ids claimed)
      (fun batch g' => batch.Nodup ∧ g'.claimed = batch) (fun _ _ => False) g := by
  induction ids generalizing claimed g with
  | nil =>
      rw [claimLoop]
      rw [List.append_nil] at hnodup
      exact ⟨hnodup, hclaimed⟩
  | cons id rest ih =>
      obtain ⟨hid, hrest⟩ := List.cons_subset.mp hids
      have hnew : id ∉ claimed := fun h =>
        List.disjoint_of_nodup_append hnodup h List.mem_cons_self
      rw [claimLoop]
      split
      · exact ⟨hnodup.sublist (List.sublist_append_left _ _), hclaimed⟩
      · rw [Script.meets_bind, tryClaimOne, Script.meets_bind, meets_issue]
        have hclaims : (Cmd.update (.claim id workerId now)).Claims g := by
          rw [← hclaimed] at hnew
          exact hnew
        refine ⟨hclaims, ?_⟩
        rintro rowcount _ rfl
        rw [Script.meets_bind, meets_issue]
        refine ⟨trivial, ?_⟩
        rintro _ _ rfl
        split
        · exact ih hrest hclaimed (hnodup.sublist ((List.sublist_cons_self _ _).append_left _))
        · rw [Script.meets_bind, meets_issue]
          refine ⟨hid, ?_⟩
          rintro _ _ ⟨⟨j, rfl, rfl⟩, rfl⟩
          refine ih hrest (by rw [hclaimed]) ?_
          rwa [List.append_assoc]

/-- The claim of a batch among other workers never fails. -/
theorem claimNext_claims {source : Option String} {limit : ℕ} {leaseSeconds : ℤ} {g : Claiming}
    (hg : g.claimed = []) :
    Script.Meets ⟨Cmd.Claims, Cmd.Claimed⟩ (claimNext workerId now source limit leaseSeconds)
      (fun batch g' => batch.Nodup ∧ g'.claimed = batch) (fun _ _ => False) g := by
  have hsweep : ∀ op, (Cmd.update op).Claims g → (∀ r g', (Cmd.update op).Claimed g r g' → g' = g) →
      Script.Meets ⟨Cmd.Claims, Cmd.Claimed⟩ (do
        let rowcount ← issue (.update op)
        issue .commit
        return rowcount : App ℕ) (fun _ g' => g' = g) (fun _ _ => False) g := by
    intro op hop hkeep
    rw [Script.meets_bind, meets_issue]
    refine ⟨hop, fun rowcount g' hg' => ?_⟩
    obtain rfl := hkeep rowcount g' hg'
    rw [Script.meets_bind, meets_issue]
    exact ⟨trivial, fun _ _ h => h⟩
  rw [claimNext, Script.meets_bind]
  refine (hsweep (.recoverExpired now leaseSeconds) hg fun _ _ h => h).mono ?_ fun _ _ h => h
  rintro _ _ rfl
  rw [Script.meets_bind]
  refine (hsweep (.promoteDueWaiting now) hg fun _ _ h => h).mono ?_ fun _ _ h => h
  rintro _ _ rfl
  rw [Script.meets_bind, meets_issue]
  refine ⟨trivial, ?_⟩
  rintro ids _ ⟨hnodup, rfl⟩
  exact claimLoop_claims (List.Subset.refl _) hg hnodup

end JobQueue

/-- While a batch is claimed, its candidates exist and its jobs await their rounds. -/
structure ClaimingIn (workerId : String) (db : Db) (l : Session) (g : Claiming) : Prop where
  exist : ∀ id ∈ g.candidates, ∃ j, db.jobs.get? id = some j
  waits : ∀ id ∈ g.claimed, Waits workerId id db l

section

variable {workerId : String} {db db' : Db} {l l' : Session} {g : Claiming}

theorem ClaimingIn.act (h : ClaimingIn workerId db l g) {op : QueueOp} (hop : op.Foreign workerId) :
    ClaimingIn workerId (arena.act op db) l g where
  exist id hid := by
    obtain ⟨j, hj⟩ := h.exist id hid
    exact ⟨op.row j, by rw [get?_act, hj, Option.map_some]⟩
  waits id hid := (h.waits id hid).other hop

theorem ClaimingIn.exec (h : ClaimingIn workerId db l g) {c : Cmd} (hc : c.Claims g) (e : Answers) :
    ∃ g', c.Claimed g (exec c e db l).1 g' ∧
      ClaimingIn workerId (exec c e db l).2.1 (exec c e db l).2.2 g' := by
  have hexist : ∀ id ∈ g.candidates, ∃ j, (MarketRelay.exec c e db l).2.1.jobs.get? id = some j := by
    intro id hid
    obtain ⟨j, hj⟩ := h.exist id hid
    exact ⟨c.row j, get?_exec hj⟩
  cases c with
  | update op =>
      refine ⟨g, rfl, hexist, fun id hid => ?_⟩
      cases op with
      | claim i w now =>
          exact (h.waits id hid).own (c := .update (.claim i w now)) rfl
            (ne_of_mem_of_not_mem hid hc) e
      | recoverExpired | promoteDueWaiting =>
          have hempty : g.claimed = [] := hc
          rw [hempty] at hid
          exact absurd hid List.not_mem_nil
      | owned => exact hc.elim
  | load i =>
      obtain ⟨j, hj⟩ := h.exist i hc
      have hid : j.id = i := (Table.get?_eq_some_iff.mp hj).2
      refine ⟨⟨g.candidates, g.claimed ++ [i]⟩, ⟨⟨j, hj, hid⟩, rfl⟩, hexist, fun id hid' => ?_⟩
      by_cases heq : id = i
      · subst heq
        refine ⟨j, hj, fun copy hcopy => ?_⟩
        simp only [MarketRelay.exec, Function.update_self, hj] at hcopy
        obtain rfl := Option.some.inj hcopy
        exact ⟨.refl j, Or.inl rfl⟩
      · rcases List.mem_append.mp hid' with hold | hnew
        · exact (h.waits id hold).own (c := .load i) rfl heq e
        · exact absurd (List.mem_singleton.mp hnew) heq
  | selectCandidates now source limit =>
      refine ⟨⟨_, g.claimed⟩, ⟨nodup_selectCandidates .., rfl⟩, fun id hid => ?_, h.waits⟩
      obtain ⟨j, hj, -⟩ := mem_selectCandidates hid
      exact ⟨j, hj⟩
  | commit => exact ⟨g, rfl, h.exist, h.waits⟩
  | _ => exact hc.elim

/-- **A claimed batch among other workers**: every job is claimed once, and its copy is its row
unless the claim has been lost already. -/
theorem JobQueue.claimNext_waits {now : Instant} {source : Option String} {limit : ℕ}
    {leaseSeconds : ℤ} {turns turns' : List (Turn QueueOp Answers)} {r : Except PyError (List ℕ)}
    (hothers : ∀ op ∈ Turn.others turns, op.Foreign workerId)
    (hrun : Prog.advance arena turns (claimNext workerId now source limit leaseSeconds).run db l =
      some (r, db', l', turns')) :
    ∃ ids, r = .ok ids ∧ ids.Nodup ∧ ∀ id ∈ ids, Waits workerId id db' l' := by
  obtain ⟨g, hbatch, hclaiming⟩ := Prog.Meets.advance
    (O := QueueOp.Foreign workerId) (I := ClaimingIn workerId)
    (fun c e db l g hc _ h => h.exec hc e) (fun op db l g hop h => h.act hop)
    (claimNext_claims (g := ⟨[], []⟩) rfl) hrun hothers (Prog.along_true _)
    ⟨fun id hid => absurd hid List.not_mem_nil, fun id hid => absurd hid List.not_mem_nil⟩
  rcases r with e | ids
  · exact hbatch.elim
  · exact ⟨ids, rfl, hbatch.1, fun id hid => hclaiming.waits id (hbatch.2.symm ▸ hid)⟩

end

/-! ### The batch -/

/-- The rounds of the batch that is claimed go on undisturbed. -/
def BatchUndisturbed (settings : Settings) (now : Instant) (batchSize : ℕ) (workerId : String)
    (turns : List (Turn QueueOp Answers)) (db : Db) (l : Session) : Prop :=
  ∀ run ∈ Prog.advance arena turns
    (JobQueue.claimNext workerId now none batchSize settings.jobLeaseSeconds).run db l,
    ∀ ids ∈ run.1.toOption, Undisturbed workerId now ids run.2.2.2 run.2.1 run.2.2.1

instance (settings : Settings) (now : Instant) (batchSize : ℕ) (workerId : String)
    (turns : List (Turn QueueOp Answers)) (db : Db) (l : Session) :
    Decidable (BatchUndisturbed settings now batchSize workerId turns db l) :=
  inferInstanceAs (Decidable (∀ run ∈ Prog.advance arena turns _ db l, _))

/-- **One failing job never affects another**: in a batch whose rounds go on undisturbed, among any
statements of other workers, no exception leaves the loop. For every job of the batch, the loop
without it, among the same statements and with the same answers, returns as well, and the other jobs
end with the same rows and the same stored observations. What the session stores is counted from the
claim of the batch on. -/
theorem claim_and_process_isolated {settings : Settings} {now : Instant} {batchSize : ℕ}
    {workerId : String} {turns : List (Turn QueueOp Answers)} {db db' : Db} {l l' : Session}
    {result : Except PyError ProcessOutcome}
    (hothers : ∀ op ∈ Turn.others turns, op.Foreign workerId)
    (hrounds : BatchUndisturbed settings now batchSize workerId turns db { l with stored := [] })
    (hrun : Prog.finish arena turns
      (Scheduler.claimAndProcess settings now batchSize workerId).run db { l with stored := [] } =
        some (result, db', l')) :
    (∃ outcome, result = .ok outcome) ∧ ∃ ids db₁ l₁ rest,
      Prog.advance arena turns
        (JobQueue.claimNext workerId now none batchSize settings.jobLeaseSeconds).run db
        { l with stored := [] } = some (.ok ids, db₁, l₁, rest) ∧
      ∀ pre k post, ids = pre ++ k :: post → ∃ rest₀ outcome₀ db₀ l₀,
        Turn.Skips Answers.SameButUuid rest rest₀ ∧
        Prog.finish arena rest₀ (Scheduler.processJobs workerId now (pre ++ post)
          (.start (pre ++ post).length)).run db₁ l₁ = some (.ok outcome₀, db₀, l₀) ∧
        SameOthers k db' l' db₀ l₀ := by
  rw [Scheduler.claimAndProcess] at hrun
  obtain ⟨r, db₁, l₁, rest, hclaim⟩ := Script.exists_of_finish_bind hrun
  obtain ⟨ids, rfl, hnodup, hwaits⟩ := JobQueue.claimNext_waits hothers hclaim
  rw [Script.finish_bind hclaim] at hrun
  obtain ⟨used, rfl, -⟩ := Prog.exists_used hclaim
  have hothers₁ : ∀ op ∈ Turn.others rest, op.Foreign workerId := fun op hop =>
    hothers op (by rw [Turn.others_append]; exact List.mem_append_right _ hop)
  have hrounds₁ : Undisturbed workerId now ids rest db₁ l₁ := hrounds _ hclaim ids rfl
  refine ⟨?_, ids, db₁, l₁, rest, hclaim, ?_⟩
  · cases ids with
    | nil =>
        rw [Scheduler.processJobs, ExceptT.run_pure, Prog.pure_def, Prog.finish_ret,
          Option.some.injEq, Prod.mk.injEq] at hrun
        exact ⟨_, hrun.1.symm⟩
    | cons k post =>
        have hnodup' : ([] ++ k :: post).Nodup := hnodup
        exact (Scheduler.processJobs_without (.start 0) hnodup' hwaits hothers₁ hrounds₁ hrun).1
  · rintro pre k post rfl
    exact (Scheduler.processJobs_without _ hnodup hwaits hothers₁ hrounds₁ hrun).2

/-! ### Runs on concrete tables -/

/-- A due job of an approved source for one day. -/
def batchJob (id : ℕ) (listing : String) : Job :=
  newJob ⟨"fetch_range", "fake", listing, some id,
    some (FetchCursor.serialize ⟨listing, "default", .eodClose, today, today⟩), 0, 5⟩ id 0

def batchDb : Db :=
  ⟨⟨[batchJob 1 "BTC", batchJob 2 "ETH"], by decide⟩, Table.empty, approvedRegister⟩

/-- The adapter of the first job cannot be resolved: the claim of the batch, and the first round up
to there. -/
def batchUnresolved : List (Turn QueueOp Answers) :=
  List.replicate 12 (.own default) ++
    [.own { (default : Answers) with port := .error (.adapter "KeyError" "fake") }]

/-- The handler fails the first job, which another worker then claims, and the second is served. -/
def batchServed : List (Turn QueueOp Answers) :=
  let row : RawObservation :=
    ⟨"ETH", today, .eodClose, "EUR", .finite 1, none, none, none, none⟩
  batchUnresolved ++ List.replicate 6 (.own default) ++
    .other (.claim 1 "other" (seconds 600)) ::
    List.replicate 30 (.own { (default : Answers) with fetched := .ok [row] })

/-- Both claims are recovered, and the first job is claimed anew, before the handler fails it. -/
def batchRecovered : List (Turn QueueOp Answers) :=
  batchUnresolved ++ [.other (.recoverExpired (seconds 600) 300),
    .other (.claim 1 "other" (seconds 600))] ++ List.replicate 30 (.own default)

/-- The job that is served stores the same observation as without the job that fails. -/
theorem claim_and_process_isolated_twice :
    let batch := Scheduler.claimAndProcess ⟨["fake"], 300, 3600⟩ 0 2 Scheduler.workerId
    ∃ outcome db' l', Prog.finish arena batchServed batch.run batchDb Session.new =
        some (.ok outcome, db', l') ∧ l'.stored.length = 1 ∧
      ∃ db₁ l₁ rest rest₀ outcome₀ db₀ l₀, Turn.Skips Answers.SameButUuid rest rest₀ ∧
        Prog.finish arena rest₀ (Scheduler.processJobs Scheduler.workerId 0 [2] (.start 1)).run db₁
          l₁ = some (.ok outcome₀, db₀, l₀) ∧
        SameOthers 1 db' l' db₀ l₀ := by
  intro batch
  obtain ⟨⟨result, db', l'⟩, hrun⟩ : ∃ run,
      Prog.finish arena batchServed batch.run batchDb Session.new = some run :=
    Option.isSome_iff_exists.mp (by decide +kernel)
  have hstored : (Prog.finish arena batchServed batch.run batchDb Session.new).map
      (fun run => run.2.2.stored.length) = some 1 := by decide +kernel
  have hclaimed : (Prog.advance arena batchServed (JobQueue.claimNext Scheduler.workerId 0 none 2
      300).run batchDb Session.new).map (fun run => run.1.toOption) = some (some [1, 2]) := by
    decide +kernel
  obtain ⟨⟨outcome, rfl⟩, ids, db₁, l₁, rest, hclaim, hwithout⟩ :=
    claim_and_process_isolated (l := Session.new) (by decide +kernel) (by decide +kernel) hrun
  have hclaim' : Prog.advance arena batchServed (JobQueue.claimNext Scheduler.workerId 0 none 2
      300).run batchDb Session.new = some (.ok ids, db₁, l₁, rest) := hclaim
  rw [hrun] at hstored
  rw [hclaim'] at hclaimed
  obtain rfl : ids = [1, 2] := Option.some.inj (Option.some.inj hclaimed)
  obtain ⟨rest₀, outcome₀, db₀, l₀, hskips, hrun₀, hsame⟩ := hwithout [] 1 [2] rfl
  exact ⟨outcome, db', l', hrun, Option.some.inj hstored, db₁, l₁, rest, rest₀, outcome₀, db₀, l₀,
    hskips, hrun₀, hsame⟩

/-- **An exception of one job leaves the loop**: the handler's own transition raises a stale claim
when the job has been recovered and claimed anew in the meantime. -/
theorem claim_and_process_escapes :
    ¬ ∀ (settings : Settings) (now : Instant) (batchSize : ℕ) (workerId : String)
      (turns : List (Turn QueueOp Answers)) (db db' : Db) (l' : Session)
      (result : Except PyError ProcessOutcome), (∀ op ∈ Turn.others turns, op.Foreign workerId) →
      Prog.finish arena turns (Scheduler.claimAndProcess settings now batchSize workerId).run db
        Session.new = some (result, db', l') → ∃ outcome, result = .ok outcome := by
  intro h
  let batch := Scheduler.claimAndProcess ⟨["fake"], 300, 3600⟩ 0 2 Scheduler.workerId
  obtain ⟨⟨result, db', l'⟩, hrun⟩ : ∃ run,
      Prog.finish arena batchRecovered batch.run batchDb Session.new = some run :=
    Option.isSome_iff_exists.mp (by decide +kernel)
  have hraised : (Prog.finish arena batchRecovered batch.run batchDb Session.new).map
      (fun run => run.1) = some (.error (.staleJobClaim 1 (some 1) Scheduler.workerId)) := by
    decide +kernel
  obtain ⟨outcome, rfl⟩ := h _ _ _ _ batchRecovered batchDb db' l' result (by decide +kernel) hrun
  rw [hrun] at hraised
  exact absurd (Option.some.inj hraised) (by simp)

end MarketRelay
