import MarketRelay.LostClaims

/-!
# Rounds With and Without Another

A round of the loop in two runs, in the first of which the job `k` has had a round before. As long as
the session's copies of the round's job agree, the commands of the round get the same responses in
both (`Alike`). The copies differ when a transition of `k` has been refused, since a refused
transition makes the session forget every copy: the round with `k` then reads the row as it is, and
the round without `k` the copy from when the job was claimed. That makes no difference for a job that
is still the worker's, whose copy is its row; and a job that is lost comes to nothing in both, unless
one of the two is pending, which the round would claim again.

A round ends in its own failure when the handler fails the job: the transition raises a stale claim
if the job has been lost by then (`Cmd.Accepted`).

## Main results

* `Scheduler.round_alone`: the round of `k` keeps the two states apart.
* `Scheduler.round_both`: another round does the same in both.
-/

open Relational Interaction Gregorian

namespace MarketRelay

/-! ### What a round knows of its job -/

/-- The job exists, and the copy of it that the session has bears its identifier. -/
structure Known (id : ℕ) (db : Db) (l : Session) : Prop where
  row : ∃ j, db.jobs.get? id = some j
  copy : ∀ c ∈ l.cache id, c.id = id

section

variable {id : ℕ} {workerId : String} {db : Db} {l : Session}

theorem Waits.known (h : Waits workerId id db l) : Known id db l := by
  obtain ⟨j, hj, hcopy⟩ := h
  exact ⟨⟨j, hj⟩, fun c hc => (hcopy c hc).copy.id.trans (Table.get?_eq_some_iff.mp hj).2⟩

namespace Known

theorem act (h : Known id db l) (op : QueueOp) : Known id (arena.act op db) l := by
  obtain ⟨j, hj⟩ := h.row
  exact ⟨⟨op.row j, by rw [get?_act, hj, Option.map_some]⟩, h.copy⟩

theorem exec (h : Known id db l) {c : Cmd} (hc : c.Concerns id) (e : Answers) :
    Known id (exec c e db l).2.1 (exec c e db l).2.2 := by
  obtain ⟨j, hj⟩ := h.row
  refine ⟨⟨c.row j, by rw [hc.get?_exec, hj, Option.map_some]⟩, fun copy hcopy => ?_⟩
  rcases cache_exec hcopy with hcopy | hrow
  · exact h.copy copy hcopy
  · exact (Table.get?_eq_some_iff.mp hrow).2

/-- A read of the job finds it. -/
theorem read (h : Known id db l) : ∃ c, l.read db.jobs id = some c ∧ c.id = id := by
  obtain ⟨j, hj⟩ := h.row
  cases hc : l.cache id with
  | none => exact ⟨j, by rw [Session.read, hc, hj]; rfl, (Table.get?_eq_some_iff.mp hj).2⟩
  | some c => exact ⟨c, by rw [Session.read, hc]; rfl, h.copy c hc⟩

/-- Reads are answered by name. -/
theorem names (h : Known id db l) {c : Cmd} (hc : c.Concerns id) (e : Answers) :
    c.Names (MarketRelay.exec c e db l).1 := by
  cases c with
  | attributes i =>
      obtain rfl : i = id := hc
      obtain ⟨j, hj, hid⟩ := h.read
      intro j' hj'
      obtain rfl : j = j' := Option.some.inj (hj.symm.trans hj')
      exact hid
  | load i =>
      obtain rfl : i = id := hc
      exact fun j hj => (Table.get?_eq_some_iff.mp hj).2
  | _ => trivial

end Known

end

/-! ### The end of a round -/

/-- The update changes one row. -/
def Cmd.Accepted : Cmd → Db → Prop
  | update op, db => op.rowcount db.jobs = 1
  | _, _ => True

instance (c : Cmd) (db : Db) : Decidable (c.Accepted db) := by
  cases c <;> unfold Cmd.Accepted <;> infer_instance

/-- The commands that end a round whose transition is accepted. -/
def Cmd.Settles (id : ℕ) (workerId : String) : Cmd → Prop
  | update (.owned i w ..) => i = id ∧ w = workerId
  | attributes i | generation i | expire i => i = id
  | _ => False

/-- Reads find the job, and the row count of an update is acceptable. -/
def Cmd.Finds (acceptable : ℕ → Prop) : (c : Cmd) → c.Resp → Prop
  | update _, rowcount => acceptable rowcount
  | attributes _, r | generation _, r => r.isSome = true
  | _, _ => True

/-- The contract of the end of a round. -/
def settleContract (id : ℕ) (workerId : String) (acceptable : ℕ → Prop) :
    Contract Cmd Cmd.Resp Unit :=
  ⟨fun c _ => c.Settles id workerId, fun c _ r _ => c.Names r ∧ c.Finds acceptable r⟩

section

variable {c : Cmd} {id : ℕ} {workerId : String} {acceptable : ℕ → Prop}

theorem Cmd.Settles.concerns (h : c.Settles id workerId) : c.Concerns id := by
  cases c with
  | update op => cases op <;> first | exact h.1 | exact h.elim
  | attributes i | generation i | expire i => exact h
  | _ => exact h.elim

/-- It concerns no observation. -/
theorem Cmd.Settles.avoids (h : c.Settles id workerId) (stored : List Observation) :
    c.Avoids stored := by
  cases c with
  | selectRevision | insertObservation => exact h.elim
  | _ => exact fun key hkey => absurd hkey (by simp [Cmd.key?])

/-- It does not make the session forget the other jobs. -/
theorem Cmd.Settles.spares (h : c.Settles id workerId) (rest : List ℕ) (l : Session) :
    c.Spares rest l := by
  rintro rfl
  exact h.elim

theorem Known.finds {db : Db} {l : Session} (h : Known id db l) (hc : c.Settles id workerId)
    (hupdate : ∀ op, c = .update op → acceptable (op.rowcount db.jobs)) (e : Answers) :
    c.Finds acceptable (MarketRelay.exec c e db l).1 := by
  obtain ⟨j, hj, -⟩ := h.read
  cases c with
  | update op => exact hupdate op rfl
  | attributes i =>
      obtain rfl : i = id := hc
      exact Option.isSome_iff_exists.mpr ⟨j, hj⟩
  | generation i =>
      obtain rfl : i = id := hc
      refine Option.isSome_iff_exists.mpr ⟨j.generation, ?_⟩
      rw [MarketRelay.exec, hj, Option.map_some]
  | _ => trivial

variable {α : Type} {Q : α → Unit → Prop} {X : PyError → Unit → Prop}

/-- What follows a read of the job is about a row with its identifier. -/
theorem attributes_settles {f : Job → App α}
    (hf : ∀ j, j.id = id → Script.Meets (settleContract id workerId acceptable) (f j) Q X ()) :
    Script.Meets (settleContract id workerId acceptable) (attributes id >>= f) Q X () := by
  rw [attributes, bind_assoc, Script.meets_bind, meets_issue]
  refine ⟨rfl, fun r _ hr => ?_⟩
  obtain ⟨hnames, hfinds⟩ := hr
  cases r with
  | none => exact absurd hfinds Bool.false_ne_true
  | some j => exact hf j (hnames j rfl)

theorem generation_settles {f : ℕ → App α}
    (hf : ∀ n, Script.Meets (settleContract id workerId acceptable) (f n) Q X ()) :
    Script.Meets (settleContract id workerId acceptable) (generation id >>= f) Q X () := by
  rw [generation, bind_assoc, Script.meets_bind, meets_issue]
  refine ⟨rfl, fun r _ hr => ?_⟩
  obtain ⟨-, hfinds⟩ := hr
  cases r with
  | none => exact absurd hfinds Bool.false_ne_true
  | some n => exact hf n

/-- A transition returns when it changes the row. -/
theorem JobQueue.ownedTransition_settles (hone : ∀ n, acceptable n → n = 1) {n : ℕ}
    {w : Transition} :
    Script.Meets (settleContract id workerId acceptable) (ownedTransition id workerId n w)
      (fun _ _ => ∃ n, acceptable n) (fun _ _ => False) () := by
  rw [ownedTransition]
  refine attributes_settles fun j hj => ?_
  rw [hj, Script.meets_bind, meets_issue]
  refine ⟨⟨rfl, rfl⟩, fun rowcount _ hrowcount => ?_⟩
  have hacceptable : acceptable rowcount := hrowcount.2
  rw [if_neg (not_not.mpr (hone rowcount hacceptable)), meets_issue]
  exact ⟨rfl, fun _ _ _ => ⟨rowcount, hacceptable⟩⟩

/-- **The end of a round**: the counters are changed, and where that takes a transition its row count
is acceptable. -/
theorem Scheduler.settle_settles (hone : ∀ n, acceptable n → n = 1) {now : Instant}
    (r : Except PyError JobOutcome) :
    Script.Meets (settleContract id workerId acceptable) (settle id workerId now r)
      (fun _ _ => ∀ e, r = .error e → e.isStaleJobClaim = false → ∃ n, acceptable n)
      (fun _ _ => False) () := by
  rcases r with e | result <;> rw [settle]
  · split
    · rename_i hstale
      intro e' he' hfalse
      obtain rfl := Except.error.inj he'
      rw [hfalse] at hstale
      exact absurd hstale Bool.false_ne_true
    · refine generation_settles fun n => ?_
      rw [JobQueue.markFailed, bind_assoc]
      refine attributes_settles fun job _ => Script.meets_bind.mpr ?_
      refine (JobQueue.ownedTransition_settles hone).mono (fun _ _ haccepted => ?_) fun _ _ h => h
      exact attributes_settles fun job _ _ _ _ => haccepted
  · split
    · exact fun _ he => absurd he (by simp)
    · exact attributes_settles fun job _ _ he => absurd he (by simp)

end

/-! ### What is asked of a round -/

/-- A round that goes on undisturbed, while the jobs of `rest` await theirs. -/
structure RoundUndisturbed (workerId : String) (now : Instant) (id : ℕ) (rest : List ℕ)
    (turns : List (Turn QueueOp Answers)) (db : Db) (l : Session) : Prop where
  /-- A job of which the session has been made to forget its copy is not pending when its round
  starts. -/
  claimed : l.cache id = none →
    ∀ j ∈ (arena.actAll (Turn.leading turns) db).jobs.get? id, j.status ≠ .pending
  /-- The round stays clear of the natural keys that earlier rounds have stored under, and makes the
  session forget no copy of a waiting job that is pending. -/
  tried : Prog.Along arena (fun c _ l' => c.Avoids l.stored ∧ c.Spares rest l') turns
    (Scheduler.runJob id workerId now).run db l
  /-- The transition of the handler finds the claim still held. -/
  settled : ∀ run ∈ Prog.advance arena turns (Scheduler.runJob id workerId now).run db l,
    Prog.Along arena (fun c db _ => c.Accepted db) run.2.2.2
      (Scheduler.settle id workerId now run.1).run run.2.1 run.2.2.1

instance (workerId : String) (now : Instant) (id : ℕ) (rest : List ℕ)
    (turns : List (Turn QueueOp Answers)) (db : Db) (l : Session) :
    Decidable (RoundUndisturbed workerId now id rest turns db l) :=
  decidable_of_iff (_ ∧ _ ∧ _)
    ⟨fun h => ⟨h.1, h.2.1, h.2.2⟩, fun h => ⟨h.claimed, h.tried, h.settled⟩⟩

/-! ### The same round in two runs -/

/-- Two states from an additional round for `k` or none, in which the session's copies of another job
agree. -/
structure Alike (workerId : String) (k : ℕ) (rest : List ℕ) (before own : List Observation)
    (id : ℕ) (db : Db) (l : Session) (db₀ : Db) (l₀ : Session) : Prop where
  apart : ∃ after, Apart workerId k rest before own after db l db₀ l₀
  cache : l.cache id = l₀.cache id
  known : Known id db l
  other : id ≠ k
  past : id ∉ rest

section

variable {workerId : String} {k id : ℕ} {rest : List ℕ} {before own : List Observation}
  {db db₀ : Db} {l l₀ : Session} {now : Instant}

theorem Alike.act (h : Alike workerId k rest before own id db l db₀ l₀) {op : QueueOp}
    (hop : op.Foreign workerId) :
    Alike workerId k rest before own id (arena.act op db) l (arena.act op db₀) l₀ := by
  obtain ⟨after, hapart⟩ := h.apart
  exact ⟨⟨after, hapart.act hop⟩, h.cache, h.known.act op, h.other, h.past⟩

/-- A command of the round gets the same response in both runs. -/
theorem Alike.exec (h : Alike workerId k rest before own id db l db₀ l₀) {c : Cmd}
    (hc : c.Concerns id) (havoid : c.Avoids own) (e : Answers) :
    ∃ e₀, e.SameButUuid e₀ ∧ (exec c e₀ db₀ l₀).1 = (exec c e db l).1 ∧
      Alike workerId k rest before own id (exec c e db l).2.1 (exec c e db l).2.2
        (exec c e₀ db₀ l₀).2.1 (exec c e₀ db₀ l₀).2.2 := by
  obtain ⟨after, hapart⟩ := h.apart
  obtain ⟨e₀, after', he, hresp, hapart', hcache⟩ :=
    hapart.both h.other h.past h.cache hc havoid e
  exact ⟨e₀, he, hresp, ⟨after', hapart'⟩, hcache, h.known.exec hc e, h.other, h.past⟩

/-- The job stays known, and the jobs that wait go on waiting. -/
theorem App.Concerns.advance {α : Type} {x : App α} (hx : App.Concerns id x)
    {turns turns' : List (Turn QueueOp Answers)} {r : Except PyError α} {db' : Db} {l' : Session}
    (hothers : ∀ op ∈ Turn.others turns, op.Foreign workerId)
    (hrun : Prog.advance arena turns x.run db l = some (r, db', l', turns')) (hknown : Known id db l)
    (hover : id ∉ rest) (hwaits : ∀ i ∈ rest, Waits workerId i db l) :
    Known id db' l' ∧ ∀ i ∈ rest, Waits workerId i db' l' := by
  obtain ⟨_, -, hend⟩ := Prog.Meets.advance (O := QueueOp.Foreign workerId)
    (I := fun db l _ => Known id db l ∧ ∀ i ∈ rest, Waits workerId i db l)
    (fun c e db l _ hc _ h => ⟨(), h.1.names hc e, h.1.exec hc e, fun i hi =>
      (h.2 i hi).own hc (ne_of_mem_of_not_mem hi hover) e⟩)
    (fun op db l _ hop h => ⟨h.1.act op, fun i hi => (h.2 i hi).other hop⟩)
    (hx () trivial) hrun hothers (Prog.along_true _) ⟨hknown, hwaits⟩
  exact hend

/-- A part of the round does the same in both runs. -/
theorem App.Concerns.coupled {α : Type} {x : App α} (hx : App.Concerns id x)
    {ok : Cmd → Db → Session → Prop} (hok : ∀ c db l, ok c db l → c.Avoids own) :
    Prog.Coupled (comparison workerId ok) (Alike workerId k rest before own id) x.run x.run
      fun r r₀ db l db₀ l₀ => r = r₀ ∧ Alike workerId k rest before own id db l db₀ l₀ := by
  refine Prog.Coupled.mono (Prog.Meets.coupled (M := comparison workerId ok) (hx () trivial)
    (J := fun db l db₀ l₀ _ => Alike workerId k rest before own id db l db₀ l₀)
    (fun op _ _ _ _ _ hop h => h.act hop) fun c e db l db₀ l₀ _ hc hc' h => ?_)
    (fun _ _ _ _ h => h) fun r r₀ db l db₀ l₀ hsame => ?_
  · obtain ⟨e₀, he, hresp, halike⟩ := h.exec hc (hok c db l hc') e
    exact ⟨e₀, (), he, h.known.names hc e, hresp, halike⟩
  · obtain ⟨hr, _, -, halike⟩ := hsame
    exact ⟨hr, halike⟩

/-- The end of the round does the same in both runs, and returns. -/
theorem Scheduler.settle_coupled (r : Except PyError JobOutcome) :
    Prog.Coupled (comparison workerId fun c db _ => c.Accepted db)
      (Alike workerId k rest before own id) (settle id workerId now r).run
      (settle id workerId now r).run fun a a₀ db l db₀ l₀ =>
        (∃ count, a = .ok count ∧ a₀ = .ok count) ∧
          Alike workerId k rest before own id db l db₀ l₀ := by
  have hmeets : Script.Meets (settleContract id workerId (· = 1)) (settle id workerId now r) _ _ () :=
    settle_settles (fun _ h => h) r
  refine Prog.Coupled.mono (Prog.Meets.coupled (M := comparison workerId _) hmeets
    (J := fun db l db₀ l₀ _ => Alike workerId k rest before own id db l db₀ l₀)
    (fun op _ _ _ _ _ hop h => h.act hop) fun c e db l db₀ l₀ _ hc hc' h => ?_)
    (fun _ _ _ _ h => h) fun a a₀ db l db₀ l₀ hsame => ?_
  · obtain ⟨e₀, he, hresp, halike⟩ := h.exec hc.concerns (hc.avoids own) e
    refine ⟨e₀, (), he, ⟨h.known.names hc.concerns e, h.known.finds hc ?_ e⟩, hresp, halike⟩
    rintro op rfl
    exact hc'
  · obtain ⟨rfl, _, hresult, halike⟩ := hsame
    rcases a with e | count
    · exact hresult.elim
    · exact ⟨⟨count, rfl, rfl⟩, halike⟩

end

/-! ### A round of a lost job -/

section

variable {workerId : String} {k id : ℕ} {rest : List ℕ} {before own after : List Observation}
  {db db' db₀ : Db} {l l' l₀ : Session} {now : Instant} {turns turns' : List (Turn QueueOp Answers)}

/-- The handler does not fail a job that is lost, as long as its transition is accepted. -/
theorem Scheduler.settle_of_lost {e : PyError} {a : Except PyError (ProcessOutcome → ProcessOutcome)}
    (hlost : ∃ j, db.jobs.get? id = some j ∧ j.LostTo workerId) (hknown : Known id db l)
    (hothers : ∀ op ∈ Turn.others turns, op.Foreign workerId)
    (hok : Prog.Along arena (fun c db _ => c.Accepted db) turns
      (settle id workerId now (.error e)).run db l)
    (hrun : Prog.advance arena turns (settle id workerId now (.error e)).run db l =
      some (a, db', l', turns')) : e.isStaleJobClaim = true := by
  have hmeets : Script.Meets (settleContract id workerId fun _ => False)
      (settle id workerId now (.error e)) _ _ () :=
    settle_settles (fun _ h => h.elim) (.error e)
  have hend := Prog.Meets.advance (I := fun db l _ =>
      (∃ j, db.jobs.get? id = some j ∧ j.LostTo workerId) ∧ Known id db l)
    (O := QueueOp.Foreign workerId) ?_ ?_ hmeets hrun hothers hok ⟨hlost, hknown⟩
  · obtain ⟨_, hresult, -⟩ := hend
    rcases a with e' | count
    · exact hresult.elim
    · by_contra hfalse
      obtain ⟨-, hn⟩ := hresult e rfl (Bool.not_eq_true _ ▸ hfalse)
      exact hn
  · rintro c e' db l _ hc hc' ⟨⟨j, hj, hgone⟩, hknown⟩
    have hnone : ∀ op, c ≠ .update op := by
      rintro op rfl
      cases op with
      | owned i w n t =>
          obtain ⟨rfl, rfl⟩ := hc
          have hone : (QueueOp.owned i w n t).rowcount db.jobs = 1 := hc'
          rw [(QueueOp.owned_of_lost hj hgone n t).2] at hone
          exact absurd hone (by simp)
      | _ => exact hc.elim
    refine ⟨(), ⟨hknown.names hc.concerns e', ?_⟩, ⟨j, ?_, hgone⟩, hknown.exec hc.concerns e'⟩
    · exact hknown.finds hc (fun op hop => (hnone op hop).elim) e'
    · rw [arena_exec, hc.concerns.get?_exec, hj, Option.map_some]
      cases c with
      | update op => exact (hnone op rfl).elim
      | attributes | generation | expire => rfl
      | _ => exact hc.elim
  · rintro op db l _ hop ⟨⟨j, hj, hgone⟩, hknown⟩
    exact ⟨⟨op.row j, by rw [get?_act, hj, Option.map_some], hgone.row hop⟩, hknown.act op⟩

/-- How a round is left by its `try` in two runs: in the same way, or with a job that is lost. -/
def TriedAlike (workerId : String) (k : ℕ) (rest : List ℕ) (before own : List Observation)
    (id : ℕ) (r r₀ : Except PyError JobOutcome) (db : Db) (l : Session) (db₀ : Db) (l₀ : Session) :
    Prop :=
  r = r₀ ∧ Alike workerId k rest before own id db l db₀ l₀ ∨
    ∃ e e₀ after, r = .error e ∧ r₀ = .error e₀ ∧
      EndAlike workerId k rest before own after id e e₀ db l db₀ l₀

theorem Apart.actAll {ops : List QueueOp} (h : Apart workerId k rest before own after db l db₀ l₀)
    (hops : ∀ op ∈ ops, op.Foreign workerId) :
    Apart workerId k rest before own after (arena.actAll ops db) l (arena.actAll ops db₀) l₀ := by
  induction ops generalizing db db₀ with
  | nil => exact h
  | cons op ops ih =>
      rw [Arena.actAll_cons, Arena.actAll_cons]
      exact ih (h.act (hops op List.mem_cons_self)) fun op' hop' =>
        hops op' (List.mem_cons_of_mem _ hop')

/-- The next of the jobs that wait has its round. -/
theorem Apart.tail (h : Apart workerId k (id :: rest) before own after db l db₀ l₀) :
    Apart workerId k rest before own after db l db₀ l₀ :=
  ⟨⟨h.jobs.rows, h.jobs.decisions, fun i hi => h.jobs.waits i (List.mem_cons_of_mem _ hi),
    fun i hi => h.jobs.copies i (List.mem_cons_of_mem _ hi),
    fun hk => h.jobs.other (List.mem_cons_of_mem _ hk)⟩, h.store⟩

/-- It is known to the first of the two runs, too. -/
theorem Apart.known (h : Apart workerId k (id :: rest) before own after db l db₀ l₀) :
    Known id db l := by
  have hne : id ≠ k := ne_of_mem_of_not_mem List.mem_cons_self h.jobs.other
  have hknown := (h.jobs.waits id List.mem_cons_self).known
  refine ⟨(h.jobs.rows id hne).symm ▸ hknown.row, fun c hc => ?_⟩
  rcases h.jobs.copies id List.mem_cons_self with heq | ⟨hnone, -⟩
  · exact hknown.copy c (heq ▸ hc)
  · rw [hnone] at hc
    exact absurd hc (by simp)

end

/-! ### The round in both runs -/

namespace Scheduler

section

variable {workerId : String} {k id : ℕ} {rest : List ℕ} {before own after : List Observation}
  {db db' db₀ : Db} {l l' l₀ : Session} {now : Instant} {turns turns' : List (Turn QueueOp Answers)}

/-- The `try` of a round whose job the session has been made to forget in the first run only. -/
theorem runJob_forgotten {ok : Cmd → Db → Session → Prop} (havoid : ∀ c db l, ok c db l → c.Avoids own)
    {r : Except PyError JobOutcome} {c₀ : Job}
    (h : Apart workerId k (id :: rest) before own after db l db₀ l₀) (hover : id ∉ rest)
    (hnone : l.cache id = none) (hcopy : l₀.cache id = some c₀) (hcopied : c₀.status ≠ .pending)
    (hclaimed : ∀ j ∈ (arena.actAll (Turn.leading turns) db).jobs.get? id, j.status ≠ .pending)
    (hothers : ∀ op ∈ Turn.others turns, op.Foreign workerId)
    (hok : Prog.Along arena ok turns (runJob id workerId now).run db l)
    (hrun : Prog.advance arena turns (runJob id workerId now).run db l =
      some (r, db', l', turns')) :
    ∃ used used₀ r₀ db₀' l₀', turns = used ++ turns' ∧
      List.Forall₂ (Turn.Same Answers.SameButUuid) used used₀ ∧
      (∀ turns₀, Prog.advance arena (used₀ ++ turns₀) (runJob id workerId now).run db₀ l₀ =
        some (r₀, db₀', l₀', turns₀)) ∧
      TriedAlike workerId k rest before own id r r₀ db' l' db₀' l₀' := by
  have hne : id ≠ k := ne_of_mem_of_not_mem List.mem_cons_self h.jobs.other
  have hcall : (runJob id workerId now).run = Prog.call (.attributes id) fun r =>
      ((r.elim (throw .objectDeleted) pure : App Job) >>= runRead id workerId now).run :=
    congrArg (Prog.call _) (funext fun r => by cases r <;> rfl)
  rw [hcall] at hrun hok
  obtain ⟨ops, e, turns₁, rfl⟩ := Prog.exists_first hrun
  rw [Prog.advance_first] at hrun
  rw [Prog.along_first] at hok
  rw [Turn.leading_append] at hclaimed
  rw [Turn.others_append, Turn.others_map_other, Turn.others_own] at hothers
  have hmid := h.actAll fun op hop => hothers op (List.mem_append_left _ hop)
  generalize arena.actAll ops db = db₁ at *
  generalize hdb₀ : arena.actAll ops db₀ = db₀₁ at *
  obtain ⟨j, hj₀, hcopies⟩ := hmid.jobs.waits id List.mem_cons_self
  have hj : db₁.jobs.get? id = some j := (hmid.jobs.rows id hne).trans hj₀
  have hid : j.id = id := (Table.get?_eq_some_iff.mp hj).2
  have hread : l.read db₁.jobs id = some j := by
    rw [Session.read, hnone, hj]
    rfl
  have hread₀ : l₀.read db₀₁.jobs id = some c₀ := by
    rw [Session.read, hcopy]
    rfl
  have hapart := (⟨hmid.tail.jobs.both (c := .attributes id) rfl hover e e,
    hmid.store.both (c := .attributes id) (i := id) rfl (by simp) e⟩ :
      Apart workerId k rest before own after _ _ _ _)
  have hrun' : ∀ used₀ turns₀ : List (Turn QueueOp Answers),
      Prog.advance arena (ops.map .other ++ .own e :: used₀ ++ turns₀)
        (runJob id workerId now).run db₀ l₀ =
      Prog.advance arena (used₀ ++ turns₀) (runRead id workerId now c₀).run db₀₁
        (exec (.attributes id) e db₀₁ l₀).2.2 := by
    intro used₀ turns₀
    rw [hcall, List.append_assoc, List.cons_append, Prog.advance_first, hdb₀]
    simp only [arena_exec, exec, hread₀]
    rfl
  have hsame : ∀ used used₀ : List (Turn QueueOp Answers),
      List.Forall₂ (Turn.Same Answers.SameButUuid) used used₀ →
      List.Forall₂ (Turn.Same Answers.SameButUuid) (ops.map .other ++ .own e :: used)
        (ops.map .other ++ .own e :: used₀) := fun used used₀ hused =>
    List.rel_append (List.forall₂_same.mpr fun turn _ => .refl .refl turn)
      (.cons (.own (.refl e)) hused)
  have hothers₁ : ∀ op ∈ Turn.others turns₁, op.Foreign workerId := fun op hop =>
    hothers op (List.mem_append_right _ hop)
  have hok₁ := hok.2
  simp only [arena_exec, exec, hread] at hrun hok₁
  simp only [exec, hread, hread₀] at hapart hrun'
  rcases (hcopies c₀ hcopy).row with rfl | hlost
  · have halike : Alike workerId k rest before own id db₁
        { l with cache := Function.update l.cache id (some c₀) } db₀₁
        { l₀ with cache := Function.update l₀.cache id (some c₀) } :=
      ⟨⟨after, hapart⟩, by simp, ⟨⟨c₀, hj⟩, by simp [hid]⟩, hne, hover⟩
    obtain ⟨used, used₀, r₀, db₀', l₀', rfl, hused, hend, rfl, hboth⟩ :=
      App.Concerns.coupled (runRead_concerns c₀) havoid turns₁ _ _ _ _ r db' l' turns' halike hrun
        hothers₁ hok₁
    exact ⟨_, _, r, db₀', l₀', by simp, hsame used used₀ hused,
      fun turns₀ => (hrun' used₀ turns₀).trans (hend turns₀), Or.inl ⟨rfl, hboth⟩⟩
  · have hcopyOf := (hcopies c₀ hcopy).copy
    have hpair : Copies id j c₀ := ⟨hid, hcopyOf.id.trans hid, hcopyOf.source.symm,
      hcopyOf.cursor.symm, hclaimed j hj, hcopied⟩
    have hgone : BothLost workerId k rest before own after id j c₀ db₁
        { l with cache := Function.update l.cache id (some j) } db₀₁
        { l₀ with cache := Function.update l₀.cache id (some c₀) } :=
      ⟨⟨hapart, j, hj, hj₀, hlost⟩, by simp, by simp⟩
    obtain ⟨used, used₀, r₀, db₀', l₀', rfl, hused, hend, hboth⟩ :=
      runRead_lost hpair hover turns₁ _ _ _ _ r db' l' turns' hgone hrun hothers₁ hok₁
    refine ⟨_, _, r₀, db₀', l₀', by simp, hsame used used₀ hused,
      fun turns₀ => (hrun' used₀ turns₀).trans (hend turns₀), ?_⟩
    rcases r with e | result <;> rcases r₀ with e₀ | result₀
    · exact Or.inr ⟨e, e₀, after, rfl, rfl, hboth⟩
    · exact hboth.elim
    · exact hboth.elim
    · exact hboth.elim

/-- The `try` of another round ends alike in both runs. -/
theorem runJob_both {ok : Cmd → Db → Session → Prop} (havoid : ∀ c db l, ok c db l → c.Avoids own)
    {r : Except PyError JobOutcome}
    (h : Apart workerId k (id :: rest) before own after db l db₀ l₀) (hover : id ∉ rest)
    (hclaimed : l.cache id = none →
      ∀ j ∈ (arena.actAll (Turn.leading turns) db).jobs.get? id, j.status ≠ .pending)
    (hothers : ∀ op ∈ Turn.others turns, op.Foreign workerId)
    (hok : Prog.Along arena ok turns (runJob id workerId now).run db l)
    (hrun : Prog.advance arena turns (runJob id workerId now).run db l =
      some (r, db', l', turns')) :
    ∃ used used₀ r₀ db₀' l₀', turns = used ++ turns' ∧
      List.Forall₂ (Turn.Same Answers.SameButUuid) used used₀ ∧
      (∀ turns₀, Prog.advance arena (used₀ ++ turns₀) (runJob id workerId now).run db₀ l₀ =
        some (r₀, db₀', l₀', turns₀)) ∧
      TriedAlike workerId k rest before own id r r₀ db' l' db₀' l₀' := by
  have hne : id ≠ k := ne_of_mem_of_not_mem List.mem_cons_self h.jobs.other
  by_cases hcache : l.cache id = l₀.cache id
  · obtain ⟨used, used₀, r₀, db₀', l₀', hused, hturns, hend, rfl, halike⟩ :=
      runJob_concerns.coupled havoid turns db l db₀ l₀ r db' l' turns'
        ⟨⟨after, h.tail⟩, hcache, h.known, hne, hover⟩ hrun hothers hok
    exact ⟨used, used₀, r, db₀', l₀', hused, hturns, hend, Or.inl ⟨rfl, halike⟩⟩
  · rcases h.jobs.copies id List.mem_cons_self with heq | ⟨hnone, hcopied⟩
    · exact absurd heq hcache
    · obtain ⟨c₀, hcopy⟩ := Option.ne_none_iff_exists'.mp fun hnone₀ =>
        hcache (hnone.trans hnone₀.symm)
      exact runJob_forgotten havoid h hover hnone hcopy (hcopied c₀ hcopy) (hclaimed hnone)
        hothers hok hrun

/-- A stale claim leaves the counters as they are. -/
theorem settle_stale {e : PyError} (he : e.isStaleJobClaim = true) :
    settle id workerId now (.error e) = pure fun outcome => outcome := by
  rw [settle, if_pos he]

/-- **Another round** does the same in both runs, and returns. -/
theorem round_both {a : Except PyError (ProcessOutcome → ProcessOutcome)}
    (h : Apart workerId k (id :: rest) before own after db l db₀ l₀) (hover : id ∉ rest)
    (hothers : ∀ op ∈ Turn.others turns, op.Foreign workerId)
    (hround : RoundUndisturbed workerId now id rest turns db l)
    (hrun : Prog.advance arena turns (round id workerId now).run db l =
      some (a, db', l', turns')) :
    ∃ used used₀ count db₀' l₀' after', turns = used ++ turns' ∧ a = .ok count ∧
      List.Forall₂ (Turn.Same Answers.SameButUuid) used used₀ ∧
      (∀ turns₀, Prog.advance arena (used₀ ++ turns₀) (round id workerId now).run db₀ l₀ =
        some (.ok count, db₀', l₀', turns₀)) ∧
      Apart workerId k rest before own after' db' l' db₀' l₀' := by
  obtain ⟨r, db₁, l₁, turns₁, htry, hend⟩ := Script.advance_attempt_bind.mp hrun
  have havoid : ∀ (c : Cmd) (db' : Db) (l' : Session),
      c.Avoids l.stored ∧ c.Spares rest l' → c.Avoids own := by
    rintro c - - ⟨havoid, -⟩ key hkey o ho
    exact havoid key hkey o (by rw [h.store.stored]; simp [ho])
  obtain ⟨used, used₀, r₀, db₁₀, l₁₀, rfl, hused, hrun₀, htried⟩ :=
    runJob_both havoid h hover hround.claimed hothers hround.tried htry
  have hothers₁ : ∀ op ∈ Turn.others turns₁, op.Foreign workerId := fun op hop =>
    hothers op (by rw [Turn.others_append]; exact List.mem_append_right _ hop)
  have haccepted := hround.settled _ htry
  have hround₀ : ∀ used₁ turns₀ : List (Turn QueueOp Answers),
      ∀ b : Except PyError (ProcessOutcome → ProcessOutcome) × Db × Session × List _,
      Prog.advance arena (used₁ ++ turns₀) (settle id workerId now r₀).run db₁₀ l₁₀ = some b →
      Prog.advance arena (used₀ ++ used₁ ++ turns₀) (round id workerId now).run db₀ l₀ = some b := by
    rintro used₁ turns₀ ⟨b, dbb, lb, turnsb⟩ hsettle
    refine Script.advance_attempt_bind.mpr ⟨r₀, db₁₀, l₁₀, used₁ ++ turns₀, ?_, hsettle⟩
    rw [List.append_assoc]
    exact hrun₀ _
  rcases htried with ⟨rfl, halike⟩ | ⟨e, e₀, after', rfl, rfl, hlost⟩
  · obtain ⟨used₁, used₁₀, a₀, db₀', l₀', rfl, hused₁, hend₀, ⟨count, rfl, rfl⟩, halike'⟩ :=
      settle_coupled r turns₁ _ _ _ _ a db' l' turns' halike hend hothers₁ haccepted
    obtain ⟨after', hapart⟩ := halike'.apart
    exact ⟨used ++ used₁, used₀ ++ used₁₀, count, db₀', l₀', after', (List.append_assoc ..).symm,
      rfl, List.rel_append hused hused₁, fun turns₀ => hround₀ _ turns₀ _ (hend₀ turns₀), hapart⟩
  · obtain ⟨j, hj, hj₀, hgone⟩ := hlost.gone.row
    have hknown : Known id db₁ l₁ := (runJob_concerns.advance hothers htry h.known
      List.not_mem_nil fun i hi => absurd hi List.not_mem_nil).1
    have hstale : e.isStaleJobClaim = true :=
      settle_of_lost ⟨j, hj, hgone⟩ hknown hothers₁ haccepted hend
    have hstale₀ : e₀.isStaleJobClaim = true := hlost.error.elim (fun heq => heq ▸ hstale) And.right
    rw [settle_stale hstale, ExceptT.run_pure, Prog.pure_def, Prog.advance_ret, Option.some.injEq,
      Prod.mk.injEq, Prod.mk.injEq, Prod.mk.injEq] at hend
    obtain ⟨rfl, rfl, rfl, rfl⟩ := hend
    refine ⟨used, used₀, _, db₁₀, l₁₀, after', rfl, rfl, hused, fun turns₀ => ?_, hlost.gone.apart⟩
    have hend₀ := hround₀ [] turns₀ (.ok fun outcome => outcome, db₁₀, l₁₀, turns₀) (by
      rw [settle_stale hstale₀, ExceptT.run_pure, Prog.pure_def, Prog.advance_ret, List.nil_append])
    rwa [List.append_nil] at hend₀

/-- **The round of `k`** keeps the two states apart, and returns. -/
theorem round_alone {a : Except PyError (ProcessOutcome → ProcessOutcome)}
    (h : Apart workerId k rest before own [] db l db₀ l₀) (hknown : Known k db l)
    (hothers : ∀ op ∈ Turn.others turns, op.Foreign workerId)
    (hround : RoundUndisturbed workerId now k rest turns db l)
    (hrun : Prog.advance arena turns (round k workerId now).run db l =
      some (a, db', l', turns')) :
    ∃ used count own', turns = used ++ turns' ∧ a = .ok count ∧
      Apart workerId k rest before own' [] db' l' (arena.actAll (Turn.others used) db₀) l₀ := by
  obtain ⟨r, db₁, l₁, turns₁, htry, hend⟩ := Script.advance_attempt_bind.mp hrun
  have hbefore : before ⊆ l.stored := by
    rw [h.store.stored, List.append_nil]
    exact List.subset_append_left _ _
  obtain ⟨used, _, rfl, -, ⟨own₁, hapart₁⟩, hknown₁⟩ := Prog.Meets.alongside
    (J := fun db l db₀ l₀ _ =>
      (∃ own, Apart workerId k rest before own [] db l db₀ l₀) ∧ Known k db l)
    (O := QueueOp.Foreign workerId) (runJob_concerns () trivial)
    (fun op db l db₀ _ hop h => ⟨h.1.imp fun own hown => hown.act hop, h.2.act op⟩)
    (fun c e db l db₀ _ hc hok h => by
      obtain ⟨⟨own, hown⟩, hknown⟩ := h
      have havoid : c.Avoids before := fun key hkey o ho => hok.1 key hkey o (hbefore ho)
      exact ⟨(), hknown.names hc e, hown.alone hc havoid hok.2 e, hknown.exec hc e⟩)
    htry hothers hround.tried ⟨⟨own, h⟩, hknown⟩
  have hothers₁ : ∀ op ∈ Turn.others turns₁, op.Foreign workerId := fun op hop =>
    hothers op (by rw [Turn.others_append]; exact List.mem_append_right _ hop)
  have hmeets : Script.Meets (settleContract k workerId (· = 1)) (settle k workerId now r) _ _ () :=
    settle_settles (fun _ h => h) r
  obtain ⟨used₁, _, rfl, hresult, ⟨own', hapart'⟩, -⟩ := Prog.Meets.alongside
    (J := fun db l db₀ l₀ _ =>
      (∃ own, Apart workerId k rest before own [] db l db₀ l₀) ∧ Known k db l)
    (O := QueueOp.Foreign workerId) hmeets
    (fun op db l db₀ _ hop h => ⟨h.1.imp fun own hown => hown.act hop, h.2.act op⟩)
    (fun c e db l db₀ _ hc hok h => by
      obtain ⟨⟨own, hown⟩, hknown⟩ := h
      refine ⟨(), ⟨hknown.names hc.concerns e, hknown.finds hc ?_ e⟩,
        hown.alone hc.concerns (hc.avoids before) (hc.spares rest l) e, hknown.exec hc.concerns e⟩
      rintro op rfl
      exact hok)
    hend hothers₁ (hround.settled _ htry) ⟨⟨own₁, hapart₁⟩, hknown₁⟩
  rcases a with e | count
  · exact hresult.elim
  · refine ⟨used ++ used₁, count, own', (List.append_assoc ..).symm, rfl, ?_⟩
    rwa [Turn.others_append, arena.actAll_append]

end

end Scheduler

end MarketRelay
