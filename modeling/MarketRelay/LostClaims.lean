import MarketRelay.OtherWorkers

/-!
# Rounds of Jobs that are Lost

A round of a job whose claim has been lost changes nothing, and this does not depend on the copy that
the session has of the job: it may be the one that was loaded when the job was claimed, or the row as
another worker has left it since. Two such rounds with different copies (`BothLost`) issue the same
calls to the gate and to the adapters, since all copies agree on the source and on the cursor, and
they end alike: with the exception that an adapter has raised, or with a stale claim as soon as a
transition presents the generation of the copy (`EndAlike`).

## Main results

* `JobQueue.ownedTransition_lost`: a transition of a lost job is refused, whatever it presents.
* `Scheduler.runRead_lost`: a round of a lost job, from its first read on.
-/

open Relational Interaction Gregorian

namespace MarketRelay

/-- Two runs among other workers that get the same answers, but for the identifiers drawn. -/
def comparison (workerId : String) (ok : Cmd → Db → Session → Prop) :
    Comparison Cmd Cmd.Resp Answers Db Session QueueOp :=
  ⟨arena, QueueOp.Foreign workerId, ok, Answers.SameButUuid⟩

section

variable {workerId : String} {k id : ℕ} {rest : List ℕ}
  {before own after : List Observation} {c c₀ : Job} {ok : Cmd → Db → Session → Prop}

/-- In both states the job is lost to the worker. -/
structure Gone (workerId : String) (k : ℕ) (rest : List ℕ)
    (before own after : List Observation) (id : ℕ) (db : Db) (l : Session) (db₀ : Db)
    (l₀ : Session) : Prop where
  apart : Apart workerId k rest before own after db l db₀ l₀
  row : ∃ j, db.jobs.get? id = some j ∧ db₀.jobs.get? id = some j ∧ j.LostTo workerId

/-- In both states the job is lost to the worker, and the session has a copy of it, which need not be
the same. -/
structure BothLost (workerId : String) (k : ℕ) (rest : List ℕ)
    (before own after : List Observation) (id : ℕ) (c c₀ : Job) (db : Db) (l : Session) (db₀ : Db)
    (l₀ : Session) : Prop where
  gone : Gone workerId k rest before own after id db l db₀ l₀
  copy : l.cache id = some c
  copy₀ : l₀.cache id = some c₀

/-- The two rounds end with the same exception, or both with a stale claim. -/
structure EndAlike (workerId : String) (k : ℕ) (rest : List ℕ)
    (before own after : List Observation) (id : ℕ) (e e₀ : PyError) (db : Db) (l : Session)
    (db₀ : Db) (l₀ : Session) : Prop where
  error : e = e₀ ∨ e.isStaleJobClaim = true ∧ e₀.isStaleJobClaim = true
  gone : Gone workerId k rest before own after id db l db₀ l₀

theorem Gone.act {db db₀ : Db} {l l₀ : Session}
    (h : Gone workerId k rest before own after id db l db₀ l₀) {op : QueueOp}
    (hop : op.Foreign workerId) :
    Gone workerId k rest before own after id (arena.act op db) l (arena.act op db₀) l₀ := by
  obtain ⟨j, hj, hj₀, hlost⟩ := h.row
  refine ⟨h.apart.act hop, op.row j, ?_, ?_, hlost.row hop⟩
  · rw [get?_act, hj, Option.map_some]
  · rw [get?_act, hj₀, Option.map_some]

theorem BothLost.act {db db₀ : Db} {l l₀ : Session}
    (h : BothLost workerId k rest before own after id c c₀ db l db₀ l₀) {op : QueueOp}
    (hop : op.Foreign workerId) :
    BothLost workerId k rest before own after id c c₀ (arena.act op db) l
      (arena.act op db₀) l₀ :=
  ⟨h.gone.act hop, h.copy, h.copy₀⟩

/-- Reading the job returns its copies, and leaves them as they are. -/
theorem BothLost.read {db db₀ : Db} {l l₀ : Session}
    (h : BothLost workerId k rest before own after id c c₀ db l db₀ l₀) :
    l.read db.jobs id = some c ∧ l₀.read db₀.jobs id = some c₀ ∧
      Function.update l.cache id (some c) = l.cache ∧
      Function.update l₀.cache id (some c₀) = l₀.cache := by
  refine ⟨?_, ?_, Function.update_eq_self_iff.mpr h.copy.symm,
    Function.update_eq_self_iff.mpr h.copy₀.symm⟩
  · rw [Session.read, h.copy]
    rfl
  · rw [Session.read, h.copy₀]
    rfl

/-- Two scripts that run in the round of a lost job: they do not return, and end alike. -/
abbrev LostAlike {α : Type} (workerId : String) (k : ℕ) (rest : List ℕ)
    (before own after : List Observation) (id : ℕ) (ok : Cmd → Db → Session → Prop)
    (Pre : Db → Session → Db → Session → Prop) (x y : App α) : Prop :=
  Script.Coupled (comparison workerId ok) Pre x y (fun _ _ _ _ _ _ => False)
    (EndAlike workerId k rest before own after id)

/-! ### Reads and calls -/

/-- A read of the job returns the copies. -/
theorem attributes_lost {α : Type} {f g : Job → App α}
    (hf : LostAlike workerId k rest before own after id ok
      (BothLost workerId k rest before own after id c c₀) (f c) (g c₀)) :
    LostAlike workerId k rest before own after id ok
      (BothLost workerId k rest before own after id c c₀) (attributes id >>= f)
      (attributes id >>= g) := by
  rw [attributes, bind_assoc, bind_assoc]
  refine Script.Coupled.bind (Q := fun r r₀ db l db₀ l₀ => r = some c ∧ r₀ = some c₀ ∧
    BothLost workerId k rest before own after id c c₀ db l db₀ l₀)
    (Script.coupled_op (fun op _ _ _ _ hop h => h.act hop) fun e db l db₀ l₀ _ h => ?_) ?_
  · obtain ⟨hread, hread₀, hcache, hcache₀⟩ := h.read
    refine ⟨e, .refl e, ?_⟩
    simp only [comparison, arena_exec, exec, hread, hread₀, hcache, hcache₀]
    exact ⟨trivial, trivial, h⟩
  · rintro r r₀ turns db l db₀ l₀ a db' l' rest' ⟨rfl, rfl, h⟩
    exact hf turns db l db₀ l₀ a db' l' rest' h

/-- The generations that are read may differ. -/
theorem generation_lost {α : Type} {f g : ℕ → App α}
    (hf : ∀ n n₀, LostAlike workerId k rest before own after id ok
      (BothLost workerId k rest before own after id c c₀) (f n) (g n₀)) :
    LostAlike workerId k rest before own after id ok
      (BothLost workerId k rest before own after id c c₀) (generation id >>= f)
      (generation id >>= g) := by
  rw [generation, bind_assoc, bind_assoc]
  refine Script.Coupled.bind (Q := fun r r₀ db l db₀ l₀ => r = some c.generation ∧
    r₀ = some c₀.generation ∧ BothLost workerId k rest before own after id c c₀ db l db₀ l₀)
    (Script.coupled_op (fun op _ _ _ _ hop h => h.act hop) fun e db l db₀ l₀ _ h => ?_) ?_
  · obtain ⟨hread, hread₀, hcache, hcache₀⟩ := h.read
    refine ⟨e, .refl e, ?_⟩
    simp only [comparison, arena_exec, exec, hread, hread₀, hcache, hcache₀]
    exact ⟨rfl, rfl, h⟩
  · rintro r r₀ turns db l db₀ l₀ a db' l' rest' ⟨rfl, rfl, h⟩
    exact hf _ _ turns db l db₀ l₀ a db' l' rest' h

/-- The commands that concern neither jobs nor observations. -/
def Cmd.Outside : Cmd → Prop
  | selectDecision .. => True
  | c => c.IsPort

/-- They change neither the tables nor what the session has loaded and stored. -/
theorem Cmd.Outside.frame {cmd : Cmd} (hc : cmd.Outside) (e : Answers) (db : Db) (l : Session) :
    (exec cmd e db l).2.1 = db ∧ (exec cmd e db l).2.2.cache = l.cache ∧
      (exec cmd e db l).2.2.stored = l.stored := by
  cases cmd <;> first | exact ⟨rfl, rfl, rfl⟩ | exact hc.elim

/-- Their responses depend on the environment and on the decisions. -/
theorem Cmd.Outside.response {cmd : Cmd} (hc : cmd.Outside) (e : Answers) {db db₀ : Db}
    (l l₀ : Session) (h : db.decisions = db₀.decisions) :
    (exec cmd e db₀ l₀).1 = (exec cmd e db l).1 := by
  cases cmd with
  | selectDecision source capability => simp only [exec, h]
  | _ => first | rfl | exact hc.elim

theorem BothLost.congr {db db₀ : Db} {l l₀ l' l₀' : Session}
    (h : BothLost workerId k rest before own after id c c₀ db l db₀ l₀)
    (hcache : l'.cache = l.cache) (hstored : l'.stored = l.stored) (hcache₀ : l₀'.cache = l₀.cache)
    (hstored₀ : l₀'.stored = l₀.stored) :
    BothLost workerId k rest before own after id c c₀ db l' db₀ l₀' := by
  obtain ⟨⟨⟨hjobs, hstore⟩, hrow⟩, hcopy, hcopy₀⟩ := h
  refine ⟨⟨⟨⟨hjobs.rows, hjobs.decisions, fun i hi => ?_, ?_, hjobs.other⟩, hstore.revisions,
    hstore.fresh, hstored.trans hstore.stored, hstored₀.trans hstore.stored₀, hstore.disjoint⟩,
    hrow⟩, ?_, ?_⟩
  · obtain ⟨j, hj, hcopy⟩ := hjobs.waits i hi
    exact ⟨j, hj, fun c hc => hcopy c (by rwa [hcache₀] at hc)⟩
  · rw [hcache, hcache₀]
    exact hjobs.copies
  · rw [hcache]
    exact hcopy
  · rw [hcache₀]
    exact hcopy₀

/-- A program that issues only such commands gets the same responses in both rounds. -/
theorem outside_lost {α β : Type} {x : App β} {f g : β → App α}
    (hx : Script.Keeps (Script.allows Cmd Cmd.Resp Cmd.Outside) (fun _ => True) x)
    (hf : ∀ b, LostAlike workerId k rest before own after id ok
      (BothLost workerId k rest before own after id c c₀) (f b) (g b)) :
    LostAlike workerId k rest before own after id ok
      (BothLost workerId k rest before own after id c c₀) (x >>= f) (x >>= g) := by
  have hsame := Prog.Meets.coupled (M := comparison workerId ok) (hx () trivial)
    (J := fun db l db₀ l₀ _ =>
      BothLost workerId k rest before own after id c c₀ db l db₀ l₀)
    (fun op _ _ _ _ _ hop h => h.act hop) fun cmd e db l db₀ l₀ _ hc _ h => by
      obtain ⟨hdb, hcache, hstored⟩ := Cmd.Outside.frame hc e db l
      obtain ⟨hdb₀, hcache₀, hstored₀⟩ := Cmd.Outside.frame hc e db₀ l₀
      refine ⟨e, (), .refl e, trivial, hc.response e l l₀ h.gone.apart.jobs.decisions, ?_⟩
      change BothLost workerId k rest before own after id c c₀ (exec cmd e db l).2.1
        (exec cmd e db l).2.2 (exec cmd e db₀ l₀).2.1 (exec cmd e db₀ l₀).2.2
      rw [hdb, hdb₀]
      exact h.congr hcache hstored hcache₀ hstored₀
  refine Script.Coupled.bind (Q := fun b b₀ db l db₀ l₀ => b = b₀ ∧
    BothLost workerId k rest before own after id c c₀ db l db₀ l₀)
    (Prog.Coupled.mono hsame (fun _ _ _ _ h => h) ?_) ?_
  · rintro (e | b) _ db l db₀ l₀ ⟨rfl, _, _, h⟩
    · exact ⟨Or.inl rfl, h.gone⟩
    · exact ⟨rfl, h⟩
  · rintro b _ turns db l db₀ l₀ a db' l' rest' ⟨rfl, h⟩
    exact hf b turns db l db₀ l₀ a db' l' rest' h

theorem issue_outside {x : Cmd} (hc : x.Outside) :
    Script.Keeps (Script.allows Cmd Cmd.Resp Cmd.Outside) (fun _ => True) (issue x) :=
  Script.keeps_allowed hc

theorem throw_lost {α : Type} {e e₀ : PyError}
    (he : e = e₀ ∨ e.isStaleJobClaim = true ∧ e₀.isStaleJobClaim = true) :
    LostAlike workerId k rest before own after id ok
      (BothLost workerId k rest before own after id c c₀) (throw e : App α) (throw e₀) :=
  Script.coupled_throw fun _ _ _ _ h => ⟨he, h.gone⟩

/-! ### Transitions of lost jobs -/

/-- A transition of a lost job changes no row. -/
theorem QueueOp.owned_of_lost {t : JobTable} {j : Job} (hj : t.get? id = some j)
    (hlost : j.LostTo workerId) (n : ℕ) (w : Transition) :
    (QueueOp.owned id workerId n w).run t = t ∧
      (QueueOp.owned id workerId n w).rowcount t = 0 := by
  have hcond : ∀ r ∈ t.rows, (QueueOp.owned id workerId n w).cond r = false := by
    intro r hr
    by_cases hid : r.id = id
    · obtain rfl : j = r :=
        Option.some.inj (hj.symm.trans (Table.get?_eq_some_iff.mpr ⟨hr, hid⟩))
      exact hlost.not_cond id n w
    · simp [QueueOp.cond, hid]
  refine ⟨Table.update_eq_self hcond, List.countP_eq_zero.mpr fun r hr => ?_⟩
  rw [hcond r hr]
  exact Bool.false_ne_true

/-- A command of the round that writes nothing. -/
theorem Gone.both {db db₀ : Db} {l l₀ : Session}
    (h : Gone workerId k rest before own after id db l db₀ l₀) (hid : id ∉ rest) {x : Cmd}
    (hc : x.Concerns id) (hinsert : ∀ candidate, x ≠ .insertObservation candidate)
    (hrow : ∀ j, x.row j = j) (e : Answers) :
    Gone workerId k rest before own after id (exec x e db l).2.1 (exec x e db l).2.2
      (exec x e db₀ l₀).2.1 (exec x e db₀ l₀).2.2 := by
  obtain ⟨j, hj, hj₀, hlost⟩ := h.row
  refine ⟨⟨h.apart.jobs.both hc hid e e, h.apart.store.both hc hinsert e⟩, j, ?_, ?_, hlost⟩
  · rw [hc.get?_exec, hj, Option.map_some, hrow]
  · rw [hc.get?_exec, hj₀, Option.map_some, hrow]

/-- Two copies of one job, neither of which is pending. -/
structure Copies (jobId : ℕ) (c c₀ : Job) : Prop where
  id : c.id = jobId
  id₀ : c₀.id = jobId
  source : c.source = c₀.source
  cursor : c.cursor = c₀.cursor
  claimed : c.status ≠ .pending
  claimed₀ : c₀.status ≠ .pending

/-- A refused transition raises a stale claim, once the session has forgotten its copies. -/
theorem stale_lost {α : Type} (hid : id ∉ rest) {n n₀ : ℕ} :
    LostAlike workerId k rest before own after id ok
      (BothLost workerId k rest before own after id c c₀)
      (do
        issue .expireAll
        let job ← attributes id
        throw (.staleJobClaim job.id n workerId) : App α)
      (do
        issue .expireAll
        let job ← attributes id
        throw (.staleJobClaim job.id n₀ workerId)) := by
  refine Script.Coupled.bind (Q := fun _ _ db l db₀ l₀ =>
    Gone workerId k rest before own after id db l db₀ l₀)
    (Script.coupled_op (fun op _ _ _ _ hop h => h.act hop) fun e db l db₀ l₀ _ h =>
      ⟨e, .refl e, h.gone.both hid (x := .expireAll) trivial (by simp) (fun _ => rfl) e⟩)
    fun _ _ => ?_
  rw [attributes, bind_assoc, bind_assoc]
  refine Script.Coupled.bind (Q := fun r r₀ db l db₀ l₀ => (∃ j, r = some j) ∧
    (∃ j, r₀ = some j) ∧ Gone workerId k rest before own after id db l db₀ l₀)
    (Script.coupled_op (fun op _ _ _ _ hop h => h.act hop) fun e db l db₀ l₀ _ h => ?_) ?_
  · have hread : ∀ {l : Session} {db : Db} {j : Job}, db.jobs.get? id = some j →
        ∃ c, l.read db.jobs id = some c := by
      intro l db j hj
      rw [Session.read, hj]
      cases l.cache id with
      | none => exact ⟨j, rfl⟩
      | some c => exact ⟨c, rfl⟩
    obtain ⟨j, hj, hj₀, -⟩ := h.row
    exact ⟨e, .refl e, hread hj, hread hj₀,
      h.both hid (x := .attributes id) rfl (by simp) (fun _ => rfl) e⟩
  · rintro r r₀ turns db l db₀ l₀ a db' l' rest' ⟨⟨j, rfl⟩, ⟨j₀, rfl⟩, h⟩
    have hthrow : LostAlike workerId k rest before own after id ok
        (Gone workerId k rest before own after id)
        (throw (.staleJobClaim j.id n workerId) : App α)
        (throw (.staleJobClaim j₀.id n₀ workerId)) :=
      Script.coupled_throw fun _ _ _ _ h => ⟨Or.inr ⟨rfl, rfl⟩, h⟩
    exact hthrow turns db l db₀ l₀ a db' l' rest' h

/-- **A transition of a lost job is refused**, whatever it presents. -/
theorem JobQueue.ownedTransition_lost (hcopies : Copies id c c₀) (hid : id ∉ rest) {n n₀ : ℕ}
    {w w₀ : Transition} :
    LostAlike workerId k rest before own after id ok
      (BothLost workerId k rest before own after id c c₀)
      (JobQueue.ownedTransition id workerId n w) (JobQueue.ownedTransition id workerId n₀ w₀) := by
  refine attributes_lost ?_
  rw [hcopies.id, hcopies.id₀]
  refine Script.Coupled.bind (Q := fun r r₀ db l db₀ l₀ => r = (0 : ℕ) ∧ r₀ = (0 : ℕ) ∧
    BothLost workerId k rest before own after id c c₀ db l db₀ l₀)
    (Script.coupled_op (fun op _ _ _ _ hop h => h.act hop) fun e db l db₀ l₀ _ h => ?_) ?_
  · obtain ⟨j, hj, hj₀, hlost⟩ := h.gone.row
    obtain ⟨hrun, hcount⟩ := QueueOp.owned_of_lost hj hlost n w
    obtain ⟨hrun₀, hcount₀⟩ := QueueOp.owned_of_lost hj₀ hlost n₀ w₀
    refine ⟨e, .refl e, ?_⟩
    simp only [comparison, arena_exec, exec, hrun, hrun₀, hcount, hcount₀]
    exact ⟨trivial, trivial, h⟩
  · rintro r r₀ turns db l db₀ l₀ a db' l' rest' ⟨rfl, rfl, h⟩
    exact stale_lost hid turns db l db₀ l₀ a db' l' rest' h

variable {now : Instant}

theorem JobQueue.markFailed_lost (hcopies : Copies id c c₀) (hid : id ∉ rest) {n n₀ : ℕ}
    {error error₀ : String} :
    LostAlike workerId k rest before own after id ok
      (BothLost workerId k rest before own after id c c₀)
      (JobQueue.markFailed id workerId n error now)
      (JobQueue.markFailed id workerId n₀ error₀ now) :=
  attributes_lost (ownedTransition_lost hcopies hid)

/-! ### The round -/

/-- What follows a part that does not return is not reached. -/
theorem LostAlike.bind {α β : Type} {Pre : Db → Session → Db → Session → Prop} {x y : App α}
    {f g : α → App β} (h : LostAlike workerId k rest before own after id ok Pre x y) :
    LostAlike workerId k rest before own after id ok Pre (x >>= f) (y >>= g) :=
  Script.Coupled.bind h fun _ _ _ _ _ _ _ _ _ _ _ h => h.elim

namespace IngestionRunner

variable {cursor : FetchCursor Json} {authorization : IngestionAuthorization}

theorem fail_lost (hcopies : Copies id c c₀) (hid : id ∉ rest) {error detail : String} :
    LostAlike workerId k rest before own after id ok
      (BothLost workerId k rest before own after id c c₀)
      (do
        let generation ← generation id
        fail id workerId generation error now 0 0 detail)
      (do
        let generation ← generation id
        fail id workerId generation error now 0 0 detail) :=
  generation_lost fun _ _ => (JobQueue.markFailed_lost hcopies hid).bind

/-- The quota is checked, and then a transition is refused: nothing is fetched. -/
theorem fetch_lost (hcopies : Copies id c c₀) (hid : id ∉ rest) :
    LostAlike workerId k rest before own after id ok
      (BothLost workerId k rest before own after id c c₀)
      (fetch id workerId now cursor authorization) (fetch id workerId now cursor authorization) := by
  refine generation_lost fun n n₀ => attributes_lost ?_
  rw [hcopies.source]
  refine outside_lost (issue_outside (x := .checkQuota _) trivial) fun status => ?_
  refine outside_lost (orRaise_keeps status) fun quotaStatus => ?_
  split
  · exact (JobQueue.ownedTransition_lost hcopies hid).bind
  · exact (JobQueue.ownedTransition_lost hcopies hid).bind

theorem resume_lost (hcopies : Copies id c c₀) (hid : id ∉ rest) :
    LostAlike workerId k rest before own after id ok
      (BothLost workerId k rest before own after id c c₀)
      (resume id workerId now authorization) (resume id workerId now authorization) := by
  refine attributes_lost ?_
  rw [hcopies.cursor]
  split
  · exact fetch_lost hcopies hid
  · refine outside_lost (issue_outside (x := .describeFault _) trivial) fun cause => ?_
    exact fail_lost hcopies hid

theorem authorize_lost (hcopies : Copies id c c₀) (hid : id ∉ rest) :
    LostAlike workerId k rest before own after id ok
      (BothLost workerId k rest before own after id c c₀)
      (authorize id workerId now) (authorize id workerId now) := by
  refine attributes_lost ?_
  rw [hcopies.source]
  have hgate : Script.Keeps (Script.allows Cmd Cmd.Resp Cmd.Outside) (fun _ => True)
      (PolicyGate.authorizeIngestion c₀.source) :=
    PolicyGate.authorizeIngestion_keeps fun _ => issue_outside (x := .selectDecision ..) trivial
  refine outside_lost hgate.attempt ?_
  rintro (e | authorization)
  · cases e with
    | policyNotAuthorized source blocking => exact fail_lost hcopies hid
    | _ => exact throw_lost (Or.inl rfl)
  · exact resume_lost hcopies hid

theorem process_lost (hcopies : Copies id c c₀) (hid : id ∉ rest) :
    LostAlike workerId k rest before own after id ok
      (BothLost workerId k rest before own after id c c₀)
      (process id workerId now) (process id workerId now) := by
  rw [process, claim, bind_assoc]
  refine attributes_lost ?_
  rw [if_neg hcopies.claimed, if_neg hcopies.claimed₀, pure_bind]
  exact authorize_lost hcopies hid

end IngestionRunner

/-- **A round of a lost job**, from its first read on: it does not return, and ends alike for any two
copies of the job. -/
theorem Scheduler.runRead_lost (hcopies : Copies id c c₀) (hid : id ∉ rest) :
    LostAlike workerId k rest before own after id ok
      (BothLost workerId k rest before own after id c c₀)
      (runRead id workerId now c) (runRead id workerId now c₀) := by
  rw [runRead, runRead, hcopies.source]
  refine outside_lost (issue_outside (x := .getHistoricalPricePort _) trivial) fun historical => ?_
  refine outside_lost (IngestionRunner.orRaise_keeps historical) fun _ => attributes_lost ?_
  rw [hcopies.source]
  refine outside_lost (issue_outside (x := .getQuotaPort _) trivial) fun quota => ?_
  refine outside_lost (IngestionRunner.orRaise_keeps quota) fun _ => ?_
  exact IngestionRunner.process_lost hcopies hid

end

end MarketRelay
