import MarketRelay.Lib.Coupling
import MarketRelay.Revisions
import MarketRelay.RoundCommands

/-!
# Other Workers

What other workers do to the job table while a worker processes its batch: the statements of the
queue, in any order and at any moment, under identifiers other than the worker's own. Such a
statement leaves a row as it is, or leaves a row that the worker does not own; and a claim that is
lost stays lost, since only a claim under the worker's own identifier could restore it.

Two states of the database and of the worker's session are then compared, one of which results from
an additional round of the loop for a job `k` (`Apart`): they differ in the row of `k`, in the
observations that the round has added, and in the copies that the session has been made to forget.
What the others do keeps the relation, and so does the round of `k` itself and each command of
another round.

## Main results

* `QueueOp.row_of_foreign`: what a statement of another worker leaves.
* `Apart.other`, `Apart.alone`, `Apart.both`: the relation is kept by the others, by the round of
  `k`, and by the other rounds, whose commands get the same responses.
-/

open Relational Interaction Gregorian

namespace MarketRelay

/-! ### What the others do -/

/-- The statement is not presented under the worker's identifier. -/
def QueueOp.Foreign (workerId : String) : QueueOp → Prop
  | claim _ w _ | owned _ w .. => w ≠ workerId
  | recoverExpired .. | promoteDueWaiting _ => True

instance (workerId : String) : DecidablePred (QueueOp.Foreign workerId) := fun op => by
  cases op <;> unfold QueueOp.Foreign <;> infer_instance

/-- The commands of a session, and the statements of the queue that other sessions execute. -/
def arena : Arena Cmd Cmd.Resp Answers Db Session QueueOp :=
  { semantics with act := fun op db => { db with jobs := op.run db.jobs } }

@[simp] theorem arena_exec (c : Cmd) (e : Answers) (db : Db) (l : Session) :
    arena.exec c e db l = exec c e db l := rfl

/-- The worker does not own the job. -/
def Job.LostTo (workerId : String) (j : Job) : Prop :=
  ¬ (j.status.held = true ∧ j.claimedBy = some workerId)

instance (workerId : String) (j : Job) : Decidable (j.LostTo workerId) :=
  inferInstanceAs (Decidable (¬ _))

section Statements

variable {workerId : String} {op : QueueOp} {j : Job}

/-- **A statement of another worker** leaves a row as it is, or one that the worker does not own. -/
theorem QueueOp.row_of_foreign (h : op.Foreign workerId) (j : Job) :
    op.row j = j ∨ (op.row j).LostTo workerId := by
  cases hc : op.cond j with
  | false => exact Or.inl (row_of_not_cond hc)
  | true =>
      rw [row_of_cond hc]
      refine Or.inr fun hheld => ?_
      cases op with
      | claim id w now => exact h (Option.some.inj hheld.2)
      | recoverExpired now leaseSeconds => exact absurd hheld.2 (by simp [QueueOp.set])
      | promoteDueWaiting now => exact absurd hheld.1 (by simp [QueueOp.set, JobStatus.held])
      | owned id w generation t =>
          have howner : j.claimedBy = some w := (cond_owned.mp hc).2.2.1
          rcases t.values_claimedBy j with hkept | hcleared
          · exact h (Option.some.inj (howner.symm.trans (hkept.symm.trans hheld.2)))
          · exact absurd (hcleared.symm.trans hheld.2) (by simp)

/-- A claim that is lost stays lost. -/
theorem Job.LostTo.row (hj : j.LostTo workerId) (h : op.Foreign workerId) :
    (op.row j).LostTo workerId := by
  rcases op.row_of_foreign h j with hrow | hlost
  · rwa [hrow]
  · exact hlost

/-- A transition that presents the worker's identifier does not change a row that is lost. -/
theorem Job.LostTo.not_cond (hj : j.LostTo workerId) (id generation : ℕ) (t : Transition) :
    (QueueOp.owned id workerId generation t).cond j = false := by
  rw [← Bool.not_eq_true]
  intro hcond
  obtain ⟨-, hstatus, howner, -⟩ := QueueOp.cond_owned.mp hcond
  exact hj ⟨Transition.held_of_mem_allowedStatuses hstatus, howner⟩

/-- What no statement changes: a copy of a row agrees with it on these columns. -/
structure Job.CopyOf (c j : Job) : Prop where
  id : c.id = j.id
  source : c.source = j.source
  cursor : c.cursor = j.cursor

theorem Job.CopyOf.refl (j : Job) : j.CopyOf j := ⟨rfl, rfl, rfl⟩

theorem Job.CopyOf.row {c : Job} (h : c.CopyOf j) (op : QueueOp) : c.CopyOf (op.row j) :=
  ⟨h.id.trans (op.row_id j).symm, h.source.trans (op.row_source j).symm,
    h.cursor.trans (op.row_cursor j).symm⟩

/-- The copy of the job is its row, unless the claim has been lost. -/
structure Job.UpToDate (workerId : String) (c j : Job) : Prop where
  copy : c.CopyOf j
  row : c = j ∨ j.LostTo workerId

theorem Job.UpToDate.other {c : Job} (h : c.UpToDate workerId j) (hop : op.Foreign workerId) :
    c.UpToDate workerId (op.row j) := by
  refine ⟨h.copy.row op, ?_⟩
  rcases h.row with rfl | hlost
  · exact (op.row_of_foreign hop c).imp_left Eq.symm
  · exact Or.inr (hlost.row hop)

/-- What another worker's statement does to the row of a job. -/
theorem get?_act (op : QueueOp) (db : Db) (id : ℕ) :
    (arena.act op db).jobs.get? id = (db.jobs.get? id).map op.row :=
  QueueOp.get?_run op db.jobs id

end Statements

/-! ### What a round leaves alone -/

section Frame

variable {c : Cmd} {i : ℕ}

/-- A command acts on each job row separately. -/
theorem Cmd.Concerns.get?_exec (hc : c.Concerns i) (e : Answers) (db : Db) (l : Session) (id : ℕ) :
    (exec c e db l).2.1.jobs.get? id = (db.jobs.get? id).map c.row := by
  have hid : db.jobs.get? id = (db.jobs.get? id).map fun j => j := Option.map_id'.symm
  cases c with
  | update op => exact QueueOp.get?_run op db.jobs id
  | insertObservation o =>
      rw [exec]
      split <;> exact hid
  | insertJob | markWaiting | selectJob | insertDecision => exact hc.elim
  | _ => exact hid

/-- It changes no row but that of the job that it concerns. -/
theorem Cmd.Concerns.row_of_ne (hc : c.Concerns i) {j : Job} (hj : j.id ≠ i) : c.row j = j := by
  cases c with
  | update op =>
      rw [Cmd.row, QueueOp.row_of_not_cond]
      cases op with
      | claim i' w now =>
          obtain rfl : i' = i := hc
          simp [QueueOp.cond, hj]
      | owned i' w generation t =>
          obtain rfl : i' = i := hc
          simp [QueueOp.cond, hj]
      | recoverExpired | promoteDueWaiting => exact hc.elim
  | markWaiting => exact hc.elim
  | _ => rfl

theorem Cmd.Concerns.get?_of_ne (hc : c.Concerns i) {id : ℕ} (hid : id ≠ i) (e : Answers) (db : Db)
    (l : Session) : (exec c e db l).2.1.jobs.get? id = db.jobs.get? id := by
  rw [hc.get?_exec]
  cases hj : db.jobs.get? id with
  | none => rfl
  | some j => exact congrArg some (hc.row_of_ne ((Table.get?_eq_some_iff.mp hj).2.trans_ne hid))

/-- It makes the session load or forget the job's copy, or forget every copy. -/
theorem Cmd.Concerns.cache_exec (hc : c.Concerns i) {id : ℕ} (hid : id ≠ i) (e : Answers) (db : Db)
    (l : Session) :
    (exec c e db l).2.2.cache id = l.cache id ∧ c ≠ .expireAll ∨
      (exec c e db l).2.2.cache id = none ∧ c = .expireAll := by
  cases c with
  | update op => exact Or.inl ⟨by rw [exec, Session.noteUpdate_cache], by simp⟩
  | load i' | attributes i' | generation i' | expire i' =>
      obtain rfl : i' = i := hc
      exact Or.inl ⟨Function.update_of_ne hid _ _, by simp⟩
  | expireAll => exact Or.inr ⟨rfl, rfl⟩
  | insertObservation o => refine Or.inl ⟨?_, by simp⟩; rw [exec]; split <;> rfl
  | insertJob | markWaiting | selectJob | insertDecision => exact hc.elim
  | _ => exact Or.inl ⟨rfl, by simp⟩

theorem Cmd.Concerns.decisions_exec (hc : c.Concerns i) (e : Answers) (db : Db) (l : Session) :
    (exec c e db l).2.1.decisions = db.decisions := by
  cases c with
  | insertObservation o => rw [exec]; split <;> rfl
  | insertJob | markWaiting | selectJob | insertDecision => exact hc.elim
  | _ => rfl

/-- The natural key that a command asks for or inserts under. -/
def Cmd.key? : Cmd → Option NaturalKey
  | selectRevision key => some key
  | insertObservation candidate => some candidate.key
  | _ => none

/-- The command stays clear of the natural keys of some observations. -/
def Cmd.Avoids (c : Cmd) (stored : List Observation) : Prop :=
  ∀ key ∈ c.key?, ∀ o ∈ stored, o.key ≠ key

instance (c : Cmd) (stored : List Observation) : Decidable (c.Avoids stored) :=
  inferInstanceAs (Decidable (∀ key ∈ c.key?, _))

/-- An insert adds its row and notes it; no other command adds an observation. -/
theorem Cmd.Concerns.observations_exec (hc : c.Concerns i) (e : Answers) (db : Db) (l : Session) :
    (exec c e db l).2.1.observations = db.observations ∧ (exec c e db l).2.2.stored = l.stored ∨
      ∃ candidate, c = .insertObservation candidate ∧
        db.observations.insert? (candidate.row (db.observations.draw e.uuid)) =
          some (exec c e db l).2.1.observations ∧
        (exec c e db l).2.2.stored =
          l.stored ++ [candidate.row (db.observations.draw e.uuid)] := by
  cases c with
  | update op => exact Or.inl ⟨rfl, by simp [exec]⟩
  | insertObservation candidate =>
      rw [exec]
      split
      · rename_i t ht
        exact Or.inr ⟨candidate, rfl, ht, rfl⟩
      · exact Or.inl ⟨rfl, rfl⟩
  | insertJob | markWaiting | selectJob | insertDecision => exact hc.elim
  | _ => exact Or.inl ⟨rfl, rfl⟩

end Frame

/-! ### Jobs that await their round -/

/-- A job of the batch that awaits its round: the session's copy of it, where it has not been made to
forget it, is the row unless the claim has been lost. -/
def Waits (workerId : String) (id : ℕ) (db : Db) (l : Session) : Prop :=
  ∃ j, db.jobs.get? id = some j ∧ ∀ c, l.cache id = some c → c.UpToDate workerId j

namespace Waits

variable {workerId : String} {l : Session} {id : ℕ} {db : Db}

theorem other (h : Waits workerId id db l) {op : QueueOp} (hop : op.Foreign workerId) :
    Waits workerId id (arena.act op db) l := by
  obtain ⟨j, hj, hcopy⟩ := h
  refine ⟨op.row j, by rw [get?_act, hj, Option.map_some], fun c hc => ?_⟩
  exact (hcopy c hc).other hop

/-- It goes on waiting while another job of the batch has its round. -/
theorem own (h : Waits workerId id db l) {c : Cmd} {i : ℕ} (hc : c.Concerns i) (hid : id ≠ i)
    (e : Answers) : Waits workerId id (exec c e db l).2.1 (exec c e db l).2.2 := by
  obtain ⟨j, hj, hcopy⟩ := h
  refine ⟨j, (hc.get?_of_ne hid e db l).trans hj, fun copy hcached => hcopy copy ?_⟩
  rcases hc.cache_exec hid e db l with ⟨hsame, -⟩ | ⟨hnone, -⟩
  · rwa [hsame] at hcached
  · rw [hnone] at hcached
    exact absurd hcached (by simp)

end Waits

/-! ### With and without a round -/

/-- If the command makes the session forget its copies, then none of a waiting job that is pending. -/
def Cmd.Spares (c : Cmd) (rest : List ℕ) (l : Session) : Prop :=
  c = .expireAll → ∀ id ∈ rest, ∀ copy ∈ l.cache id, copy.status ≠ .pending

instance (c : Cmd) (rest : List ℕ) (l : Session) : Decidable (c.Spares rest l) :=
  inferInstanceAs (Decidable (c = .expireAll → ∀ id ∈ rest, ∀ copy ∈ l.cache id, _))

/-- The jobs of two states, the first of which comes from an additional round for the job `k`, while
the jobs of `rest` await theirs. -/
structure JobsApart (workerId : String) (k : ℕ) (rest : List ℕ) (db : Db)
    (l : Session) (db₀ : Db) (l₀ : Session) : Prop where
  rows : ∀ id, id ≠ k → db.jobs.get? id = db₀.jobs.get? id
  decisions : db.decisions = db₀.decisions
  waits : ∀ id ∈ rest, Waits workerId id db₀ l₀
  copies : ∀ id ∈ rest, l.cache id = l₀.cache id ∨
    l.cache id = none ∧ ∀ copy ∈ l₀.cache id, copy.status ≠ .pending
  other : k ∉ rest

/-- The observations of two states, the first of which comes from an additional round that has
stored `own`, after other rounds have stored `before` and while others store `after`. -/
structure StoreApart (before own after : List Observation) (db : Db) (l : Session) (db₀ : Db)
    (l₀ : Session) : Prop where
  revisions : ∀ key, (∀ o ∈ own, o.key ≠ key) →
    revisionsOf key db.observations = revisionsOf key db₀.observations
  fresh : ∀ id, db.observations.get? id = none → db₀.observations.get? id = none
  stored : l.stored = before ++ own ++ after
  stored₀ : l₀.stored = before ++ after
  disjoint : ∀ o ∈ before ++ after, ∀ o' ∈ own, o'.key ≠ o.key

namespace JobsApart

variable {workerId : String} {l l₀ : Session} {k : ℕ} {rest : List ℕ} {db db₀ : Db} {c : Cmd}
  (h : JobsApart workerId k rest db l db₀ l₀)

include h

theorem act {op : QueueOp} (hop : op.Foreign workerId) :
    JobsApart workerId k rest (arena.act op db) l (arena.act op db₀) l₀ where
  rows id hid := by rw [get?_act, get?_act, h.rows id hid]
  decisions := h.decisions
  waits id hid := (h.waits id hid).other hop
  copies := h.copies
  other := h.other

/-- A command of the additional round. -/
theorem alone (hc : c.Concerns k) (hspares : c.Spares rest l) (e : Answers) :
    JobsApart workerId k rest (exec c e db l).2.1 (exec c e db l).2.2 db₀ l₀ where
  rows id hid := (hc.get?_of_ne hid e db l).trans (h.rows id hid)
  decisions := (hc.decisions_exec e db l).trans h.decisions
  waits := h.waits
  copies id hid := by
    have hne : id ≠ k := ne_of_mem_of_not_mem hid h.other
    rcases hc.cache_exec hne e db l with ⟨hsame, -⟩ | ⟨hnone, hexp⟩
    · rw [hsame]
      exact h.copies id hid
    · refine Or.inr ⟨hnone, fun copy hcopy => ?_⟩
      rcases h.copies id hid with heq | ⟨-, hclaimed⟩
      · exact hspares hexp id hid copy (by rwa [heq])
      · exact hclaimed copy hcopy
  other := h.other

/-- The same command in both states, of another round. -/
theorem both {i : ℕ} (hc : c.Concerns i) (hi : i ∉ rest) (e e₀ : Answers) :
    JobsApart workerId k rest (exec c e db l).2.1 (exec c e db l).2.2
      (exec c e₀ db₀ l₀).2.1 (exec c e₀ db₀ l₀).2.2 where
  rows id hid := by rw [hc.get?_exec, hc.get?_exec, h.rows id hid]
  decisions := by rw [hc.decisions_exec, hc.decisions_exec, h.decisions]
  waits id hid := (h.waits id hid).own hc (ne_of_mem_of_not_mem hid hi) e₀
  copies id hid := by
    have hne : id ≠ i := ne_of_mem_of_not_mem hid hi
    rcases hc.cache_exec hne e db l with ⟨hsame, hexp⟩ | ⟨hnone, hexp⟩
    · rcases hc.cache_exec hne e₀ db₀ l₀ with ⟨hsame₀, -⟩ | ⟨-, hexp₀⟩
      · rw [hsame, hsame₀]
        exact h.copies id hid
      · exact absurd hexp₀ hexp
    · rcases hc.cache_exec hne e₀ db₀ l₀ with ⟨-, hexp₀⟩ | ⟨hnone₀, -⟩
      · exact absurd hexp hexp₀
      · exact Or.inl (hnone.trans hnone₀.symm)
  other := h.other

end JobsApart

/-- Two answers of the environment that differ at most in the identifier that is drawn. -/
def Answers.SameButUuid (e e₀ : Answers) : Prop := ∃ uuid, e₀ = { e with uuid := uuid }

theorem Answers.SameButUuid.refl (e : Answers) : e.SameButUuid e := ⟨e.uuid, rfl⟩

/-- Whether a new row can be inserted depends on the revisions of its key only. -/
theorem insert?_eq_none_iff_revisions {t : ObservationTable} {o : Observation}
    (hnew : t.get? o.id = none) :
    t.insert? o = none ↔ ∃ a ∈ revisionsOf o.key t, a.revision = o.revision := by
  rw [Table.insert?_eq_none_iff]
  constructor
  · rintro ⟨a, ha, hid | ⟨hkey, hrevision⟩⟩
    · exact absurd hid (Table.get?_eq_none_iff.mp hnew a ha)
    · exact ⟨a, mem_revisionsOf.mpr ⟨ha, hkey⟩, hrevision⟩
  · rintro ⟨a, ha, hrevision⟩
    obtain ⟨hrow, hkey⟩ := mem_revisionsOf.mp ha
    exact ⟨a, hrow, Or.inr ⟨hkey, hrevision⟩⟩

namespace StoreApart

variable {l l₀ : Session} {before own after : List Observation} {db db₀ : Db} {c : Cmd} {i : ℕ}

/-- A command of the additional round, which stays clear of what was stored before. -/
theorem alone (h : StoreApart before own [] db l db₀ l₀) (hc : c.Concerns i)
    (havoid : c.Avoids before) (e : Answers) :
    ∃ own', StoreApart before own' [] (exec c e db l).2.1 (exec c e db l).2.2 db₀ l₀ := by
  rcases hc.observations_exec e db l with ⟨hobs, hstored⟩ | ⟨candidate, rfl, hinsert, hstored⟩
  · refine ⟨own, ?_, ?_, hstored.trans h.stored, h.stored₀, h.disjoint⟩
    · rw [hobs]
      exact h.revisions
    · rw [hobs]
      exact h.fresh
  · generalize hrow : candidate.row (db.observations.draw e.uuid) = o at hinsert hstored
    have hkey : o.key = candidate.key := hrow ▸ rfl
    refine ⟨own ++ [o], fun key hkeys => ?_, fun id hid => h.fresh id ?_, ?_, h.stored₀, ?_⟩
    · have hne : o.key ≠ key := hkeys o (List.mem_append_right _ (List.mem_singleton_self o))
      rw [History.revisionsOf_insert hinsert, if_neg hne, List.append_nil]
      exact h.revisions key fun o' ho' => hkeys o' (List.mem_append_left _ ho')
    · rw [Table.get?_insert? hinsert] at hid
      split at hid
      · exact absurd hid (by simp)
      · exact hid
    · rw [hstored, h.stored]
      simp
    · intro x hx o' ho'
      rcases List.mem_append.mp ho' with ho' | ho'
      · exact h.disjoint x hx o' ho'
      · obtain rfl := List.mem_singleton.mp ho'
        rw [hkey]
        exact (havoid candidate.key rfl x (by simpa using hx)).symm

/-- An insert in both states, of a key under which the additional round has stored nothing: it adds
the same row to both, or to neither. -/
theorem insert (h : StoreApart before own after db l db₀ l₀) {candidate : ObservationCandidate}
    (havoid : (Cmd.insertObservation candidate).Avoids own) (e : Answers) :
    ∃ e₀ after', e.SameButUuid e₀ ∧
      (exec (.insertObservation candidate) e₀ db₀ l₀).1 =
        (exec (.insertObservation candidate) e db l).1 ∧
      StoreApart before own after' (exec (.insertObservation candidate) e db l).2.1
        (exec (.insertObservation candidate) e db l).2.2
        (exec (.insertObservation candidate) e₀ db₀ l₀).2.1
        (exec (.insertObservation candidate) e₀ db₀ l₀).2.2 := by
  have hnew := db.observations.get?_draw e.uuid
  have hdraw : db₀.observations.draw (db.observations.draw e.uuid) = db.observations.draw e.uuid :=
    if_pos (h.fresh _ hnew)
  have hnone : db.observations.insert? (candidate.row (db.observations.draw e.uuid)) = none ↔
      db₀.observations.insert? (candidate.row (db.observations.draw e.uuid)) = none := by
    rw [insert?_eq_none_iff_revisions hnew, insert?_eq_none_iff_revisions (h.fresh _ hnew),
      h.revisions (candidate.row _).key (havoid candidate.key rfl)]
  refine ⟨{ e with uuid := db.observations.draw e.uuid }, ?_⟩
  generalize hrow : candidate.row (db.observations.draw e.uuid) = o at hnone
  have hkey : o.key = candidate.key := hrow ▸ rfl
  simp only [exec, hdraw, hrow]
  cases ht : db.observations.insert? o with
  | none =>
      rw [hnone.mp ht]
      exact ⟨after, ⟨_, rfl⟩, rfl, h⟩
  | some t =>
      cases ht₀ : db₀.observations.insert? o with
      | none => exact absurd (ht.symm.trans (hnone.mpr ht₀)) (by simp)
      | some t₀ =>
          refine ⟨after ++ [o], ⟨_, rfl⟩, rfl, fun key hkeys => ?_, fun id hid => ?_, ?_, ?_, ?_⟩
          · rw [History.revisionsOf_insert ht, History.revisionsOf_insert ht₀,
              h.revisions key hkeys]
          · rw [Table.get?_insert? ht] at hid
            rw [Table.get?_insert? ht₀]
            split at hid
            · exact absurd hid (by simp)
            · rename_i hne
              rw [if_neg hne]
              exact h.fresh id hid
          · rw [h.stored, List.append_assoc]
          · rw [h.stored₀, List.append_assoc]
          · intro x hx o' ho'
            rw [← List.append_assoc, List.mem_append, List.mem_singleton] at hx
            rcases hx with hx | rfl
            · exact h.disjoint x hx o' ho'
            · rw [hkey]
              exact havoid candidate.key rfl o' ho'

/-- No other command concerns the observations. -/
theorem both (h : StoreApart before own after db l db₀ l₀) (hc : c.Concerns i)
    (hinsert : ∀ candidate, c ≠ .insertObservation candidate) (e : Answers) :
    StoreApart before own after (exec c e db l).2.1 (exec c e db l).2.2 (exec c e db₀ l₀).2.1
      (exec c e db₀ l₀).2.2 := by
  rcases hc.observations_exec e db l with ⟨hobs, hstored⟩ | ⟨candidate, hins, -⟩
  swap
  · exact absurd hins (hinsert candidate)
  rcases hc.observations_exec e db₀ l₀ with ⟨hobs₀, hstored₀⟩ | ⟨candidate, hins, -⟩
  swap
  · exact absurd hins (hinsert candidate)
  refine ⟨?_, ?_, hstored.trans h.stored, hstored₀.trans h.stored₀, h.disjoint⟩
  · rw [hobs, hobs₀]
    exact h.revisions
  · rw [hobs, hobs₀]
    exact h.fresh

end StoreApart

/-- Two states, the first of which comes from an additional round for the job `k`. -/
structure Apart (workerId : String) (k : ℕ) (rest : List ℕ)
    (before own after : List Observation) (db : Db) (l : Session) (db₀ : Db) (l₀ : Session) :
    Prop where
  jobs : JobsApart workerId k rest db l db₀ l₀
  store : StoreApart before own after db l db₀ l₀

namespace Apart

variable {workerId : String} {l l₀ : Session} {k : ℕ} {rest : List ℕ} {db db₀ : Db}
  {before own after : List Observation} {c : Cmd}

/-- The others keep two such states apart in the same way. -/
theorem act (h : Apart workerId k rest before own after db l db₀ l₀) {op : QueueOp}
    (hop : op.Foreign workerId) :
    Apart workerId k rest before own after (arena.act op db) l (arena.act op db₀) l₀ :=
  ⟨h.jobs.act hop, h.store.revisions, h.store.fresh, h.store.stored, h.store.stored₀,
    h.store.disjoint⟩

/-- **The round of `k`** keeps the states apart, as long as it stays clear of what earlier rounds
have stored and spares the copies of the jobs that wait. -/
theorem alone (h : Apart workerId k rest before own [] db l db₀ l₀) (hc : c.Concerns k)
    (havoid : c.Avoids before) (hspares : c.Spares rest l) (e : Answers) :
    ∃ own', Apart workerId k rest before own' [] (exec c e db l).2.1 (exec c e db l).2.2 db₀
      l₀ := by
  obtain ⟨own', hstore⟩ := h.store.alone hc havoid e
  exact ⟨own', h.jobs.alone hc hspares e, hstore⟩

/-- **A command of another round** does the same in both states, as long as the session's copies of
its job agree and it stays clear of what the round of `k` has stored. -/
theorem both (h : Apart workerId k rest before own after db l db₀ l₀) {i : ℕ} (hik : i ≠ k)
    (hi : i ∉ rest) (hcache : l.cache i = l₀.cache i) (hc : c.Concerns i) (havoid : c.Avoids own)
    (e : Answers) :
    ∃ e₀ after', e.SameButUuid e₀ ∧ (exec c e₀ db₀ l₀).1 = (exec c e db l).1 ∧
      Apart workerId k rest before own after' (exec c e db l).2.1 (exec c e db l).2.2
        (exec c e₀ db₀ l₀).2.1 (exec c e₀ db₀ l₀).2.2 ∧
      (exec c e db l).2.2.cache i = (exec c e₀ db₀ l₀).2.2.cache i := by
  have hrow := h.jobs.rows i hik
  have hread : l.read db.jobs i = l₀.read db₀.jobs i := by rw [Session.read, Session.read, hcache, hrow]
  have hsame : (∀ candidate, c ≠ .insertObservation candidate) →
      (exec c e db₀ l₀).1 = (exec c e db l).1 →
      (exec c e db l).2.2.cache i = (exec c e db₀ l₀).2.2.cache i →
      ∃ e₀ after', e.SameButUuid e₀ ∧ (exec c e₀ db₀ l₀).1 = (exec c e db l).1 ∧
        Apart workerId k rest before own after' (exec c e db l).2.1 (exec c e db l).2.2
          (exec c e₀ db₀ l₀).2.1 (exec c e₀ db₀ l₀).2.2 ∧
        (exec c e db l).2.2.cache i = (exec c e₀ db₀ l₀).2.2.cache i :=
    fun hinsert hresp hcache' => ⟨e, after, .refl e, hresp,
      ⟨h.jobs.both hc hi e e, h.store.both hc hinsert e⟩, hcache'⟩
  cases c with
  | insertObservation candidate =>
      obtain ⟨e₀, after', he, hresp, hstore⟩ := h.store.insert havoid e
      refine ⟨e₀, after', he, hresp, ⟨h.jobs.both hc hi e e₀, hstore⟩, ?_⟩
      simp only [exec]
      split <;> split <;> exact hcache
  | update op =>
      refine hsame (by simp) ?_ (by simpa [exec] using hcache)
      cases op with
      | claim i' w now =>
          obtain rfl : i' = i := hc
          exact (Table.count_congr hrow fun j => decide (j.status = .pending)).symm
      | owned i' w generation t =>
          obtain rfl : i' = i := hc
          exact (Table.count_congr hrow fun j => decide (j.status ∈ t.allowedStatuses) &&
            decide (j.claimedBy = some w) && decide (j.generation = generation)).symm
      | recoverExpired | promoteDueWaiting => exact hc.elim
  | load i' =>
      obtain rfl : i' = i := hc
      exact hsame (by simp) hrow.symm (by simp [exec, hrow])
  | attributes i' =>
      obtain rfl : i' = i := hc
      exact hsame (by simp) hread.symm (by simp [exec, hread])
  | generation i' =>
      obtain rfl : i' = i := hc
      exact hsame (by simp) (congrArg (Option.map Job.generation) hread.symm) (by simp [exec, hread])
  | expire i' =>
      obtain rfl : i' = i := hc
      exact hsame (by simp) rfl (by simp [exec])
  | expireAll => exact hsame (by simp) rfl rfl
  | selectOwned i' w generation =>
      obtain rfl : i' = i := hc
      refine hsame (by simp) ?_ hcache
      have hany := fun t : JobTable => t.any_pk i' fun j => j.status.held &&
        decide (j.claimedBy = some w) && decide (j.generation = generation)
      exact (hany db₀.jobs).trans ((congrArg _ hrow.symm).trans (hany db.jobs).symm)
  | selectDecision source capability =>
      refine hsame (by simp) ?_ hcache
      simp only [exec, h.jobs.decisions]
  | selectRevision key =>
      refine hsame (by simp) ?_ hcache
      simp only [exec, currentRevision, h.store.revisions key (havoid key rfl)]
  | insertJob | markWaiting | selectJob | insertDecision | selectMaxVersion | selectLastCompleted
  | selectCandidates => exact hc.elim
  | _ => exact hsame (by simp) rfl hcache

end Apart

end MarketRelay
