import MarketRelay.JobQueue
import MarketRelay.Lib.Trace

/-!
# A Job in a Session Run Alone

What the methods of the queue do to the job of a session that runs alone: as long as the session's
copy of the job, if it has loaded one, is the stored row (`Session.InStep`), an attribute that is
read is the attribute of the row, and a transition whose condition the row meets changes the row,
once, and makes the session forget its copy.

## Main results

* `attributes_executes`: the row that is read.
* `JobQueue.ownedTransition_traces`: a transition of a job that is owned succeeds.
* `JobQueue.markFailed_traces`: so does a failed attempt, computed from the row.
* `JobQueue.claimJob_bind_traces`: a pending job is claimed.
-/

open Relational Interaction Gregorian

namespace MarketRelay

/-- The job is stored as `j`, and the session's copy of it, if there is one, is the same. -/
structure Session.InStep (l : Session) (db : Db) (j : Job) : Prop where
  row : db.jobs.get? j.id = some j
  copy : ∀ c, l.cache j.id = some c → c = j

namespace Session.InStep

variable {l l' : Session} {db db' : Db} {j : Job}

theorem read (h : l.InStep db j) : l.read db.jobs j.id = some j := by
  rw [Session.read]
  cases hc : l.cache j.id with
  | none => exact h.row
  | some c => rw [h.copy c hc]; rfl

/-- A session that has not loaded the job is in step with its row. -/
theorem of_forgotten (hrow : db.jobs.get? j.id = some j) (hcache : l.cache j.id = none) :
    l.InStep db j :=
  ⟨hrow, fun c hc => absurd (hcache.symm.trans hc) (by simp)⟩

/-- What neither the job table nor the cache depends on. -/
theorem congr (h : l.InStep db j) (hjobs : db'.jobs = db.jobs) (hcache : l'.cache = l.cache) :
    l'.InStep db' j :=
  ⟨hjobs ▸ h.row, hcache ▸ h.copy⟩

/-- Loading the row keeps the session in step. -/
theorem load (h : l.InStep db j) :
    ({ l with cache := Function.update l.cache j.id (some j) } : Session).InStep db j where
  row := h.row
  copy c hc := by
    have hsome : some j = some c := by simpa using hc
    exact (Option.some.inj hsome).symm

end Session.InStep

section Reads

variable {l l' : Session} {db db' : Db} {j : Job} (h : l.InStep db j)

include h

/-- **The row that is read** is the stored one. -/
theorem attributes_executes {r : Except PyError Job}
    (hx : (attributes j.id).Executes semantics db l r db' l') :
    r = .ok j ∧ db' = db ∧ l'.InStep db j := by
  obtain ⟨e, hx⟩ := Script.executes_op_bind.mp hx
  simp only [semantics_exec, exec, h.read] at hx
  obtain ⟨rfl, rfl, rfl⟩ := Script.executes_pure.mp hx
  exact ⟨rfl, rfl, h.load⟩

theorem generation_executes {r : Except PyError ℕ}
    (hx : (generation j.id).Executes semantics db l r db' l') :
    r = .ok j.generation ∧ db' = db ∧ l'.InStep db j := by
  obtain ⟨e, hx⟩ := Script.executes_op_bind.mp hx
  simp only [semantics_exec, exec, h.read, Option.map_some] at hx
  obtain ⟨rfl, rfl, rfl⟩ := Script.executes_pure.mp hx
  exact ⟨rfl, rfl, h.load⟩

/-- What follows a read of the job continues with its row. -/
theorem attributes_bind_traces {α : Type} {f : Job → App α} {events : List (Event Cmd Cmd.Resp)}
    {r : Except PyError α}
    (hx : (attributes j.id >>= f).Traces semantics db l events r db' l') :
    ∃ l₁ rest, events = ⟨.attributes j.id, some j⟩ :: rest ∧ l₁.InStep db j ∧
      (f j).Traces semantics db l₁ rest r db' l' := by
  obtain ⟨_, db₁, l₁, first, rest, rfl, hread, hf⟩ :=
    Script.traces_bind_of_returns (fun e s' l' he => by simpa using (attributes_executes h he).1) hx
  obtain ⟨hr, rfl, hstep⟩ := attributes_executes h hread.executes
  obtain rfl := Except.ok.inj hr
  obtain ⟨e, tail, rfl, htail⟩ := Script.traces_op_bind.mp hread
  simp only [semantics_exec, exec, h.read] at htail
  obtain ⟨rfl, -⟩ := Script.traces_pure.mp htail
  refine ⟨l₁, rest, ?_, hstep, hf⟩
  simp only [semantics_exec, exec, h.read, List.cons_append, List.nil_append]

theorem generation_bind_traces {α : Type} {f : ℕ → App α} {events : List (Event Cmd Cmd.Resp)}
    {r : Except PyError α}
    (hx : (generation j.id >>= f).Traces semantics db l events r db' l') :
    ∃ l₁ rest, events = ⟨.generation j.id, some j.generation⟩ :: rest ∧ l₁.InStep db j ∧
      (f j.generation).Traces semantics db l₁ rest r db' l' := by
  obtain ⟨_, db₁, l₁, first, rest, rfl, hread, hf⟩ :=
    Script.traces_bind_of_returns (fun e s' l' he => by simpa using (generation_executes h he).1) hx
  obtain ⟨hr, rfl, hstep⟩ := generation_executes h hread.executes
  obtain rfl := Except.ok.inj hr
  obtain ⟨e, tail, rfl, htail⟩ := Script.traces_op_bind.mp hread
  simp only [semantics_exec, exec, h.read, Option.map_some] at htail
  obtain ⟨rfl, -⟩ := Script.traces_pure.mp htail
  refine ⟨l₁, rest, ?_, hstep, hf⟩
  simp only [semantics_exec, exec, h.read, Option.map_some, List.cons_append, List.nil_append]

end Reads

/-! ### Owned transitions -/

namespace JobQueue

variable {l l' : Session} {db db' : Db} {j : Job} {workerId : String} {generation : ℕ}
  {events : List (Event Cmd Cmd.Resp)} (h : l.InStep db j)

include h

/-- **A transition of a job that is owned succeeds**: it updates the row, once. -/
theorem ownedTransition_traces {w : Transition} {r : Except PyError Unit}
    (hcond : (QueueOp.owned j.id workerId generation w).cond j = true)
    (hx : (ownedTransition j.id workerId generation w).Traces semantics db l events r db' l') :
    r = .ok () ∧ l'.InStep db' (w.values j) ∧
      db'.observations = db.observations ∧ db'.decisions = db.decisions ∧
      events = [⟨.attributes j.id, some j⟩, ⟨.update (.owned j.id workerId generation w), (1 : ℕ)⟩,
        ⟨.expire j.id, ()⟩] := by
  obtain ⟨l₁, rest, rfl, hstep, hupdate⟩ := attributes_bind_traces h hx
  obtain ⟨e, rest, rfl, hexpire⟩ := Script.traces_op_bind.mp hupdate
  have hrowcount : (QueueOp.owned j.id workerId generation w).rowcount db.jobs = 1 :=
    (Table.count_update db.jobs j.id _).mpr ⟨j, h.row, (Bool.and_eq_true_iff.mp hcond).2⟩
  simp only [semantics_exec, exec, hrowcount, ne_eq, not_true_eq_false, if_false] at hexpire
  obtain ⟨e', rfl, rfl, rfl, rfl⟩ := Script.traces_op.mp hexpire
  refine ⟨rfl, Session.InStep.of_forgotten ?_ ?_, rfl, rfl, ?_⟩
  · rw [Transition.values_id]
    exact (QueueOp.get?_run _ db.jobs j.id).trans
      (by rw [h.row, Option.map_some, QueueOp.row_of_cond hcond]; rfl)
  · rw [Transition.values_id]
    exact Function.update_self ..
  · simp only [semantics_exec, exec, hrowcount]

/-- What follows a transition of a job that is owned is reached, with the row updated. -/
theorem ownedTransition_bind_traces {α : Type} {w : Transition} {f : Unit → App α}
    {r : Except PyError α} (hcond : (QueueOp.owned j.id workerId generation w).cond j = true)
    (hx : (ownedTransition j.id workerId generation w >>= f).Traces semantics db l events r db' l') :
    ∃ db₁ l₁ rest, l₁.InStep db₁ (w.values j) ∧
      db₁.observations = db.observations ∧ db₁.decisions = db.decisions ∧
      events = ⟨.attributes j.id, some j⟩ ::
        ⟨.update (.owned j.id workerId generation w), (1 : ℕ)⟩ :: ⟨.expire j.id, ()⟩ :: rest ∧
      (f ()).Traces semantics db₁ l₁ rest r db' l' := by
  rcases Script.traces_bind.mp hx with
    ⟨_, db₁, l₁, first, rest, rfl, htransition, hf⟩ | ⟨e, hraised, -⟩
  · obtain ⟨-, hstep, hobs, hdec, rfl⟩ := ownedTransition_traces h hcond htransition
    exact ⟨db₁, l₁, rest, hstep, hobs, hdec, rfl, hf⟩
  · exact absurd (ownedTransition_traces h hcond hraised).1 (by simp)

/-- **A failed attempt of a job that is owned is counted**, from the row. -/
theorem markFailed_traces {error : String} {now : Instant} {r : Except PyError Unit}
    (hheld : j.HeldBy workerId generation)
    (hx : (markFailed j.id workerId generation error now).Traces semantics db l events r db' l') :
    r = .ok () ∧ l'.InStep db' ((Transition.failure j error now).values j) ∧
      db'.observations = db.observations ∧ db'.decisions = db.decisions ∧
      events = [⟨.attributes j.id, some j⟩, ⟨.attributes j.id, some j⟩,
        ⟨.update (.owned j.id workerId generation (.failure j error now)), (1 : ℕ)⟩,
        ⟨.expire j.id, ()⟩] := by
  obtain ⟨l₁, rest, rfl, hstep, htransition⟩ := attributes_bind_traces h hx
  have hcond : (QueueOp.owned j.id workerId generation (.failure j error now)).cond j = true := by
    refine QueueOp.cond_owned.mpr ⟨rfl, ?_, hheld.2⟩
    have hstatus := hheld.1
    cases hs : j.status <;> simp_all [JobStatus.held, Transition.failure, Transition.allowedStatuses]
  obtain ⟨hr, hstep', hobs, hdec, rfl⟩ := ownedTransition_traces hstep hcond htransition
  exact ⟨hr, hstep', hobs, hdec, rfl⟩

/-- The owner is confirmed. -/
theorem assertOwned_executes {r : Except PyError Unit} (hheld : j.HeldBy workerId generation)
    (hx : (assertOwned j.id workerId generation).Executes semantics db l r db' l') :
    r = .ok () ∧ db' = db ∧ l'.InStep db j := by
  obtain ⟨j', db₁, l₁, hread, hselect⟩ :=
    Script.executes_bind_of_returns (fun e s' l' he => by simpa using (attributes_executes h he).1) hx
  obtain ⟨hr, rfl, hstep⟩ := attributes_executes h hread
  obtain rfl : j = j' := (Except.ok.inj hr).symm
  obtain ⟨e, hdone⟩ := Script.executes_op_bind.mp hselect
  have howned : (db₁.jobs.rows.any fun row => decide (row.id = j.id) && (row.status.held &&
      decide (row.claimedBy = some workerId) && decide (row.generation = generation))) = true := by
    refine List.any_eq_true.mpr ⟨j, (Table.mem_of_get? h.row).1, ?_⟩
    simp [hheld.1, hheld.2.1, hheld.2.2]
  simp only [semantics_exec, exec, howned, if_true] at hdone
  obtain ⟨rfl, rfl, rfl⟩ := Script.executes_pure.mp hdone
  exact ⟨rfl, rfl, hstep⟩

/-- **A pending job is claimed**, and the rest continues with the job as it is claimed. -/
theorem claimJob_bind_traces {α : Type} {now : Instant} {f : ℕ → App α} {r : Except PyError α}
    (hpending : j.status = .pending)
    (hx : (claimJob j.id workerId now >>= f).Traces semantics db l events r db' l') :
    ∃ db₁ l₁ rest, l₁.InStep db₁ ((QueueOp.claim j.id workerId now).set j) ∧
      db₁.observations = db.observations ∧ db₁.decisions = db.decisions ∧
      events = ⟨.attributes j.id, some j⟩ :: ⟨.update (.claim j.id workerId now), (1 : ℕ)⟩ ::
        ⟨.commit, ()⟩ :: ⟨.load j.id, some ((QueueOp.claim j.id workerId now).set j)⟩ :: rest ∧
      (f j.id).Traces semantics db₁ l₁ rest r db' l' := by
  have hcond : (QueueOp.claim j.id workerId now).cond j = true :=
    QueueOp.cond_claim.mpr ⟨rfl, hpending⟩
  rw [claimJob, bind_assoc] at hx
  obtain ⟨l₁, rest, rfl, hstep, hx₁⟩ := attributes_bind_traces h hx
  have hrowcount : (QueueOp.claim j.id workerId now).rowcount db.jobs = 1 :=
    (Table.count_update db.jobs j.id _).mpr ⟨j, h.row, (Bool.and_eq_true_iff.mp hcond).2⟩
  have hload : ((QueueOp.claim j.id workerId now).run db.jobs).get? j.id =
      some ((QueueOp.claim j.id workerId now).set j) := by
    rw [QueueOp.get?_run, h.row, Option.map_some, QueueOp.row_of_cond hcond]
  simp only [tryClaimOne, bind_assoc] at hx₁
  obtain ⟨e₁, rest₁, rfl, hx₂⟩ := Script.traces_op_bind.mp hx₁
  obtain ⟨e₂, rest₂, rfl, hx₃⟩ := Script.traces_op_bind.mp hx₂
  simp only [semantics_exec, exec, hrowcount] at hx₃ ⊢
  rw [if_neg (by simp), bind_assoc] at hx₃
  obtain ⟨e₃, rest₃, rfl, hx₄⟩ := Script.traces_op_bind.mp hx₃
  simp only [semantics_exec, exec, hload] at hx₄ ⊢
  rw [Option.map_some, pure_bind, pure_bind, QueueOp.set_id] at hx₄
  refine ⟨_, _, rest₃, ⟨?_, fun c hc => ?_⟩, ?_, ?_, rfl, hx₄⟩
  · rwa [QueueOp.set_id]
  · rw [QueueOp.set_id] at hc
    exact (Option.some.inj ((Function.update_self j.id _ _).symm.trans hc)).symm
  · rfl
  · rfl

end JobQueue

end MarketRelay
