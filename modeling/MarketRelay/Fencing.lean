import MarketRelay.Queue

/-!
# Claim Generations Fence Stale Workers

A claim hands its worker a token: the pair of the worker's name and of the generation that
the claim `UPDATE` wrote. Failure, deferral and waiting end a claim without touching the
generation, completion keeps even the owner, and the same worker may claim the job again
later, so neither the status nor the owner nor the generation alone tells a current token
from a stale one. What does is their conjunction, `Job.HeldBy`, together with one fact
about runs: a token that does not hold a row whose generation has reached its own never
holds it again (`Job.Spent`), because ownership is only ever regained through a claim, and
a claim writes a new generation.

## Main results

* `Job.Spent.runRow`: a spent token stays spent.
* `claim_tokens_fence`: over runs of any length, generations never decrease, every
  successful claim and every recovery raises them, no two claims write the same one, and
  a claim that has ended leaves a token with which nothing can be changed any more.
-/

open Relational

namespace MarketRelay

/-- The token `(workerId, generation)` can never hold the row again: the row has reached
its generation and is not owned under it. -/
def Job.Spent (j : Job) (workerId : String) (generation : ℕ) : Prop :=
  generation ≤ j.generation ∧ ¬ j.HeldBy workerId generation

namespace Job.Spent

variable {j : Job} {workerId : String} {g : ℕ}

/-- A generation past the token's spends it. -/
theorem of_lt (h : g < j.generation) : j.Spent workerId g :=
  ⟨h.le, fun hh => absurd hh.2.2 (by omega)⟩

/-- Only a claim makes a row held, and a claim writes a new generation. -/
theorem row (h : j.Spent workerId g) (op : QueueOp) : (op.row j).Spent workerId g := by
  obtain ⟨hle, hnot⟩ := h
  cases hc : op.cond j with
  | false => rw [QueueOp.row_of_not_cond hc]; exact ⟨hle, hnot⟩
  | true =>
      rw [QueueOp.row_of_cond hc]
      cases op with
      | claim id w now => exact of_lt (Nat.lt_succ_of_le hle)
      | recoverExpired now lease => exact of_lt (Nat.lt_succ_of_le hle)
      | promoteDueWaiting now => exact ⟨hle, fun hh => Bool.false_ne_true hh.1⟩
      | owned id w' g' w =>
          obtain ⟨-, hheld, -, -⟩ := QueueOp.heldBy_of_cond_owned hc
          refine ⟨by simpa [QueueOp.set] using hle, ?_⟩
          rintro ⟨-, hby, hgen⟩
          rw [QueueOp.set, Transition.values_generation] at hgen
          rcases w.values_claimedBy j with hk | hk
          · exact hnot ⟨hheld, hk ▸ hby, hgen⟩
          · rw [QueueOp.set, hk] at hby
            exact absurd hby (by simp)

theorem event (h : j.Spent workerId g) (e : JobEvent) : (e.row j).Spent workerId g := by
  cases e with
  | statement op => exact h.row op
  | _ => exact h

/-- **A spent token stays spent** over every run. -/
theorem runRow (h : j.Spent workerId g) (es : List JobEvent) :
    (MarketRelay.runRow j es).Spent workerId g := by
  induction es generalizing j with
  | nil => exact h
  | cons e es ih => exact ih (h.event e)

end Job.Spent

/-! ### Claims and their ends -/

/-- The claim `UPDATE` of `workerId` wins the job in state `t` and writes generation `g`. -/
def ClaimWrites (t : JobTable) (id : ℕ) (workerId : String) (now : Instant) (g : ℕ) : Prop :=
  ∃ j, t.get? id = some j ∧ (QueueOp.claim id workerId now).cond j = true ∧
    ((QueueOp.claim id workerId now).set j).generation = g

/-- The statements that write a new generation when they apply. -/
def QueueOp.Raises : QueueOp → Prop
  | claim .. | recoverExpired .. => True
  | _ => False

/-- The statements that end a claim when they apply: a lease recovery, and the transitions
out of ownership (done, failed, deferred, waiting) presented with the claim's token. -/
def QueueOp.EndsClaim (id : ℕ) (workerId : String) (g : ℕ) : QueueOp → Prop
  | recoverExpired .. => True
  | owned id' workerId' g' w => id' = id ∧ workerId' = workerId ∧ g' = g ∧ w ≠ .markRunning
  | _ => False

/-- A statement that raises the generation does so strictly. -/
theorem QueueOp.generation_lt_set {op : QueueOp} (h : op.Raises) (j : Job) :
    j.generation < (op.set j).generation := by
  cases op <;> simp_all [QueueOp.Raises, QueueOp.set]

/-- A transition out of ownership leaves the row unowned. -/
theorem Transition.not_heldBy_values {w : Transition} (h : w ≠ .markRunning) (j : Job)
    (workerId : String) (g : ℕ) : ¬ (w.values j).HeldBy workerId g := by
  rintro ⟨hheld, hby, -⟩
  cases w with
  | markRunning => exact h rfl
  | markDone => simp [Transition.values, JobStatus.held] at hheld
  | _ => simp [Transition.values] at hby

/-- Once the claim has ended, its token is spent. -/
theorem QueueOp.spent_of_endsClaim {op : QueueOp} {j : Job} {id g : ℕ} {workerId : String}
    (he : op.EndsClaim id workerId g) (hc : op.cond j = true) (hle : g ≤ j.generation) :
    (op.row j).Spent workerId g := by
  rw [QueueOp.row_of_cond hc]
  cases op with
  | recoverExpired now lease =>
      exact Job.Spent.of_lt (Nat.lt_of_le_of_lt hle (Nat.lt_succ_self _))
  | owned id' w' g' w =>
      obtain ⟨-, -, -, hw⟩ := he
      exact ⟨by simpa [QueueOp.set] using hle, Transition.not_heldBy_values hw j workerId g⟩
  | claim => exact he.elim
  | promoteDueWaiting => exact he.elim

/-- After a claim has written `g`, every later state has reached it. -/
theorem ClaimWrites.le_of_run {t : JobTable} {id g : ℕ} {workerId : String} {now : Instant}
    (h : ClaimWrites t id workerId now g) (es : List JobEvent) :
    ∃ j, (runEvents t (.statement (.claim id workerId now) :: es)).get? id = some j ∧
      g ≤ j.generation := by
  obtain ⟨j, hj, hc, rfl⟩ := h
  have hrow := JobEvent.get?_apply_of_some (e := .statement (.claim id workerId now)) hj
  refine ⟨_, get?_runEvents hrow es, ?_⟩
  refine le_trans (le_of_eq ?_) (generation_le_runRow _ es)
  rw [JobEvent.row, QueueOp.row_of_cond hc]

/-- **Claim tokens fence stale workers.** For any number of workers and any interleaving of
the queue's statements, from any table:

* the generation of a job never decreases;
* every successful claim and every lease recovery strictly raises it;
* the generation that one claim writes is never written by a later one;
* once a claim has ended, no owned transition presented with its token changes the table
  in any later state, whoever has claimed the job since. -/
theorem claim_tokens_fence (t₀ : JobTable) (id : ℕ) :
    (∀ es es' j, (runEvents t₀ es).get? id = some j →
      ∃ j', (runEvents t₀ (es ++ es')).get? id = some j' ∧ j.generation ≤ j'.generation) ∧
    (∀ es op j, (runEvents t₀ es).get? id = some j → op.cond j = true → op.Raises →
      ∃ j', (runEvents t₀ (es ++ [.statement op])).get? id = some j' ∧
        j.generation < j'.generation) ∧
    (∀ es es' workerId now g workerId' now' g',
      ClaimWrites (runEvents t₀ es) id workerId now g →
      ClaimWrites (runEvents t₀ (es ++ .statement (.claim id workerId now) :: es'))
        id workerId' now' g' → g ≠ g') ∧
    (∀ es es' es'' workerId now g op j w,
      ClaimWrites (runEvents t₀ es) id workerId now g →
      (runEvents t₀ (es ++ .statement (.claim id workerId now) :: es')).get? id = some j →
      op.cond j = true → op.EndsClaim id workerId g →
      let t := runEvents t₀
        (es ++ .statement (.claim id workerId now) :: es' ++ .statement op :: es'')
      (QueueOp.owned id workerId g w).run t = t) := by
  refine ⟨?monotone, ?strict, ?unique, ?fence⟩
  case monotone =>
    intro es es' j hj
    rw [runEvents_append]
    exact ⟨_, get?_runEvents hj es', generation_le_runRow j es'⟩
  case strict =>
    intro es op j hj hc hr
    rw [runEvents_append]
    refine ⟨_, get?_runEvents hj _, ?_⟩
    change j.generation < (op.row j).generation
    rw [QueueOp.row_of_cond hc]
    exact QueueOp.generation_lt_set hr j
  case unique =>
    rintro es es' workerId now g workerId' now' g' h ⟨j', hj', -, rfl⟩
    rw [runEvents_append] at hj'
    obtain ⟨j, hj, hle⟩ := h.le_of_run es'
    obtain rfl : j = j' := Option.some.inj (hj.symm.trans hj')
    have hlt : j.generation < ((QueueOp.claim id workerId' now').set j).generation :=
      Nat.lt_succ_self _
    omega
  case fence =>
    intro es es' es'' workerId now g op j w h hj hc he t
    rw [runEvents_append] at hj
    obtain ⟨j₀, hj₀, hle⟩ := h.le_of_run es'
    obtain rfl : j₀ = j := Option.some.inj (hj₀.symm.trans hj)
    have hspent : (op.row j₀).Spent workerId g := QueueOp.spent_of_endsClaim he hc hle
    have hget : t.get? id = some (runRow (op.row j₀) es'') := by
      change (runEvents t₀ _).get? id = _
      rw [runEvents_append, runEvents_append, runEvents_cons]
      exact get?_runEvents (JobEvent.get?_apply_of_some hj) es''
    refine QueueOp.owned_run_eq_self fun j' hj' => ?_
    obtain rfl := Option.some.inj (hget.symm.trans hj')
    exact (hspent.runRow es'').2

/-- The crashed worker of the lease tests: claimed by `old`, recovered after ten seconds,
claimed again by `old` itself. Its first token no longer completes the job. -/
theorem claim_tokens_fence_lease :
    let job := newJob ⟨"fetch_range", "fake", "lease-job", none, none, 0, 5⟩ 1 0
    let t₀ : JobTable := ⟨[job], List.pairwise_singleton _ _⟩
    let t := runEvents t₀ [.statement (.claim 1 "old" 0), .statement (.owned 1 "old" 1 .markRunning),
      .statement (.recoverExpired (seconds 10) 10), .statement (.claim 1 "old" (seconds 10)),
      .statement (.owned 1 "old" 3 .markRunning)]
    (QueueOp.owned 1 "old" 1 .markDone).run t = t :=
  let job := newJob ⟨"fetch_range", "fake", "lease-job", none, none, 0, 5⟩ 1 0
  let t₀ : JobTable := ⟨[job], List.pairwise_singleton _ _⟩
  (claim_tokens_fence t₀ 1).2.2.2 [] [.statement (.owned 1 "old" 1 .markRunning)]
    [.statement (.claim 1 "old" (seconds 10)), .statement (.owned 1 "old" 3 .markRunning)]
    "old" 0 1 (.recoverExpired (seconds 10) 10)
    { job with status := .running, claimedBy := some "old", claimedAt := some 0, generation := 1 }
    .markDone ⟨job, by decide, by decide, by decide⟩ (by decide) (by decide) trivial

end MarketRelay
