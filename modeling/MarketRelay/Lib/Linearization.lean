import MarketRelay.Lib.Interleaving
import MarketRelay.Lib.Machine

/-!
# Linearization by Completion

The threads of a configuration as concurrent calls of one object. A call is pending until its
program returns, and a schedule completes some of the calls, in an order of its own
(`Config.completions`). The calls are linearizable in this order when a sequential machine, which
performs one completed call after another, passes through the abstractions of the shared state:
then every call has the result that the sequential object gives it, and a call that had completed
before another one began stands before it.

To show this it is enough to look at one command of one thread, with the knowledge of the
rely–guarantee rule: a command that does not complete its call must not be seen in the abstract
state, and one that does must be the step of the machine (`Config.Simulates`).

## Main results

* `Config.completions_append`: the order is extended by what comes later, and never changed.
* `Config.mem_completions_iff`: a call is in the order exactly when it has returned, with its
  result.
* `Config.run_completions`: the simulation rule.
-/

namespace Interaction

namespace Config

variable {C : Type} {R : C → Type} {E S L α ι : Type} (sem : Semantics C R E S L)

/-- The call that a step completes, with its result. -/
def completes (cfg : Config C R S L α ι) (i : ι) (e : E) : Option (ι × α) :=
  match (cfg.thread i).prog with
  | .ret _ => none
  | .call c k => (k (sem.exec c e cfg.shared (cfg.thread i).loc).1).result?.map (i, ·)

/-- The calls that a schedule completes, in the order of their completion. -/
def completions [DecidableEq ι] (cfg : Config C R S L α ι) : List (ι × E) → List (ι × α)
  | [] => []
  | ie :: rest => (cfg.completes sem ie.1 ie.2).toList ++ (cfg.step sem ie.1 ie.2).completions rest

variable {sem} {cfg : Config C R S L α ι} {i j : ι} {e : E} {a : α}

theorem completes_ret (h : (cfg.thread i).prog = .ret a) : cfg.completes sem i e = none := by
  rw [completes, h]

theorem completes_call {c : C} {k : R c → Prog C R α} (h : (cfg.thread i).prog = .call c k) :
    cfg.completes sem i e =
      (k (sem.exec c e cfg.shared (cfg.thread i).loc).1).result?.map (i, ·) := by
  rw [completes, h]

variable [DecidableEq ι]

/-- A step completes its own call, with the result that is then returned. -/
theorem completes_eq_some_iff : cfg.completes sem i e = some (j, a) ↔
    j = i ∧ (cfg.thread i).prog.result? = none ∧
      ((cfg.step sem i e).thread i).prog.result? = some a := by
  cases hp : (cfg.thread i).prog with
  | ret b => simp [completes_ret hp, Prog.result?]
  | call c k =>
      rw [completes_call hp, step_call hp]
      simp only [Function.update_self, Option.map_eq_some_iff, Prod.mk.injEq, Prog.result?,
        true_and]
      constructor
      · rintro ⟨b, hb, rfl, rfl⟩
        exact ⟨rfl, hb⟩
      · rintro ⟨rfl, hb⟩
        exact ⟨a, hb, rfl, rfl⟩

/-- A call that has returned keeps its result. -/
theorem result?_step (h : (cfg.thread j).prog.result? = some a) :
    ((cfg.step sem i e).thread j).prog.result? = some a := by
  by_cases hj : j = i
  · subst hj
    rw [step_ret (Prog.result?_eq_some_iff.mp h), h]
  · rw [thread_step_of_ne hj, h]

theorem result?_run (schedule : List (ι × E)) (h : (cfg.thread j).prog.result? = some a) :
    ((cfg.run sem schedule).thread j).prog.result? = some a := by
  induction schedule generalizing cfg with
  | nil => exact h
  | cons ie rest ih => exact ih (result?_step h)

/-- A call returns in the step that completes it. -/
theorem result?_step_iff : ((cfg.step sem i e).thread j).prog.result? = some a ↔
    (cfg.thread j).prog.result? = some a ∨ cfg.completes sem i e = some (j, a) := by
  rw [completes_eq_some_iff]
  by_cases hj : j = i
  · subst hj
    cases hres : (cfg.thread j).prog.result? with
    | none => simp
    | some b => simp [result?_step hres]
  · simp [thread_step_of_ne hj, hj]

/-- **The order is extended by what comes later**, and never changed. -/
theorem completions_append (schedule later : List (ι × E)) :
    cfg.completions sem (schedule ++ later) =
      cfg.completions sem schedule ++ (cfg.run sem schedule).completions sem later := by
  induction schedule generalizing cfg with
  | nil => rfl
  | cons ie rest ih =>
      rw [List.cons_append, completions, completions, ih, List.append_assoc]
      rfl

/-- The order is the same under two semantics that agree on the commands of the threads. -/
theorem completions_congr {sem' : Semantics C R E S L} {P : C → Prop}
    (hsem : ∀ c, P c → sem.exec c = sem'.exec c) (hthreads : ∀ i, (cfg.thread i).prog.Only P)
    (schedule : List (ι × E)) : cfg.completions sem schedule = cfg.completions sem' schedule := by
  induction schedule generalizing cfg with
  | nil => rfl
  | cons ie rest ih =>
      have hcompletes : cfg.completes sem ie.1 ie.2 = cfg.completes sem' ie.1 ie.2 := by
        cases hp : (cfg.thread ie.1).prog with
        | ret a => rw [completes_ret hp, completes_ret hp]
        | call c k =>
            have honly := hthreads ie.1
            rw [hp] at honly
            rw [completes_call hp, completes_call hp, hsem c honly.1]
      rw [completions, completions, hcompletes, ih (only_step hthreads ie.1 ie.2),
        step_congr hsem hthreads]

/-- A call that has returned is not completed again. -/
theorem not_mem_completions (schedule : List (ι × E)) (h : (cfg.thread i).prog.result? = some a)
    (b : α) : (i, b) ∉ cfg.completions sem schedule := by
  induction schedule generalizing cfg with
  | nil => exact List.not_mem_nil
  | cons ie rest ih =>
      rw [completions, List.mem_append, Option.mem_toList, completes_eq_some_iff]
      rintro (⟨rfl, hpending, -⟩ | hmem)
      · rw [h] at hpending
        exact absurd hpending (by simp)
      · exact ih (result?_step h) hmem

/-- **A call is in the order exactly when it has returned**, with its result. -/
theorem mem_completions_iff (schedule : List (ι × E)) (h : (cfg.thread i).prog.result? = none) :
    (i, a) ∈ cfg.completions sem schedule ↔
      ((cfg.run sem schedule).thread i).prog.result? = some a := by
  induction schedule generalizing cfg with
  | nil => simp [completions, run, h]
  | cons ie rest ih =>
      rw [completions, List.mem_append, Option.mem_toList]
      cases hstep : ((cfg.step sem ie.1 ie.2).thread i).prog.result? with
      | none =>
          have hnot : cfg.completes sem ie.1 ie.2 ≠ some (i, a) := fun hc => by
            rw [result?_step_iff.mpr (Or.inr hc)] at hstep
            exact absurd hstep (by simp)
          exact (or_iff_right hnot).trans (ih hstep)
      | some b =>
          have hcompletes : cfg.completes sem ie.1 ie.2 = some (i, b) :=
            (result?_step_iff.mp hstep).resolve_left (by simp [h])
          have hrun : ((cfg.run sem (ie :: rest)).thread i).prog.result? = some b :=
            result?_run rest hstep
          rw [or_iff_left (not_mem_completions rest hstep a), hcompletes, hrun]
          simp

/-- No call is completed twice. -/
theorem nodup_completions (cfg : Config C R S L α ι) (schedule : List (ι × E)) :
    ((cfg.completions sem schedule).map Prod.fst).Nodup := by
  induction schedule generalizing cfg with
  | nil => exact List.nodup_nil
  | cons ie rest ih =>
      rw [completions, List.map_append]
      cases hc : cfg.completes sem ie.1 ie.2 with
      | none => exact ih _
      | some ja =>
          obtain ⟨j, a⟩ := ja
          refine List.nodup_cons.mpr ⟨fun hmem => ?_, ih _⟩
          obtain ⟨⟨j', b⟩, hb, rfl⟩ := List.mem_map.mp hmem
          exact not_mem_completions rest (result?_step_iff.mpr (Or.inr hc)) b hb

/-! ### The simulation rule -/

section Simulation

variable {G A : Type} (K : ι → Contract C R G) (Q : ι → α → G → Prop) (inv : S → Prop)
  (knows : ι → S → Thread C R L α → G → Prop)

variable (sem) in
/-- What has to be shown of one command of one thread: unless it completes the call it is not seen
in the abstract state, and if it does it is the machine's step. -/
def Simulates (spec : Machine A (ι × α)) (abs : S → A) : Prop :=
  ∀ (cfg : Config C R S L α ι) (i : ι) (e : E) (c : C) (k : R c → Prog C R α) (g g' : G),
    (cfg.thread i).prog = .call c k → inv cfg.shared →
    knows i cfg.shared (cfg.thread i) g → (K i).pre c g →
    let out := sem.exec c e cfg.shared (cfg.thread i).loc
    (K i).post c g out.1 g' → (k out.1).Meets (K i) (Q i) g' →
    spec.run (abs cfg.shared) ((k out.1).result?.map (i, ·)).toList = some (abs out.2.1)

variable {K Q inv knows} {spec : Machine A (ι × α)} {abs : S → A}

/-- **The simulation rule**: the sequential machine performs the completed calls, in the order of
their completion, and ends in the abstraction of the shared state. -/
theorem run_completions (hob : Obligation α sem K inv knows fun _ _ _ => True)
    (hsim : Simulates sem K Q inv knows spec abs) (h : cfg.Sound K Q inv knows)
    (schedule : List (ι × E)) :
    spec.run (abs cfg.shared) (cfg.completions sem schedule) =
      some (abs (cfg.run sem schedule).shared) := by
  induction schedule generalizing cfg with
  | nil => rfl
  | cons ie rest ih =>
      rw [completions, Machine.run_append]
      have hstep : spec.run (abs cfg.shared) (cfg.completes sem ie.1 ie.2).toList =
          some (abs (cfg.step sem ie.1 ie.2).shared) := by
        cases hp : (cfg.thread ie.1).prog with
        | ret a => rw [completes_ret hp, step_ret hp]; rfl
        | call c k =>
            obtain ⟨g, hk, hm⟩ := h.thread ie.1
            rw [hp] at hm
            obtain ⟨-, ⟨g', hpost, -⟩, -⟩ := hob cfg ie.1 ie.2 c k g hp trivial h.inv hk hm.1
            rw [completes_call hp, step_call hp]
            exact hsim cfg ie.1 ie.2 c k g g' hp h.inv hk hm.1 hpost (hm.2 _ _ hpost)
      rw [hstep]
      exact ih (h.step hob trivial)

end Simulation

end Config

end Interaction
