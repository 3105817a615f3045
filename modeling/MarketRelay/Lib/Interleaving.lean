import Mathlib.Logic.Function.Basic
import MarketRelay.Lib.Program

/-!
# Interleaved Programs

Any number of threads, each running a program, over one shared state: a step picks a
thread and executes its next command atomically, with an input from the environment
(`Semantics.exec`), and the thread continues with the response. A run is any sequence of
such steps, so a property of all reachable configurations holds for every interleaving.

The proof rule is rely–guarantee with ghost knowledge. Each thread carries a ghost state
that says what it knows about the shared and its local state (`knows`); a contract allows
its commands on the strength of that knowledge. It is enough to show, for one command of
one thread, that the shared invariant is kept, that the thread's new knowledge is true, and
that what every other thread knows stays true. Knowledge may depend on the command that the
thread is about to issue, for facts that matter only up to there. The steps considered may
be restricted by a condition `ok`, for properties that hold only in runs that satisfy it.

## Main results

* `Config.Reaches.last_step`: a thread that has returned did so in a step of its own.
* `Config.run_congr`: runs under two semantics that agree on the commands of the threads.
* `Config.Reaches.sound`: the rely–guarantee rule.
* `Config.Sound.pre`: a thread about to issue a command knows the contract's precondition.
* `Config.Sound.ret`: a thread that has returned knows its postcondition.
-/

namespace Interaction

variable {C : Type} {R : C → Type} {E S L α ι : Type}

/-- The atomic effect of each command on the shared state and on the local state of the
thread that issues it, given an input from the environment. -/
structure Semantics (C : Type) (R : C → Type) (E S L : Type) where
  exec : (c : C) → E → S → L → R c × S × L

/-- A thread: its local state and the program it still has to run. -/
structure Thread (C : Type) (R : C → Type) (L α : Type) where
  loc : L
  prog : Prog C R α

/-- A configuration: the shared state and the threads. -/
structure Config (C : Type) (R : C → Type) (S L α ι : Type) where
  shared : S
  thread : ι → Thread C R L α

namespace Config

variable [DecidableEq ι] (sem : Semantics C R E S L)

/-- One step of thread `i` with input `e`; a thread that has returned stays as it is. -/
def step (cfg : Config C R S L α ι) (i : ι) (e : E) : Config C R S L α ι :=
  match (cfg.thread i).prog with
  | .ret _ => cfg
  | .call c k =>
    let out := sem.exec c e cfg.shared (cfg.thread i).loc
    ⟨out.2.1, Function.update cfg.thread i ⟨out.2.2, k out.1⟩⟩

/-- A run, given as the sequence of its steps. -/
def run (cfg : Config C R S L α ι) (schedule : List (ι × E)) : Config C R S L α ι :=
  schedule.foldl (fun cfg ie => cfg.step sem ie.1 ie.2) cfg

/-- `cfg'` is reached from `cfg` by steps that all satisfy `ok`. -/
inductive Reaches (ok : Config C R S L α ι → ι → E → Prop) (cfg : Config C R S L α ι) :
    Config C R S L α ι → Prop
  | refl : Reaches ok cfg cfg
  | step {cfg' : Config C R S L α ι} {i : ι} {e : E} :
      Reaches ok cfg cfg' → ok cfg' i e → Reaches ok cfg (cfg'.step sem i e)

variable {sem} {cfg cfg' cfg'' : Config C R S L α ι} {i j : ι} {e : E}

theorem step_ret {a : α} (h : (cfg.thread i).prog = .ret a) : cfg.step sem i e = cfg := by
  rw [step, h]

theorem step_call {c : C} {k : R c → Prog C R α} (h : (cfg.thread i).prog = .call c k) :
    cfg.step sem i e =
      ⟨(sem.exec c e cfg.shared (cfg.thread i).loc).2.1,
        Function.update cfg.thread i
          ⟨(sem.exec c e cfg.shared (cfg.thread i).loc).2.2,
            k (sem.exec c e cfg.shared (cfg.thread i).loc).1⟩⟩ := by
  rw [step, h]

/-- A step of one thread leaves the other threads as they are. -/
theorem thread_step_of_ne (h : j ≠ i) : (cfg.step sem i e).thread j = cfg.thread j := by
  cases hp : (cfg.thread i).prog with
  | ret a => rw [step_ret hp]
  | call c k => rw [step_call hp]; exact Function.update_of_ne h _ _

theorem Reaches.trans {ok : Config C R S L α ι → ι → E → Prop}
    (h : Reaches sem ok cfg cfg') (h' : Reaches sem ok cfg' cfg'') :
    Reaches sem ok cfg cfg'' := by
  induction h' with
  | refl => exact h
  | step _ hok ih => exact ih.step hok

theorem Reaches.mono {ok ok' : Config C R S L α ι → ι → E → Prop}
    (h : ∀ cfg i e, ok cfg i e → ok' cfg i e) (hr : Reaches sem ok cfg cfg') :
    Reaches sem ok' cfg cfg' := by
  induction hr with
  | refl => exact .refl
  | step _ hok ih => exact ih.step (h _ _ _ hok)

/-- What every command that satisfies `ok` keeps holds throughout a run. -/
theorem Reaches.invariant {ok : Config C R S L α ι → ι → E → Prop}
    {P : Config C R S L α ι → Prop}
    (hstep : ∀ (cfg : Config C R S L α ι) (i : ι) (e : E) (c : C) (k : R c → Prog C R α),
      (cfg.thread i).prog = .call c k → ok cfg i e → P cfg → P (cfg.step sem i e))
    (h : P cfg) (hr : Reaches sem ok cfg cfg') : P cfg' := by
  induction hr with
  | refl => exact h
  | @step cfg₁ i e _ hok ih =>
      cases hp : (cfg₁.thread i).prog with
      | ret a => rw [step_ret hp]; exact ih
      | call c k => exact hstep cfg₁ i e c k hp hok ih

/-- Every step of a schedule passes a test. -/
def checkRun (sem : Semantics C R E S L) (check : Config C R S L α ι → ι → E → Bool) :
    Config C R S L α ι → List (ι × E) → Bool
  | _, [] => true
  | cfg, ie :: rest => check cfg ie.1 ie.2 && checkRun sem check (cfg.step sem ie.1 ie.2) rest

/-- A schedule whose steps pass a test for `ok` is a run of such steps. -/
theorem reaches_of_checkRun {ok : Config C R S L α ι → ι → E → Prop}
    {check : Config C R S L α ι → ι → E → Bool}
    (hcheck : ∀ cfg i e, check cfg i e = true → ok cfg i e) {schedule : List (ι × E)}
    (h : checkRun sem check cfg schedule = true) :
    Reaches sem ok cfg (cfg.run sem schedule) := by
  induction schedule generalizing cfg with
  | nil => exact .refl
  | cons ie rest ih =>
      rw [checkRun, Bool.and_eq_true] at h
      exact (Reaches.refl.step (hcheck _ _ _ h.1)).trans (ih h.2)

/-- Every schedule is a run of unrestricted steps. -/
theorem reaches_run (cfg : Config C R S L α ι) (schedule : List (ι × E)) :
    Reaches sem (fun _ _ _ => True) cfg (cfg.run sem schedule) := by
  induction schedule generalizing cfg with
  | nil => exact .refl
  | cons ie rest ih => exact (Reaches.refl.step trivial).trans (ih _)

/-- **A thread that has returned did so in a step of its own.** -/
theorem Reaches.last_step {ok : Config C R S L α ι → ι → E → Prop} {a : α}
    (h : Reaches sem ok cfg cfg') (hcall : (cfg.thread i).prog.result? = none)
    (hret : (cfg'.thread i).prog.result? = some a) :
    ∃ cfg₁ e c k, Reaches sem ok cfg cfg₁ ∧ (cfg₁.thread i).prog = .call c k ∧ ok cfg₁ i e ∧
      (k (sem.exec c e cfg₁.shared (cfg₁.thread i).loc).1).result? = some a ∧
      Reaches sem ok (cfg₁.step sem i e) cfg' := by
  induction h with
  | refl => rw [hcall] at hret; exact absurd hret (by simp)
  | @step cfg₂ j e hr hok ih =>
      cases hp : (cfg₂.thread i).prog with
      | ret b =>
          have hsame : (cfg₂.step sem j e).thread i = cfg₂.thread i := by
            by_cases hj : i = j
            · subst hj; rw [step_ret hp]
            · exact thread_step_of_ne hj
          rw [hsame] at hret
          obtain ⟨cfg₁, e₁, c, k, hr₁, hk, hok₁, hb, hr₂⟩ := ih hret
          exact ⟨cfg₁, e₁, c, k, hr₁, hk, hok₁, hb, hr₂.step hok⟩
      | call c k =>
          by_cases hj : i = j
          · subst hj
            refine ⟨cfg₂, e, c, k, hr, hp, hok, ?_, .refl⟩
            rw [step_call hp] at hret
            simpa using hret
          · rw [thread_step_of_ne hj, hp] at hret
            exact absurd hret (by simp [Prog.result?])

/-! ### Two semantics -/

section Congr

variable {sem' : Semantics C R E S L} {P : C → Prop}
  (hsem : ∀ c, P c → sem.exec c = sem'.exec c) (hthreads : ∀ i, (cfg.thread i).prog.Only P)

include hthreads

/-- The threads still issue only such commands after a step. -/
theorem only_step (i : ι) (e : E) (j : ι) : ((cfg.step sem i e).thread j).prog.Only P := by
  by_cases hj : j = i
  · subst hj
    cases hp : (cfg.thread j).prog with
    | ret a =>
        rw [step_ret hp]
        exact hthreads j
    | call c k =>
        have honly := hthreads j
        rw [hp] at honly
        rw [step_call hp]
        simp only [Function.update_self]
        exact honly.2 _
  · rw [thread_step_of_ne hj]
    exact hthreads j

include hsem

theorem step_congr (i : ι) (e : E) : cfg.step sem i e = cfg.step sem' i e := by
  cases hp : (cfg.thread i).prog with
  | ret a => rw [step_ret hp, step_ret hp]
  | call c k =>
      have honly := hthreads i
      rw [hp] at honly
      rw [step_call hp, step_call hp, hsem c honly.1]

/-- **A run is the same under two semantics** that agree on the commands of its threads. -/
theorem run_congr (schedule : List (ι × E)) : cfg.run sem schedule = cfg.run sem' schedule := by
  induction schedule generalizing cfg with
  | nil => rfl
  | cons ie rest ih =>
      change (cfg.step sem ie.1 ie.2).run sem rest = (cfg.step sem' ie.1 ie.2).run sem' rest
      rw [ih (only_step hthreads ie.1 ie.2), step_congr hsem hthreads]

end Congr

/-! ### The rely–guarantee rule -/

section RelyGuarantee

variable {G : Type} (K : ι → Contract C R G) (Q : ι → α → G → Prop) (inv : S → Prop)
  (knows : ι → S → Thread C R L α → G → Prop)

/-- The shared invariant holds, and every thread knows enough to meet its contract. -/
structure Sound (cfg : Config C R S L α ι) : Prop where
  inv : inv cfg.shared
  thread : ∀ i, ∃ g, knows i cfg.shared (cfg.thread i) g ∧
    (cfg.thread i).prog.Meets (K i) (Q i) g

variable (α) (sem) in
/-- What has to be shown of one command of one thread. -/
def Obligation (ok : Config C R S L α ι → ι → E → Prop) : Prop :=
  ∀ (cfg : Config C R S L α ι) (i : ι) (e : E) (c : C) (k : R c → Prog C R α) (g : G),
    (cfg.thread i).prog = .call c k → ok cfg i e → inv cfg.shared →
    knows i cfg.shared (cfg.thread i) g → (K i).pre c g →
    let out := sem.exec c e cfg.shared (cfg.thread i).loc
    inv out.2.1 ∧
      (∃ g', (K i).post c g out.1 g' ∧ knows i out.2.1 ⟨out.2.2, k out.1⟩ g') ∧
      (∀ j g', j ≠ i → knows j cfg.shared (cfg.thread j) g' →
        knows j out.2.1 (cfg.thread j) g')

variable {K Q inv knows} {ok : Config C R S L α ι → ι → E → Prop}

omit [DecidableEq ι] in
/-- A thread that is about to issue a command knows the contract's precondition. -/
theorem Sound.pre (h : cfg.Sound K Q inv knows) {c : C} {k : R c → Prog C R α}
    (hp : (cfg.thread i).prog = .call c k) :
    ∃ g, knows i cfg.shared (cfg.thread i) g ∧ (K i).pre c g := by
  obtain ⟨g, hk, hm⟩ := h.thread i
  rw [hp] at hm
  exact ⟨g, hk, hm.1⟩

omit [DecidableEq ι] in
/-- A thread that has returned knows its postcondition. -/
theorem Sound.ret (h : cfg.Sound K Q inv knows) {a : α}
    (hp : (cfg.thread i).prog = .ret a) :
    ∃ g, knows i cfg.shared (cfg.thread i) g ∧ Q i a g := by
  obtain ⟨g, hk, hm⟩ := h.thread i
  rw [hp] at hm
  exact ⟨g, hk, hm⟩

/-- One step keeps a configuration sound. -/
theorem Sound.step (hob : Obligation α sem K inv knows ok)
    (h : cfg.Sound K Q inv knows) (hok : ok cfg i e) :
    (cfg.step sem i e).Sound K Q inv knows := by
  cases hp : (cfg.thread i).prog with
  | ret a => rw [step_ret hp]; exact h
  | call c k =>
      obtain ⟨g, hk, hm⟩ := h.thread i
      rw [hp] at hm
      obtain ⟨hinv, ⟨g', hpost, hknows⟩, hothers⟩ := hob cfg i e c k g hp hok h.inv hk hm.1
      rw [step_call hp]
      refine ⟨hinv, fun j => ?_⟩
      by_cases hj : j = i
      · subst hj
        simp only [Function.update_self]
        exact ⟨g', hknows, hm.2 _ _ hpost⟩
      · obtain ⟨gj, hkj, hmj⟩ := h.thread j
        simp only [Function.update_of_ne hj]
        exact ⟨gj, hothers j gj hj hkj, hmj⟩

omit [DecidableEq ι] in
/-- The knowledge with which a sound thread passes its next command. -/
theorem Sound.after (hob : Obligation α sem K inv knows ok) (h : cfg.Sound K Q inv knows)
    (hok : ok cfg i e) {c : C} {k : R c → Prog C R α} (hp : (cfg.thread i).prog = .call c k) :
    ∃ g g', knows i cfg.shared (cfg.thread i) g ∧ (K i).pre c g ∧
      (K i).post c g (sem.exec c e cfg.shared (cfg.thread i).loc).1 g' ∧
      (k (sem.exec c e cfg.shared (cfg.thread i).loc).1).Meets (K i) (Q i) g' := by
  obtain ⟨g, hk, hm⟩ := h.thread i
  rw [hp] at hm
  obtain ⟨-, ⟨g', hpost, -⟩, -⟩ := hob cfg i e c k g hp hok h.inv hk hm.1
  exact ⟨g, g', hk, hm.1, hpost, hm.2 _ _ hpost⟩

/-- **The rely–guarantee rule**: over every run, whatever the interleaving. -/
theorem Reaches.sound (hob : Obligation α sem K inv knows ok)
    (h : cfg.Sound K Q inv knows) (hr : Reaches sem ok cfg cfg') :
    cfg'.Sound K Q inv knows := by
  induction hr with
  | refl => exact h
  | step _ hok ih => exact ih.step hob hok

end RelyGuarantee

end Config

end Interaction
