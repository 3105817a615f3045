import Mathlib.Data.Nat.Notation

/-!
# Executable State Machines

A machine is a start state and a partial step function: an event that is not enabled in a state
has no successor there. The states of a run are reached by steps that a discipline may restrict,
as a condition on the state before the step and on its event.

## Main results

* `Reaches.invariant`: what holds at the start and is kept by the allowed steps always holds.
* `run_reaches`: the executed runs reach their states.
* `length_le_of_run`: a measure that every step lowers bounds the runs.
* `run_labels`: what a machine makes of the labels of another system's run.
-/

/-- A state machine with events. -/
structure Machine (S E : Type) where
  start : S
  step : S → E → Option S

namespace Machine

variable {S E : Type} (m : Machine S E)

/-- Execute some events, if each of them is enabled. -/
def run (s : S) : List E → Option S
  | [] => some s
  | e :: es => (m.step s e).bind fun s' => run s' es

/-- The states that allowed steps lead to. -/
inductive Reaches (allowed : S → E → Prop) : S → Prop
  | start : Reaches allowed m.start
  | step {s s' : S} {e : E} (h : Reaches allowed s) (hs : m.step s e = some s') (ha : allowed s e) :
      Reaches allowed s'

variable {m} {allowed : S → E → Prop} {inv : S → Prop} {s s' : S}

@[simp] theorem run_nil : m.run s [] = some s := rfl

@[simp] theorem run_singleton (e : E) : m.run s [e] = m.step s e := by
  simp only [run, Option.bind_fun_some]

/-- A run in two parts. -/
theorem run_append (es es' : List E) :
    m.run s (es ++ es') = (m.run s es).bind fun s' => m.run s' es' := by
  induction es generalizing s with
  | nil => rfl
  | cons e es ih => simp only [List.cons_append, run, Option.bind_assoc, ih]

/-- **The invariant rule.** -/
theorem Reaches.invariant (h : m.Reaches allowed s) (hstart : inv m.start)
    (hstep : ∀ s e s', inv s → allowed s e → m.step s e = some s' → inv s') : inv s := by
  induction h with
  | start => exact hstart
  | step _ hs ha ih => exact hstep _ _ _ ih ha hs

/-- The last state of an executed run is reached. -/
theorem run_reaches {es : List E} (hs : m.Reaches (fun _ _ => True) s) (h : m.run s es = some s') :
    m.Reaches (fun _ _ => True) s' := by
  induction es generalizing s with
  | nil =>
      obtain rfl := Option.some.inj h
      exact hs
  | cons e es ih =>
      obtain ⟨s₁, hstep, hrun⟩ := Option.bind_eq_some_iff.mp h
      exact ih (.step hs hstep trivial) hrun

/-- **Runs are bounded** by a measure that every step lowers, as long as an invariant holds. -/
theorem length_le_of_run {μ : S → ℕ} (hinv : ∀ s e s', inv s → m.step s e = some s' → inv s')
    (hμ : ∀ s e s', inv s → m.step s e = some s' → μ s' < μ s) {es : List E} (hs : inv s)
    (h : m.run s es = some s') : es.length + μ s' ≤ μ s := by
  induction es generalizing s with
  | nil =>
      obtain rfl := Option.some.inj h
      exact Nat.le_of_eq (Nat.zero_add _)
  | cons e es ih =>
      obtain ⟨s₁, hstep, hrun⟩ := Option.bind_eq_some_iff.mp h
      have hrest := ih (hinv _ _ _ hs hstep) hrun
      have hlower := hμ _ _ _ hs hstep
      rw [List.length_cons]
      omega

/-! ### Machines as views of another system -/

section Labels

variable {X A : Type} (next : X → A → X) (label : X → A → Option E) (ok : X → A → Prop)

/-- The labels that a run of a system shows: an action shows one or none. -/
def labels : X → List A → List E
  | _, [] => []
  | x, a :: as => (label x a).toList ++ labels (next x a) as

/-- Every action of a run is in order where it is taken. -/
def Admits : X → List A → Prop
  | _, [] => True
  | x, a :: as => ok x a ∧ Admits (next x a) as

variable {next label ok} {x : X} {inv' : X → Prop}

/-- What every action in order keeps, a run keeps. -/
theorem Admits.invariant (hstep : ∀ x a, inv' x → ok x a → inv' (next x a)) (hx : inv' x)
    {as : List A} (h : Admits next ok x as) : inv' (as.foldl next x) := by
  induction as generalizing x with
  | nil => exact hx
  | cons a as ih => exact ih (hstep x a hx h.1) h.2

/-- **A system refines a machine** when the machine takes the label of every action in order, from what
it sees of the state before to what it sees of the state after: then it accepts the labels of every
run, and ends in what it sees of the last state. -/
theorem run_labels {view : X → S} (hkeep : ∀ x a, inv' x → ok x a → inv' (next x a))
    (hstep : ∀ x a, inv' x → ok x a → m.run (view x) (label x a).toList = some (view (next x a)))
    (hx : inv' x) {as : List A} (h : Admits next ok x as) :
    m.run (view x) (labels next label x as) = some (view (as.foldl next x)) := by
  induction as generalizing x with
  | nil => rfl
  | cons a as ih =>
      rw [labels, run_append, hstep x a hx h.1, Option.bind_some]
      exact ih (hkeep x a hx h.1) h.2

end Labels

end Machine
