import MarketRelay.Lib.Execution

/-!
# Traces of Programs Run Alone

A program run alone, together with what it did: the list of the commands that it issued, each with
the response that it got (`Prog.Traces`). The relation refines `Prog.Executes`, and is compositional
in the same way: the trace of a sequence is the traces of its parts, one after the other.

## Main results

* `Prog.executes_iff_traces`: every run has a trace.
* `Prog.traces_bind`, `Script.traces_bind`: the trace of a sequence.
* `Prog.Only.traces`: a program that may only issue some commands has only these in its traces.
-/

namespace Interaction

variable {C : Type} {R : C → Type} {E S L : Type}

/-- A command that has been issued, and the response to it. -/
structure Event (C : Type) (R : C → Type) where
  command : C
  response : R command

namespace Prog

variable {α β : Type} (sem : Semantics C R E S L)

/-- Run alone, the program can do what `events` lists, return `a` and leave the states `s'` and
`l'`. -/
def Traces : Prog C R α → S → L → List (Event C R) → α → S → L → Prop
  | ret b, s, l, events, a, s', l' => events = [] ∧ a = b ∧ s' = s ∧ l' = l
  | call c k, s, l, events, a, s', l' =>
    ∃ e rest, events = ⟨c, (sem.exec c e s l).1⟩ :: rest ∧
      (k (sem.exec c e s l).1).Traces (sem.exec c e s l).2.1 (sem.exec c e s l).2.2 rest a s' l'

variable {sem} {s s' s'' : S} {l l' l'' : L} {events : List (Event C R)}

/-- **Every run has a trace**, and a trace is of a run. -/
theorem executes_iff_traces {x : Prog C R α} {a : α} :
    x.Executes sem s l a s' l' ↔ ∃ events, x.Traces sem s l events a s' l' := by
  induction x generalizing s l with
  | ret b =>
      rw [executes_ret]
      exact ⟨fun h => ⟨[], rfl, h⟩, fun ⟨_, h⟩ => h.2⟩
  | call c k ih =>
      rw [executes_call]
      constructor
      · rintro ⟨e, h⟩
        obtain ⟨rest, hrest⟩ := (ih _).mp h
        exact ⟨_, e, rest, rfl, hrest⟩
      · rintro ⟨events, e, rest, -, hrest⟩
        exact ⟨e, (ih _).mpr ⟨rest, hrest⟩⟩

theorem Traces.executes {x : Prog C R α} {a : α} (h : x.Traces sem s l events a s' l') :
    x.Executes sem s l a s' l' :=
  executes_iff_traces.mpr ⟨events, h⟩

/-- **The trace of a sequence** is the traces of its parts. -/
theorem traces_bind {x : Prog C R α} {f : α → Prog C R β} {b : β} :
    (x >>= f).Traces sem s l events b s'' l'' ↔
      ∃ a s' l' first second, events = first ++ second ∧ x.Traces sem s l first a s' l' ∧
        (f a).Traces sem s' l' second b s'' l'' := by
  induction x generalizing s l events with
  | ret a =>
      rw [ret_bind]
      constructor
      · exact fun h => ⟨a, s, l, [], events, rfl, ⟨rfl, rfl, rfl, rfl⟩, h⟩
      · rintro ⟨_, _, _, _, _, rfl, ⟨rfl, rfl, rfl, rfl⟩, h⟩
        exact h
  | call c k ih =>
      rw [call_bind]
      constructor
      · rintro ⟨e, rest, rfl, h⟩
        obtain ⟨a, s', l', first, second, rfl, hx, hf⟩ := (ih _).mp h
        exact ⟨a, s', l', _ :: first, second, rfl, ⟨e, first, rfl, hx⟩, hf⟩
      · rintro ⟨a, s', l', _, second, rfl, ⟨e, first, rfl, hx⟩, hf⟩
        exact ⟨e, first ++ second, rfl, (ih _).mpr ⟨a, s', l', first, second, rfl, hx, hf⟩⟩

/-- **A program that may only issue some commands** has only these in its traces. -/
theorem Only.traces {P : C → Prop} {x : Prog C R α} {a : α} (hx : x.Only P)
    (h : x.Traces sem s l events a s' l') : ∀ event ∈ events, P event.command := by
  induction x generalizing s l events with
  | ret b =>
      obtain ⟨rfl, -⟩ := h
      exact fun event hevent => absurd hevent List.not_mem_nil
  | call c k ih =>
      obtain ⟨e, rest, rfl, h⟩ := h
      intro event hevent
      rcases List.mem_cons.mp hevent with rfl | hevent
      · exact hx.1
      · exact ih _ (hx.2 _) h event hevent

/-- The trace of the run to which the environment gives the same answer throughout, the result,
and the states that it leaves. -/
def follow (sem : Semantics C R E S L) (e : E) :
    Prog C R α → S → L → List (Event C R) × α × S × L
  | ret a, s, l => ([], a, s, l)
  | call c k, s, l =>
    let out := sem.exec c e s l
    let rest := (k out.1).follow sem e out.2.1 out.2.2
    (⟨c, out.1⟩ :: rest.1, rest.2)

theorem traces_follow (sem : Semantics C R E S L) (e : E) (x : Prog C R α) (s : S) (l : L) :
    x.Traces sem s l (x.follow sem e s l).1 (x.follow sem e s l).2.1 (x.follow sem e s l).2.2.1
      (x.follow sem e s l).2.2.2 := by
  induction x generalizing s l with
  | ret a => exact ⟨rfl, rfl, rfl, rfl⟩
  | call c k ih => exact ⟨e, _, rfl, ih _ _ _⟩

/-- Whatever the environment answers, the program runs to its end. -/
theorem exists_traces (sem : Semantics C R E S L) (e : E) (x : Prog C R α) (s : S) (l : L) :
    ∃ events a s' l', x.Traces sem s l events a s' l' ∧
      ∀ event ∈ events, ∃ s l, event.response = (sem.exec event.command e s l).1 := by
  refine ⟨_, _, _, _, traces_follow sem e x s l, ?_⟩
  induction x generalizing s l with
  | ret a => exact fun _ h => absurd h List.not_mem_nil
  | call c k ih =>
      intro event hevent
      rcases List.mem_cons.mp hevent with rfl | hevent
      · exact ⟨s, l, rfl⟩
      · exact ih _ _ _ event hevent

end Prog

/-! ### Programs that raise -/

namespace Script

variable {ε α β : Type} {sem : Semantics C R E S L} {s s' s'' : S} {l l' l'' : L}
  {events : List (Event C R)}

/-- Run alone, the script can do what `events` lists, end with the outcome `r` and leave the states
`s'` and `l'`. -/
def Traces (sem : Semantics C R E S L) (x : Script C R ε α) (s : S) (l : L)
    (events : List (Event C R)) (r : Except ε α) (s' : S) (l' : L) : Prop :=
  Prog.Traces sem x.run s l events r s' l'

theorem Traces.executes {x : Script C R ε α} {r : Except ε α}
    (h : Traces sem x s l events r s' l') : Executes sem x s l r s' l' :=
  Prog.Traces.executes h

theorem traces_pure {a : α} {r : Except ε α} :
    Traces sem (pure a : Script C R ε α) s l events r s' l' ↔
      events = [] ∧ r = .ok a ∧ s' = s ∧ l' = l :=
  Iff.rfl

theorem traces_throw {e : ε} {r : Except ε α} :
    Traces sem (throw e : Script C R ε α) s l events r s' l' ↔
      events = [] ∧ r = .error e ∧ s' = s ∧ l' = l :=
  Iff.rfl

theorem traces_op {c : C} {r : Except ε (R c)} :
    Traces sem (op c : Script C R ε (R c)) s l events r s' l' ↔
      ∃ e, events = [⟨c, (sem.exec c e s l).1⟩] ∧ r = .ok (sem.exec c e s l).1 ∧
        s' = (sem.exec c e s l).2.1 ∧ l' = (sem.exec c e s l).2.2 := by
  constructor
  · rintro ⟨e, rest, rfl, rfl, rfl, rfl, rfl⟩
    exact ⟨e, rfl, rfl, rfl, rfl⟩
  · rintro ⟨e, rfl, rfl, rfl, rfl⟩
    exact ⟨e, [], rfl, rfl, rfl, rfl, rfl⟩

/-- **The trace of a sequence**, up to the first exception. -/
theorem traces_bind {x : Script C R ε α} {f : α → Script C R ε β} {r : Except ε β} :
    Traces sem (x >>= f) s l events r s'' l'' ↔
      (∃ a s' l' first second, events = first ++ second ∧ Traces sem x s l first (.ok a) s' l' ∧
        Traces sem (f a) s' l' second r s'' l'') ∨
        ∃ e, Traces sem x s l events (.error e) s'' l'' ∧ r = .error e := by
  rw [Traces, ExceptT.run_bind, Prog.traces_bind]
  constructor
  · rintro ⟨a | a, s', l', first, second, rfl, hx, hf⟩
    · obtain ⟨rfl, rfl, rfl, rfl⟩ := hf
      exact Or.inr ⟨a, by rwa [List.append_nil], rfl⟩
    · exact Or.inl ⟨a, s', l', first, second, rfl, hx, hf⟩
  · rintro (⟨a, s', l', first, second, rfl, hx, hf⟩ | ⟨e, hx, rfl⟩)
    · exact ⟨.ok a, s', l', first, second, rfl, hx, hf⟩
    · exact ⟨.error e, s'', l'', events, [], (List.append_nil _).symm, hx, rfl, rfl, rfl, rfl⟩

/-- What follows a part that never raises is reached. -/
theorem traces_bind_of_returns {x : Script C R ε α} {f : α → Script C R ε β} {r : Except ε β}
    (hx : ∀ e s' l', ¬ Executes sem x s l (.error e) s' l')
    (h : Traces sem (x >>= f) s l events r s'' l'') :
    ∃ a s' l' first second, events = first ++ second ∧ Traces sem x s l first (.ok a) s' l' ∧
      Traces sem (f a) s' l' second r s'' l'' := by
  rcases traces_bind.mp h with h | ⟨e, h, -⟩
  · exact h
  · exact absurd h.executes (hx e s'' l'')

/-- A command never raises: it is the first event. -/
theorem traces_op_bind {c : C} {f : R c → Script C R ε β} {r : Except ε β} :
    Traces sem (op c >>= f) s l events r s'' l'' ↔
      ∃ e rest, events = ⟨c, (sem.exec c e s l).1⟩ :: rest ∧
        Traces sem (f (sem.exec c e s l).1) (sem.exec c e s l).2.1 (sem.exec c e s l).2.2 rest r
          s'' l'' :=
  Iff.rfl

/-- What follows a `try` is reached with the outcome of its body. -/
theorem traces_attempt_bind {x : Script C R ε α} {f : Except ε α → Script C R ε β}
    {r : Except ε β} :
    Traces sem (attempt x >>= f) s l events r s'' l'' ↔
      ∃ r' s' l' first second, events = first ++ second ∧ Traces sem x s l first r' s' l' ∧
        Traces sem (f r') s' l' second r s'' l'' := by
  have hrun : (attempt x >>= f).run = x.run >>= fun r' => (f r').run := by
    rw [ExceptT.run_bind]
    have hattempt : (attempt x).run = x.run >>= fun r' => .ret (.ok r') := rfl
    rw [hattempt, LawfulMonad.bind_assoc]
    rfl
  rw [Traces, hrun, Prog.traces_bind]
  rfl

end Script

end Interaction
