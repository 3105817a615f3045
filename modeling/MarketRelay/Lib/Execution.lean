import MarketRelay.Lib.Interleaving

/-!
# Programs Run Alone

A program that runs from its start to its end with no other program in between, on a shared
and a local state, as one relation between the states before and after (`Prog.Executes`).
The environment may answer each command as it likes: an execution is a list of its answers,
and for a given list the program can be run (`Prog.execute`).

The relation is compositional: it is characterized by one equivalence per construct.

## Main results

* `Prog.executes_bind`: sequencing is composition.
* `Script.executes_bind`: so it is with exceptions, up to the first one.
* `Prog.Only.executes`: a run keeps what its commands keep.
* `Prog.Meets.executes`: a run of a program that meets a contract ends as the contract says.
-/

namespace Interaction

variable {C : Type} {R : C → Type} {E S L : Type}

namespace Prog

variable {α β : Type} (sem : Semantics C R E S L)

/-- Run a program alone: one answer of the environment for each of its commands. -/
@[simp] def execute : Prog C R α → List E → S → L → Option (α × S × L)
  | ret a, [], s, l => some (a, s, l)
  | call c k, e :: es, s, l =>
    (k (sem.exec c e s l).1).execute es (sem.exec c e s l).2.1 (sem.exec c e s l).2.2
  | ret _, _ :: _, _, _ => none
  | call _ _, [], _, _ => none

/-- Run alone, the program can return `a` and leave the states `s'` and `l'`. -/
def Executes (x : Prog C R α) (s : S) (l : L) (a : α) (s' : S) (l' : L) : Prop :=
  ∃ es, x.execute sem es s l = some (a, s', l')

variable {sem} {s s' s'' : S} {l l' l'' : L}

theorem executes_ret {a b : α} :
    (ret a : Prog C R α).Executes sem s l b s' l' ↔ b = a ∧ s' = s ∧ l' = l := by
  constructor
  · rintro ⟨es, h⟩
    cases es with
    | nil => simpa [execute, eq_comm] using h
    | cons e es => exact absurd h (by simp [execute])
  · rintro ⟨rfl, rfl, rfl⟩
    exact ⟨[], rfl⟩

theorem executes_call {c : C} {k : R c → Prog C R α} {a : α} :
    (call c k).Executes sem s l a s' l' ↔
      ∃ e, (k (sem.exec c e s l).1).Executes sem (sem.exec c e s l).2.1 (sem.exec c e s l).2.2
        a s' l' := by
  constructor
  · rintro ⟨es, h⟩
    cases es with
    | nil => exact absurd h (by simp [execute])
    | cons e es => exact ⟨e, es, h⟩
  · rintro ⟨e, es, h⟩
    exact ⟨e :: es, h⟩

/-- **Sequencing is composition.** -/
theorem executes_bind {x : Prog C R α} {f : α → Prog C R β} {b : β} :
    (x >>= f).Executes sem s l b s'' l'' ↔
      ∃ a s' l', x.Executes sem s l a s' l' ∧ (f a).Executes sem s' l' b s'' l'' := by
  induction x generalizing s l with
  | ret a =>
      rw [ret_bind]
      constructor
      · exact fun h => ⟨a, s, l, executes_ret.mpr ⟨rfl, rfl, rfl⟩, h⟩
      · rintro ⟨a', s', l', h, h'⟩
        obtain ⟨rfl, rfl, rfl⟩ := executes_ret.mp h
        exact h'
  | call c k ih =>
      rw [call_bind, executes_call]
      constructor
      · rintro ⟨e, h⟩
        obtain ⟨a, s', l', hx, hf⟩ := (ih _).mp h
        exact ⟨a, s', l', executes_call.mpr ⟨e, hx⟩, hf⟩
      · rintro ⟨a, s', l', hx, hf⟩
        obtain ⟨e, hx⟩ := executes_call.mp hx
        exact ⟨e, (ih _).mpr ⟨a, s', l', hx, hf⟩⟩

/-- **A run keeps what its commands keep.** -/
theorem Only.executes {P : C → Prop} {I : S → L → Prop} {x : Prog C R α} {a : α}
    (hx : x.Only P)
    (hstep : ∀ c e s l, P c → I s l → I (sem.exec c e s l).2.1 (sem.exec c e s l).2.2)
    (h : x.Executes sem s l a s' l') (hI : I s l) : I s' l' := by
  induction x generalizing s l with
  | ret b =>
      obtain ⟨-, rfl, rfl⟩ := executes_ret.mp h
      exact hI
  | call c k ih =>
      obtain ⟨e, h⟩ := executes_call.mp h
      exact ih _ (hx.2 _) h (hstep c e s l hx.1 hI)

/-- **A run of a program that meets a contract** ends as the contract says, if each command that the
contract allows does what the contract says of it. -/
theorem Meets.executes {G : Type} {K : Contract C R G} {I : S → L → G → Prop}
    (hstep : ∀ c e s l g, K.pre c g → I s l g →
      ∃ g', K.post c g (sem.exec c e s l).1 g' ∧ I (sem.exec c e s l).2.1 (sem.exec c e s l).2.2 g')
    {x : Prog C R α} {Q : α → G → Prop} {a : α} {g : G} (hx : x.Meets K Q g)
    (h : x.Executes sem s l a s' l') (hI : I s l g) : ∃ g', Q a g' ∧ I s' l' g' := by
  induction x generalizing s l g with
  | ret b =>
      obtain ⟨rfl, rfl, rfl⟩ := executes_ret.mp h
      exact ⟨g, hx, hI⟩
  | call c k ih =>
      obtain ⟨e, h⟩ := executes_call.mp h
      obtain ⟨g', hpost, hI'⟩ := hstep c e s l g hx.1 hI
      exact ih _ (hx.2 _ g' hpost) h hI'

/-- Every program can be run to its end. -/
theorem exists_executes [Inhabited E] (sem : Semantics C R E S L) (x : Prog C R α) (s : S)
    (l : L) :
    ∃ a s' l', x.Executes sem s l a s' l' := by
  induction x generalizing s l with
  | ret a => exact ⟨a, s, l, executes_ret.mpr ⟨rfl, rfl, rfl⟩⟩
  | call c k ih =>
      obtain ⟨a, s', l', h⟩ := ih (sem.exec c default s l).1 (sem.exec c default s l).2.1
        (sem.exec c default s l).2.2
      exact ⟨a, s', l', executes_call.mpr ⟨default, h⟩⟩

end Prog

/-! ### Programs that raise -/

namespace Script

variable {ε α β : Type} {sem : Semantics C R E S L} {s s' s'' : S} {l l' l'' : L}

/-- Run alone, the script can end with the outcome `r` and leave the states `s'` and `l'`. -/
def Executes (sem : Semantics C R E S L) (x : Script C R ε α) (s : S) (l : L)
    (r : Except ε α) (s' : S) (l' : L) : Prop :=
  Prog.Executes sem x.run s l r s' l'

theorem executes_pure {a : α} {r : Except ε α} :
    Executes sem (pure a : Script C R ε α) s l r s' l' ↔ r = .ok a ∧ s' = s ∧ l' = l :=
  Prog.executes_ret

theorem executes_throw {e : ε} {r : Except ε α} :
    Executes sem (throw e : Script C R ε α) s l r s' l' ↔ r = .error e ∧ s' = s ∧ l' = l :=
  Prog.executes_ret

theorem executes_op {c : C} {r : Except ε (R c)} :
    Executes sem (op c : Script C R ε (R c)) s l r s' l' ↔
      ∃ e, r = .ok (sem.exec c e s l).1 ∧ s' = (sem.exec c e s l).2.1 ∧
        l' = (sem.exec c e s l).2.2 := by
  refine Prog.executes_call.trans ?_
  exact exists_congr fun e => Prog.executes_ret

/-- **Sequencing is composition**, up to the first exception. -/
theorem executes_bind {x : Script C R ε α} {f : α → Script C R ε β} {r : Except ε β} :
    Executes sem (x >>= f) s l r s'' l'' ↔
      (∃ a s' l', Executes sem x s l (.ok a) s' l' ∧ Executes sem (f a) s' l' r s'' l'') ∨
        ∃ e, Executes sem x s l (.error e) s'' l'' ∧ r = .error e := by
  rw [Executes, ExceptT.run_bind, Prog.executes_bind]
  constructor
  · rintro ⟨a | a, s', l', hx, hf⟩
    · obtain ⟨rfl, rfl, rfl⟩ := Prog.executes_ret.mp hf
      exact Or.inr ⟨a, hx, rfl⟩
    · exact Or.inl ⟨a, s', l', hx, hf⟩
  · rintro (⟨a, s', l', hx, hf⟩ | ⟨e, hx, rfl⟩)
    · exact ⟨.ok a, s', l', hx, hf⟩
    · exact ⟨.error e, s'', l'', hx, Prog.executes_ret.mpr ⟨rfl, rfl, rfl⟩⟩

theorem executes_attempt {x : Script C R ε α} {r : Except ε (Except ε α)} :
    Executes sem (attempt x) s l r s' l' ↔
      ∃ r', r = .ok r' ∧ Executes sem x s l r' s' l' := by
  have hrun : (attempt x).run = x.run >>= fun r => .ret (.ok r) := rfl
  rw [Executes, hrun, Prog.executes_bind]
  constructor
  · rintro ⟨r', s₁, l₁, hx, hr⟩
    obtain ⟨rfl, rfl, rfl⟩ := Prog.executes_ret.mp hr
    exact ⟨r', rfl, hx⟩
  · rintro ⟨r', rfl, hx⟩
    exact ⟨r', s', l', hx, Prog.executes_ret.mpr ⟨rfl, rfl, rfl⟩⟩

/-- The contract that allows some commands. -/
def allows (C : Type) (R : C → Type) (P : C → Prop) : Contract C R Unit :=
  ⟨fun c _ => P c, fun _ _ _ _ => True⟩

theorem keeps_allowed {P : C → Prop} {c : C} (h : P c) :
    Keeps (allows C R P) (fun _ => True) (op c : Script C R ε (R c)) :=
  keeps_op fun _ _ => ⟨h, fun _ _ _ => trivial⟩

/-- A script that keeps to some commands issues no others. -/
theorem Keeps.only {P : C → Prop} {x : Script C R ε α}
    (h : Keeps (allows C R P) (fun _ => True) x) : x.run.Only P :=
  Prog.Only.of_meets (h () trivial)

theorem op_returns {c : C} (e : ε) :
    ¬ Executes sem (op c : Script C R ε (R c)) s l (.error e) s' l' := by
  intro h
  obtain ⟨_, hr, -⟩ := executes_op.mp h
  exact absurd hr (by simp)

/-- A command never raises: what follows it is reached. -/
theorem executes_op_bind {c : C} {f : R c → Script C R ε β} {r : Except ε β} :
    Executes sem (op c >>= f) s l r s'' l'' ↔
      ∃ e, Executes sem (f (sem.exec c e s l).1) (sem.exec c e s l).2.1 (sem.exec c e s l).2.2
        r s'' l'' := by
  rw [executes_bind]
  constructor
  · rintro (⟨a, s', l', hop, hf⟩ | ⟨e, hop, -⟩)
    · obtain ⟨e, hr, rfl, rfl⟩ := executes_op.mp hop
      obtain rfl := Except.ok.inj hr
      exact ⟨e, hf⟩
    · obtain ⟨_, hr, -⟩ := executes_op.mp hop
      exact absurd hr (by simp)
  · rintro ⟨e, hf⟩
    exact Or.inl ⟨_, _, _, executes_op.mpr ⟨e, rfl, rfl, rfl⟩, hf⟩

/-- What follows a `try` is reached with the outcome of its body. -/
theorem executes_attempt_bind {x : Script C R ε α} {f : Except ε α → Script C R ε β}
    {r : Except ε β} :
    Executes sem (attempt x >>= f) s l r s'' l'' ↔
      ∃ r' s' l', Executes sem x s l r' s' l' ∧ Executes sem (f r') s' l' r s'' l'' := by
  rw [executes_bind]
  constructor
  · rintro (⟨a, s', l', hx, hf⟩ | ⟨e, hx, -⟩)
    · obtain ⟨r', hr, hx⟩ := executes_attempt.mp hx
      obtain rfl := Except.ok.inj hr
      exact ⟨a, s', l', hx, hf⟩
    · obtain ⟨r', hr, -⟩ := executes_attempt.mp hx
      exact absurd hr (by simp)
  · rintro ⟨r', s', l', hx, hf⟩
    exact Or.inl ⟨r', s', l', executes_attempt.mpr ⟨r', rfl, hx⟩, hf⟩

/-- What follows a part that never raises is reached. -/
theorem executes_bind_of_returns {x : Script C R ε α} {f : α → Script C R ε β} {r : Except ε β}
    (hx : ∀ e s' l', ¬ Executes sem x s l (.error e) s' l')
    (h : Executes sem (x >>= f) s l r s'' l'') :
    ∃ a s' l', Executes sem x s l (.ok a) s' l' ∧ Executes sem (f a) s' l' r s'' l'' := by
  rcases executes_bind.mp h with h | ⟨e, h, -⟩
  · exact h
  · exact absurd h (hx e s'' l'')

end Script

end Interaction
