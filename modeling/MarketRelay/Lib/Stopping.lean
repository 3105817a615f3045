import MarketRelay.Lib.Execution

/-!
# Programs Cut Short

A program whose process is stopped, after any number of its commands: no exception is raised, and
no handler runs. The states that it can leave so (`Prog.Stops`) are characterized construct by
construct: a sequence is stopped within its first part, or after it.

## Main results

* `Prog.stops_bind`, `Script.stops_attempt_bind`: where a sequence can be stopped.
* `Prog.Only.stops`: a program that is cut short has kept what its commands keep.
-/

namespace Interaction

variable {C : Type} {R : C → Type} {E S L : Type}

namespace Prog

variable {α β : Type} (sem : Semantics C R E S L)

/-- Run alone and stopped after any number of its commands, the program can leave the states `s'`
and `l'`. -/
def Stops : Prog C R α → S → L → S → L → Prop
  | ret _, s, l, s', l' => s' = s ∧ l' = l
  | call c k, s, l, s', l' => (s' = s ∧ l' = l) ∨
    ∃ e, (k (sem.exec c e s l).1).Stops (sem.exec c e s l).2.1 (sem.exec c e s l).2.2 s' l'

variable {sem} {s s' s'' : S} {l l' l'' : L}

/-- A program can be stopped before it has done anything. -/
theorem stops_start (x : Prog C R α) : x.Stops sem s l s l := by
  cases x with
  | ret a => exact ⟨rfl, rfl⟩
  | call c k => exact Or.inl ⟨rfl, rfl⟩

variable (sem) in
/-- Run a program alone until the answers of the environment are used up. -/
def cut : Prog C R α → List E → S → L → S × L
  | ret _, _, s, l => (s, l)
  | call _ _, [], s, l => (s, l)
  | call c k, e :: es, s, l =>
    (k (sem.exec c e s l).1).cut es (sem.exec c e s l).2.1 (sem.exec c e s l).2.2

theorem stops_cut (x : Prog C R α) (es : List E) (s : S) (l : L) :
    x.Stops sem s l (x.cut sem es s l).1 (x.cut sem es s l).2 := by
  induction es generalizing x s l with
  | nil => cases x <;> exact stops_start _
  | cons e es ih =>
      cases x with
      | ret a => exact stops_start _
      | call c k => exact Or.inr ⟨e, ih _ _ _⟩

/-- **A sequence is stopped** within its first part, or after it. -/
theorem stops_bind {x : Prog C R α} {f : α → Prog C R β} :
    (x >>= f).Stops sem s l s'' l'' ↔ x.Stops sem s l s'' l'' ∨
      ∃ a s' l', x.Executes sem s l a s' l' ∧ (f a).Stops sem s' l' s'' l'' := by
  induction x generalizing s l with
  | ret a =>
      rw [ret_bind]
      constructor
      · exact fun h => Or.inr ⟨a, s, l, executes_ret.mpr ⟨rfl, rfl, rfl⟩, h⟩
      · rintro (⟨rfl, rfl⟩ | ⟨_, _, _, h, hf⟩)
        · exact stops_start _
        · obtain ⟨rfl, rfl, rfl⟩ := executes_ret.mp h
          exact hf
  | call c k ih =>
      rw [call_bind]
      constructor
      · rintro (hhere | ⟨e, h⟩)
        · exact Or.inl (Or.inl hhere)
        · rcases (ih _).mp h with hx | ⟨a, s', l', hx, hf⟩
          · exact Or.inl (Or.inr ⟨e, hx⟩)
          · exact Or.inr ⟨a, s', l', executes_call.mpr ⟨e, hx⟩, hf⟩
      · rintro ((hhere | ⟨e, hx⟩) | ⟨a, s', l', hx, hf⟩)
        · exact Or.inl hhere
        · exact Or.inr ⟨e, (ih _).mpr (Or.inl hx)⟩
        · obtain ⟨e, hx⟩ := executes_call.mp hx
          exact Or.inr ⟨e, (ih _).mpr (Or.inr ⟨a, s', l', hx, hf⟩)⟩

/-- **A program that is cut short has kept what its commands keep.** -/
theorem Only.stops {P : C → Prop} {I : S → L → Prop} {x : Prog C R α} (hx : x.Only P)
    (hstep : ∀ c e s l, P c → I s l → I (sem.exec c e s l).2.1 (sem.exec c e s l).2.2)
    (h : x.Stops sem s l s' l') (hI : I s l) : I s' l' := by
  induction x generalizing s l with
  | ret a =>
      obtain ⟨rfl, rfl⟩ := h
      exact hI
  | call c k ih =>
      rcases h with ⟨rfl, rfl⟩ | ⟨e, h⟩
      · exact hI
      · exact ih _ (hx.2 _) h (hstep c e s l hx.1 hI)

end Prog

/-! ### Programs that raise -/

namespace Script

variable {ε α β : Type} {sem : Semantics C R E S L} {s s' s'' : S} {l l' l'' : L}

/-- Run alone and stopped after any number of its commands, the script can leave the states `s'`
and `l'`. -/
def Stops (sem : Semantics C R E S L) (x : Script C R ε α) (s : S) (l : L) (s' : S) (l' : L) :
    Prop :=
  Prog.Stops sem x.run s l s' l'

theorem stops_pure {a : α} :
    Stops sem (pure a : Script C R ε α) s l s' l' ↔ s' = s ∧ l' = l := Iff.rfl

theorem stops_throw {e : ε} :
    Stops sem (throw e : Script C R ε α) s l s' l' ↔ s' = s ∧ l' = l := Iff.rfl

/-- A command has been issued, or it has not. -/
theorem stops_op_bind {c : C} {f : R c → Script C R ε β} :
    Stops sem (op c >>= f) s l s'' l'' ↔ (s'' = s ∧ l'' = l) ∨
      ∃ e, Stops sem (f (sem.exec c e s l).1) (sem.exec c e s l).2.1 (sem.exec c e s l).2.2
        s'' l'' := Iff.rfl

/-- A `try` is stopped within its body, or after it. -/
theorem stops_attempt_bind {x : Script C R ε α} {f : Except ε α → Script C R ε β} :
    Stops sem (attempt x >>= f) s l s'' l'' ↔ Stops sem x s l s'' l'' ∨
      ∃ r s' l', Executes sem x s l r s' l' ∧ Stops sem (f r) s' l' s'' l'' := by
  have hrun : (attempt x >>= f).run = x.run >>= fun r => (f r).run := by
    have hattempt : (attempt x).run = x.run >>= fun r => .ret (.ok r) := rfl
    rw [ExceptT.run_bind, hattempt, bind_assoc]
    rfl
  rw [Stops, hrun, Prog.stops_bind]
  rfl

end Script

end Interaction
