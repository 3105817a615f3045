import Mathlib.Data.List.Forall2
import MarketRelay.Lib.Execution

/-!
# Programs in Lockstep

Two runs compared step by step. The environment may answer the two runs differently, as long as
it keeps to a relation between the answers; the two programs then receive related responses
(`ρ`), issue the same commands and end with related results. Where the difference between two
responses does not affect what a command does to the state, the two runs also leave the same
state: what the relation allows to differ has not reached it.

The relation on programs is compositional, with one rule for each construct. A program that
receives only responses which cannot differ is in lockstep with itself.

## Main results

* `Prog.Lockstep.bind`, `Script.Lockstep.bind`, `Script.Lockstep.attempt`: the rules.
* `Prog.Only.lockstep`: programs that nothing different can reach.
* `Prog.Lockstep.execute`: two runs of programs in lockstep leave the same state.
-/

namespace Interaction

variable {C : Type} {R : C → Type} {E S L : Type}

namespace Prog

variable {α β γ δ : Type} {ρ : (c : C) → R c → R c → Prop} {T : α → β → Prop}

/-- The two programs issue the same commands as long as they get related responses, and end
with related results. -/
inductive Lockstep (ρ : (c : C) → R c → R c → Prop) (T : α → β → Prop) :
    Prog C R α → Prog C R β → Prop
  | ret {a : α} {b : β} : T a b → Lockstep ρ T (ret a) (ret b)
  | call {c : C} {k : R c → Prog C R α} {k' : R c → Prog C R β} :
      (∀ r r', ρ c r r' → Lockstep ρ T (k r) (k' r')) → Lockstep ρ T (call c k) (call c k')

namespace Lockstep

variable {x : Prog C R α} {y : Prog C R β}

theorem mono {T' : α → β → Prop} (h : Lockstep ρ T x y) (hT : ∀ a b, T a b → T' a b) :
    Lockstep ρ T' x y := by
  induction h with
  | ret hab => exact .ret (hT _ _ hab)
  | call _ ih => exact .call ih

/-- The rule of sequencing. -/
theorem bind {U : γ → δ → Prop} {f : α → Prog C R γ} {g : β → Prog C R δ}
    (h : Lockstep ρ T x y) (hf : ∀ a b, T a b → Lockstep ρ U (f a) (g b)) :
    Lockstep ρ U (x >>= f) (y >>= g) := by
  induction h with
  | ret hab => exact hf _ _ hab
  | call _ ih => exact .call ih

/-- The rule for programs within programs. -/
theorem embed {C' : Type} {R' : C' → Type} {ρ' : (c : C') → R' c → R' c → Prop} {f : C → C'}
    {g : (c : C) → R' (f c) → R c} (hρ : ∀ c r r', ρ' (f c) r r' → ρ c (g c r) (g c r'))
    (h : Lockstep ρ T x y) : Lockstep ρ' T (x.embed f g) (y.embed f g) := by
  induction h with
  | ret hab => exact .ret hab
  | call _ ih => exact .call fun r r' hr => ih _ _ (hρ _ r r' hr)

variable {sem : Semantics C R E S L} {η : E → E → Prop}

/-- **Two runs of programs in lockstep leave the same state** and end with related results,
when related answers make every command do the same and respond with related responses. -/
theorem execute (h : Lockstep ρ T x y)
    (hsem : ∀ c e e' s l, η e e' → ρ c (sem.exec c e s l).1 (sem.exec c e' s l).1 ∧
      (sem.exec c e s l).2 = (sem.exec c e' s l).2)
    {es es' : List E} (hes : List.Forall₂ η es es') {s s' : S} {l l' : L} {a : α}
    (hx : x.execute sem es s l = some (a, s', l')) :
    ∃ b, y.execute sem es' s l = some (b, s', l') ∧ T a b := by
  induction h generalizing es es' s l with
  | @ret a₀ b hab =>
      cases hes with
      | nil =>
          obtain ⟨rfl, rfl, rfl⟩ : a₀ = a ∧ s = s' ∧ l = l' := by simpa [Prog.execute] using hx
          exact ⟨b, rfl, hab⟩
      | cons _ _ => exact absurd hx (by simp [Prog.execute])
  | @call c k k' _ ih =>
      cases hes with
      | nil => exact absurd hx (by simp [Prog.execute])
      | @cons e e' es es' he hes =>
          obtain ⟨hresp, hstate⟩ := hsem c e e' s l he
          obtain ⟨b, hb, hab⟩ := ih _ _ hresp hes hx
          refine ⟨b, ?_, hab⟩
          rw [hstate] at hb
          exact hb

end Lockstep

/-- A program that receives only responses which cannot differ is in lockstep with itself. -/
theorem Only.lockstep {P : C → Prop} {x : Prog C R α} (hx : x.Only P)
    (hρ : ∀ c r r', P c → ρ c r r' → r = r') : Lockstep ρ Eq x x := by
  induction x with
  | ret a => exact .ret rfl
  | call c k ih =>
      refine .call fun r r' hr => ?_
      obtain rfl := hρ c r r' hx.1 hr
      exact ih r (hx.2 r)

end Prog

/-! ### Programs that raise -/

namespace Script

variable {ε α β γ δ : Type}

/-- Two outcomes: related values, or related exceptions. -/
def Outcomes (X : ε → ε → Prop) (T : α → β → Prop) : Except ε α → Except ε β → Prop
  | .ok a, .ok b => T a b
  | .error e, .error e' => X e e'
  | _, _ => False

/-- Two scripts in lockstep, whose exceptions may differ as `X` allows. -/
def Lockstep (ρ : (c : C) → R c → R c → Prop) (X : ε → ε → Prop) (T : α → β → Prop)
    (x : Script C R ε α) (y : Script C R ε β) : Prop :=
  Prog.Lockstep ρ (Outcomes X T) x.run y.run

variable {ρ : (c : C) → R c → R c → Prop} {X : ε → ε → Prop} {T : α → β → Prop}
  {U : γ → δ → Prop} {x : Script C R ε α} {y : Script C R ε β}

theorem lockstep_pure {a : α} {b : β} (h : T a b) :
    Lockstep ρ X T (pure a : Script C R ε α) (pure b) :=
  .ret h

theorem lockstep_throw {e e' : ε} (h : X e e') :
    Lockstep ρ X T (throw e : Script C R ε α) (throw e') :=
  .ret h

theorem lockstep_op {c : C} : Lockstep ρ X (ρ c) (op c : Script C R ε (R c)) (op c) :=
  .call fun _ _ hr => .ret hr

/-- The rule of sequencing. -/
theorem Lockstep.bind {f : α → Script C R ε γ} {g : β → Script C R ε δ}
    (h : Lockstep ρ X T x y) (hf : ∀ a b, T a b → Lockstep ρ X U (f a) (g b)) :
    Lockstep ρ X U (x >>= f) (y >>= g) := by
  rw [Lockstep, ExceptT.run_bind, ExceptT.run_bind]
  refine Prog.Lockstep.bind h fun a b hab => ?_
  rcases a with e | a <;> rcases b with e' | b
  · exact .ret hab
  · exact hab.elim
  · exact hab.elim
  · exact hf a b hab

/-- The rule for a `try` whose outcome is a value. -/
theorem Lockstep.attempt (h : Lockstep ρ X T x y) :
    Lockstep ρ X (Outcomes X T) (Script.attempt x) (Script.attempt y) :=
  Prog.Lockstep.bind h fun _ _ hab => .ret hab

/-- The rule for scripts within scripts. -/
theorem Lockstep.embed {C' : Type} {R' : C' → Type} {ρ' : (c : C') → R' c → R' c → Prop}
    {f : C → C'} {g : (c : C) → R' (f c) → R c}
    (hρ : ∀ c r r', ρ' (f c) r r' → ρ c (g c r) (g c r')) (h : Lockstep ρ X T x y) :
    Lockstep ρ' X T (Script.embed f g x) (Script.embed f g y) :=
  Prog.Lockstep.embed hρ h

/-- Two scripts that are interrupted at the same step, or not at all. -/
theorem Lockstep.interrupt (h : Lockstep ρ X T x y) {fault fault' : Option (ℕ × ε)}
    (hfault : Option.Rel (fun p q => p.1 = q.1 ∧ X p.2 q.2) fault fault') :
    Lockstep ρ X T (Script.interrupt fault x) (Script.interrupt fault' y) := by
  have hfail : ∀ (x : Prog C R (Except ε α)) (y : Prog C R (Except ε β)),
      Prog.Lockstep ρ (Outcomes X T) x y → ∀ (n : ℕ) (e e' : ε), X e e' →
      Prog.Lockstep ρ (Outcomes X T) (failAfter e n x) (failAfter e' n y) := by
    intro x y h
    induction h with
    | ret hab =>
        rintro (_ | n) e e' he
        · exact .ret he
        · exact .ret hab
    | call _ ih =>
        rintro (_ | n) e e' he
        · exact .ret he
        · exact .call fun r r' hr => ih r r' hr n e e' he
  cases hfault with
  | none => exact h
  | @some p q hpq =>
      obtain ⟨n, e⟩ := p
      obtain ⟨n', e'⟩ := q
      obtain ⟨rfl, he⟩ := hpq
      exact hfail _ _ h n e e' he

/-- A script that receives only responses which cannot differ is in lockstep with itself, and
raises the same. -/
theorem lockstep_of_only {P : C → Prop} {x : Script C R ε α} (hx : x.run.Only P)
    (hρ : ∀ c r r', P c → ρ c r r' → r = r') : Lockstep ρ Eq Eq x x := by
  refine (hx.lockstep hρ).mono ?_
  rintro a _ rfl
  cases a <;> rfl

theorem Lockstep.mono {X' : ε → ε → Prop} {T' : α → β → Prop} (h : Lockstep ρ X T x y)
    (hX : ∀ e e', X e e' → X' e e') (hT : ∀ a b, T a b → T' a b) : Lockstep ρ X' T' x y := by
  refine Prog.Lockstep.mono h ?_
  rintro (e | a) (e' | b) hab
  · exact hX e e' hab
  · exact hab.elim
  · exact hab.elim
  · exact hT a b hab

end Script

end Interaction
