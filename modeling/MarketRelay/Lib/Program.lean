import Mathlib.Control.Basic
import Mathlib.Data.Nat.Notation

/-!
# Programs over Commands

Sequential programs that interact with the outside world through commands: a program
either returns, or issues a command and continues with its response. Programs form a
monad (`Prog`), and with exceptions on top (`Script`) they are written in `do` notation,
`try`/`catch` included, so that the text of a program can follow its source line by line.

What a command does is left open. A `Contract` says which commands a program may issue
and what it then learns, in terms of a ghost state that records the program's knowledge,
and `Prog.Meets` is the weakest precondition that the contract induces: it quantifies over
every response the contract allows, so it can be established by structural recursion on
the program, one rule per construct.

## Main results

* `Prog.meets_bind`, `Script.meets_bind`, `Script.meets_attempt`: the rules for sequencing
  and for handlers.
* `Prog.Meets.mono`: the rule of consequence.
* `Script.Leads.bind`: scripts in sequence lead from the first assertion to the last.
* `Prog.Only`: which commands a program may issue, also inside a larger program (`embed`) and
  when it is cut short by an exception (`Script.interrupt`).
-/

namespace Interaction

universe u

variable {C : Type} {R : C → Type}

/-- A program that issues commands from `C`, where the response to `c` has type `R c`. -/
inductive Prog (C : Type) (R : C → Type) (α : Type u) : Type u where
  | ret (a : α) : Prog C R α
  | call (c : C) (k : R c → Prog C R α) : Prog C R α

namespace Prog

variable {α β γ : Type u}

/-- Sequencing. -/
def bind : Prog C R α → (α → Prog C R β) → Prog C R β
  | ret a, f => f a
  | call c k, f => call c fun r => (k r).bind f

instance : Monad (Prog C R) where
  pure := ret
  bind := bind

@[simp] theorem pure_def (a : α) : (pure a : Prog C R α) = ret a := rfl

@[simp] theorem ret_bind (a : α) (f : α → Prog C R β) : ret a >>= f = f a := rfl

@[simp] theorem call_bind (c : C) (k : R c → Prog C R α) (f : α → Prog C R β) :
    call c k >>= f = call c fun r => k r >>= f := rfl

theorem bind_ret (x : Prog C R α) : x.bind ret = x := by
  induction x with
  | ret a => rfl
  | call c k ih => rw [bind, funext ih]

theorem bind_assoc (x : Prog C R α) (f : α → Prog C R β) (g : β → Prog C R γ) :
    (x.bind f).bind g = x.bind fun a => (f a).bind g := by
  induction x with
  | ret a => rfl
  | call c k ih => rw [bind, bind, bind, funext ih]

instance : LawfulMonad (Prog C R) :=
  LawfulMonad.mk' _ bind_ret (fun _ _ => rfl) bind_assoc

/-- The result of a program that has returned. -/
def result? : Prog C R α → Option α
  | ret a => some a
  | call _ _ => none

theorem result?_eq_some_iff {x : Prog C R α} {a : α} : x.result? = some a ↔ x = ret a := by
  cases x <;> simp [result?]

/-- The command that a program is about to issue. -/
def next? : Prog C R α → Option C
  | ret _ => none
  | call c _ => some c

theorem next?_eq_some_iff {x : Prog C R α} {c : C} :
    x.next? = some c ↔ ∃ k, x = call c k := by
  cases x with
  | ret a => simp [next?]
  | call c' k =>
      constructor
      · intro h
        obtain rfl := Option.some.inj h
        exact ⟨k, rfl⟩
      · rintro ⟨k', h⟩
        injection h with hc _
        exact congrArg some hc

end Prog

/-! ### Contracts -/

/-- What a program may do, and what it learns: `pre c g` allows the command `c` to a
program that knows `g`, and `post c g r g'` relates the response and the new knowledge. -/
structure Contract (C : Type) (R : C → Type) (G : Type) where
  pre : C → G → Prop
  post : (c : C) → G → R c → G → Prop

variable {G : Type} {K : Contract C R G}

/-- The contract that allows everything. -/
def Contract.free : Contract C R G := ⟨fun _ _ => True, fun _ _ _ _ => True⟩

/-- Under the contract, every command of the program is allowed when it is issued, and
the program returns only results that satisfy `Q`. -/
def Prog.Meets {α : Type u} (K : Contract C R G) : Prog C R α → (α → G → Prop) → G → Prop
  | .ret a, Q, g => Q a g
  | .call c k, Q, g => K.pre c g ∧ ∀ r g', K.post c g r g' → (k r).Meets K Q g'

namespace Prog

variable {α β : Type u}

theorem meets_ret {a : α} {Q : α → G → Prop} {g : G} : (ret a).Meets K Q g ↔ Q a g := Iff.rfl

theorem meets_call {c : C} {k : R c → Prog C R α} {Q : α → G → Prop} {g : G} :
    (call c k).Meets K Q g ↔ K.pre c g ∧ ∀ r g', K.post c g r g' → (k r).Meets K Q g' :=
  Iff.rfl

/-- Every program meets the contract that allows everything. -/
theorem meets_free (x : Prog C R α) (g : G) : x.Meets Contract.free (fun _ _ => True) g := by
  induction x generalizing g with
  | ret a => trivial
  | call c k ih => exact ⟨trivial, fun r g' _ => ih r g'⟩

/-- The rule of consequence. -/
theorem Meets.mono {x : Prog C R α} {Q Q' : α → G → Prop} {g : G} (h : x.Meets K Q g)
    (hQ : ∀ a g', Q a g' → Q' a g') : x.Meets K Q' g := by
  induction x generalizing g with
  | ret a => exact hQ a g h
  | call c k ih => exact ⟨h.1, fun r g' hp => ih r (h.2 r g' hp)⟩

/-- The rule of sequencing. -/
theorem meets_bind {x : Prog C R α} {f : α → Prog C R β} {Q : β → G → Prop} {g : G} :
    (x >>= f).Meets K Q g ↔ x.Meets K (fun a g' => (f a).Meets K Q g') g := by
  induction x generalizing g with
  | ret a => rfl
  | call c k ih =>
      rw [call_bind, meets_call, meets_call]
      exact and_congr_right fun _ =>
        forall_congr' fun r => forall_congr' fun g' => imp_congr_right fun _ => ih r

/-- The rule of conjunction. -/
theorem Meets.and {x : Prog C R α} {Q Q' : α → G → Prop} {g : G} (h : x.Meets K Q g)
    (h' : x.Meets K Q' g) : x.Meets K (fun a g' => Q a g' ∧ Q' a g') g := by
  induction x generalizing g with
  | ret a => exact ⟨h, h'⟩
  | call c k ih => exact ⟨h.1, fun r g' hp => ih r (h.2 r g' hp) (h'.2 r g' hp)⟩

/-- Every command that the program may issue satisfies `P`. -/
def Only (P : C → Prop) : Prog C R α → Prop
  | ret _ => True
  | call c k => P c ∧ ∀ r, (k r).Only P

/-- A program meets a contract that allows all the commands that it may issue. -/
theorem Only.meets {P : C → Prop} {x : Prog C R α} (h : x.Only P)
    (hpre : ∀ c g, P c → K.pre c g) (g : G) : x.Meets K (fun _ _ => True) g := by
  induction x generalizing g with
  | ret a => trivial
  | call c k ih => exact ⟨hpre c g h.1, fun r g' _ => ih r (h.2 r) g'⟩

/-- A program issues only the commands that a contract it meets allows. -/
theorem Only.of_meets {P : C → Prop} {x : Prog C R α} {Q : α → G → Prop} {g : G}
    (h : x.Meets ⟨fun c _ => P c, fun _ _ _ _ => True⟩ Q g) : x.Only P := by
  induction x with
  | ret a => trivial
  | call c k ih => exact ⟨h.1, fun r => ih r (h.2 r g trivial)⟩

/-- Under a contract that allows everything, every program keeps what every command keeps. -/
theorem meets_of_stable (hpre : ∀ c g, K.pre c g) {I : G → Prop}
    (hpost : ∀ c g r g', K.post c g r g' → I g → I g') (x : Prog C R α) {g : G} (h : I g) :
    x.Meets K (fun _ => I) g := by
  induction x generalizing g with
  | ret a => exact h
  | call c k ih => exact ⟨hpre c g, fun r g' hp => ih r (hpost c g r g' hp h)⟩

end Prog

/-! ### Programs within programs -/

namespace Prog

variable {α : Type u} {C' : Type} {R' : C' → Type} {P : C → Prop} {P' : C' → Prop}

/-- The same program over a larger set of commands. -/
def embed (f : C → C') (g : (c : C) → R' (f c) → R c) : Prog C R α → Prog C' R' α
  | ret a => ret a
  | call c k => call (f c) fun r => (k (g c r)).embed f g

theorem Only.mono {Q : C → Prop} {x : Prog C R α} (h : x.Only P) (hPQ : ∀ c, P c → Q c) :
    x.Only Q := by
  induction x with
  | ret a => trivial
  | call c k ih => exact ⟨hPQ c h.1, fun r => ih r (h.2 r)⟩

theorem Only.embed {f : C → C'} {g : (c : C) → R' (f c) → R c} {x : Prog C R α}
    (h : x.Only fun c => P' (f c)) : (x.embed f g).Only P' := by
  induction x with
  | ret a => trivial
  | call c k ih => exact ⟨h.1, fun r => ih _ (h.2 _)⟩

/-- Every program issues only commands. -/
theorem only_true (x : Prog C R α) : x.Only fun _ => True := by
  induction x with
  | ret a => trivial
  | call c k ih => exact ⟨trivial, ih⟩

end Prog

/-! ### Programs that raise -/

/-- A program that may raise an exception. -/
abbrev Script (C : Type) (R : C → Type) (ε α : Type) := ExceptT ε (Prog C R) α

namespace Script

variable {ε α β : Type}

/-- Issue a command. -/
def op (c : C) : Script C R ε (R c) := ExceptT.mk (.call c fun r => .ret (.ok r))

/-- Raise `e` in place of the `n`-th command, if the script gets that far. -/
def failAfter (e : ε) : ℕ → Prog C R (Except ε α) → Prog C R (Except ε α)
  | 0, _ => .ret (.error e)
  | _ + 1, .ret r => .ret r
  | n + 1, .call c k => .call c fun r => failAfter e n (k r)

theorem Only.failAfter {P : C → Prop} {e : ε} {x : Prog C R (Except ε α)} (h : x.Only P)
    (n : ℕ) : (failAfter e n x).Only P := by
  induction x generalizing n with
  | ret r => cases n <;> trivial
  | call c k ih =>
      cases n with
      | zero => trivial
      | succ n => exact ⟨h.1, fun r => ih r (h.2 r) n⟩

/-- The script, with an exception at one of its steps or at none. -/
def interrupt (fault : Option (ℕ × ε)) (x : Script C R ε α) : Script C R ε α :=
  match fault with
  | none => x
  | some (n, e) => ExceptT.mk (failAfter e n x.run)

theorem only_interrupt {P : C → Prop} {x : Script C R ε α} (h : x.run.Only P)
    (fault : Option (ℕ × ε)) : (interrupt fault x).run.Only P := by
  cases fault with
  | none => exact h
  | some fault => exact Only.failAfter h fault.1

/-- The same script over a larger set of commands. -/
def embed {C' : Type} {R' : C' → Type} (f : C → C') (g : (c : C) → R' (f c) → R c)
    (x : Script C R ε α) : Script C' R' ε α :=
  ExceptT.mk (x.run.embed f g)

/-- The contract's precondition of a script, with one postcondition for a normal return
and one for an exception. -/
def Meets (K : Contract C R G) (x : Script C R ε α) (Q : α → G → Prop) (X : ε → G → Prop)
    (g : G) : Prop :=
  Prog.Meets K x.run (fun r g' => match r with | .ok a => Q a g' | .error e => X e g') g

variable {Q : α → G → Prop} {X : ε → G → Prop} {g : G}

theorem meets_pure {a : α} : Meets K (pure a : Script C R ε α) Q X g ↔ Q a g := Iff.rfl

theorem meets_throw {e : ε} : Meets K (throw e : Script C R ε α) Q X g ↔ X e g := Iff.rfl

theorem meets_op {c : C} {Q : R c → G → Prop} :
    Meets K (op c : Script C R ε (R c)) Q X g ↔
      K.pre c g ∧ ∀ r g', K.post c g r g' → Q r g' := Iff.rfl

/-- The rule of sequencing: an exception of the first part ends the whole. -/
theorem meets_bind {x : Script C R ε α} {f : α → Script C R ε β} {Q : β → G → Prop} :
    Meets K (x >>= f) Q X g ↔ Meets K x (fun a g' => Meets K (f a) Q X g') X g := by
  unfold Meets
  rw [ExceptT.run_bind, Prog.meets_bind]
  constructor <;>
  · intro h
    refine h.mono fun r g' hr => ?_
    cases r <;> exact hr

/-- `try` with the outcome as a value, for handlers that go on or return early. -/
def attempt (x : Script C R ε α) : Script C R ε (Except ε α) :=
  ExceptT.mk (x.run >>= fun r => .ret (.ok r))

/-- The rule for a `try` whose outcome is a value. -/
theorem meets_attempt {x : Script C R ε α} {Q : Except ε α → G → Prop} :
    Meets K (attempt x) Q X g ↔ Meets K x (fun a => Q (.ok a)) (fun e => Q (.error e)) g := by
  unfold Meets
  have hrun : (attempt x).run = x.run >>= fun r => .ret (Except.ok r) := rfl
  rw [hrun, Prog.meets_bind]
  constructor <;>
  · intro h
    exact h.mono fun r _ hr => by cases r <;> exact hr

/-- A postcondition on the outcome, as one for each of its two forms. -/
theorem meets_run {x : Script C R ε α} {Q : Except ε α → G → Prop} :
    x.run.Meets K Q g ↔ Meets K x (fun a => Q (.ok a)) (fun e => Q (.error e)) g := by
  constructor <;>
  · intro h
    exact Prog.Meets.mono h fun r _ hr => by cases r <;> exact hr

/-- The rule of consequence. -/
theorem Meets.mono {x : Script C R ε α} {Q' : α → G → Prop} {X' : ε → G → Prop}
    (h : Meets K x Q X g) (hQ : ∀ a g', Q a g' → Q' a g') (hX : ∀ e g', X e g' → X' e g') :
    Meets K x Q' X' g :=
  Prog.Meets.mono h fun r g' hr => by
    cases r with
    | ok a => exact hQ a g' hr
    | error e => exact hX e g' hr

/-- The rule of conjunction. -/
theorem Meets.and {x : Script C R ε α} {Q' : α → G → Prop} {X' : ε → G → Prop}
    (h : Meets K x Q X g) (h' : Meets K x Q' X' g) :
    Meets K x (fun a g' => Q a g' ∧ Q' a g') (fun e g' => X e g' ∧ X' e g') g :=
  (Prog.Meets.and h h').mono fun r g' hr => by
    cases r with
    | ok a => exact hr
    | error e => exact hr

/-! ### Scripts that keep an invariant -/

/-- Under the contract, the script keeps an invariant of the knowledge, whether it returns
or raises. -/
def Keeps (K : Contract C R G) (I : G → Prop) (x : Script C R ε α) : Prop :=
  ∀ g, I g → Meets K x (fun _ => I) (fun _ => I) g

variable {I : G → Prop}

theorem keeps_pure (a : α) : Keeps K I (pure a : Script C R ε α) := fun _ h => h

theorem keeps_throw (e : ε) : Keeps K I (throw e : Script C R ε α) := fun _ h => h

theorem keeps_op {c : C}
    (h : ∀ g, I g → K.pre c g ∧ ∀ r g', K.post c g r g' → I g') :
    Keeps K I (op c : Script C R ε (R c)) := h

theorem Keeps.bind {x : Script C R ε α} {f : α → Script C R ε β} (hx : Keeps K I x)
    (hf : ∀ a, Keeps K I (f a)) : Keeps K I (x >>= f) := fun g hg =>
  meets_bind.mpr ((hx g hg).mono (fun a g' h => hf a g' h) fun _ _ h => h)

theorem Keeps.attempt {x : Script C R ε α} (hx : Keeps K I x) : Keeps K I (attempt x) :=
  fun g hg => meets_attempt.mpr (hx g hg)

/-! ### Scripts that lead to what they establish -/

/-- Under the contract, the script leads from what is known before it to what is known when it
returns; nothing is said of an exception. -/
def Leads (K : Contract C R G) (I : G → Prop) (x : Script C R ε α) (Q : α → G → Prop) : Prop :=
  ∀ g, I g → Meets K x Q (fun _ _ => True) g

theorem leads_pure {a : α} (h : ∀ g, I g → Q a g) : Leads K I (pure a : Script C R ε α) Q := h

theorem leads_throw {e : ε} : Leads K I (throw e : Script C R ε α) Q := fun _ _ => trivial

theorem leads_op {c : C} {Q : R c → G → Prop}
    (h : ∀ g, I g → K.pre c g ∧ ∀ r g', K.post c g r g' → Q r g') :
    Leads K I (op c : Script C R ε (R c)) Q := h

theorem Leads.mono {x : Script C R ε α} {Q' : α → G → Prop} (h : Leads K I x Q)
    (hQ : ∀ a g, Q a g → Q' a g) : Leads K I x Q' := fun g hg =>
  (h g hg).mono hQ fun _ _ _ => trivial

theorem Leads.bind {x : Script C R ε α} {f : α → Script C R ε β} {Q' : β → G → Prop}
    (hx : Leads K I x Q) (hf : ∀ a, Leads K (Q a) (f a) Q') : Leads K I (x >>= f) Q' :=
  fun g hg => meets_bind.mpr ((hx g hg).mono (fun a g' h => hf a g' h) fun _ _ h => h)

theorem Keeps.leads {x : Script C R ε α} (h : Keeps K I x) : Leads K I x fun _ => I := fun g hg =>
  (h g hg).mono (fun _ _ h => h) fun _ _ _ => trivial

/-- A script of which nothing is asked keeps nothing. -/
theorem Leads.keeps {x : Script C R ε α} (h : Leads K (fun _ => True) x Q) :
    Keeps K (fun _ => True) x := fun g hg =>
  (h g hg).mono (fun _ _ _ => trivial) fun _ _ _ => trivial

end Script

end Interaction
