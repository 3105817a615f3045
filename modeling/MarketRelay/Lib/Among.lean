import Mathlib.Data.List.Forall2
import MarketRelay.Lib.Execution

/-!
# Programs among Other Parties

A program that runs while other parties act on the shared state. A run is a list of turns: another
party acts, or the program issues its next command and gets the environment's answer. For a given
list of turns the run is determined (`Prog.advance`): it ends when the program returns, and the turns
that are left belong to what comes after it, so that sequencing is composition.

Conditions on a run are conditions on the state before each command of the program (`Prog.Along`).
A program that meets a contract keeps an invariant along its runs, provided that the others keep it
as well.

## Main results

* `Prog.advance_bind`, `Script.advance_bind`: sequencing is composition.
* `Prog.along_bind`: so it is for the conditions.
* `Prog.Meets.advance`: a program that meets a contract keeps what its commands and the others keep.
-/

namespace Interaction

variable {C : Type} {R : C → Type} {E S L V : Type}

/-- A turn of a run: another party acts, or the program does, and gets an answer. -/
inductive Turn (V E : Type) where
  | other (v : V)
  | own (e : E)
deriving DecidableEq

namespace Turn

/-- What the others do in a run. -/
def others (turns : List (Turn V E)) : List V :=
  turns.filterMap fun
    | other v => some v
    | own _ => none

@[simp] theorem others_nil : others ([] : List (Turn V E)) = [] := rfl

@[simp] theorem others_other (v : V) (turns : List (Turn V E)) :
    others (other v :: turns) = v :: others turns := rfl

@[simp] theorem others_own (e : E) (turns : List (Turn V E)) :
    others (own e :: turns) = others turns := rfl

@[simp] theorem others_append (turns turns' : List (Turn V E)) :
    others (turns ++ turns') = others turns ++ others turns' :=
  List.filterMap_append

@[simp] theorem others_map_other (vs : List V) :
    others (vs.map other : List (Turn V E)) = vs := by
  induction vs with
  | nil => rfl
  | cons v vs ih => rw [List.map_cons, others_other, ih]

/-- What the others do before the program's next command. -/
def leading : List (Turn V E) → List V
  | other v :: turns => v :: leading turns
  | _ => []

@[simp] theorem leading_append (vs : List V) (e : E) (turns : List (Turn V E)) :
    leading (vs.map other ++ own e :: turns) = vs := by
  induction vs with
  | nil => rfl
  | cons v vs ih => rw [List.map_cons, List.cons_append, leading, ih]

/-- The same turn, with answers that are related by `η`. -/
inductive Same (η : E → E → Prop) : Turn V E → Turn V E → Prop
  | other (v : V) : Same η (other v) (other v)
  | own {e e' : E} : η e e' → Same η (own e) (own e')

theorem Same.refl {η : E → E → Prop} (h : ∀ e, η e e) (turn : Turn V E) : Same η turn turn := by
  cases turn with
  | other v => exact .other v
  | own e => exact .own (h e)

/-- The same turns, but for those of one part, of which only the others' are left, and for the answers
after it, which are related by `η`. -/
def Skips (η : E → E → Prop) (turns turns₀ : List (Turn V E)) : Prop :=
  ∃ before part after after₀, turns = before ++ part ++ after ∧
    turns₀ = before ++ (others part).map other ++ after₀ ∧ List.Forall₂ (Same η) after after₀

theorem Skips.append {η : E → E → Prop} {turns turns₀ : List (Turn V E)} (h : Skips η turns turns₀)
    (first : List (Turn V E)) : Skips η (first ++ turns) (first ++ turns₀) := by
  obtain ⟨before, part, after, after₀, rfl, rfl, hsame⟩ := h
  exact ⟨first ++ before, part, after, after₀, by simp, by simp, hsame⟩

end Turn

/-- What the commands of a program do, and what other parties do to the shared state. -/
structure Arena (C : Type) (R : C → Type) (E S L V : Type) extends Semantics C R E S L where
  act : V → S → S

/-- Several actions of the others, one after the other. -/
def Arena.actAll (A : Arena C R E S L V) (vs : List V) (s : S) : S :=
  vs.foldl (fun s v => A.act v s) s

@[simp] theorem Arena.actAll_nil (A : Arena C R E S L V) (s : S) : A.actAll [] s = s := rfl

@[simp] theorem Arena.actAll_cons (A : Arena C R E S L V) (v : V) (vs : List V) (s : S) :
    A.actAll (v :: vs) s = A.actAll vs (A.act v s) := rfl

theorem Arena.actAll_append (A : Arena C R E S L V) (vs vs' : List V) (s : S) :
    A.actAll (vs ++ vs') s = A.actAll vs' (A.actAll vs s) :=
  List.foldl_append

namespace Prog

variable {α β : Type} (A : Arena C R E S L V)

/-- Run the program up to its return: its result, the states then, and the turns that are left. -/
def advance : List (Turn V E) → Prog C R α → S → L → Option (α × S × L × List (Turn V E))
  | turns, ret a, s, l => some (a, s, l, turns)
  | [], call _ _, _, _ => none
  | .other v :: turns, call c k, s, l => advance turns (call c k) (A.act v s) l
  | .own e :: turns, call c k, s, l =>
    advance turns (k (A.exec c e s l).1) (A.exec c e s l).2.1 (A.exec c e s l).2.2

/-- Every command of the run meets a condition on the states in which it is issued. -/
def Along (ok : C → S → L → Prop) : List (Turn V E) → Prog C R α → S → L → Prop
  | _, ret _, _, _ => True
  | [], call _ _, _, _ => True
  | .other v :: turns, call c k, s, l => Along ok turns (call c k) (A.act v s) l
  | .own e :: turns, call c k, s, l =>
    ok c s l ∧
      Along ok turns (k (A.exec c e s l).1) (A.exec c e s l).2.1 (A.exec c e s l).2.2

variable {A} {turns rest : List (Turn V E)} {s s' : S} {l l' : L} {ok : C → S → L → Prop}

@[simp] theorem advance_ret (a : α) : advance A turns (ret a) s l = some (a, s, l, turns) := by
  cases turns <;> rfl

@[simp] theorem along_ret (a : α) : Along A ok turns (ret a) s l := by
  cases turns <;> trivial

@[simp] theorem advance_other_call {v : V} {c : C} {k : R c → Prog C R α} :
    advance A (.other v :: turns) (call c k) s l = advance A turns (call c k) (A.act v s) l := rfl

@[simp] theorem advance_own_call {e : E} {c : C} {k : R c → Prog C R α} :
    advance A (.own e :: turns) (call c k) s l =
      advance A turns (k (A.exec c e s l).1) (A.exec c e s l).2.1 (A.exec c e s l).2.2 := rfl

/-- **Sequencing is composition.** -/
theorem advance_bind (x : Prog C R α) (f : α → Prog C R β) :
    advance A turns (x >>= f) s l =
      (advance A turns x s l).bind fun (a, s', l', rest) => advance A rest (f a) s' l' := by
  induction turns generalizing x s l with
  | nil => cases x <;> rfl
  | cons turn turns ih =>
      cases x with
      | ret a => rfl
      | call c k =>
          cases turn with
          | other v => exact ih (call c k)
          | own e => exact ih _

/-- Conditions on the commands of a sequence are conditions on those of its parts. -/
theorem along_bind {x : Prog C R α} {f : α → Prog C R β} :
    Along A ok turns (x >>= f) s l ↔
      Along A ok turns x s l ∧ ∀ a s' l' rest, advance A turns x s l = some (a, s', l', rest) →
        Along A ok rest (f a) s' l' := by
  have hret : ∀ (a : α) (turns : List (Turn V E)) (s : S) (l : L),
      Along A ok turns (f a) s l ↔ Along A ok turns (ret a : Prog C R α) s l ∧
        ∀ b s' l' rest, advance A turns (ret a : Prog C R α) s l = some (b, s', l', rest) →
          Along A ok rest (f b) s' l' := by
    intro a turns s l
    rw [advance_ret]
    constructor
    · intro h
      refine ⟨along_ret a, fun b s' l' rest hb => ?_⟩
      obtain ⟨rfl, rfl, rfl, rfl⟩ : a = b ∧ s = s' ∧ l = l' ∧ turns = rest := by simpa using hb
      exact h
    · exact fun h => h.2 a s l turns rfl
  induction turns generalizing x s l with
  | nil =>
      cases x with
      | ret a => exact hret a [] s l
      | call c k => exact ⟨fun _ => ⟨trivial, fun _ _ _ _ h => absurd h (by simp [advance])⟩,
          fun _ => trivial⟩
  | cons turn turns ih =>
      cases x with
      | ret a => exact hret a (turn :: turns) s l
      | call c k =>
          cases turn with
          | other v => exact ih (x := call c k)
          | own e => exact (and_congr_right fun _ => ih).trans and_assoc.symm

instance decidableAlong [∀ c s l, Decidable (ok c s l)] (turns : List (Turn V E))
    (x : Prog C R α) (s : S) (l : L) : Decidable (Along A ok turns x s l) :=
  match turns, x with
  | _, ret a => isTrue (along_ret a)
  | [], call _ _ => isTrue trivial
  | .other v :: turns, call c k => decidableAlong turns (call c k) (A.act v s) l
  | .own e :: turns, call c k =>
    have := decidableAlong turns (k (A.exec c e s l).1) (A.exec c e s l).2.1 (A.exec c e s l).2.2
    inferInstanceAs (Decidable (ok c s l ∧ Along A ok turns (k (A.exec c e s l).1)
      (A.exec c e s l).2.1 (A.exec c e s l).2.2))

/-- A run uses up its turns from the front, and does not depend on the turns after them. -/
theorem exists_used {x : Prog C R α} {a : α} (h : advance A turns x s l = some (a, s', l', rest)) :
    ∃ used, turns = used ++ rest ∧
      ∀ rest', advance A (used ++ rest') x s l = some (a, s', l', rest') := by
  induction turns generalizing x s l with
  | nil =>
      cases x with
      | ret b =>
          obtain ⟨rfl, rfl, rfl, rfl⟩ : b = a ∧ s = s' ∧ l = l' ∧ [] = rest := by simpa using h
          exact ⟨[], rfl, fun _ => advance_ret b⟩
      | call c k => exact absurd h (by simp [advance])
  | cons turn turns ih =>
      cases x with
      | ret b =>
          obtain ⟨rfl, rfl, rfl, rfl⟩ : b = a ∧ s = s' ∧ l = l' ∧ turn :: turns = rest := by
            simpa using h
          exact ⟨[], rfl, fun _ => advance_ret b⟩
      | call c k =>
          cases turn with
          | other v =>
              obtain ⟨used, rfl, hrun⟩ := ih h
              exact ⟨.other v :: used, rfl, hrun⟩
          | own e =>
              obtain ⟨used, rfl, hrun⟩ := ih h
              exact ⟨.own e :: used, rfl, hrun⟩

/-- A run of a program up to its first command, and from there. -/
theorem advance_first (vs : List V) (e : E) (c : C) (k : R c → Prog C R α) :
    advance A (vs.map .other ++ .own e :: turns) (call c k) s l =
      advance A turns (k (A.exec c e (A.actAll vs s) l).1) (A.exec c e (A.actAll vs s) l).2.1
        (A.exec c e (A.actAll vs s) l).2.2 := by
  induction vs generalizing s with
  | nil => rfl
  | cons v vs ih => exact ih

theorem along_first (vs : List V) (e : E) (c : C) (k : R c → Prog C R α) :
    Along A ok (vs.map .other ++ .own e :: turns) (call c k) s l ↔
      ok c (A.actAll vs s) l ∧ Along A ok turns (k (A.exec c e (A.actAll vs s) l).1)
        (A.exec c e (A.actAll vs s) l).2.1 (A.exec c e (A.actAll vs s) l).2.2 := by
  induction vs generalizing s with
  | nil => exact Iff.rfl
  | cons v vs ih => exact ih

/-- A run that ends issues its first command, after what the others do before. -/
theorem exists_first {c : C} {k : R c → Prog C R α} {a : α}
    (h : advance A turns (call c k) s l = some (a, s', l', rest)) :
    ∃ (vs : List V) (e : E) (turns' : List (Turn V E)),
      turns = vs.map .other ++ .own e :: turns' := by
  induction turns generalizing s with
  | nil => exact absurd h (by simp [advance])
  | cons turn turns ih =>
      cases turn with
      | own e => exact ⟨[], e, turns, rfl⟩
      | other v =>
          obtain ⟨vs, e, turns', rfl⟩ := ih h
          exact ⟨v :: vs, e, turns', rfl⟩

/-- A condition that asks for nothing. -/
theorem along_true (x : Prog C R α) : Along A (fun _ _ _ => True) turns x s l := by
  induction turns generalizing x s l with
  | nil => cases x <;> trivial
  | cons turn turns ih =>
      cases x with
      | ret a => trivial
      | call c k =>
          cases turn with
          | other v => exact ih (call c k)
          | own e => exact ⟨trivial, ih _⟩

variable (A) in
/-- A run to the end of the turns: the others go on when the program has returned. -/
def finish (turns : List (Turn V E)) (x : Prog C R α) (s : S) (l : L) : Option (α × S × L) :=
  (advance A turns x s l).map fun (a, s', l', rest) => (a, A.actAll (Turn.others rest) s', l')

theorem finish_eq_some_iff {x : Prog C R α} {a : α} :
    finish A turns x s l = some (a, s', l') ↔
      ∃ s₁ rest, advance A turns x s l = some (a, s₁, l', rest) ∧
        A.actAll (Turn.others rest) s₁ = s' := by
  rw [finish, Option.map_eq_some_iff]
  constructor
  · rintro ⟨⟨a', s₁, l₁, rest⟩, hx, heq⟩
    obtain ⟨rfl, hs, rfl⟩ : a' = a ∧ A.actAll (Turn.others rest) s₁ = s' ∧ l₁ = l' := by
      simpa using heq
    exact ⟨s₁, rest, hx, hs⟩
  · rintro ⟨s₁, rest, hx, rfl⟩
    exact ⟨_, hx, rfl⟩

@[simp] theorem finish_ret (a : α) :
    finish A turns (ret a) s l = some (a, A.actAll (Turn.others turns) s, l) := by
  rw [finish, advance_ret]
  rfl

/-- What the others do before a run to the end. -/
theorem finish_map_other (vs : List V) (x : Prog C R α) :
    finish A (vs.map .other ++ turns) x s l = finish A turns x (A.actAll vs s) l := by
  induction vs generalizing s with
  | nil => rfl
  | cons v vs ih =>
      cases x with
      | ret a =>
          rw [finish_ret, finish_ret, Turn.others_append, Turn.others_map_other, A.actAll_append]
      | call c k => exact ih

/-- A run to the end of a sequence. -/
theorem finish_bind {x : Prog C R α} {f : α → Prog C R β} {a : α}
    (h : advance A turns x s l = some (a, s', l', rest)) :
    finish A turns (x >>= f) s l = finish A rest (f a) s' l' := by
  rw [finish, advance_bind, h]
  rfl

/-- **A program that meets a contract keeps an invariant** that its commands keep, as long as the
others keep it, and learns what the contract says. -/
theorem Meets.advance {G : Type} {K : Contract C R G} {I : S → L → G → Prop} {O : V → Prop}
    (hown : ∀ c e s l g, K.pre c g → ok c s l → I s l g →
      ∃ g', K.post c g (A.exec c e s l).1 g' ∧ I (A.exec c e s l).2.1 (A.exec c e s l).2.2 g')
    (hother : ∀ v s l g, O v → I s l g → I (A.act v s) l g)
    {x : Prog C R α} {Q : α → G → Prop} {g : G} (hx : x.Meets K Q g) {a : α}
    (h : advance A turns x s l = some (a, s', l', rest)) (hO : ∀ v ∈ Turn.others turns, O v)
    (hok : Along A ok turns x s l) (hI : I s l g) : ∃ g', Q a g' ∧ I s' l' g' := by
  induction turns generalizing x s l g with
  | nil =>
      cases x with
      | ret b =>
          simp only [advance_ret, Option.some.injEq, Prod.mk.injEq] at h
          obtain ⟨rfl, rfl, rfl, -⟩ := h
          exact ⟨g, hx, hI⟩
      | call c k => exact absurd h (by simp [Prog.advance])
  | cons turn turns ih =>
      cases x with
      | ret b =>
          simp only [advance_ret, Option.some.injEq, Prod.mk.injEq] at h
          obtain ⟨rfl, rfl, rfl, -⟩ := h
          exact ⟨g, hx, hI⟩
      | call c k =>
          cases turn with
          | other v =>
              have hv : O v ∧ ∀ v ∈ Turn.others turns, O v := by simpa using hO
              exact ih hx h hv.2 hok (hother v s l g hv.1 hI)
          | own e =>
              obtain ⟨g', hpost, hI'⟩ := hown c e s l g hx.1 hok.1 hI
              exact ih (hx.2 _ g' hpost) h hO hok.2 hI'

end Prog

/-! ### Programs that raise -/

namespace Script

variable {ε α β : Type} {A : Arena C R E S L V} {turns rest : List (Turn V E)} {s s' : S}
  {l l' : L}

/-- **Sequencing is composition**, up to the first exception. -/
theorem advance_bind {x : Script C R ε α} {f : α → Script C R ε β} {r : Except ε β} :
    Prog.advance A turns (x >>= f).run s l = some (r, s', l', rest) ↔
      (∃ a s₁ l₁ rest₁, Prog.advance A turns x.run s l = some (.ok a, s₁, l₁, rest₁) ∧
        Prog.advance A rest₁ (f a).run s₁ l₁ = some (r, s', l', rest)) ∨
      ∃ e, Prog.advance A turns x.run s l = some (.error e, s', l', rest) ∧ r = .error e := by
  rw [ExceptT.run_bind, Prog.advance_bind, Option.bind_eq_some_iff]
  constructor
  · rintro ⟨⟨e | a, s₁, l₁, rest₁⟩, hx, hf⟩
    · simp only [Prog.pure_def, Prog.advance_ret, Option.some.injEq, Prod.mk.injEq] at hf
      obtain ⟨rfl, rfl, rfl, rfl⟩ := hf
      exact Or.inr ⟨e, hx, rfl⟩
    · exact Or.inl ⟨a, s₁, l₁, rest₁, hx, hf⟩
  · rintro (⟨a, s₁, l₁, rest₁, hx, hf⟩ | ⟨e, hx, rfl⟩)
    · exact ⟨(.ok a, s₁, l₁, rest₁), hx, hf⟩
    · exact ⟨(.error e, s', l', rest), hx, by simp⟩

/-- What follows a `try` is reached with the outcome of its body. -/
theorem advance_attempt_bind {x : Script C R ε α} {f : Except ε α → Script C R ε β}
    {r : Except ε β} :
    Prog.advance A turns (attempt x >>= f).run s l = some (r, s', l', rest) ↔
      ∃ r' s₁ l₁ rest₁, Prog.advance A turns x.run s l = some (r', s₁, l₁, rest₁) ∧
        Prog.advance A rest₁ (f r').run s₁ l₁ = some (r, s', l', rest) := by
  have hrun : (attempt x >>= f).run = x.run >>= fun r' => (f r').run := by
    rw [ExceptT.run_bind]
    have hattempt : (attempt x).run = x.run >>= fun r' => .ret (.ok r') := rfl
    rw [hattempt, LawfulMonad.bind_assoc]
    rfl
  rw [hrun, Prog.advance_bind, Option.bind_eq_some_iff]
  constructor
  · rintro ⟨⟨r', s₁, l₁, rest₁⟩, hx, hf⟩
    exact ⟨r', s₁, l₁, rest₁, hx, hf⟩
  · rintro ⟨r', s₁, l₁, rest₁, hx, hf⟩
    exact ⟨(r', s₁, l₁, rest₁), hx, hf⟩

/-- A sequence that ends has come to the end of its first part. -/
theorem exists_of_finish_bind {x : Script C R ε α} {f : α → Script C R ε β} {r : Except ε β}
    (h : Prog.finish A turns (x >>= f).run s l = some (r, s', l')) :
    ∃ r' s₁ l₁ rest, Prog.advance A turns x.run s l = some (r', s₁, l₁, rest) := by
  obtain ⟨s₂, rest, hrun, -⟩ := Prog.finish_eq_some_iff.mp h
  rcases advance_bind.mp hrun with ⟨a, s₁, l₁, rest₁, hx, -⟩ | ⟨e, hx, -⟩
  · exact ⟨.ok a, s₁, l₁, rest₁, hx⟩
  · exact ⟨.error e, s₂, l', rest, hx⟩

/-- A run to the end of a sequence, the first part of which returns. -/
theorem finish_bind {x : Script C R ε α} {f : α → Script C R ε β} {a : α}
    (h : Prog.advance A turns x.run s l = some (.ok a, s', l', rest)) :
    Prog.finish A turns (x >>= f).run s l = Prog.finish A rest (f a).run s' l' := by
  rw [ExceptT.run_bind, Prog.finish_bind h]

end Script

end Interaction
