import MarketRelay.Lib.Among

/-!
# Coupled Programs among Other Parties

A relational logic for two programs that run among the same other parties: whenever the first runs
to its end, the second does in as many turns, in which the others do the same and the answers are
related, and the two runs end in related states with related results (`Prog.Coupled`). The relation
between the states has to be kept by the others and may be different before and after each part;
nothing is asked of the commands themselves, so that the two programs may issue different ones.

A program can also be set against none at all, while the others go on in both runs
(`Prog.Meets.alongside`), and a program whose commands all respond alike is coupled with itself
(`Prog.Meets.coupled`).

## Main results

* `Prog.Coupled.bind`, `Script.Coupled.bind`: the rules for sequencing.
* `Script.coupled_op`: the rule for a pair of commands.
* `Prog.Meets.coupled`, `Prog.Meets.alongside`: the rules for one program.
-/

namespace Interaction

variable {C : Type} {R : C → Type} {E S L V : Type}

/-- How two runs are compared: what the others may do, which condition the commands of the first run
meet, and how the answers are related. -/
structure Comparison (C : Type) (R : C → Type) (E S L V : Type) where
  arena : Arena C R E S L V
  others : V → Prop
  ok : C → S → L → Prop
  answers : E → E → Prop

namespace Prog

variable {α β γ δ : Type} (M : Comparison C R E S L V)

/-- From states that are related by `Pre`, every run of the first program is matched by one of the
second, and they end as `Q` says. -/
def Coupled (Pre : S → L → S → L → Prop) (x : Prog C R α) (y : Prog C R β)
    (Q : α → β → S → L → S → L → Prop) : Prop :=
  ∀ turns s l s₀ l₀ a s' l' rest, Pre s l s₀ l₀ →
    advance M.arena turns x s l = some (a, s', l', rest) →
    (∀ v ∈ Turn.others turns, M.others v) → Along M.arena M.ok turns x s l →
    ∃ used used₀ b s₀' l₀', turns = used ++ rest ∧ List.Forall₂ (Turn.Same M.answers) used used₀ ∧
      (∀ rest₀, advance M.arena (used₀ ++ rest₀) y s₀ l₀ = some (b, s₀', l₀', rest₀)) ∧
      Q a b s' l' s₀' l₀'

variable {M} {Pre Mid : S → L → S → L → Prop} {x : Prog C R α} {y : Prog C R β}
  {Q Q' : α → β → S → L → S → L → Prop}

theorem coupled_ret {a : α} {b : β} (h : ∀ s l s₀ l₀, Pre s l s₀ l₀ → Q a b s l s₀ l₀) :
    Coupled M Pre (ret a) (ret b) Q := by
  intro turns s l s₀ l₀ a' s' l' rest hpre hx _ _
  obtain ⟨rfl, rfl, rfl, rfl⟩ : a = a' ∧ s = s' ∧ l = l' ∧ turns = rest := by simpa using hx
  exact ⟨[], [], b, s₀, l₀, rfl, .nil, fun _ => advance_ret b, h s l s₀ l₀ hpre⟩

/-- The rule of consequence. -/
theorem Coupled.mono {Pre' : S → L → S → L → Prop} (h : Coupled M Pre x y Q)
    (hpre : ∀ s l s₀ l₀, Pre' s l s₀ l₀ → Pre s l s₀ l₀)
    (hpost : ∀ a b s l s₀ l₀, Q a b s l s₀ l₀ → Q' a b s l s₀ l₀) :
    Coupled M Pre' x y Q' := by
  intro turns s l s₀ l₀ a s' l' rest hp hx hO hok
  obtain ⟨used, used₀, b, s₀', l₀', hused, hsame, hy, hp'⟩ :=
    h turns s l s₀ l₀ a s' l' rest (hpre _ _ _ _ hp) hx hO hok
  exact ⟨used, used₀, b, s₀', l₀', hused, hsame, hy, hpost _ _ _ _ _ _ hp'⟩

/-- **The rule of sequencing.** -/
theorem Coupled.bind {f : α → Prog C R γ} {g : β → Prog C R δ}
    {Q' : γ → δ → S → L → S → L → Prop} (h : Coupled M Pre x y Q)
    (hf : ∀ a b, Coupled M (Q a b) (f a) (g b) Q') :
    Coupled M Pre (x >>= f) (y >>= g) Q' := by
  intro turns s l s₀ l₀ c s'' l'' rest hp hx hO hok
  rw [advance_bind, Option.bind_eq_some_iff] at hx
  obtain ⟨⟨a, s', l', rest'⟩, hx, hfa⟩ := hx
  obtain ⟨hokx, hokf⟩ := along_bind.mp hok
  obtain ⟨used, used₀, b, s₀', l₀', rfl, hsame, hy, hp'⟩ :=
    h turns s l s₀ l₀ a s' l' rest' hp hx hO hokx
  have hO' : ∀ v ∈ Turn.others rest', M.others v := fun v hv =>
    hO v (by rw [Turn.others_append]; exact List.mem_append_right _ hv)
  obtain ⟨used', used₀', d, s₀'', l₀'', rfl, hsame', hg, hp''⟩ :=
    hf a b rest' s' l' s₀' l₀' c s'' l'' rest hp' hfa hO' (hokf a s' l' rest' hx)
  refine ⟨used ++ used', used₀ ++ used₀', d, s₀'', l₀'', (List.append_assoc ..).symm,
    List.rel_append hsame hsame', fun rest₀ => ?_, hp''⟩
  rw [advance_bind, List.append_assoc, hy, Option.bind_some]
  exact hg rest₀

/-- What a pair of commands does, whatever the others have done before. -/
theorem coupled_call {c c₀ : C} {Q : R c → R c₀ → S → L → S → L → Prop}
    (hother : ∀ v s l s₀ l₀, M.others v → Pre s l s₀ l₀ →
      Pre (M.arena.act v s) l (M.arena.act v s₀) l₀)
    (hown : ∀ e s l s₀ l₀, M.ok c s l → Pre s l s₀ l₀ → ∃ e₀, M.answers e e₀ ∧
      Q (M.arena.exec c e s l).1 (M.arena.exec c₀ e₀ s₀ l₀).1
        (M.arena.exec c e s l).2.1 (M.arena.exec c e s l).2.2
        (M.arena.exec c₀ e₀ s₀ l₀).2.1 (M.arena.exec c₀ e₀ s₀ l₀).2.2) :
    Coupled M Pre (call c ret) (call c₀ ret) Q := by
  intro turns
  induction turns with
  | nil =>
      intro s l s₀ l₀ a s' l' rest _ hx
      exact absurd hx (by simp [advance])
  | cons turn turns ih =>
      intro s l s₀ l₀ a s' l' rest hp hx hO hok
      cases turn with
      | other v =>
          have hv : M.others v ∧ ∀ v ∈ Turn.others turns, M.others v := by simpa using hO
          obtain ⟨used, used₀, b, s₀', l₀', rfl, hsame, hy, hp'⟩ :=
            ih _ l _ l₀ a s' l' rest (hother v s l s₀ l₀ hv.1 hp) hx hv.2 hok
          exact ⟨.other v :: used, .other v :: used₀, b, s₀', l₀', rfl, .cons (.other v) hsame,
            hy, hp'⟩
      | own e =>
          simp only [advance_own_call, advance_ret, Option.some.injEq, Prod.mk.injEq] at hx
          obtain ⟨rfl, rfl, rfl, rfl⟩ := hx
          obtain ⟨e₀, he, hp'⟩ := hown e s l s₀ l₀ hok.1 hp
          exact ⟨[.own e], [.own e₀], _, _, _, rfl, .cons (.own he) .nil,
            fun rest₀ => advance_ret _, hp'⟩

/-! ### One program -/

variable {G : Type} {K : Contract C R G} {g : G} {J : S → L → S → L → G → Prop}

/-- **A program whose commands respond alike in both runs is coupled with itself.** -/
theorem Meets.coupled {Q : α → G → Prop} (hx : x.Meets K Q g)
    (hother : ∀ v s l s₀ l₀ g, M.others v → J s l s₀ l₀ g →
      J (M.arena.act v s) l (M.arena.act v s₀) l₀ g)
    (hown : ∀ c e s l s₀ l₀ g, K.pre c g → M.ok c s l → J s l s₀ l₀ g → ∃ e₀ g',
      M.answers e e₀ ∧ K.post c g (M.arena.exec c e s l).1 g' ∧
      (M.arena.exec c e₀ s₀ l₀).1 = (M.arena.exec c e s l).1 ∧
      J (M.arena.exec c e s l).2.1 (M.arena.exec c e s l).2.2
        (M.arena.exec c e₀ s₀ l₀).2.1 (M.arena.exec c e₀ s₀ l₀).2.2 g') :
    Coupled M (fun s l s₀ l₀ => J s l s₀ l₀ g) x x fun a b s l s₀ l₀ =>
      a = b ∧ ∃ g', Q a g' ∧ J s l s₀ l₀ g' := by
  induction x generalizing g with
  | ret a => exact coupled_ret fun s l s₀ l₀ h => ⟨rfl, g, hx, h⟩
  | call c k ih =>
      have hcall : (call c k : Prog C R α) = call c ret >>= k := rfl
      rw [hcall]
      refine Coupled.bind (Q := fun r r₀ s l s₀ l₀ => r₀ = r ∧ ∃ g', K.post c g r g' ∧
        J s l s₀ l₀ g') (coupled_call (fun v s l s₀ l₀ hv h => hother v s l s₀ l₀ g hv h)
          fun e s l s₀ l₀ hok h => ?_) fun r r₀ => ?_
      · obtain ⟨e₀, g', he, hpost, hresp, hrel⟩ := hown c e s l s₀ l₀ g hx.1 hok h
        exact ⟨e₀, he, hresp, g', hpost, hrel⟩
      · rintro turns s l s₀ l₀ a s' l' rest ⟨rfl, g', hpost, hrel⟩
        exact ih r₀ (hx.2 r₀ g' hpost) turns s l s₀ l₀ a s' l' rest hrel

/-- **A program in one of the two runs only**: a relation is kept that its commands keep, and the
others in both runs. -/
theorem Meets.alongside {A : Arena C R E S L V} {ok : C → S → L → Prop} {O : V → Prop}
    {Q : α → G → Prop} {turns rest : List (Turn V E)} {s s' s₀ : S} {l l' l₀ : L} {a : α}
    (hx : x.Meets K Q g)
    (hother : ∀ v s l s₀ g, O v → J s l s₀ l₀ g → J (A.act v s) l (A.act v s₀) l₀ g)
    (hown : ∀ c e s l s₀ g, K.pre c g → ok c s l → J s l s₀ l₀ g → ∃ g',
      K.post c g (A.exec c e s l).1 g' ∧ J (A.exec c e s l).2.1 (A.exec c e s l).2.2 s₀ l₀ g')
    (h : Prog.advance A turns x s l = some (a, s', l', rest)) (hO : ∀ v ∈ Turn.others turns, O v)
    (hok : Along A ok turns x s l) (hrel : J s l s₀ l₀ g) :
    ∃ used g', turns = used ++ rest ∧ Q a g' ∧
      J s' l' (A.actAll (Turn.others used) s₀) l₀ g' := by
  induction turns generalizing x s l s₀ g with
  | nil =>
      cases x with
      | ret b =>
          simp only [advance_ret, Option.some.injEq, Prod.mk.injEq] at h
          obtain ⟨rfl, rfl, rfl, rfl⟩ := h
          exact ⟨[], g, rfl, hx, hrel⟩
      | call c k => exact absurd h (by simp [Prog.advance])
  | cons turn turns ih =>
      cases x with
      | ret b =>
          simp only [advance_ret, Option.some.injEq, Prod.mk.injEq] at h
          obtain ⟨rfl, rfl, rfl, rfl⟩ := h
          exact ⟨[], g, rfl, hx, hrel⟩
      | call c k =>
          cases turn with
          | other v =>
              have hv : O v ∧ ∀ v ∈ Turn.others turns, O v := by simpa using hO
              obtain ⟨used, g', rfl, hQ, hrel'⟩ :=
                ih hx h hv.2 hok (hother v s l s₀ g hv.1 hrel)
              exact ⟨.other v :: used, g', rfl, hQ, hrel'⟩
          | own e =>
              obtain ⟨g', hpost, hrel'⟩ := hown c e s l s₀ g hx.1 hok.1 hrel
              obtain ⟨used, g'', rfl, hQ, hrel''⟩ := ih (hx.2 _ g' hpost) h hO hok.2 hrel'
              exact ⟨.own e :: used, g'', rfl, hQ, hrel''⟩

end Prog

/-! ### Programs that raise -/

namespace Script

variable {ε α β γ δ : Type} {M : Comparison C R E S L V}

/-- Two coupled scripts, with one relation for two returns and one for two exceptions. -/
def Coupled (M : Comparison C R E S L V) (Pre : S → L → S → L → Prop) (x : Script C R ε α)
    (y : Script C R ε β) (Q : α → β → S → L → S → L → Prop)
    (Fail : ε → ε → S → L → S → L → Prop) : Prop :=
  Prog.Coupled M Pre x.run y.run fun r r₀ s l s₀ l₀ =>
    match r, r₀ with
    | .ok a, .ok b => Q a b s l s₀ l₀
    | .error e, .error e₀ => Fail e e₀ s l s₀ l₀
    | _, _ => False

variable {Pre : S → L → S → L → Prop} {x : Script C R ε α} {y : Script C R ε β}
  {Q : α → β → S → L → S → L → Prop} {Fail : ε → ε → S → L → S → L → Prop}

theorem coupled_throw {e e₀ : ε} (h : ∀ s l s₀ l₀, Pre s l s₀ l₀ → Fail e e₀ s l s₀ l₀) :
    Coupled M Pre (throw e : Script C R ε α) (throw e₀ : Script C R ε β) Q Fail :=
  Prog.coupled_ret h

/-- The rule for a pair of commands. -/
theorem coupled_op {c c₀ : C} {Q : R c → R c₀ → S → L → S → L → Prop}
    (hother : ∀ v s l s₀ l₀, M.others v → Pre s l s₀ l₀ →
      Pre (M.arena.act v s) l (M.arena.act v s₀) l₀)
    (hown : ∀ e s l s₀ l₀, M.ok c s l → Pre s l s₀ l₀ → ∃ e₀, M.answers e e₀ ∧
      Q (M.arena.exec c e s l).1 (M.arena.exec c₀ e₀ s₀ l₀).1
        (M.arena.exec c e s l).2.1 (M.arena.exec c e s l).2.2
        (M.arena.exec c₀ e₀ s₀ l₀).2.1 (M.arena.exec c₀ e₀ s₀ l₀).2.2) :
    Coupled M Pre (op c : Script C R ε (R c)) (op c₀) Q Fail :=
  Prog.Coupled.bind (Prog.coupled_call hother hown) fun _ _ => Prog.coupled_ret fun _ _ _ _ h => h

/-- The rule of sequencing: two exceptions of the first parts end the two wholes. -/
theorem Coupled.bind {f : α → Script C R ε γ} {g : β → Script C R ε δ}
    {Q' : γ → δ → S → L → S → L → Prop} (h : Coupled M Pre x y Q Fail)
    (hf : ∀ a b, Coupled M (Q a b) (f a) (g b) Q' Fail) :
    Coupled M Pre (x >>= f) (y >>= g) Q' Fail := by
  rw [Coupled, ExceptT.run_bind, ExceptT.run_bind]
  refine Prog.Coupled.bind h fun r r₀ => ?_
  rcases r with e | a <;> rcases r₀ with e₀ | b
  · exact Prog.coupled_ret fun _ _ _ _ h => h
  · exact fun _ _ _ _ _ _ _ _ _ h => h.elim
  · exact fun _ _ _ _ _ _ _ _ _ h => h.elim
  · exact hf a b

end Script

end Interaction
