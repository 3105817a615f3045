import MarketRelay.PolicyGate

/-!
# The Policy Register

Any number of reviewers record decisions, interleaved in any way. A call reads the greatest
version of its source and capability and inserts the next one; of two calls that have read the
same version at most one can insert, by the unique constraint, and the other raises.

So the versions of each source and capability are `1..n` in the order of the inserts, the
effective decision is the last one, and the two gates before publication, one of which raises
and one of which answers, agree on it.

## Main results

* `Register.insert`: an insert after the greatest version that was read keeps the register sound.
* `policy_register`: what holds of the register in every run, and of the gates at its end.
-/

open Relational Interaction

namespace MarketRelay

/-! ### Sound registers -/

/-- The versions of every source and capability are `1..n`, in the order of the inserts. -/
def Register (t : DecisionTable) : Prop :=
  ∀ source capability, (decisionsOf source capability t).map SourcePolicyDecision.version =
    List.range' 1 (decisionsOf source capability t).length

namespace Register

variable {t t' : DecisionTable} {source : String} {capability : PolicyCapability}
  {d : SourcePolicyDecision}

theorem empty : Register Table.empty := fun _ _ => rfl

/-- The effective decision is the last one. -/
theorem effectiveDecision_eq (h : Register t) (source : String) (capability : PolicyCapability) :
    effectiveDecision source capability t = (decisionsOf source capability t).getLast? :=
  latestBy_of_numbered (h source capability)

/-- The version of the effective decision is the number of decisions. -/
theorem maxVersion_eq (h : Register t) (source : String) (capability : PolicyCapability) :
    (((effectiveDecision source capability t).map SourcePolicyDecision.version).map (· + 1)).getD 1 =
      (decisionsOf source capability t).length + 1 := by
  rw [h.effectiveDecision_eq]
  have hversions := h source capability
  rcases (decisionsOf source capability t).eq_nil_or_concat with hnil | ⟨init, d, hconcat⟩
  · simp [hnil]
  · rw [hconcat, List.concat_eq_append] at hversions ⊢
    simp only [List.map_append, List.map_cons, List.map_nil, List.length_append,
      List.length_singleton, List.range'_1_concat] at hversions
    have hlast := List.head_eq_of_cons_eq (List.append_inj' hversions rfl).2
    simp [hlast, Nat.add_comm]

theorem decisionsOf_insert (hi : t.insert? d = some t') (source : String)
    (capability : PolicyCapability) :
    decisionsOf source capability t' = decisionsOf source capability t ++
      if d.source = source ∧ d.capability = capability then [d] else [] := by
  rw [decisionsOf, (Table.insert?_eq_some_iff.mp hi).2, List.filter_append, decisionsOf]
  by_cases hd : d.source = source ∧ d.capability = capability
  · simp [hd.1, hd.2]
  · rw [if_neg hd]
    congr 1
    simpa using fun h => fun h' => hd ⟨h, h'⟩

/-- An insert of a version that is at most the next one is of the next one: the versions up to
it are taken. -/
theorem version_of_insert (h : Register t) (hi : t.insert? d = some t') (hone : 1 ≤ d.version)
    (hle : d.version ≤ (decisionsOf d.source d.capability t).length + 1) :
    d.version = (decisionsOf d.source d.capability t).length + 1 := by
  by_contra hne
  have hmem : d.version ∈ (decisionsOf d.source d.capability t).map
      SourcePolicyDecision.version := by
    rw [h, List.mem_range'_1]
    omega
  obtain ⟨d', hd', hversion⟩ := List.mem_map.mp hmem
  obtain ⟨hrow, hsource, hcapability⟩ := mem_decisionsOf.mp hd'
  exact (Table.insert?_eq_some_iff.mp hi).1 d' hrow (Or.inr ⟨hsource, hcapability, hversion⟩)

/-- **An insert after the greatest version that was read keeps the register sound.** -/
theorem insert (h : Register t) (hi : t.insert? d = some t') (hone : 1 ≤ d.version)
    (hle : d.version ≤ (decisionsOf d.source d.capability t).length + 1) : Register t' := by
  have hversion := h.version_of_insert hi hone hle
  intro source capability
  rw [decisionsOf_insert hi]
  by_cases hd : d.source = source ∧ d.capability = capability
  · obtain ⟨rfl, rfl⟩ := hd
    simp only [and_self, if_true, List.map_append, h d.source d.capability, List.map_cons,
      List.map_nil, List.length_append, List.length_singleton, List.range'_1_concat, hversion,
      Nat.add_comm]
  · rw [if_neg hd, List.append_nil]
    exact h source capability

end Register

/-! ### Reviewers -/

/-- The arguments of `record_decision`. -/
structure Review where
  source : String
  capability : PolicyCapability
  status : PolicyStatus
  evidenceReference : String
  reviewedBy : String
  reviewedAt : Instant
  notes : Option String

def Review.record (r : Review) : App SourcePolicyDecision :=
  PolicyGate.recordDecision r.source r.capability r.status r.evidenceReference r.reviewedBy
    r.reviewedAt r.notes

/-- A reviewer records decisions, one after another, and goes on after a call that raises. -/
def reviewer : List Review → App (List (Except PyError SourcePolicyDecision))
  | [] => return []
  | review :: rest => do
    let outcome ← Script.attempt review.record
    let outcomes ← reviewer rest
    return outcome :: outcomes

/-- The ghost state is the version that the last read leaves to be inserted. -/
def reviewContract :
    Contract Cmd Cmd.Resp (Option (String × PolicyCapability × ℕ)) where
  pre
    | .selectMaxVersion .., _ => True
    | .insertDecision d, g => g = some (d.source, d.capability, d.version)
    | _, _ => False
  post
    | .selectMaxVersion source capability, _, r, g' =>
      g' = some (source, capability, (r.map (· + 1)).getD 1)
    | _, g, _, g' => g' = g

theorem Review.record_meets (review : Review) (g : Option (String × PolicyCapability × ℕ)) :
    review.record.Meets reviewContract (fun _ _ => True) (fun _ _ => True) g := by
  rw [record, PolicyGate.recordDecision, Script.meets_bind, meets_issue]
  refine ⟨trivial, fun r g₁ hr => ?_⟩
  obtain rfl := hr
  rw [Script.meets_bind, meets_issue]
  refine ⟨rfl, fun inserted g₂ _ => ?_⟩
  cases inserted with
  | none => exact trivial
  | some d => exact trivial

theorem reviewer_meets (reviews : List Review) (g : Option (String × PolicyCapability × ℕ)) :
    (reviewer reviews).Meets reviewContract (fun _ _ => True) (fun _ _ => True) g := by
  induction reviews generalizing g with
  | nil => exact trivial
  | cons review rest ih =>
      rw [reviewer, Script.meets_bind, Script.meets_attempt]
      have hnext : ∀ outcome g', ((do
          let outcomes ← reviewer rest
          return outcome :: outcomes : App (List (Except PyError SourcePolicyDecision)))).Meets
          reviewContract (fun _ _ => True) (fun _ _ => True) g' := fun outcome g' =>
        Script.meets_bind.mpr ((ih g').mono (fun _ _ _ => trivial) fun _ _ _ => trivial)
      exact (review.record_meets g).mono (fun d g' _ => hnext (.ok d) g')
        fun e g' _ => hnext (.error e) g'

/-! ### Runs -/

section Runs

variable {ι : Type}

abbrev ReviewConfig (ι : Type) :=
  Config Cmd Cmd.Resp Db Session (Except PyError (List (Except PyError SourcePolicyDecision))) ι

/-- The reviewers before their first step, on an empty register. -/
def ReviewConfig.start (reviews : ι → List Review) (jobs : JobTable)
    (observations : ObservationTable) : ReviewConfig ι :=
  ⟨⟨jobs, observations, Table.empty⟩, fun i => ⟨Session.new, (reviewer (reviews i)).run⟩⟩

/-- What a reviewer knows: the version to be inserted is at most the next one. -/
def Register.Knows (db : Db) (g : Option (String × PolicyCapability × ℕ)) : Prop :=
  ∀ source capability version, g = some (source, capability, version) →
    1 ≤ version ∧ version ≤ (decisionsOf source capability db.decisions).length + 1

theorem Register.Knows.mono {db db' : Db} {g : Option (String × PolicyCapability × ℕ)}
    (h : Register.Knows db g) (hle : db.decisions.rows <+: db'.decisions.rows) :
    Register.Knows db' g := by
  intro source capability version hg
  obtain ⟨hone, hnext⟩ := h source capability version hg
  exact ⟨hone, hnext.trans (Nat.add_le_add_right (hle.filter _).length_le 1)⟩

/-- The register is append-only. -/
theorem decisions_prefix_exec (c : Cmd) (e : Answers) (db : Db) (l : Session) :
    db.decisions.rows <+: (exec c e db l).2.1.decisions.rows := by
  rcases decisions_exec c e db l with h | ⟨d, -, h⟩
  · simp only [h, List.prefix_rfl]
  · exact ⟨_, (Table.insert?_eq_some_iff.mp h).2.symm⟩

theorem Register.obligation {ok : ReviewConfig ι → ι → Answers → Prop} :
    Config.Obligation (Except PyError (List (Except PyError SourcePolicyDecision))) semantics
      (fun _ : ι => reviewContract) (fun db => Register db.decisions)
      (fun _ db _ g => Register.Knows db g) ok := by
  intro cfg i e c k g hp _ hreg hknows hpre
  have hmono := decisions_prefix_exec c e cfg.shared (cfg.thread i).loc
  refine ⟨?_, ?_, fun j g' _ h => h.mono hmono⟩
  · rcases decisions_exec c e cfg.shared (cfg.thread i).loc with h | ⟨d, rfl, h⟩
    · rw [semantics_exec, h]
      exact hreg
    · obtain ⟨hone, hle⟩ := hknows _ _ _ hpre
      exact hreg.insert h hone hle
  · cases c with
    | selectMaxVersion source capability =>
        refine ⟨_, rfl, ?_⟩
        rintro _ _ _ ⟨⟩
        have hnext := hreg.maxVersion_eq source capability
        exact ⟨by rw [semantics_exec]; simp only [exec]; omega, by
          rw [semantics_exec]; simp only [exec]; omega⟩
    | insertDecision d => exact ⟨g, rfl, hknows.mono hmono⟩
    | _ => exact absurd hpre id

variable [DecidableEq ι] {reviews : ι → List Review} {jobs : JobTable}
  {observations : ObservationTable} {cfg cfg' : ReviewConfig ι}

/-- The register is sound throughout a run. -/
theorem Register.reaches
    (hr : Config.Reaches semantics (fun _ _ _ => True)
      (ReviewConfig.start reviews jobs observations) cfg) : Register cfg.shared.decisions := by
  have hstart : (ReviewConfig.start reviews jobs observations).Sound (fun _ => reviewContract)
      (fun _ _ _ => True) (fun db => Register db.decisions)
      fun _ db _ g => Register.Knows db g := by
    refine ⟨Register.empty, fun i => ⟨none, fun _ _ _ h => absurd h (by simp), ?_⟩⟩
    exact Script.meets_run.mpr (reviewer_meets (reviews i) none)
  exact (hr.sound Register.obligation hstart).inv

/-- No decision is changed or removed by any run. -/
theorem decisions_prefix_reaches
    (hr : Config.Reaches semantics (fun _ _ _ => True) cfg cfg') :
    cfg.shared.decisions.rows <+: cfg'.shared.decisions.rows := by
  refine hr.invariant (P := fun cfg' => cfg.shared.decisions.rows <+: cfg'.shared.decisions.rows)
    (fun cfg₁ i e c k hp _ hle => ?_) List.prefix_rfl
  rw [Config.step_call hp]
  exact hle.trans (decisions_prefix_exec c e cfg₁.shared (cfg₁.thread i).loc)

/-- A step changes the decisions of no pair but that of the decision that it inserts. -/
theorem decisionsOf_step {i : ι} {e : Answers} {source : String} {capability : PolicyCapability}
    (h : ∀ d, (cfg.thread i).prog.next? = some (.insertDecision d) →
      ¬ (d.source = source ∧ d.capability = capability)) :
    decisionsOf source capability (cfg.step semantics i e).shared.decisions =
      decisionsOf source capability cfg.shared.decisions := by
  cases hp : (cfg.thread i).prog with
  | ret a => rw [Config.step_ret hp]
  | call c k =>
      rw [Config.step_call hp]
      rcases decisions_exec c e cfg.shared (cfg.thread i).loc with hsame | ⟨d, rfl, hins⟩
      · rw [semantics_exec, hsame]
      · have hother : ¬ (d.source = source ∧ d.capability = capability) := h d (by rw [hp]; rfl)
        refine (Register.decisionsOf_insert hins source capability).trans ?_
        simp only [DecisionCandidate.row, hother, if_false, List.append_nil]

/-- **The policy register**, in every run of any number of reviewers: the versions of every
source and capability are `1..n` in commit order, no stored decision changes, the effective
status is that of the last decision, a decision affects no other pair, and the two gates before
publication both say whether the last three decisions are approvals. -/
theorem policy_register
    (hr : Config.Reaches semantics (fun _ _ _ => True)
      (ReviewConfig.start reviews jobs observations) cfg) :
    let last source capability := (decisionsOf source capability cfg.shared.decisions).getLast?
    (∀ source capability,
      (decisionsOf source capability cfg.shared.decisions).map SourcePolicyDecision.version =
        List.range' 1 (decisionsOf source capability cfg.shared.decisions).length) ∧
    (∀ cfg', Config.Reaches semantics (fun _ _ _ => True) cfg cfg' →
      cfg.shared.decisions.rows <+: cfg'.shared.decisions.rows) ∧
    (∀ source capability l r db' l', (PolicyGate.effectiveStatus source capability).Executes
        semantics cfg.shared l r db' l' →
      r = .ok (((last source capability).map SourcePolicyDecision.status).getD .unresolved)) ∧
    (∀ i e source capability, (∀ d, (cfg.thread i).prog.next? = some (.insertDecision d) →
        ¬ (d.source = source ∧ d.capability = capability)) →
      decisionsOf source capability (cfg.step semantics i e).shared.decisions =
        decisionsOf source capability cfg.shared.decisions) ∧
    ∀ source,
      let approved := ∀ capability ∈ [.store, .display, .redistribute],
        ∃ d, last source capability = some d ∧ d.status = .approved
      (∀ l r db' l', (PolicyGate.isPublicationAuthorized source).Executes semantics cfg.shared l r
        db' l' → (r = .ok true ↔ approved)) ∧
      ∀ l r db' l', (PolicyGate.authorizePublication source).Executes semantics cfg.shared l r
        db' l' → ((∃ u, r = .ok u) ↔ approved) := by
  intro last
  have hreg := Register.reaches hr
  have happroved : ∀ source, PolicyGate.publicationAuthorized cfg.shared.decisions source = true ↔
      ∀ capability ∈ [.store, .display, .redistribute],
        ∃ d, last source capability = some d ∧ d.status = .approved := by
    intro source
    simp only [PolicyGate.publicationAuthorized, List.all_eq_true, decide_eq_true_eq,
      PolicyGate.statusIn, statusOf_eq_approved_iff, hreg.effectiveDecision_eq,
      PolicyGate.publicationCapabilities, last]
  refine ⟨hreg, fun cfg' => decisions_prefix_reaches, ?_, fun i e source capability =>
    decisionsOf_step, fun source => ⟨fun l r db' l' h => ?_, fun l r db' l' h => ?_⟩⟩
  · intro source capability l r db' l' h
    rw [(PolicyGate.effectiveStatus_executes.mp h).1, PolicyGate.statusIn,
      hreg.effectiveDecision_eq]
    rfl
  · rw [(PolicyGate.isPublicationAuthorized_executes h).1, ← happroved, Except.ok.injEq]
  · rw [(PolicyGate.authorizePublication_executes h).2, happroved]

end Runs

/-- Two reviewers of one capability, at the same time: the first version is taken once, its decision
is effective, and with that capability alone nothing is authorized for publication. -/
theorem policy_register_race :
    let review : Review := ⟨"fake", .store, .approved, "contract", "reviewer", 0, none⟩
    let cfg := (ReviewConfig.start (fun _ : Bool => [review]) Table.empty Table.empty).run
      semantics [(false, default), (true, default), (true, default), (false, default)]
    (decisionsOf "fake" .store cfg.shared.decisions).map SourcePolicyDecision.version = [1] ∧
      (∀ l r db' l', (PolicyGate.effectiveStatus "fake" .store).Executes semantics cfg.shared l r
        db' l' → r = .ok .approved) ∧
      ∀ l r db' l', (PolicyGate.isPublicationAuthorized "fake").Executes semantics cfg.shared l r
        db' l' → r ≠ .ok true := by
  intro review cfg
  obtain ⟨hversions, -, hstatus, -, hgates⟩ := policy_register
    (Config.reaches_run (ReviewConfig.start (fun _ : Bool => [review])
      Table.empty Table.empty)
      [(false, default), (true, default), (true, default), (false, default)])
  have hlength : (decisionsOf "fake" .store cfg.shared.decisions).length = 1 := by decide +kernel
  have hlast : ((decisionsOf "fake" .store cfg.shared.decisions).getLast?.map
      SourcePolicyDecision.status).getD .unresolved = .approved := by decide +kernel
  have hdisplay : (decisionsOf "fake" .display cfg.shared.decisions).getLast? = none := by
    decide +kernel
  refine ⟨?_, fun l r db' l' h => ?_, fun l r db' l' h hr => ?_⟩
  · exact (hversions "fake" .store).trans (congrArg (List.range' 1) hlength)
  · exact (hstatus "fake" .store l r db' l' h).trans (congrArg Except.ok hlast)
  · obtain ⟨d, hd, -⟩ := ((hgates "fake").1 l r db' l' h).mp hr .display (by simp)
    exact absurd (hdisplay.symm.trans hd) (by simp)

end MarketRelay
