import MarketRelay.Runner

/-!
# Gates and Concurrent Reviews

A gate reads one capability per statement, and a review can be committed between any two
of them. Each read is true when it is made; what can go wrong is that a capability that was
read as `APPROVED` is revoked while the gate is still reading the others, or before
`authorize_ingestion` fetches the decisions that it has just checked.

Any other programs run beside the gates. A gate knows that what it has read as approved is
approved still (`GateWorker.Knows`), for as long as it goes on reading; the only steps that
can make this false revoke such a capability (`NoRevocation`).

## Main results

* `Approved.insert`: only a revocation takes an approval away.
* `IngestionRunner.process_meets`: a job stores only under the decisions that its gate has
  fetched.
* `gates_sound`: in every run without such revocations, authorizations carry approved
  decisions, stored observations reference them, and what a gate grants was granted at one
  instant.
* `gates_unsound`: a run in which an authorization carries a denied decision.
-/

open Relational Interaction Gregorian

namespace MarketRelay

/-! ### Effective decisions -/

/-- The effective decision is a row of its source and capability. -/
theorem effectiveDecision_mem {source : String} {capability : PolicyCapability}
    {t : DecisionTable} {d : SourcePolicyDecision}
    (h : effectiveDecision source capability t = some d) :
    d ∈ t.rows ∧ d.source = source ∧ d.capability = capability :=
  mem_decisionsOf.mp (latestBy_eq_some h).1

/-- The capability of the source is approved. -/
def Approved (source : String) (t : DecisionTable) (capability : PolicyCapability) : Prop :=
  statusOf (effectiveDecision source capability t) = .approved

/-- Only a new decision for the capability itself, other than an approval, takes an approval
away. -/
theorem Approved.insert {source : String} {capability : PolicyCapability}
    {t t' : DecisionTable} {d : SourcePolicyDecision} (h : Approved source t capability)
    (hi : t.insert? d = some t')
    (hd : d.source = source → d.capability = capability → d.status = .approved) :
    Approved source t' capability := by
  have hrows := (Table.insert?_eq_some_iff.mp hi).2
  rw [Approved, effectiveDecision, decisionsOf, hrows, List.filter_append]
  by_cases hk : d.source = source ∧ d.capability = capability
  · have hsingle : ([d].filter fun d => decide (d.source = source) &&
        decide (d.capability = capability)) = [d] := by simp [hk]
    rw [hsingle, latestBy_concat]
    rw [Approved, effectiveDecision, decisionsOf] at h
    split
    · rename_i b hb
      rw [hb] at h
      split
      · simpa [statusOf] using hd hk.1 hk.2
      · exact h
    · simpa [statusOf] using hd hk.1 hk.2
  · have hnil : ([d].filter fun d => decide (d.source = source) &&
        decide (d.capability = capability)) = [] := by simpa using hk
    rw [hnil, List.append_nil]
    exact h

/-! ### Gate calls -/

/-- A gate call, or a call of `process` on a loaded job, which contains one. -/
inductive GateCall where
  | require (source : String) (capabilities : List PolicyCapability)
  | isPublicationAuthorized (source : String)
  | authorizeIngestion (source : String)
  | process (id : ℕ) (workerId : String) (now : Instant)

/-- The result of a gate call. -/
inductive GateResult where
  | statuses (statuses : Statuses)
  | publication (authorized : Bool)
  | authorization (authorization : IngestionAuthorization)
  | outcome (outcome : JobOutcome)
deriving DecidableEq, Repr

def GateCall.program : GateCall → App GateResult
  | require source capabilities => do
    return .statuses (← PolicyGate.require source capabilities)
  | isPublicationAuthorized source => do
    return .publication (← PolicyGate.isPublicationAuthorized source)
  | authorizeIngestion source => do
    return .authorization (← PolicyGate.authorizeIngestion source)
  | process id workerId now => do
    let _ ← issue (.load id)
    return .outcome (← IngestionRunner.process id workerId now)

/-- What a thread runs: a gate call, or any other program. -/
inductive GateWorker where
  | gate (call : GateCall)
  | other (program : App GateResult)

def GateWorker.program : GateWorker → App GateResult
  | gate call => call.program
  | other program => program

variable {ι : Type}

abbrev GateConfig (ι : Type) := Config Cmd Cmd.Resp Db Session (Except PyError GateResult) ι

def GateConfig.start (workers : ι → GateWorker) (db : Db) : GateConfig ι :=
  ⟨db, fun i => ⟨Session.new, (workers i).program.run⟩⟩

/-- The next step of thread `i` revokes no capability that a gate call has read as
`APPROVED` and that is about to read another decision. -/
def NoRevocation (workers : ι → GateWorker) (cfg : GateConfig ι) (i : ι) (_ : Answers) :
    Prop :=
  ∀ d, (cfg.thread i).prog.next? = some (.insertDecision d) → d.status ≠ .approved →
    ∀ w call source capability, workers w = .gate call →
      (cfg.thread w).prog.next? = some (.selectDecision source capability) →
      (d.source, d.capability) ∉ (cfg.thread w).loc.approved

/-! ### What a gate knows -/

/-- What a gate call knows. -/
structure GateGhost where
  /-- The source that it is about, once that is known. -/
  source : Option String
  /-- The capabilities that it has read as approved, most recently. -/
  approved : List PolicyCapability
  /-- The decisions that it has read. -/
  seen : List SourcePolicyDecision

/-- The knowledge after a read. -/
def GateGhost.note (g : GateGhost) (capability : PolicyCapability)
    (decision : Option SourcePolicyDecision) : GateGhost where
  source := g.source
  approved :=
    if statusOf decision = .approved then capability :: g.approved
    else g.approved.filter fun c => decide (c ≠ capability)
  seen := decision.toList ++ g.seen

/-- What is known after any other command: no approval can be relied on any longer. -/
structure GateGhost.Passes (g g' : GateGhost) : Prop where
  approved : g'.approved = []
  seen : g'.seen = g.seen
  source : ∀ s, g.source = some s → g'.source = some s

theorem GateGhost.passes (g : GateGhost) : g.Passes { g with approved := [] } :=
  ⟨rfl, rfl, fun _ h => h⟩

/-- The identifiers name approved decisions of the source, among those given. -/
def Authorized (decisions : List SourcePolicyDecision) (source : String)
    (retrieval storage : Option ℕ) : Prop :=
  (∃ d ∈ decisions, retrieval = some d.id ∧ d.source = source ∧ d.capability = .retrieve ∧
      d.status = .approved) ∧
    ∃ d ∈ decisions, storage = some d.id ∧ d.source = source ∧ d.capability = .store ∧
      d.status = .approved

theorem Authorized.mono {ds ds' : List SourcePolicyDecision} {source : String}
    {retrieval storage : Option ℕ} (h : Authorized ds source retrieval storage)
    (hle : ∀ d ∈ ds, d ∈ ds') : Authorized ds' source retrieval storage := by
  obtain ⟨⟨r, hr, hr'⟩, s, hs, hs'⟩ := h
  exact ⟨⟨r, hle r hr, hr'⟩, s, hle s hs, hs'⟩

/-- The contract of a gate call; `jobId` is the job of a call of `process`, the only one to
do more than read decisions. -/
def gateContract (jobId : Option ℕ) : Contract Cmd Cmd.Resp GateGhost where
  pre
    | .selectDecision source _, g => g.source = some source
    | .insertObservation c, g => jobId.isSome ∧
        Authorized g.seen c.key.source c.retrievalPolicyDecisionId c.storagePolicyDecisionId
    | _, _ => jobId.isSome
  post
    | .selectDecision source capability, g, r, g' =>
      (capability ∈ g.approved → statusOf r = .approved) ∧
        (∀ d ∈ r, d.source = source ∧ d.capability = capability) ∧ g' = g.note capability r
    | .attributes id, g, r, g' =>
      (∀ j ∈ r, j.id = id ∧ (jobId = some id → g'.source = some j.source)) ∧ g.Passes g'
    | .load id, g, r, g' => (∀ j ∈ r, j.id = id) ∧ g.Passes g'
    | _, g, _, g' => g.Passes g'

/-! ### Gates meet their contract -/

section Gates

variable {source : String} {jobId : Option ℕ} {X : PyError → GateGhost → Prop}

/-- After a read, the capabilities other than the one read are as before. -/
theorem GateGhost.mem_note {g : GateGhost} {capability c : PolicyCapability}
    {decision : Option SourcePolicyDecision} (hne : c ≠ capability) (h : c ∈ g.approved) :
    c ∈ (g.note capability decision).approved := by
  rw [GateGhost.note]
  split
  · exact List.mem_cons_of_mem _ h
  · exact List.mem_filter.mpr ⟨h, by simpa using hne⟩

theorem GateGhost.mem_note_self {g : GateGhost} {capability : PolicyCapability}
    {decision : Option SourcePolicyDecision} (h : statusOf decision = .approved) :
    capability ∈ (g.note capability decision).approved := by
  rw [GateGhost.note, if_pos h]
  exact List.mem_cons_self

/-- What is known as approved after a read was known before, or it is what has been read. -/
theorem GateGhost.of_mem_note {g : GateGhost} {capability c : PolicyCapability}
    {decision : Option SourcePolicyDecision} (h : c ∈ (g.note capability decision).approved) :
    c ∈ g.approved ∨ c = capability ∧ statusOf decision = .approved := by
  rw [GateGhost.note] at h
  dsimp only at h
  split at h
  · rename_i happr
    rcases List.mem_cons.mp h with rfl | h
    · exact Or.inr ⟨rfl, happr⟩
    · exact Or.inl h
  · exact Or.inl (List.mem_filter.mp h).1

/-- What the reads of `require` establish: the approvals of the dictionary are known, and
it has all the capabilities. -/
private theorem readStatuses_meets (capabilities : List PolicyCapability) (statuses : Statuses)
    (g : GateGhost) (hsource : g.source = some source)
    (hknown : ∀ e ∈ statuses, e.2 = .approved → e.1 ∈ g.approved) :
    (PolicyGate.readStatuses source capabilities statuses).Meets (gateContract jobId)
      (fun statuses' g' => g'.source = some source ∧
        (∀ e ∈ statuses', e.2 = .approved → e.1 ∈ g'.approved) ∧
        (∀ c, (c ∈ capabilities ∨ ∃ e ∈ statuses, e.1 = c) → ∃ e ∈ statuses', e.1 = c)) X g := by
  induction capabilities generalizing statuses g with
  | nil =>
      refine Script.meets_pure.mpr ⟨hsource, hknown, fun c hc => ?_⟩
      simpa using hc
  | cons capability rest ih =>
      rw [PolicyGate.readStatuses, PolicyGate.effectiveStatus, Script.meets_bind,
        Script.meets_bind, meets_issue]
      refine ⟨hsource, ?_⟩
      rintro r g' ⟨-, -, rfl⟩
      rw [Script.meets_pure]
      refine (ih _ (g.note capability r) hsource fun e he happr => ?_).mono ?_ fun _ _ h => h
      · rcases Statuses.mem_assign he with rfl | ⟨he, hne⟩
        · exact GateGhost.mem_note_self happr
        · exact GateGhost.mem_note hne (hknown e he happr)
      · rintro statuses' g'' ⟨hs, hk, hall⟩
        refine ⟨hs, hk, fun c hc => hall c ?_⟩
        rcases hc with hc | hc
        · rcases List.mem_cons.mp hc with rfl | hc
          · exact Or.inr (Statuses.exists_assign (Or.inl rfl))
          · exact Or.inl hc
        · exact Or.inr (Statuses.exists_assign (Or.inr hc))

/-- When `require` returns, everything that it checks is known to be approved. -/
theorem require_meets (capabilities : List PolicyCapability) (g : GateGhost)
    (hsource : g.source = some source) :
    (PolicyGate.require source capabilities).Meets (gateContract jobId)
      (fun _ g' => g'.source = some source ∧ ∀ c ∈ capabilities, c ∈ g'.approved)
      (fun _ g' => g'.source = some source) g := by
  rw [PolicyGate.require, Script.meets_bind]
  refine (readStatuses_meets capabilities [] g hsource (by simp)).mono ?_ fun _ _ h => h
  rintro statuses g' ⟨hs, hknown, hall⟩
  dsimp only
  split
  · rename_i hempty
    refine Script.meets_pure.mpr ⟨hs, fun c hc => ?_⟩
    obtain ⟨e, he, rfl⟩ := hall c (Or.inl hc)
    refine hknown e he ?_
    by_contra hne
    have hmem : e ∈ statuses.filter fun e => decide (e.2 ≠ .approved) :=
      List.mem_filter.mpr ⟨he, by simpa using hne⟩
    rw [List.isEmpty_iff.mp hempty] at hmem
    exact absurd hmem List.not_mem_nil
  · exact Script.meets_throw.mpr hs

/-- What `all(...)` establishes when it is true. -/
private theorem allApproved_meets (capabilities : List PolicyCapability) (g : GateGhost)
    (hsource : g.source = some source) :
    (PolicyGate.allApproved source capabilities).Meets (gateContract jobId)
      (fun b g' => b = true → g'.source = some source ∧ (∀ c ∈ g.approved, c ∈ g'.approved) ∧
        ∀ c ∈ capabilities, c ∈ g'.approved) X g := by
  induction capabilities generalizing g with
  | nil => exact Script.meets_pure.mpr fun _ => ⟨hsource, fun _ h => h, by simp⟩
  | cons capability rest ih =>
      rw [PolicyGate.allApproved, PolicyGate.effectiveStatus, Script.meets_bind,
        Script.meets_bind, meets_issue]
      refine ⟨hsource, ?_⟩
      rintro r g' ⟨-, -, rfl⟩
      rw [Script.meets_pure]
      split
      · rename_i happr
        refine (ih (g.note capability r) hsource).mono ?_ fun _ _ h => h
        intro b g'' hb htrue
        obtain ⟨hs, hkeep, hrest⟩ := hb htrue
        have hself : capability ∈ g''.approved := hkeep _ (GateGhost.mem_note_self happr)
        refine ⟨hs, fun c hc => ?_, fun c hc => ?_⟩
        · by_cases hne : c = capability
          · exact hne ▸ hself
          · exact hkeep c (GateGhost.mem_note hne hc)
        · rcases List.mem_cons.mp hc with rfl | hc
          · exact hself
          · exact hrest c hc
      · exact Script.meets_pure.mpr fun h => absurd h (by simp)

/-- The decisions of an authorization, as they have been read. -/
def IngestionAuthorization.ReadAs (a : IngestionAuthorization) (source : String)
    (g : GateGhost) : Prop :=
  (a.retrievalDecision ∈ g.seen ∧ a.retrievalDecision.source = source ∧
      a.retrievalDecision.capability = .retrieve ∧ a.retrievalDecision.status = .approved) ∧
    a.storageDecision ∈ g.seen ∧ a.storageDecision.source = source ∧
      a.storageDecision.capability = .store ∧ a.storageDecision.status = .approved

/-- The decisions that `authorize_ingestion` fetches after its check are still approved. -/
theorem authorizeIngestion_meets (g : GateGhost) (hsource : g.source = some source) :
    (PolicyGate.authorizeIngestion source).Meets (gateContract jobId)
      (fun a g' => g'.source = some source ∧ a.ReadAs source g')
      (fun _ g' => g'.source = some source) g := by
  rw [PolicyGate.authorizeIngestion, Script.meets_bind]
  refine (require_meets [.retrieve, .store] g hsource).mono ?_ fun _ _ h => h
  rintro _ g₁ ⟨hs₁, happr⟩
  have hretrieve : PolicyCapability.retrieve ∈ g₁.approved := happr _ (by simp)
  have hstore : PolicyCapability.store ∈ g₁.approved := happr _ (by simp)
  rw [Script.meets_bind, meets_issue]
  refine ⟨hs₁, ?_⟩
  rintro retrieval g₂ ⟨hstatus, hmatch, rfl⟩
  rw [Script.meets_bind, meets_issue]
  refine ⟨hs₁, ?_⟩
  rintro storage g₃ ⟨hstatus', hmatch', rfl⟩
  have hr := hstatus hretrieve
  have hs := hstatus' (GateGhost.mem_note (by decide) hstore)
  obtain ⟨r, rfl, hr⟩ := statusOf_eq_approved_iff.mp hr
  obtain ⟨s, rfl, hs⟩ := statusOf_eq_approved_iff.mp hs
  refine Script.meets_pure.mpr ⟨hs₁, ⟨?_, (hmatch r rfl).1, (hmatch r rfl).2, hr⟩, ?_,
    (hmatch' s rfl).1, (hmatch' s rfl).2, hs⟩
  · simp [GateGhost.note]
  · simp [GateGhost.note]

end Gates

/-! ### Processing a job -/

section Processing

variable {id : ℕ} {source : String}

/-- What is known after the authorization. -/
def GateGhost.Carries (authorization : IngestionAuthorization) (source : String)
    (g : GateGhost) : Prop :=
  g.source = some source ∧ authorization.ReadAs source g

theorem GateGhost.Carries.passes {authorization : IngestionAuthorization} {g g' : GateGhost}
    (h : g.Carries authorization source) (hg : g.Passes g') :
    g'.Carries authorization source := by
  refine ⟨hg.source source h.1, ?_⟩
  rw [IngestionAuthorization.ReadAs, hg.seen]
  exact h.2

/-- Besides the reads of decisions and the inserts of observations, a command takes away no
more than the knowledge of what is approved. -/
private theorem issue_keeps {I : GateGhost → Prop} (hI : ∀ g g', I g → g.Passes g' → I g')
    {c : Cmd} (hc : JobQueue.IsJobCmd c ∨ c.IsPort ∨ ∃ op, c = .update op) :
    Script.Keeps (gateContract (some id)) I (issue c) := by
  refine Script.keeps_op fun g hg => ?_
  cases c with
  | selectDecision | insertObservation | selectMaxVersion | insertDecision | selectRevision =>
      rcases hc with hc | hc | ⟨op, hc⟩
      · exact hc.elim
      · exact hc.elim
      · exact absurd hc (by simp)
  | attributes | load => exact ⟨rfl, fun r g' hg' => hI g g' hg hg'.2⟩
  | _ => exact ⟨rfl, fun r g' hg' => hI g g' hg hg'⟩

private theorem attributes_id {jobId : Option ℕ} (id : ℕ) (g : GateGhost) (r : Option Job)
    (g' : GateGhost) (h : (gateContract jobId).post (.attributes id) g r g') :
    ∀ j ∈ r, j.id = id := fun j hj => (h.1 j hj).1

/-- What is kept through the parts of a call that reads no decisions. -/
private theorem fenced {I : GateGhost → Prop} (hI : ∀ g g', I g → g.Passes g' → I g')
    (workerId : String) :
    IngestionRunner.Fenced (gateContract (some id)) I (fun _ => I) id workerId where
  job _ hc := issue_keeps hI (Or.inl hc)
  port _ hc := issue_keeps hI (Or.inr (Or.inl hc))
  generation := JobQueue.generation_keeps (fun _ hc => issue_keeps hI (Or.inl hc)) id
  forget _ _ h := h
  fencedJob _ _ hc := issue_keeps hI (Or.inl hc)
  fencedPort _ _ hc := issue_keeps hI (Or.inr (Or.inl hc))
  owned _ _ := issue_keeps hI (Or.inr (Or.inr ⟨_, rfl⟩))
  attributes := attributes_id

/-- The source of the job is read as what it is. -/
private theorem attributes_meets {I : GateGhost → Prop}
    (hI : ∀ g g', I g → g.Passes g' → I g') {X : PyError → GateGhost → Prop}
    (hX : ∀ e g, I g → X e g) {g : GateGhost} (hg : I g) :
    (attributes id).Meets (gateContract (some id))
      (fun j g' => g'.source = some j.source ∧ I g') X g := by
  rw [attributes, Script.meets_bind, meets_issue]
  refine ⟨rfl, ?_⟩
  rintro r g' ⟨hr, hg'⟩
  cases r with
  | none => exact Script.meets_throw.mpr (hX _ _ (hI g g' hg hg'))
  | some j => exact Script.meets_pure.mpr ⟨(hr j rfl).2 rfl, hI g g' hg hg'⟩

/-- A row is recorded under the decisions of the authorization. -/
theorem IngestionRunner.recordRow_carries {cursor : FetchCursor Json}
    {authorization : IngestionAuthorization} {now : Instant} (raw : RawObservation) :
    (recordRow id cursor authorization now raw).Keeps (gateContract (some id))
      (GateGhost.Carries authorization source) := by
  intro g hg
  rw [recordRow, Script.meets_bind]
  refine (attributes_meets (fun _ _ h => h.passes) (fun _ _ h => h) hg).mono ?_ fun _ _ h => h
  rintro j g₁ ⟨hj, hg₁⟩
  obtain rfl : j.source = source := Option.some.inj (hj.symm.trans hg₁.1)
  split
  · exact Script.meets_throw.mpr hg₁
  · split
    · exact Script.meets_throw.mpr hg₁
    · have hselect : ∀ key, Script.Keeps (gateContract (some id))
          (GateGhost.Carries authorization j.source) (issue (.selectRevision key)) :=
        fun key => Script.keeps_op fun g hg => ⟨rfl, fun r g' hg' => hg.passes hg'⟩
      refine ((ObservationStore.record_keeps (hselect _) fun revision => ?_).bind
        fun outcome => Script.keeps_pure outcome.created) g₁ hg₁
      refine Script.keeps_op fun g hg => ⟨⟨rfl, ?_⟩, fun r g' hg' => hg.passes hg'⟩
      obtain ⟨-, ⟨hr, hr'⟩, hs, hs'⟩ := hg
      exact ⟨⟨_, hr, rfl, hr'⟩, _, hs, rfl, hs'⟩

/-- **Everything that is stored references the decisions that the gate has fetched**, and
these are approved. -/
theorem IngestionRunner.process_meets (workerId : String) (now : Instant) :
    (process id workerId now).Keeps (gateContract (some id)) (fun _ => True) := by
  have hfenced : Fenced (gateContract (some id)) (fun _ => True) (fun _ _ => True) id workerId :=
    fenced (fun _ _ _ _ => trivial) workerId
  intro g _
  rw [process, Script.meets_bind]
  refine (claim_returns hfenced.job attributes_id (fun _ _ _ _ h => h.1) id workerId now
    trivial).mono ?_ fun _ _ h => h
  rintro _ g₁ ⟨rfl, -⟩
  rw [authorize, Script.meets_bind]
  refine (attributes_meets (fun _ _ h _ => h) (fun _ _ h => h) trivial).mono ?_ fun _ _ h => h
  rintro job g₂ ⟨hjob, -⟩
  rw [Script.meets_bind, Script.meets_attempt]
  refine (authorizeIngestion_meets g₂ hjob).mono ?_ ?_
  · intro authorization g₃ hg₃
    refine ((fenced (fun _ _ h => GateGhost.Carries.passes h) workerId).resume_keeps
      (fun _ _ => recordRow_carries) g₃ hg₃).mono ?_ ?_
    · exact fun _ _ _ => trivial
    · exact fun _ _ _ => trivial
  · intro e g₃ _
    cases e with
    | policyNotAuthorized _ _ =>
        exact hfenced.meets (fun generation => hfenced.fail_keeps _ _ _ _ _) g₃ trivial
    | _ => exact Script.meets_throw.mpr trivial

end Processing

/-! ### Runs -/

/-- The job of a call of `process`. -/
def GateCall.job? : GateCall → Option ℕ
  | process id .. => some id
  | _ => none

/-- The source that a call is about from its start. -/
def GateCall.about : GateCall → Option String
  | require source _ | isPublicationAuthorized source | authorizeIngestion source => some source
  | process .. => none

/-- What a gate call has established when it returns. -/
def GateCall.Established : GateCall → Except PyError GateResult → GateGhost → Prop
  | require source capabilities, .ok (.statuses _), g =>
    g.source = some source ∧ ∀ c ∈ capabilities, c ∈ g.approved
  | isPublicationAuthorized source, .ok (.publication b), g =>
    b = true → g.source = some source ∧ ∀ c ∈ PolicyGate.publicationCapabilities, c ∈ g.approved
  | authorizeIngestion source, .ok (.authorization a), g => a.ReadAs source g
  | process .., _, _ => True
  | _, .ok _, _ => False
  | _, .error _, _ => True

theorem GateCall.program_meets (call : GateCall) :
    call.program.run.Meets (gateContract call.job?) call.Established ⟨call.about, [], []⟩ := by
  refine Script.meets_run.mpr ?_
  cases call with
  | require source capabilities =>
      refine Script.meets_bind.mpr ((require_meets capabilities ⟨some source, [], []⟩ rfl).mono ?_ ?_)
      · exact fun _ _ h => h
      · exact fun _ _ _ => trivial
  | isPublicationAuthorized source =>
      refine Script.meets_bind.mpr
        ((allApproved_meets (X := fun _ _ => True) _ ⟨some source, [], []⟩ rfl).mono ?_ ?_)
      · exact fun _ _ h hb => ⟨(h hb).1, (h hb).2.2⟩
      · exact fun _ _ _ => trivial
  | authorizeIngestion source =>
      refine Script.meets_bind.mpr ((authorizeIngestion_meets ⟨some source, [], []⟩ rfl).mono ?_ ?_)
      · exact fun _ _ h => h.2
      · exact fun _ _ _ => trivial
  | process id workerId now =>
      rw [program, Script.meets_bind, meets_issue]
      refine ⟨rfl, ?_⟩
      rintro r g -
      refine Script.meets_bind.mpr
        ((IngestionRunner.process_meets workerId now _ trivial).mono ?_ ?_)
      · exact fun _ _ _ => trivial
      · exact fun _ _ _ => trivial

/-- What a gate call knows: what it has read as approved is approved still, as long as it
goes on reading. -/
structure GateCall.Knows (call : GateCall) (db : Db)
    (th : Thread Cmd Cmd.Resp Session (Except PyError GateResult)) (g : GateGhost) : Prop where
  approved : ∀ source capability, g.source = some source →
    th.prog.next? = some (.selectDecision source capability) →
    ∀ c ∈ g.approved, (source, c) ∈ th.loc.approved ∧ Approved source db.decisions c
  seen : ∀ d ∈ g.seen, d ∈ db.decisions.rows
  row : ∀ id source, call.job? = some id → g.source = some source →
    ∃ j, db.jobs.get? id = some j ∧ j.source = source
  cache : th.loc.Reflects db.jobs
  stored : ∀ o ∈ th.loc.stored,
    Authorized db.decisions.rows o.key.source o.retrievalPolicyDecisionId
      o.storagePolicyDecisionId

section Steps

variable {c : Cmd} {e : Answers} {db : Db} {l : Session}

/-- The decisions are append-only. -/
theorem mem_decisions_exec {d : SourcePolicyDecision} (h : d ∈ db.decisions.rows) :
    d ∈ (exec c e db l).2.1.decisions.rows := by
  rcases decisions_exec c e db l with heq | ⟨candidate, -, hins⟩
  · rwa [heq]
  · rw [(Table.insert?_eq_some_iff.mp hins).2]
    exact List.mem_append_left _ h

/-- A session notes the permissions that it reads as granted. -/
theorem mem_approved_noteDecision {p : String × PolicyCapability} {source : String}
    {capability : PolicyCapability} {decision : Option SourcePolicyDecision}
    (h : p ∈ l.approved) : p ∈ (l.noteDecision source capability decision).approved := by
  rw [Session.noteDecision]
  dsimp only
  split
  · exact List.mem_cons_of_mem _ h
  · exact h

theorem mem_approved_noteDecision_self {source : String} {capability : PolicyCapability}
    {decision : Option SourcePolicyDecision} (h : statusOf decision = .approved) :
    (source, capability) ∈ (l.noteDecision source capability decision).approved := by
  obtain ⟨d, rfl, hd⟩ := statusOf_eq_approved_iff.mp h
  simp [Session.noteDecision, hd]

end Steps

/-- One command of a call: what it now knows. -/
theorem GateCall.Knows.step {call : GateCall} {c : Cmd}
    {k : c.Resp → Prog Cmd Cmd.Resp (Except PyError GateResult)} {e : Answers} {db : Db}
    {l : Session} {g : GateGhost} (h : call.Knows db ⟨l, .call c k⟩ g)
    (hpre : (gateContract call.job?).pre c g) :
    ∃ g', (gateContract call.job?).post c g (exec c e db l).1 g' ∧
      call.Knows (exec c e db l).2.1 ⟨(exec c e db l).2.2, k (exec c e db l).1⟩ g' := by
  -- What every command keeps, with whatever becomes of the approvals and of the decisions read.
  have hknows : ∀ g' : GateGhost,
      (∀ source capability, g'.source = some source →
        (k (exec c e db l).1).next? = some (.selectDecision source capability) →
        ∀ c' ∈ g'.approved, (source, c') ∈ (exec c e db l).2.2.approved ∧
          Approved source (exec c e db l).2.1.decisions c') →
      (∀ d ∈ g'.seen, d ∈ (exec c e db l).2.1.decisions.rows) →
      (∀ id source, call.job? = some id → g'.source = some source →
        ∃ j, db.jobs.get? id = some j ∧ j.source = source) →
      call.Knows (exec c e db l).2.1 ⟨(exec c e db l).2.2, k (exec c e db l).1⟩ g' := by
    intro g' happr hseen hrow
    refine ⟨happr, hseen, fun id source hid hs => ?_, h.cache.step c e, fun o ho => ?_⟩
    · obtain ⟨j, hj, hjs⟩ := hrow id source hid hs
      exact ⟨c.row j, get?_exec hj, by rw [Cmd.row_source, hjs]⟩
    · refine Authorized.mono ?_ fun d hd => mem_decisions_exec hd
      rcases stored_exec ho with ho | ⟨candidate, id, rfl, rfl⟩
      · exact h.stored o ho
      · exact hpre.2.mono h.seen
  have hplain : call.Knows (exec c e db l).2.1 ⟨(exec c e db l).2.2, k (exec c e db l).1⟩
      { g with approved := [] } :=
    hknows _ (fun _ _ _ _ c' hc' => absurd hc' List.not_mem_nil)
      (fun d hd => mem_decisions_exec (h.seen d hd)) h.row
  cases c with
  | selectDecision source capability =>
      have hs : g.source = some source := hpre
      have happr := h.approved source capability hs rfl
      refine ⟨g.note capability (effectiveDecision source capability db.decisions),
        ⟨fun hc => (happr capability hc).2, fun d hd => (effectiveDecision_mem hd).2, rfl⟩,
        hknows _ (fun source' capability' hs' _ c' hc' => ?_) (fun d hd => ?_) h.row⟩
      · obtain rfl : source = source' := Option.some.inj (hs.symm.trans hs')
        rcases GateGhost.of_mem_note hc' with hc' | ⟨rfl, hstatus⟩
        · obtain ⟨hmem, hdec⟩ := happr c' hc'
          exact ⟨mem_approved_noteDecision hmem, hdec⟩
        · exact ⟨mem_approved_noteDecision_self hstatus, hstatus⟩
      · rcases List.mem_append.mp hd with hd | hd
        · exact (effectiveDecision_mem (Option.mem_toList.mp hd)).1
        · exact h.seen d hd
  | attributes id =>
      let g' : GateGhost :=
        ⟨g.source.or (if call.job? = some id then (l.read db.jobs id).map Job.source else none),
          [], g.seen⟩
      have hkept : ∀ s, g.source = some s → g'.source = some s := fun s hs => by
        simp only [g', hs, Option.some_or]
      have hsource : ∀ id' source, call.job? = some id' → g'.source = some source →
          ∃ j, db.jobs.get? id' = some j ∧ j.source = source := by
        intro id' source hid hs
        rcases Option.or_eq_some_iff.mp hs with hs | ⟨-, hs⟩
        · exact h.row id' source hid hs
        · split at hs
          · rename_i hid'
            obtain rfl : id' = id := Option.some.inj (hid.symm.trans hid')
            obtain ⟨j, hj, rfl⟩ := Option.map_eq_some_iff.mp hs
            obtain ⟨-, j', hj', hs', -⟩ := h.cache.read hj
            exact ⟨j', hj', hs'⟩
          · exact absurd hs (by simp)
      refine ⟨g', ⟨fun j hj => ?_, rfl, rfl, hkept⟩,
        hknows g' (fun _ _ _ _ c' hc' => absurd hc' List.not_mem_nil) h.seen hsource⟩
      obtain ⟨hid, j', hj', hs', -⟩ := h.cache.read hj
      refine ⟨hid, fun hjob => ?_⟩
      cases hs : g.source with
      | none => simp only [g', hs, Option.none_or, if_pos hjob, show l.read db.jobs id = some j from hj,
          Option.map_some]
      | some s =>
          obtain ⟨j'', hj'', rfl⟩ := h.row id s hjob hs
          obtain rfl := Option.some.inj (hj'.symm.trans hj'')
          rw [hkept _ hs, hs']
  | load id => exact ⟨_, ⟨fun j hj => (Table.get?_eq_some_iff.mp hj).2, g.passes⟩, hplain⟩
  | _ => exact ⟨_, g.passes, hplain⟩

/-- What a call knows stays true, unless a capability that it relies on is revoked. -/
theorem GateCall.Knows.stable {call : GateCall} {c : Cmd} {e : Answers} {db : Db} {l : Session}
    {th : Thread Cmd Cmd.Resp Session (Except PyError GateResult)} {g : GateGhost}
    (h : call.Knows db th g)
    (hrevoke : ∀ d, c = .insertDecision d → d.status ≠ .approved → ∀ source capability,
      th.prog.next? = some (.selectDecision source capability) →
      (d.source, d.capability) ∉ th.loc.approved) :
    call.Knows (exec c e db l).2.1 th g := by
  refine ⟨fun source capability hs hnext c' hc' => ?_,
    fun d hd => mem_decisions_exec (h.seen d hd), fun id source hid hs => ?_,
    h.cache.stable c e l, fun o ho => (h.stored o ho).mono fun d hd => mem_decisions_exec hd⟩
  swap
  · obtain ⟨j, hj, hjs⟩ := h.row id source hid hs
    exact ⟨c.row j, get?_exec hj, by rw [Cmd.row_source, hjs]⟩
  obtain ⟨hmem, happr⟩ := h.approved source capability hs hnext c' hc'
  refine ⟨hmem, ?_⟩
  rcases decisions_exec c e db l with heq | ⟨d, rfl, hins⟩
  · rwa [heq]
  · refine happr.insert hins fun hs hc => ?_
    by_contra hne
    refine hrevoke d rfl hne source capability hnext ?_
    change d.source = _ at hs
    change d.capability = _ at hc
    rwa [hs, hc]

def GateWorker.contract : GateWorker → Contract Cmd Cmd.Resp GateGhost
  | gate call => gateContract call.job?
  | other _ => Contract.free

def GateWorker.Knows : GateWorker → Db →
    Thread Cmd Cmd.Resp Session (Except PyError GateResult) → GateGhost → Prop
  | gate call, db, th, g => call.Knows db th g
  | other _, _, _, _ => True

def GateWorker.Established : GateWorker → Except PyError GateResult → GateGhost → Prop
  | gate call, r, g => call.Established r g
  | other _, _, _ => True

theorem GateWorker.Knows.step {w : GateWorker} {c : Cmd}
    {k : c.Resp → Prog Cmd Cmd.Resp (Except PyError GateResult)} {e : Answers} {db : Db}
    {th : Thread Cmd Cmd.Resp Session (Except PyError GateResult)} {g : GateGhost}
    (hp : th.prog = .call c k) (h : w.Knows db th g) (hpre : w.contract.pre c g) :
    ∃ g', w.contract.post c g (exec c e db th.loc).1 g' ∧
      w.Knows (exec c e db th.loc).2.1 ⟨(exec c e db th.loc).2.2, k (exec c e db th.loc).1⟩ g' := by
  cases w with
  | other program => exact ⟨g, trivial, trivial⟩
  | gate call =>
      obtain ⟨l, prog⟩ := th
      obtain rfl : prog = .call c k := hp
      exact GateCall.Knows.step h hpre

section Runs

variable {workers : ι → GateWorker}

/-- The proof obligation of the runs without revocations under a reading gate. -/
theorem GateWorker.obligation [DecidableEq ι] :
    Config.Obligation (Except PyError GateResult) semantics (fun w => (workers w).contract)
      (fun _ => True) (fun w => (workers w).Knows) (NoRevocation workers) := by
  intro cfg i e c k g hp hok _ hknows hpre out
  refine ⟨trivial, GateWorker.Knows.step hp hknows hpre, fun j g' hj hknows' => ?_⟩
  have hc : (cfg.thread i).prog.next? = some c := Prog.next?_eq_some_iff.mpr ⟨k, hp⟩
  dsimp only at hknows' ⊢
  cases hw : workers j with
  | other program => trivial
  | gate call =>
      rw [hw] at hknows'
      refine GateCall.Knows.stable hknows' fun d hd hne source capability hnext => ?_
      exact hok d (hd ▸ hc) hne j call source capability hw hnext

theorem GateWorker.sound [DecidableEq ι] {db : Db} {cfg : GateConfig ι}
    (hr : Config.Reaches semantics (NoRevocation workers) (GateConfig.start workers db) cfg) :
    cfg.Sound (fun w => (workers w).contract) (fun w => (workers w).Established) (fun _ => True)
      (fun w => (workers w).Knows) := by
  refine hr.sound GateWorker.obligation ⟨trivial, fun i => ?_⟩
  cases hw : workers i with
  | other program => exact ⟨⟨none, [], []⟩, trivial, Prog.meets_free _ _⟩
  | gate call =>
      refine ⟨⟨call.about, [], []⟩, ?_, ?_⟩
      · refine ⟨fun _ _ _ _ c hc => absurd hc List.not_mem_nil,
          fun d hd => absurd hd List.not_mem_nil, fun id source hid hs => ?_,
          Session.Reflects.new db.jobs, fun o ho => absurd ho List.not_mem_nil⟩
        cases call with
        | process => exact absurd hs (by simp [GateCall.about])
        | _ => exact absurd hid (by simp [GateCall.job?])
      · simp only [GateConfig.start, hw]
        exact call.program_meets

/-- All the capabilities were approved together at an instant of a call, at which it made one
of its reads; a call that checks nothing makes none. -/
def ApprovedTogether [DecidableEq ι] (workers : ι → GateWorker) (db : Db) (cfg : GateConfig ι)
    (w : ι) (source : String) (capabilities : List PolicyCapability) : Prop :=
  capabilities = [] ∨ ∃ (cfg₁ : GateConfig ι) (e : Answers) (c : PolicyCapability),
    Config.Reaches semantics (NoRevocation workers) (GateConfig.start workers db) cfg₁ ∧
      (cfg₁.thread w).prog.next? = some (.selectDecision source c) ∧
      (∀ c ∈ capabilities, Approved source cfg₁.shared.decisions c) ∧
      Config.Reaches semantics (NoRevocation workers) (cfg₁.step semantics w e) cfg

/-- What a gate has established when it returns, it has established at its last read. -/
theorem GateCall.approvedTogether [DecidableEq ι] {db : Db} {cfg : GateConfig ι}
    (hr : Config.Reaches semantics (NoRevocation workers) (GateConfig.start workers db) cfg)
    {w : ι} {call : GateCall} (hw : workers w = .gate call) (hjob : call.job? = none)
    (hcall : call.program.run.result? = none) {r : Except PyError GateResult}
    (hret : (cfg.thread w).prog.result? = some r) {source : String}
    {capabilities : List PolicyCapability}
    (hest : ∀ g, call.Established r g →
      g.source = some source ∧ ∀ c ∈ capabilities, c ∈ g.approved) :
    ApprovedTogether workers db cfg w source capabilities := by
  have hstart : ((GateConfig.start workers db).thread w).prog.result? = none := by
    change (workers w).program.run.result? = none
    rw [hw]
    exact hcall
  obtain ⟨cfg₁, e, c, k, hr₁, hp, hok, hk, hr₂⟩ := hr.last_step hstart hret
  obtain ⟨g, g', hknows, hpre, hpost, hmeets⟩ :=
    (GateWorker.sound hr₁).after GateWorker.obligation hok hp
  rw [Prog.result?_eq_some_iff.mp hk, Prog.meets_ret] at hmeets
  simp only [hw] at hknows hpre hpost hmeets
  obtain ⟨hs, happr⟩ := hest g' hmeets
  cases c with
  | selectDecision source' capability =>
      obtain ⟨-, -, rfl⟩ := hpost
      have hsource : g.source = some source' := hpre
      obtain rfl : source' = source := Option.some.inj (hsource.symm.trans hs)
      have hnext : (cfg₁.thread w).prog.next? = some (.selectDecision source' capability) :=
        Prog.next?_eq_some_iff.mpr ⟨k, hp⟩
      refine Or.inr ⟨cfg₁, e, capability, hr₁, hnext, fun c hc => ?_, hr₂⟩
      rcases GateGhost.of_mem_note (happr c hc) with hg | ⟨rfl, hstatus⟩
      · exact (hknows.approved source' capability hsource hnext c hg).2
      · exact hstatus
  | insertObservation candidate => exact absurd hpre.1 (by simp [hjob])
  | _ => exact absurd hpre (by simp [GateWorker.contract, gateContract, hjob])

/-- **Gates are sound** in a run without revocations under a reading gate: authorizations
carry approved decisions, processed jobs store only under approved decisions of the source,
and what `require` and `is_publication_authorized` grant was approved together at an instant
of the call. -/
theorem gates_sound [DecidableEq ι] {db : Db} {cfg : GateConfig ι}
    (hr : Config.Reaches semantics (NoRevocation workers) (GateConfig.start workers db) cfg)
    (w : ι) :
    (∀ source a, workers w = .gate (.authorizeIngestion source) →
      (cfg.thread w).prog.result? = some (.ok (.authorization a)) →
      (a.retrievalDecision ∈ cfg.shared.decisions.rows ∧ a.retrievalDecision.source = source ∧
          a.retrievalDecision.capability = .retrieve ∧ a.retrievalDecision.status = .approved) ∧
        a.storageDecision ∈ cfg.shared.decisions.rows ∧ a.storageDecision.source = source ∧
          a.storageDecision.capability = .store ∧ a.storageDecision.status = .approved) ∧
    (∀ id workerId now, workers w = .gate (.process id workerId now) →
      ∀ o ∈ (cfg.thread w).loc.stored, Authorized cfg.shared.decisions.rows o.key.source
        o.retrievalPolicyDecisionId o.storagePolicyDecisionId) ∧
    (∀ source capabilities statuses, workers w = .gate (.require source capabilities) →
      (cfg.thread w).prog.result? = some (.ok (.statuses statuses)) →
      ApprovedTogether workers db cfg w source capabilities) ∧
    (∀ source, workers w = .gate (.isPublicationAuthorized source) →
      (cfg.thread w).prog.result? = some (.ok (.publication true)) →
      ApprovedTogether workers db cfg w source PolicyGate.publicationCapabilities) := by
  have hsound := GateWorker.sound hr
  refine ⟨fun source a hw hret => ?_, fun id workerId now hw o ho => ?_,
    fun source capabilities statuses hw hret => ?_, fun source hw hret => ?_⟩
  · obtain ⟨g, hknows, hest⟩ := hsound.ret (Prog.result?_eq_some_iff.mp hret)
    simp only [hw] at hknows hest
    obtain ⟨⟨hr, hr'⟩, hs, hs'⟩ := hest
    exact ⟨⟨hknows.seen _ hr, hr'⟩, hknows.seen _ hs, hs'⟩
  · obtain ⟨g, hknows, -⟩ := hsound.thread w
    simp only [hw] at hknows
    exact hknows.stored o ho
  · cases capabilities with
    | nil => exact Or.inl rfl
    | cons capability rest => exact GateCall.approvedTogether hr hw rfl rfl hret fun g hg => hg
  · exact GateCall.approvedTogether hr hw rfl rfl hret fun g hg => hg rfl

end Runs

/-! ### Runs on concrete registers -/

/-- A review that denies a capability. -/
def denial (capability : PolicyCapability) : App GateResult := do
  let _ ← PolicyGate.recordDecision "fake" capability .denied "expired" "reviewer" 1 none
  return .publication false

/-- Two gates, and a reviewer. -/
def reviewedGates : Option Bool → GateWorker
  | none => .other (denial .display)
  | some false => .gate (.authorizeIngestion "fake")
  | some true => .gate (.require "fake" [.retrieve, .store])

/-- A decision that is about to be inserted is on no capability that a thread has read. -/
def revokesNothing (cfg : GateConfig (Option Bool)) (i : Option Bool) (_ : Answers) : Bool :=
  match (cfg.thread i).prog.next? with
  | some (.insertDecision d) => [none, some false, some true].all fun w =>
    decide ((d.source, d.capability) ∉ (cfg.thread w).loc.approved)
  | _ => true

/-- Two gates side by side, over a register that approves what they check, while a reviewer denies
another capability. -/
theorem gates_sound_reviewed :
    let db : Db := ⟨Table.empty, Table.empty, approvedRegister⟩
    let cfg := (GateConfig.start reviewedGates db).run semantics
      [(some false, default), (some true, default), (none, default), (none, default),
        (some false, default), (some true, default), (some false, default), (some false, default)]
    (∃ d ∈ cfg.shared.decisions.rows, d.status = .denied) ∧
      (∃ a : IngestionAuthorization,
        (cfg.thread (some false)).prog.result? = some (.ok (.authorization a)) ∧
          a.retrievalDecision.status = .approved ∧ a.storageDecision.status = .approved) ∧
      ApprovedTogether reviewedGates db cfg (some true) "fake" [.retrieve, .store] := by
  intro db cfg
  have hcheck : ∀ cfg w e, revokesNothing cfg w e = true → NoRevocation reviewedGates cfg w e := by
    intro cfg i e h d hd _ w call source capability _ _
    simp only [revokesNothing, hd, List.all_eq_true, decide_eq_true_eq] at h
    refine h w ?_
    cases w with
    | none => simp
    | some b => cases b <;> simp
  have hr : Config.Reaches semantics (NoRevocation reviewedGates)
      (GateConfig.start reviewedGates db) cfg :=
    Config.reaches_of_checkRun hcheck (by decide +kernel)
  obtain ⟨hingestion, -⟩ := gates_sound hr (some false)
  obtain ⟨-, -, hrequire, -⟩ := gates_sound hr (some true)
  let a : IngestionAuthorization :=
    ⟨⟨1, "fake", .retrieve, 1, .approved, "contract", "reviewer", 0, none⟩,
      ⟨2, "fake", .store, 1, .approved, "contract", "reviewer", 0, none⟩⟩
  have hdenied : cfg.shared.decisions.rows.any (fun d => decide (d.status = .denied)) = true := by
    decide +kernel
  have hauth : (cfg.thread (some false)).prog.result? = some (.ok (.authorization a)) := by
    decide +kernel
  have hstatuses : (cfg.thread (some true)).prog.result? =
      some (.ok (.statuses [(.retrieve, .approved), (.store, .approved)])) := by
    decide +kernel
  obtain ⟨⟨-, -, -, hretrieve⟩, -, -, -, hstore⟩ := hingestion "fake" a rfl hauth
  exact ⟨by simpa using hdenied, ⟨a, hauth, hretrieve, hstore⟩, hrequire "fake" _ _ rfl hstatuses⟩

/-- **An authorization can carry a denied decision**: the review is committed after the gate
has checked the capability and before it fetches its decision. -/
theorem gates_unsound :
    ¬ ∀ (workers : Bool → GateWorker) (db : Db) (schedule : List (Bool × Answers)) (w : Bool)
      (source : String) (a : IngestionAuthorization),
      let cfg := (GateConfig.start workers db).run semantics schedule
      workers w = .gate (.authorizeIngestion source) →
      (cfg.thread w).prog.result? = some (.ok (.authorization a)) →
      a.retrievalDecision.status = .approved ∧ a.storageDecision.status = .approved := by
  intro h
  let workers : Bool → GateWorker := fun w =>
    if w then .other (denial .store) else .gate (.authorizeIngestion "fake")
  let denied : SourcePolicyDecision :=
    ⟨0, "fake", .store, 2, .denied, "expired", "reviewer", 1, none⟩
  have hboth := h workers ⟨Table.empty, Table.empty, approvedRegister⟩
    [(false, default), (false, default), (true, default), (true, default), (false, default),
      (false, default)] false "fake"
    ⟨⟨1, "fake", .retrieve, 1, .approved, "contract", "reviewer", 0, none⟩, denied⟩ rfl
    (by decide +kernel)
  exact absurd hboth.2 (by decide)

end MarketRelay
