import MarketRelay.Lib.Execution
import MarketRelay.Session

/-!
# The Policy Gate

`PolicyGate` as programs over the commands of a session: the versioned register of
decisions, and the gates before retrieval and before publication. A gate reads one
capability per statement, in the order in which the source lists them, and
`authorize_ingestion` reads the two decisions once more after it has checked them.

## Main results

* `PolicyGate.require`, `authorizeIngestion`, `isPublicationAuthorized`: the gates.
* `statusOf_eq_approved_iff`: approval is never inferred from an absent decision.
* `PolicyGate.isPublicationAuthorized_executes`: the gate, run alone, evaluates the decisions that
  it finds.
-/

open Relational Interaction Gregorian

namespace MarketRelay

def PolicyCapability.value : PolicyCapability → String
  | .retrieve => "RETRIEVE"
  | .store => "STORE"
  | .display => "DISPLAY"
  | .redistribute => "REDISTRIBUTE"
  | .attribute => "ATTRIBUTE"
  | .retain => "RETAIN"

def PolicyStatus.value : PolicyStatus → String
  | approved => "APPROVED"
  | denied => "DENIED"
  | unresolved => "UNRESOLVED"

/-- The statuses of the capabilities that a gate has checked: a dictionary, in the order of
its first assignments. -/
abbrev Statuses := List (PolicyCapability × PolicyStatus)

/-- `statuses[capability] = status` -/
def Statuses.assign (statuses : Statuses) (capability : PolicyCapability)
    (status : PolicyStatus) : Statuses :=
  if statuses.any fun e => decide (e.1 = capability) then
    statuses.map fun e => if e.1 = capability then (capability, status) else e
  else statuses ++ [(capability, status)]

/-- `str` of a `PolicyNotAuthorizedError`. -/
def notAuthorizedText (source : String) (blocking : Statuses) : String :=
  "Source '" ++ source ++ "' not authorized: " ++
    ", ".intercalate (blocking.map fun e => e.1.value ++ "=" ++ e.2.value)

/-- What a dictionary holds after an assignment. -/
theorem Statuses.mem_assign {statuses : Statuses} {capability : PolicyCapability}
    {status : PolicyStatus} {e : PolicyCapability × PolicyStatus}
    (h : e ∈ statuses.assign capability status) :
    e = (capability, status) ∨ e ∈ statuses ∧ e.1 ≠ capability := by
  rw [Statuses.assign] at h
  split at h
  · obtain ⟨a, ha, rfl⟩ := List.mem_map.mp h
    split
    · exact Or.inl rfl
    · rename_i hne
      exact Or.inr ⟨ha, hne⟩
  · rename_i hany
    rcases List.mem_append.mp h with h | h
    · refine Or.inr ⟨h, fun hk => hany ?_⟩
      exact List.any_eq_true.mpr ⟨e, h, by simpa using hk⟩
    · exact Or.inl (List.mem_singleton.mp h)

/-- A dictionary has a key after it has been assigned, and keeps the others. -/
theorem Statuses.exists_assign {statuses : Statuses} {capability key : PolicyCapability}
    {status : PolicyStatus} (h : key = capability ∨ ∃ e ∈ statuses, e.1 = key) :
    ∃ e ∈ statuses.assign capability status, e.1 = key := by
  rw [Statuses.assign]
  split
  · rename_i hany
    rcases h with rfl | ⟨e, he, rfl⟩
    · obtain ⟨e, he, hk⟩ := List.any_eq_true.mp hany
      exact ⟨_, List.mem_map_of_mem he, by simp [of_decide_eq_true hk]⟩
    · refine ⟨_, List.mem_map_of_mem he, ?_⟩
      split
      · rename_i hk
        exact hk.symm
      · rfl
  · rcases h with rfl | ⟨e, he, rfl⟩
    · exact ⟨_, List.mem_append_right _ (List.mem_singleton_self _), rfl⟩
    · exact ⟨e, List.mem_append_left _ he, rfl⟩

/-- Immutable decisions that authorized retrieval and storage. -/
structure IngestionAuthorization where
  retrievalDecision : SourcePolicyDecision
  storageDecision : SourcePolicyDecision
deriving DecidableEq, Repr

/-- The status that a gate assigns to a capability: never inferred from an absent
decision. -/
def statusOf (decision : Option SourcePolicyDecision) : PolicyStatus :=
  (decision.map SourcePolicyDecision.status).getD .unresolved

theorem statusOf_eq_approved_iff {decision : Option SourcePolicyDecision} :
    statusOf decision = .approved ↔ ∃ d, decision = some d ∧ d.status = .approved := by
  cases decision <;> simp [statusOf]

namespace PolicyGate

/-- Insert a new version of the decision for a source and a capability. -/
def recordDecision (source : String) (capability : PolicyCapability) (status : PolicyStatus)
    (evidenceReference reviewedBy : String) (reviewedAt : Instant) (notes : Option String) :
    App SourcePolicyDecision := do
  let currentMax ← issue (.selectMaxVersion source capability)
  let nextVersion := (currentMax.map (· + 1)).getD 1
  match ← issue (.insertDecision
      ⟨source, capability, nextVersion, status, evidenceReference, reviewedBy, reviewedAt, notes⟩) with
  | some decision => return decision
  | none => throw .integrity

def effectiveStatus (source : String) (capability : PolicyCapability) : App PolicyStatus := do
  let decision ← issue (.selectDecision source capability)
  return statusOf decision

/-- The statuses of the capabilities, read one after another. -/
def readStatuses (source : String) : List PolicyCapability → Statuses → App Statuses
  | [], statuses => return statuses
  | capability :: rest, statuses => do
    let status ← effectiveStatus source capability
    readStatuses source rest (statuses.assign capability status)

/-- Verify that all the given capabilities are `APPROVED`. -/
def require (source : String) (capabilities : List PolicyCapability) : App Statuses := do
  let statuses ← readStatuses source capabilities []
  let blocking := statuses.filter fun e => decide (e.2 ≠ .approved)
  if blocking.isEmpty then
    return statuses
  else
    throw (.policyNotAuthorized source blocking)

/-- Gate before retrieving and persisting observations from a source. -/
def authorizeIngestion (source : String) : App IngestionAuthorization := do
  let _ ← require source [.retrieve, .store]
  let retrieval ← issue (.selectDecision source .retrieve)
  let storage ← issue (.selectDecision source .store)
  match retrieval, storage with
  | some retrieval, some storage => return ⟨retrieval, storage⟩
  | _, _ => throw .assertion

/-- `all(...)` over the capabilities: it stops at the first that is not `APPROVED`. -/
def allApproved (source : String) : List PolicyCapability → App Bool
  | [] => return true
  | capability :: rest => do
    let status ← effectiveStatus source capability
    if status = .approved then
      allApproved source rest
    else
      return false

/-- The capabilities that publication needs. -/
def publicationCapabilities : List PolicyCapability := [.store, .display, .redistribute]

def isPublicationAuthorized (source : String) : App Bool :=
  allApproved source publicationCapabilities

/-- Gate before returning observations from a source to a consumer. -/
def authorizePublication (source : String) : App Unit := do
  let _ ← require source publicationCapabilities

/-! ### The gate on one state -/

/-- The effective status of a source's capability. -/
def statusIn (t : DecisionTable) (source : String) (capability : PolicyCapability) :
    PolicyStatus :=
  statusOf (effectiveDecision source capability t)

/-- `is_publication_authorized`, on the decisions of one state. -/
def publicationAuthorized (t : DecisionTable) (source : String) : Bool :=
  publicationCapabilities.all fun capability => decide (statusIn t source capability = .approved)

variable {db db' : Db} {l l' : Session} {source : String}

theorem effectiveStatus_executes {capability : PolicyCapability}
    {r : Except PyError PolicyStatus} :
    (effectiveStatus source capability).Executes semantics db l r db' l' ↔
      r = .ok (statusIn db.decisions source capability) ∧ db' = db ∧
        l' = l.noteDecision source capability (effectiveDecision source capability db.decisions) := by
  rw [effectiveStatus]
  refine Script.executes_op_bind.trans ⟨fun ⟨_, h⟩ => Script.executes_pure.mp h, ?_⟩
  exact fun h => ⟨default, Script.executes_pure.mpr h⟩

/-- A status is read without a change, and what follows it goes on with it. -/
theorem effectiveStatus_bind_executes {β : Type} {capability : PolicyCapability}
    {f : PolicyStatus → App β} {r : Except PyError β}
    (h : (effectiveStatus source capability >>= f).Executes semantics db l r db' l') :
    (f (statusIn db.decisions source capability)).Executes semantics db
      (l.noteDecision source capability (effectiveDecision source capability db.decisions)) r db'
        l' := by
  obtain ⟨status, db₁, l₁, hstatus, h⟩ := Script.executes_bind_of_returns
    (fun e _ _ hfail => absurd (effectiveStatus_executes.mp hfail).1 (by simp)) h
  obtain ⟨hr, rfl, rfl⟩ := effectiveStatus_executes.mp hstatus
  obtain rfl := Except.ok.inj hr
  exact h

theorem allApproved_executes {capabilities : List PolicyCapability} {r : Except PyError Bool}
    (h : (allApproved source capabilities).Executes semantics db l r db' l') :
    r = .ok (capabilities.all fun capability =>
      decide (statusIn db.decisions source capability = .approved)) ∧ db' = db := by
  induction capabilities generalizing l with
  | nil =>
      obtain ⟨rfl, rfl, -⟩ := Script.executes_pure.mp h
      exact ⟨rfl, rfl⟩
  | cons capability rest ih =>
      rw [allApproved] at h
      have h := effectiveStatus_bind_executes h
      split at h
      · rename_i happroved
        obtain ⟨rfl, rfl⟩ := ih h
        exact ⟨by simp [happroved], rfl⟩
      · rename_i hnot
        obtain ⟨rfl, rfl, -⟩ := Script.executes_pure.mp h
        exact ⟨by simp [hnot], rfl⟩

/-- **The gate, run alone, evaluates the decisions that it finds.** -/
theorem isPublicationAuthorized_executes {r : Except PyError Bool}
    (h : (isPublicationAuthorized source).Executes semantics db l r db' l') :
    r = .ok (publicationAuthorized db.decisions source) ∧ db' = db :=
  allApproved_executes h

/-- Reading the statuses, run alone: every capability gets its effective status. -/
theorem readStatuses_executes {capabilities : List PolicyCapability} {statuses : Statuses}
    {r : Except PyError Statuses}
    (hstatuses : ∀ e ∈ statuses, e.2 = statusIn db.decisions source e.1)
    (h : (readStatuses source capabilities statuses).Executes semantics db l r db' l') :
    db' = db ∧ ∃ read, r = .ok read ∧ (∀ e ∈ read, e.2 = statusIn db.decisions source e.1) ∧
      ∀ c, (∃ e ∈ read, e.1 = c) ↔ c ∈ capabilities ∨ ∃ e ∈ statuses, e.1 = c := by
  induction capabilities generalizing statuses l with
  | nil =>
      obtain ⟨rfl, rfl, -⟩ := Script.executes_pure.mp h
      exact ⟨rfl, _, rfl, hstatuses, fun c => by simp⟩
  | cons capability rest ih =>
      rw [readStatuses] at h
      have h := effectiveStatus_bind_executes h
      have hassign : ∀ e ∈ statuses.assign capability (statusIn db.decisions source capability),
          e.2 = statusIn db.decisions source e.1 := by
        intro e he
        rcases Statuses.mem_assign he with rfl | ⟨he, -⟩
        · rfl
        · exact hstatuses e he
      obtain ⟨rfl, read, rfl, hread, hkeys⟩ := ih hassign h
      refine ⟨rfl, read, rfl, hread, fun c => (hkeys c).trans ?_⟩
      rw [List.mem_cons, or_comm (a := c = capability), or_assoc]
      refine or_congr_right ⟨?_, Statuses.exists_assign⟩
      rintro ⟨e, he, rfl⟩
      rcases Statuses.mem_assign he with rfl | ⟨he, -⟩
      · exact Or.inl rfl
      · exact Or.inr ⟨e, he, rfl⟩

/-- **A gate that raises, run alone, passes when every capability is approved.** -/
theorem require_executes {capabilities : List PolicyCapability} {r : Except PyError Statuses}
    (h : (require source capabilities).Executes semantics db l r db' l') :
    db' = db ∧ ((∃ statuses, r = .ok statuses) ↔
      ∀ c ∈ capabilities, statusIn db.decisions source c = .approved) := by
  have hnil : ∀ e ∈ ([] : Statuses), e.2 = statusIn db.decisions source e.1 := by simp
  rcases Script.executes_bind.mp h with ⟨read, db₁, l₁, hread, hdone⟩ | ⟨e, hread, -⟩
  swap
  · obtain ⟨-, read, hr, -⟩ := readStatuses_executes hnil hread
    exact absurd hr (by simp)
  obtain ⟨rfl, read', hr, hvalues, hkeys⟩ := readStatuses_executes hnil hread
  obtain rfl := Except.ok.inj hr
  have hall : (∀ e ∈ read, e.2 = .approved) ↔
      ∀ c ∈ capabilities, statusIn db₁.decisions source c = .approved := by
    constructor
    · intro happroved c hc
      obtain ⟨e, he, rfl⟩ := (hkeys c).mpr (Or.inl hc)
      rw [← hvalues e he, happroved e he]
    · intro happroved e he
      rcases (hkeys e.1).mp ⟨e, he, rfl⟩ with hc | ⟨e', he', -⟩
      · rw [hvalues e he, happroved e.1 hc]
      · exact absurd he' List.not_mem_nil
  rw [← hall]
  dsimp only at hdone
  split at hdone
  · rename_i hempty
    obtain ⟨rfl, rfl, -⟩ := Script.executes_pure.mp hdone
    refine ⟨rfl, fun _ e he => ?_, fun _ => ⟨_, rfl⟩⟩
    rw [List.isEmpty_iff, List.filter_eq_nil_iff] at hempty
    simpa using hempty e he
  · rename_i hne
    obtain ⟨rfl, rfl, -⟩ := Script.executes_throw.mp hdone
    refine ⟨rfl, fun ⟨statuses, hr⟩ => absurd hr (by simp), fun happroved => absurd ?_ hne⟩
    rw [List.isEmpty_iff, List.filter_eq_nil_iff]
    exact fun e he => by simp [happroved e he]

/-- **The gate before publication, run alone, passes when all three are approved.** -/
theorem authorizePublication_executes {r : Except PyError Unit}
    (h : (authorizePublication source).Executes semantics db l r db' l') :
    db' = db ∧ ((∃ u, r = .ok u) ↔ publicationAuthorized db.decisions source = true) := by
  have hall : publicationAuthorized db.decisions source = true ↔
      ∀ c ∈ publicationCapabilities, statusIn db.decisions source c = .approved := by
    simp only [publicationAuthorized, List.all_eq_true, decide_eq_true_eq]
  rw [hall]
  rcases Script.executes_bind.mp h with ⟨statuses, db₁, l₁, hrequire, hdone⟩ | ⟨e, hrequire, rfl⟩
  · obtain ⟨rfl, hiff⟩ := require_executes hrequire
    obtain ⟨rfl, rfl, -⟩ := Script.executes_pure.mp hdone
    exact ⟨rfl, fun _ => hiff.mp ⟨_, rfl⟩, fun _ => ⟨_, rfl⟩⟩
  · obtain ⟨rfl, hiff⟩ := require_executes hrequire
    refine ⟨rfl, fun ⟨u, hu⟩ => absurd hu (by simp), fun happroved => ?_⟩
    obtain ⟨statuses, hr⟩ := hiff.mpr happroved
    exact absurd hr (by simp)

/-- A gate that raises raises the same exception whatever blocks it. -/
theorem require_raises {capabilities : List PolicyCapability} {e : PyError}
    (h : (require source capabilities).Executes semantics db l (.error e) db' l') :
    ∃ blocking, e = .policyNotAuthorized source blocking := by
  have hnil : ∀ e ∈ ([] : Statuses), e.2 = statusIn db.decisions source e.1 := by simp
  obtain ⟨read, db₁, l₁, -, hdone⟩ := Script.executes_bind_of_returns
    (fun e s' l' he => by
      obtain ⟨-, read, hr, -⟩ := readStatuses_executes hnil he
      exact absurd hr (by simp)) h
  dsimp only at hdone
  split at hdone
  · exact absurd (Script.executes_pure.mp hdone).1 (by simp)
  · exact ⟨_, Except.error.inj (Script.executes_throw.mp hdone).1⟩

/-! ### What the gate before retrieval keeps -/

section Keeps

variable {G : Type} {K : Contract Cmd Cmd.Resp G} {I : G → Prop} {source : String}

/-- The gate before retrieval keeps what its reads keep. -/
theorem authorizeIngestion_keeps
    (hselect : ∀ capability, Script.Keeps K I (issue (.selectDecision source capability))) :
    Script.Keeps K I (authorizeIngestion source) := by
  have hreads : ∀ capabilities statuses,
      Script.Keeps K I (readStatuses source capabilities statuses) := by
    intro capabilities
    induction capabilities with
    | nil => exact fun statuses => Script.keeps_pure statuses
    | cons capability rest ih =>
        exact fun statuses => ((hselect capability).bind fun decision =>
          Script.keeps_pure (statusOf decision)).bind fun status => ih _
  have hrequire : ∀ capabilities, Script.Keeps K I (require source capabilities) := by
    intro capabilities
    refine (hreads capabilities []).bind fun statuses => ?_
    dsimp only
    split
    · exact Script.keeps_pure _
    · exact Script.keeps_throw _
  refine (hrequire _).bind fun _ => (hselect _).bind fun retrieval =>
    (hselect _).bind fun storage => ?_
  split
  · exact Script.keeps_pure _
  · exact Script.keeps_throw _

end Keeps

/-! ### The gate before retrieval, run alone -/

/-- The effective decisions of the source approve retrieval and storage. -/
def IngestionApproved (t : DecisionTable) (source : String) : Prop :=
  statusIn t source .retrieve = .approved ∧ statusIn t source .store = .approved

instance (t : DecisionTable) (source : String) : Decidable (IngestionApproved t source) :=
  inferInstanceAs (Decidable (_ ∧ _))

/-- The gate only reads decisions: the tables and the loaded jobs stay as they are. -/
theorem authorizeIngestion_frame {r : Except PyError IngestionAuthorization}
    (h : (authorizeIngestion source).Executes semantics db l r db' l') :
    db' = db ∧ l'.cache = l.cache := by
  have hgate : (authorizeIngestion source).run.Only fun c =>
      ∃ capability, c = .selectDecision source capability :=
    (authorizeIngestion_keeps fun capability => Script.keeps_allowed ⟨capability, rfl⟩).only
  refine hgate.executes (I := fun db' l' => db' = db ∧ l'.cache = l.cache) ?_ h ⟨rfl, rfl⟩
  rintro _ e s l₁ ⟨capability, rfl⟩ hI
  exact hI

/-- **The gate before retrieval, run alone, passes when both capabilities are approved.** -/
theorem authorizeIngestion_executes {r : Except PyError IngestionAuthorization}
    (h : (authorizeIngestion source).Executes semantics db l r db' l') :
    (IngestionApproved db.decisions source ∧ ∃ authorization, r = .ok authorization) ∨
      ¬ IngestionApproved db.decisions source ∧
        ∃ blocking, r = .error (.policyNotAuthorized source blocking) := by
  have hboth : (∀ c ∈ [PolicyCapability.retrieve, .store],
      statusIn db.decisions source c = .approved) ↔ IngestionApproved db.decisions source := by
    simp [IngestionApproved]
  rcases Script.executes_bind.mp h with ⟨statuses, db₁, l₁, hrequire, hrest⟩ | ⟨e, hrequire, rfl⟩
  · obtain ⟨rfl, hiff⟩ := require_executes hrequire
    have happroved := hboth.mp (hiff.mp ⟨_, rfl⟩)
    obtain ⟨retrieval, hretrieval, -⟩ := statusOf_eq_approved_iff.mp happroved.1
    obtain ⟨storage, hstorage, -⟩ := statusOf_eq_approved_iff.mp happroved.2
    obtain ⟨e, hrest⟩ := Script.executes_op_bind.mp hrest
    obtain ⟨e', hrest⟩ := Script.executes_op_bind.mp hrest
    simp only [semantics_exec, exec, hretrieval, hstorage] at hrest
    exact Or.inl ⟨happroved, _, (Script.executes_pure.mp hrest).1⟩
  · obtain ⟨-, hiff⟩ := require_executes hrequire
    obtain ⟨blocking, rfl⟩ := require_raises hrequire
    refine Or.inr ⟨fun happroved => ?_, blocking, rfl⟩
    obtain ⟨statuses, hr⟩ := hiff.mpr (hboth.mpr happroved)
    exact absurd hr (by simp)

end PolicyGate

/-- A register whose ingestion capabilities are approved. -/
def approvedRegister : DecisionTable :=
  ⟨[⟨1, "fake", .retrieve, 1, .approved, "contract", "reviewer", 0, none⟩,
    ⟨2, "fake", .store, 1, .approved, "contract", "reviewer", 0, none⟩], by decide⟩

end MarketRelay
