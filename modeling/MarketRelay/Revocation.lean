import MarketRelay.Confinement
import MarketRelay.Priority
import MarketRelay.Processed

/-!
# Revocation

What the API serves of a source whose publication is not approved, or no longer: nothing, from the
moment at which the decision is stored until an approval is. That the source has been stored
before, and what any threads go on to store of it, makes no difference to any response.

## Main results

* `recordDecision_effective`: a decision is effective as soon as it is recorded.
* `revoked_source_forgotten`: the API answers as if nothing of the source were stored.
-/

open Relational Interaction

namespace MarketRelay

/-! ### Decisions -/

section

variable {source : String} {capability : PolicyCapability} {t t' : DecisionTable}
  {d : SourcePolicyDecision}

/-- The effective decision after one more. -/
theorem effectiveDecision_insert (hi : t.insert? d = some t') :
    effectiveDecision source capability t' =
      if d.source = source ∧ d.capability = capability then
        match effectiveDecision source capability t with
        | some b => if b.version < d.version then some d else some b
        | none => some d
      else effectiveDecision source capability t := by
  have hrows := (Table.insert?_eq_some_iff.mp hi).2
  rw [effectiveDecision, decisionsOf, hrows, List.filter_append]
  split
  · rename_i hd
    have hsingle : ([d].filter fun d => decide (d.source = source) &&
        decide (d.capability = capability)) = [d] := by simp [hd]
    cases hold : effectiveDecision source capability t <;>
      rw [effectiveDecision, decisionsOf] at hold <;> rw [hsingle, latestBy_concat, hold]
  · rename_i hd
    have hnil : ([d].filter fun d => decide (d.source = source) &&
        decide (d.capability = capability)) = [] := by simpa using hd
    rw [hnil, List.append_nil]
    rfl

/-- **A decision is effective as soon as it is recorded.** -/
theorem recordDecision_effective {status : PolicyStatus}
    {evidenceReference reviewedBy : String} {reviewedAt : Instant} {notes : Option String}
    {db db' : Db} {l l' : Session}
    (h : (PolicyGate.recordDecision source capability status evidenceReference reviewedBy reviewedAt
      notes).Executes semantics db l (.ok d) db' l') :
    PolicyGate.statusIn db'.decisions source capability = status := by
  rw [PolicyGate.recordDecision] at h
  obtain ⟨_, h⟩ := Script.executes_op_bind.mp h
  obtain ⟨e, h⟩ := Script.executes_op_bind.mp h
  cases hi : db.decisions.insert? (DecisionCandidate.row ⟨source, capability,
      (((effectiveDecision source capability db.decisions).map
        SourcePolicyDecision.version).map (· + 1)).getD 1, status, evidenceReference, reviewedBy,
      reviewedAt, notes⟩ (db.decisions.draw e.uuid)) with
  | none =>
      simp only [semantics, exec, hi] at h
      exact absurd (Script.executes_throw.mp h).1 (by simp)
  | some t =>
      simp only [semantics, exec, hi] at h
      obtain ⟨-, rfl, -⟩ := Script.executes_pure.mp h
      rw [PolicyGate.statusIn, effectiveDecision_insert hi, if_pos ⟨rfl, rfl⟩]
      cases hold : effectiveDecision source capability db.decisions with
      | none => rfl
      | some b =>
          have hgreater : b.version < b.version + 1 := Nat.lt_succ_self _
          change statusOf (if b.version < b.version + 1 then _ else _) = status
          rw [if_pos hgreater]
          rfl

end

/-- Any commands of any threads, one after another, that approve nothing for the capability of the
source. -/
inductive NotApproved (source : String) (capability : PolicyCapability) : Db → Db → Prop
  | refl (db : Db) : NotApproved source capability db db
  | step {db db' : Db} (h : NotApproved source capability db db') (c : Cmd) (e : Answers)
      (l : Session) (hc : ∀ d, c = .insertDecision d → d.source = source →
        d.capability = capability → d.status ≠ .approved) :
      NotApproved source capability db (exec c e db' l).2.1

/-- What is not approved stays so. -/
theorem NotApproved.unapproved {source : String} {capability : PolicyCapability} {db db' : Db}
    (h : NotApproved source capability db db')
    (hdb : PolicyGate.statusIn db.decisions source capability ≠ .approved) :
    PolicyGate.statusIn db'.decisions source capability ≠ .approved := by
  induction h with
  | refl => exact hdb
  | step _ c e l hc ih =>
      rcases decisions_exec c e _ l with hsame | ⟨d, rfl, hi⟩
      · rw [hsame]
        exact ih
      · rw [PolicyGate.statusIn, effectiveDecision_insert hi]
        split
        · rename_i hd
          have hstatus := hc d rfl hd.1 hd.2
          split
          · rename_i b hb
            rw [PolicyGate.statusIn, hb] at ih
            split
            · exact hstatus
            · exact ih
          · exact hstatus
        · exact ih

/-! ### Responses -/

/-- The observations of the other sources. -/
def withoutSource (source : String) (t : ObservationTable) : ObservationTable :=
  ⟨t.rows.filter fun o => decide (o.key.source ≠ source), t.unique.filter _⟩

/-- The service, had it stored nothing of the source. -/
def Service.forgetting (s : Service) (source : String) : Service :=
  { s with tables := { s.tables with
      db := { s.tables.db with
        observations := withoutSource source s.tables.db.observations } } }

/-- The rows of a source that is not authorized are not published. -/
theorem samePublished_withoutSource {db : Db} {source : String}
    (h : PolicyGate.publicationAuthorized db.decisions source = false) :
    ObservationView.SamePublished db
      { db with observations := withoutSource source db.observations } := by
  refine ⟨?_, fun o _ => rfl⟩
  rw [ObservationSelector.visibleRows, ObservationSelector.visibleRows, withoutSource,
    List.filter_filter]
  refine List.filter_congr fun o _ => ?_
  by_cases hsource : o.key.source = source
  · subst hsource
    simp [h]
  · simp [hsource]

/-- **A source that is not approved for publication is as good as never stored.** From a state in
which one of its three capabilities is not approved, whatever any threads then do short of
approving it, every request of every consumer gets the response that it would get if no observation
of the source were stored, whatever else the service has become. -/
theorem revoked_source_forgotten {source : String} {capability : PolicyCapability} {db : Db}
    (hcapability : capability ∈ PolicyGate.publicationCapabilities)
    (hdb : PolicyGate.statusIn db.decisions source capability ≠ .approved) {s : Service}
    (h : NotApproved source capability db s.tables.db) (upperCase : String → String)
    (correlationId : String) (authorization : Option String) (request : Request) :
    s.respond upperCase correlationId authorization request =
      (s.forgetting source).respond upperCase correlationId authorization request := by
  have hauthorized : PolicyGate.publicationAuthorized s.tables.db.decisions source = false := by
    rw [← Bool.not_eq_true, PolicyGate.publicationAuthorized, List.all_eq_true]
    exact fun hall => h.unapproved hdb (of_decide_eq_true (hall capability hcapability))
  have hdata : s.SameData (s.forgetting source) :=
    ⟨samePublished_withoutSource hauthorized, rfl, rfl⟩
  have hconfig : s.SameConfig (s.forgetting source) := ⟨rfl, rfl, rfl, rfl, rfl, rfl⟩
  refine Service.respond_congr hconfig (fun scope _ => ?_) request
  refine ⟨fun _ => ⟨rfl, hdata⟩, fun _ => ⟨fun _ => rfl, hdata⟩, fun _ => ⟨rfl, rfl⟩, fun _ => ?_⟩
  have hquota : ∀ name, s.sourceQuota name = (s.forgetting source).sourceQuota name := fun _ => rfl
  have hruns : s.tables.runs = (s.forgetting source).tables.runs := rfl
  have hjobs : s.tables.db.jobs = (s.forgetting source).tables.db.jobs := rfl
  exact ⟨by rw [hjobs], fun phase => by rw [hruns], fun name _ => hquota name, rfl⟩

/-- An observation of a published source, whose display is then denied. -/
def deniedDb : Db :=
  let published : Db := ⟨Table.empty, holding (dayRow "EUR" (.finite 1)), publishedRegister⟩
  (exec (.insertDecision ⟨"fake", .display, 2, .denied, "expired", "reviewer", 1, none⟩) default
    published Session.new).2.1

/-- After the denial the service answers as if the observation had not been stored. -/
theorem revoked_source_forgotten_denied :
    { sampleService with tables := ⟨deniedDb, Table.empty⟩ }.respond id "1" (some "Bearer key")
        (.latestObservation 1 .eodClose) =
      ({ sampleService with tables := ⟨deniedDb, Table.empty⟩ }.forgetting "fake").respond id "1"
        (some "Bearer key") (.latestObservation 1 .eodClose) := by
  have hdenied : PolicyGate.statusIn deniedDb.decisions "fake" .display ≠ .approved := by
    decide +kernel
  have hcapability : PolicyCapability.display ∈ PolicyGate.publicationCapabilities := by decide
  exact revoked_source_forgotten hcapability hdenied
    (s := { sampleService with tables := ⟨deniedDb, Table.empty⟩ }) (.refl _) id "1" _ _

end MarketRelay
