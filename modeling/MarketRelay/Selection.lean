import MarketRelay.Lib.Grouping
import MarketRelay.PolicyGate

/-!
# Selecting a Publishable Observation

`ObservationSelector.select`: of the rows of a listing, date and type, the current revision of
each source and credential scope, of these one for each source whose publication is authorized,
and of these the first in the order of the priority policy.

The selection reads one state of the database, so it is a function of that state. The gate is
evaluated on the policy decisions of the same state.

## Main results

* `currentPublishableBySource_eq`: only the rows of authorized sources are ever looked at.
* `select_isOk_iff`: when a selection succeeds.
-/

open Relational Interaction Gregorian

namespace MarketRelay

/-! ### Selection -/

/-- Explicit policy: order of source preference by priority. -/
structure SourcePriorityPolicy where
  name : String
  orderedSources : List String
deriving DecidableEq, Repr

/-- Chosen observation, the applied policy, and the visible alternatives. -/
structure SelectionResult where
  selected : Observation
  policyName : String
  alternatives : List Observation
deriving DecidableEq

/-- `any(alt.close != self.selected.close ...)`; a comparison with a signalling NaN raises. -/
def SelectionResult.hasDiscrepancy (result : SelectionResult) : Except PyError Bool :=
  result.alternatives.foldr (fun alternative rest =>
    match Decimal.equal alternative.value.close result.selected.value.close with
    | none => .error .invalidOperation
    | some false => .ok true
    | some true => rest) (.ok false)

/-- Without signalling NaNs the discrepancy can be evaluated. -/
theorem SelectionResult.hasDiscrepancy_isOk {result : SelectionResult}
    (hselected : result.selected.value.close.isSignaling = false)
    (halternatives : ∀ o ∈ result.alternatives, o.value.close.isSignaling = false) :
    ∃ b, result.hasDiscrepancy = .ok b := by
  obtain ⟨selected, policyName, alternatives⟩ := result
  rw [hasDiscrepancy]
  induction alternatives with
  | nil => exact ⟨false, rfl⟩
  | cons o rest ih =>
      obtain ⟨b, hb⟩ := ih hselected fun o' ho' => halternatives o' (List.mem_cons_of_mem _ ho')
      have hequal : ∃ r, Decimal.equal o.value.close selected.value.close = some r := by
        simp only [Decimal.equal, halternatives o List.mem_cons_self, hselected, Bool.or_false,
          Bool.false_eq_true, if_false]
        split
        · exact ⟨_, rfl⟩
        · exact ⟨_, rfl⟩
      obtain ⟨r, hr⟩ := hequal
      rw [List.foldr_cons, hr]
      cases r with
      | false => exact ⟨true, rfl⟩
      | true => exact ⟨b, hb⟩

namespace ObservationSelector

/-- The query of the selector. -/
def rowsFor (listingId : ℕ) (sessionDate : Date) (observationType : ObservationType)
    (rows : List Observation) : List Observation :=
  rows.filter fun o => decide (o.listingId = listingId) &&
    decide (o.key.sessionDate = sessionDate) && decide (o.key.observationType = observationType)

/-- The account of an observation: its source and credential scope. -/
def account (o : Observation) : String × String := (o.key.source, o.key.credentialScope)

/-- The current revision of each account, among some rows. -/
def latestByKey (rows : List Observation) : List ((String × String) × Observation) :=
  groupBest account (fun row current => decide (current.revision < row.revision)) rows

/-- One observation for each source: the most recently retrieved. -/
def bySource (candidates : List Observation) : List (String × Observation) :=
  groupBest (fun o => o.key.source) (fun o current => decide (current.retrievedAt < o.retrievedAt))
    candidates

/-- The current revision per source, of the sources whose publication is authorized. -/
def currentPublishableBySource (db : Db) (listingId : ℕ) (sessionDate : Date)
    (observationType : ObservationType) : List (String × Observation) :=
  bySource (((latestByKey (rowsFor listingId sessionDate observationType
    db.observations.rows)).filter fun entry =>
      PolicyGate.publicationAuthorized db.decisions entry.1.1).map Prod.snd)

def select (db : Db) (listingId : ℕ) (sessionDate : Date) (observationType : ObservationType)
    (policy : SourcePriorityPolicy) : Except PyError SelectionResult :=
  let candidates := currentPublishableBySource db listingId sessionDate observationType
  match policy.orderedSources.findSome? fun source => lookup? source candidates with
  | none => .error (.noEligibleObservation policy.name listingId sessionDate observationType)
  | some selected => .ok ⟨selected, policy.name,
      (candidates.map Prod.snd).filter fun o => decide (o.id ≠ selected.id)⟩

/-- The rows of the sources whose publication is authorized. -/
def visibleRows (db : Db) : List Observation :=
  db.observations.rows.filter fun o => PolicyGate.publicationAuthorized db.decisions o.key.source

/-- **Only the rows of authorized sources are ever looked at**: the policy filter after the
grouping is one before it. -/
theorem currentPublishableBySource_eq (db : Db) (listingId : ℕ) (sessionDate : Date)
    (observationType : ObservationType) :
    currentPublishableBySource db listingId sessionDate observationType =
      bySource ((latestByKey (rowsFor listingId sessionDate observationType
        (visibleRows db))).map Prod.snd) := by
  have hgroup := groupBest_filter account
    (fun row current => decide (current.revision < row.revision))
    (fun k => PolicyGate.publicationAuthorized db.decisions k.1)
    (rowsFor listingId sessionDate observationType db.observations.rows)
  rw [currentPublishableBySource, latestByKey, hgroup, rowsFor, visibleRows, latestByKey, rowsFor,
    List.filter_comm]
  rfl

/-- A source is a candidate when it is authorized and has a row. -/
theorem exists_candidate_iff {db : Db} {listingId : ℕ} {sessionDate : Date}
    {observationType : ObservationType} {source : String} :
    (∃ o, (source, o) ∈ currentPublishableBySource db listingId sessionDate observationType) ↔
      PolicyGate.publicationAuthorized db.decisions source = true ∧
        ∃ o ∈ db.observations.rows, o.listingId = listingId ∧ o.key.sessionDate = sessionDate ∧
          o.key.observationType = observationType ∧ o.key.source = source := by
  rw [currentPublishableBySource_eq, bySource, exists_groupBest_iff]
  constructor
  · rintro ⟨o, ho, rfl⟩
    obtain ⟨entry, hentry, rfl⟩ := List.mem_map.mp ho
    obtain ⟨hrow, -⟩ := mem_groupBest hentry
    simp only [rowsFor, visibleRows, List.mem_filter, Bool.and_eq_true,
      decide_eq_true_eq] at hrow
    obtain ⟨⟨hmem, hauth⟩, ⟨hlisting, hdate⟩, htype⟩ := hrow
    exact ⟨hauth, _, hmem, hlisting, hdate, htype, rfl⟩
  · rintro ⟨hauth, o, ho, hlisting, hdate, htype, rfl⟩
    have hrow : o ∈ rowsFor listingId sessionDate observationType (visibleRows db) := by
      simp only [rowsFor, visibleRows, List.mem_filter, Bool.and_eq_true, decide_eq_true_eq]
      exact ⟨⟨ho, hauth⟩, ⟨hlisting, hdate⟩, htype⟩
    obtain ⟨b, hb⟩ := (exists_groupBest_iff account
      fun row current => decide (current.revision < row.revision)).mpr ⟨o, hrow, rfl⟩
    have hkey := (mem_groupBest hb).2
    exact ⟨b, List.mem_map.mpr ⟨_, hb, rfl⟩, (congrArg Prod.fst hkey).symm⟩

/-- **When a selection succeeds**: a source of the policy is authorized and has a row. -/
theorem select_isOk_iff {db : Db} {listingId : ℕ} {sessionDate : Date}
    {observationType : ObservationType} {policy : SourcePriorityPolicy} :
    (∃ result, select db listingId sessionDate observationType policy = .ok result) ↔
      ∃ source ∈ policy.orderedSources,
        PolicyGate.publicationAuthorized db.decisions source = true ∧
        ∃ o ∈ db.observations.rows, o.listingId = listingId ∧ o.key.sessionDate = sessionDate ∧
          o.key.observationType = observationType ∧ o.key.source = source := by
  simp only [← exists_candidate_iff]
  rw [select]
  cases hfind : policy.orderedSources.findSome? fun source =>
      lookup? source (currentPublishableBySource db listingId sessionDate observationType) with
  | none =>
      rw [List.findSome?_eq_none_iff] at hfind
      constructor
      · rintro ⟨result, h⟩
        exact absurd h (by simp)
      · rintro ⟨source, hsource, o, ho⟩
        exact absurd ho (lookup?_eq_none_iff.mp (hfind source hsource) o)
  | some selected =>
      obtain ⟨source, hsource, hlookup⟩ := List.exists_of_findSome?_eq_some hfind
      exact ⟨fun _ => ⟨source, hsource, selected, mem_of_lookup? hlookup⟩, fun _ => ⟨_, rfl⟩⟩

/-- What is selected, and every alternative, is a row of the table. -/
theorem mem_of_select {db : Db} {listingId : ℕ} {sessionDate : Date}
    {observationType : ObservationType} {policy : SourcePriorityPolicy} {result : SelectionResult}
    (h : select db listingId sessionDate observationType policy = .ok result) :
    result.selected ∈ db.observations.rows ∧
      ∀ o ∈ result.alternatives, o ∈ db.observations.rows := by
  have hrow : ∀ entry ∈ currentPublishableBySource db listingId sessionDate observationType,
      entry.2 ∈ db.observations.rows := by
    intro entry hentry
    obtain ⟨candidate, hcandidate, heq⟩ := List.mem_map.mp (mem_groupBest hentry).1
    have hmem := (mem_groupBest (List.mem_of_mem_filter hcandidate)).1
    exact heq ▸ List.mem_of_mem_filter hmem
  rw [select] at h
  split at h
  · exact absurd h (by simp)
  · rename_i selected hfind
    obtain rfl := Except.ok.inj h
    obtain ⟨source, -, hlookup⟩ := List.exists_of_findSome?_eq_some hfind
    refine ⟨hrow _ (mem_of_lookup? hlookup), fun o ho => ?_⟩
    obtain ⟨entry, hentry, rfl⟩ := List.mem_map.mp (List.mem_of_mem_filter ho)
    exact hrow entry hentry

/-- A selection that fails finds no eligible observation. -/
theorem select_eq_error {db : Db} {listingId : ℕ} {sessionDate : Date}
    {observationType : ObservationType} {policy : SourcePriorityPolicy} {e : PyError}
    (h : select db listingId sessionDate observationType policy = .error e) :
    e = .noEligibleObservation policy.name listingId sessionDate observationType := by
  rw [select] at h
  split at h
  · exact (Except.error.inj h).symm
  · exact absurd h (by simp)

end ObservationSelector

/-- A selection among finite closes can be answered. -/
theorem SelectionResult.answerable {db : Db} {listingId : ℕ} {sessionDate : Date}
    {observationType : ObservationType} {policy : SourcePriorityPolicy} (result : SelectionResult)
    (hselect : ObservationSelector.select db listingId sessionDate observationType policy =
      .ok result) (hcloses : ∀ o ∈ db.observations.rows, o.value.close.isFinite = true) :
    result.selected.value.close.isFinite = true ∧ ∃ b, result.hasDiscrepancy = .ok b := by
  obtain ⟨hselected, halternatives⟩ := ObservationSelector.mem_of_select hselect
  exact ⟨hcloses _ hselected, result.hasDiscrepancy_isOk
    (Decimal.isSignaling_of_isFinite (hcloses _ hselected)) fun o ho =>
      Decimal.isSignaling_of_isFinite (hcloses o (halternatives o ho))⟩

end MarketRelay
