import MarketRelay.Session

/-!
# The Observation Store

`ObservationStore` as programs over the commands of a session. A candidate value is
recorded as the next revision of its natural key: read the current revision, insert the
next one under the unique constraint, and on a conflict read again, for a bounded number of
attempts.

`_same_value` compares decimals with `==`, which a signalling NaN makes fail and to which a
quiet NaN is not equal even to itself; both behaviours are kept (`sameValue`).

## Main results

* `sameValue_self_iff`: a value is the same as itself exactly when it contains no NaN.
* `eq_of_sameValue`: values that are the same are equal.
-/

open Relational Interaction Gregorian

namespace MarketRelay

/-- Data of a candidate observation, prior to deciding its revision. -/
structure ObservationInput where
  listingId : ℕ
  key : NaturalKey
  value : ObservationValue
  retrievedAt : Instant
  retrievalPolicyDecisionId : Option ℕ
  storagePolicyDecisionId : Option ℕ
deriving DecidableEq

/-- The value as it is stored: the currency in upper case. -/
def ObservationInput.stored (data : ObservationInput) : ObservationValue :=
  { data.value with currency := upper data.value.currency }

/-- The candidate row for a revision. -/
def ObservationInput.candidate (data : ObservationInput) (revision : ℕ) :
    ObservationCandidate where
  listingId := data.listingId
  key := data.key
  revision := revision
  value := data.stored
  retrievedAt := data.retrievedAt
  retrievalPolicyDecisionId := data.retrievalPolicyDecisionId
  storagePolicyDecisionId := data.storagePolicyDecisionId

/-- Result of attempting to record an observation. -/
structure RecordOutcome where
  observation : Observation
  created : Bool
  isCorrection : Bool
deriving DecidableEq

/-! ### Comparison of values -/

/-- `a and b and ...`, where a failing comparison fails the whole unless an earlier one is
false. -/
def conjunction : List (Option Bool) → Option Bool
  | [] => some true
  | some true :: rest => conjunction rest
  | r :: _ => r

theorem conjunction_eq_true_iff {rs : List (Option Bool)} :
    conjunction rs = some true ↔ ∀ r ∈ rs, r = some true := by
  induction rs with
  | nil => simp [conjunction]
  | cons r rest ih =>
      rcases r with _ | _ | _ <;> simp [conjunction, ih]

/-- `_same_value`, of two stored values. -/
def sameValue (existing value : ObservationValue) : Option Bool :=
  conjunction
    [some (decide (existing.currency = value.currency)),
      Decimal.equal existing.close value.close,
      Decimal.equalOption existing.open value.open,
      Decimal.equalOption existing.high value.high,
      Decimal.equalOption existing.low value.low,
      Decimal.equalOption existing.adjustedClose value.adjustedClose,
      some (decide (existing.qualityStatus = value.qualityStatus))]

/-- Some decimal of the value is a NaN. -/
def ObservationValue.hasNaN (v : ObservationValue) : Bool :=
  v.close.isNaN || v.open.any Decimal.isNaN || v.high.any Decimal.isNaN ||
    v.low.any Decimal.isNaN || v.adjustedClose.any Decimal.isNaN

/-- Values that are the same are equal. -/
theorem eq_of_sameValue {a b : ObservationValue} (h : sameValue a b = some true) : a = b := by
  rw [sameValue, conjunction_eq_true_iff] at h
  simp only [List.mem_cons, List.not_mem_nil, or_false, forall_eq_or_imp, forall_eq,
    Option.some.injEq, decide_eq_true_eq] at h
  obtain ⟨hcur, hclose, hopen, hhigh, hlow, hadj, hq⟩ := h
  cases a
  cases b
  simp only at hcur hclose hopen hhigh hlow hadj hq
  rw [hcur, Decimal.eq_of_equal hclose, Decimal.eq_of_equalOption hopen,
    Decimal.eq_of_equalOption hhigh, Decimal.eq_of_equalOption hlow,
    Decimal.eq_of_equalOption hadj, hq]

/-- A value is the same as itself exactly when it contains no NaN. -/
theorem sameValue_self_iff {v : ObservationValue} :
    sameValue v v = some true ↔ v.hasNaN = false := by
  rw [sameValue, conjunction_eq_true_iff]
  simp only [List.mem_cons, List.not_mem_nil, or_false, forall_eq_or_imp, forall_eq,
    decide_true, true_and, and_true, Decimal.equal_self_iff, Decimal.equalOption_self_iff,
    ObservationValue.hasNaN, Bool.or_eq_false_iff, and_assoc]

/-! ### Recording -/

namespace ObservationStore

def maxRevisionAttempts : ℕ := 8

/-- The current revision, when it already carries the candidate's value. -/
def duplicate (current : Option Observation) (data : ObservationInput) :
    App (Option Observation) :=
  match current with
  | none => return none
  | some existing =>
    match sameValue existing.value data.stored with
    | some true => return some existing
    | some false => return none
    | none => throw .invalidOperation

/-- The revision after the current one. -/
def nextRevision (current : Option Observation) : ℕ :=
  match current with
  | none => 1
  | some existing => existing.revision + 1

/-- The loop of `record`, with the number of attempts that are left. -/
def recordLoop (data : ObservationInput) : ℕ → App RecordOutcome
  | 0 => throw (.revisionRaceExhausted data.key)
  | attempts + 1 => do
    let current ← issue (.selectRevision data.key)
    match ← duplicate current data with
    | some existing => return ⟨existing, false, false⟩
    | none =>
      match ← issue (.insertObservation (data.candidate (nextRevision current))) with
      | some candidate => return ⟨candidate, true, current.isSome⟩
      | none => recordLoop data attempts

/-- Insert the observation, or detect that it is already recorded. -/
def record (data : ObservationInput) : App RecordOutcome := recordLoop data maxRevisionAttempts

/-- `record` keeps what its two commands keep. -/
theorem record_keeps {G : Type} {K : Contract Cmd Cmd.Resp G} {I : G → Prop}
    {data : ObservationInput} (hselect : Script.Keeps K I (issue (.selectRevision data.key)))
    (hinsert : ∀ revision, Script.Keeps K I
      (issue (.insertObservation (data.candidate revision)))) :
    Script.Keeps K I (record data) := by
  have hduplicate : ∀ current, Script.Keeps K I (duplicate current data) := by
    intro current
    cases current with
    | none => exact Script.keeps_pure _
    | some existing =>
        rw [duplicate]
        split
        · exact Script.keeps_pure _
        · exact Script.keeps_pure _
        · exact Script.keeps_throw _
  have hloop : ∀ attempts, Script.Keeps K I (recordLoop data attempts) := by
    intro attempts
    induction attempts with
    | zero => exact Script.keeps_throw _
    | succ attempts ih =>
        refine hselect.bind fun current => (hduplicate current).bind fun existing => ?_
        cases existing with
        | some existing => exact Script.keeps_pure _
        | none =>
            refine (hinsert _).bind fun candidate => ?_
            cases candidate with
            | some candidate => exact Script.keeps_pure _
            | none => exact ih
  exact hloop maxRevisionAttempts

/-- The last session date with a stored observation for the key: the recovery cursor. -/
def lastCompletedSession (series : SeriesKey) : App (Option Date) :=
  issue (.selectLastCompleted series)

end ObservationStore

end MarketRelay
