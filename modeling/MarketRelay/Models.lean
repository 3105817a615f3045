import MarketRelay.Lib.Calendar
import MarketRelay.Lib.Decimal
import MarketRelay.Lib.Table
import MarketRelay.Lib.UpperCase

/-!
# The Stored Rows

The tables that ingestion and publication share: the persistent job queue, the
append-only observations and the versioned policy decisions, each with the unique
constraints that the schema declares. Columns that no modelled function reads
(`updated_at` everywhere, `created_at` outside the job queue) are left out.

Instants are microseconds since the epoch, which is the resolution of the timestamps the
source computes with. Client-generated identifiers are natural numbers: they are only
compared, for equality and in `ORDER BY`.
-/

open Gregorian

namespace MarketRelay

/-- An instant, in microseconds since the epoch. -/
abbrev Instant := ℤ

/-- `timedelta(seconds=n)`. -/
def seconds (n : ℤ) : ℤ := n * 1000000

/-- `str.upper` -/
def upper (s : String) : String := Unicode.upper s

/-! ### Jobs -/

/-- Status of an ingestion job's lifecycle. -/
inductive JobStatus where
  | pending
  | claimed
  | running
  | waitingForPublication
  | done
  | failed
deriving DecidableEq, Repr

/-- A worker owns the job: `CLAIMED` or `RUNNING`. -/
def JobStatus.held : JobStatus → Bool
  | claimed | running => true
  | _ => false

/-- The job is over: `DONE` or `FAILED`. -/
def JobStatus.ended : JobStatus → Bool
  | done | failed => true
  | _ => false

/-- A row of the persistent queue. -/
structure Job where
  id : ℕ
  jobType : String
  dedupeKey : String
  source : String
  listingId : Option ℕ
  status : JobStatus
  cursor : Option String
  attemptCount : ℕ
  maxAttempts : ℕ
  nextRunAt : Instant
  claimedBy : Option String
  claimedAt : Option Instant
  generation : ℕ
  lastError : Option String
  createdAt : Instant
deriving DecidableEq, Repr

/-- Two jobs cannot share their identifier or their deduplication key. -/
instance : Relational.Schema Job ℕ where
  pk := Job.id
  Clash a b := a.id = b.id ∨ a.dedupeKey = b.dedupeKey
  clash_of_pk h := Or.inl h
  clash_symm h := h.imp Eq.symm Eq.symm

abbrev JobTable := Relational.Table Job

@[simp] theorem Job.pk_eq (j : Job) : Relational.Schema.pk j = j.id := rfl

/-- An assignment to the columns of a job other than its identifier and its
deduplication key. -/
def Job.edit (f : Job → Job) (hid : ∀ j, (f j).id = j.id)
    (hkey : ∀ j, (f j).dedupeKey = j.dedupeKey) : Relational.Edit Job where
  apply := f
  pk_apply := hid
  clash_apply a b := by
    change (f a).id = b.id ∨ (f a).dedupeKey = b.dedupeKey ↔ _
    rw [hid, hkey]
    rfl

/-! ### Observations -/

/-- Nature of the observed value. -/
inductive ObservationType where
  | eodClose
  | nav
deriving DecidableEq, Repr

/-- Quality status assigned during ingestion validation. -/
inductive QualityStatus where
  | ok
  | suspect
deriving DecidableEq, Repr

/-- The natural idempotency key of an observation. -/
structure NaturalKey where
  source : String
  credentialScope : String
  externalListingId : String
  sessionDate : Date
  observationType : ObservationType
deriving DecidableEq, Repr

/-- What the observations of a listing's series have in common. -/
structure SeriesKey where
  source : String
  credentialScope : String
  externalListingId : String
  observationType : ObservationType
deriving DecidableEq, Repr

/-- The natural key of a session of the series. -/
def SeriesKey.at (k : SeriesKey) (d : Date) : NaturalKey :=
  ⟨k.source, k.credentialScope, k.externalListingId, d, k.observationType⟩

/-- The fields that `_VALUE_FIELDS` names: what a correction changes. -/
structure ObservationValue where
  currency : String
  close : Decimal
  «open» : Option Decimal
  high : Option Decimal
  low : Option Decimal
  adjustedClose : Option Decimal
  qualityStatus : QualityStatus
deriving DecidableEq

/-- An immutable observation: one revision of a natural key. -/
structure Observation where
  id : ℕ
  listingId : ℕ
  key : NaturalKey
  revision : ℕ
  value : ObservationValue
  retrievedAt : Instant
  retrievalPolicyDecisionId : Option ℕ
  storagePolicyDecisionId : Option ℕ
deriving DecidableEq

/-- Two observations cannot share their identifier, nor their natural key and revision. -/
instance : Relational.Schema Observation ℕ where
  pk := Observation.id
  Clash a b := a.id = b.id ∨ (a.key = b.key ∧ a.revision = b.revision)
  clash_of_pk h := Or.inl h
  clash_symm h := h.imp Eq.symm fun h => ⟨h.1.symm, h.2.symm⟩

abbrev ObservationTable := Relational.Table Observation

/-! ### Policy decisions -/

/-- Independent permissions that a source can grant or deny. -/
inductive PolicyCapability where
  | retrieve
  | store
  | display
  | redistribute
  | attribute
  | retain
deriving DecidableEq, Repr

/-- Status of a policy decision. -/
inductive PolicyStatus where
  | approved
  | denied
  | unresolved
deriving DecidableEq, Repr

/-- An immutable version of a source's decision for one capability. -/
structure SourcePolicyDecision where
  id : ℕ
  source : String
  capability : PolicyCapability
  version : ℕ
  status : PolicyStatus
  evidenceReference : String
  reviewedBy : String
  reviewedAt : Instant
  notes : Option String
deriving DecidableEq, Repr

/-- Two decisions cannot share their identifier, nor source, capability and version. -/
instance : Relational.Schema SourcePolicyDecision ℕ where
  pk := SourcePolicyDecision.id
  Clash a b := a.id = b.id ∨
    (a.source = b.source ∧ a.capability = b.capability ∧ a.version = b.version)
  clash_of_pk h := Or.inl h
  clash_symm h := h.imp Eq.symm fun h => ⟨h.1.symm, h.2.1.symm, h.2.2.symm⟩

abbrev DecisionTable := Relational.Table SourcePolicyDecision

/-! ### Concrete tables -/

/-- The second of January 2026, the day of the concrete tables. -/
def today : Date := ⟨739618, by decide, by decide⟩

end MarketRelay
