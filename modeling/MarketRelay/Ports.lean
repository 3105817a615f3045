import MarketRelay.Models

/-!
# Ports and Errors

The data that crosses the neutral ports (calendar, historical prices, quota), the settings,
and the exceptions that the modelled code raises or receives through them.

An adapter may raise anything, so its exceptions carry an arbitrary type name and text;
`adapterErrorCode` is the closed set of codes that is all the source ever stores of them.
-/

open Gregorian

namespace MarketRelay

/-- Supported asset classes. -/
inductive AssetClass where
  | equity
  | etf
  | fund
  | crypto
deriving DecidableEq, Repr

/-- What to expect for a specific date for a listing. -/
inductive SessionExpectation where
  | expectedPublished
  | waitingForPublication
  | noSession
deriving DecidableEq, Repr

/-- The calendar's classification of one date. -/
structure SessionCheck where
  sessionDate : Date
  expectation : SessionExpectation
deriving DecidableEq, Repr

/-- The settings that the modelled code reads. -/
structure Settings where
  /-- In the order of priority. -/
  enabledSources : List String
  jobLeaseSeconds : ℤ
  waitingPublicationRetrySeconds : ℤ
deriving DecidableEq, Repr

/-- Raw value returned by a source, uninterpreted and unadjusted. -/
structure RawObservation where
  externalListingId : String
  sessionDate : Date
  observationType : ObservationType
  currency : String
  close : Decimal
  «open» : Option Decimal
  high : Option Decimal
  low : Option Decimal
  adjustedClose : Option Decimal
deriving DecidableEq

/-- Quota of a source. -/
structure QuotaStatus where
  source : String
  remaining : ℤ
  limit : ℤ
  resetAt : Option Instant
deriving DecidableEq, Repr

def QuotaStatus.exhausted (q : QuotaStatus) : Bool := decide (q.remaining ≤ 0)

/-- The exceptions of the modelled code. -/
inductive PyError where
  /-- `StaleJobClaimError`; the text of `claim_job` names no generation. -/
  | staleJobClaim (jobId : ℕ) (generation : Option ℕ) (workerId : String)
  /-- An attribute of an expired object whose row no longer exists. -/
  | objectDeleted
  | integrity
  | policyNotAuthorized (source : String) (blocking : List (PolicyCapability × PolicyStatus))
  | invalidCursor (message : String)
  /-- A parameter that the driver cannot bind to its column. -/
  | statement
  | malformedObservation (message : String)
  | revisionRaceExhausted (key : NaturalKey)
  | noEligibleObservation (policyName : String) (listingId : ℕ) (sessionDate : Date)
      (observationType : ObservationType)
  | assertion
  /-- A comparison with a NaN. -/
  | invalidOperation
  /-- A date outside the representable range. -/
  | overflow
  | index
  /-- `ValueError` -/
  | value
  | unknownSource (source capability : String)
  | calendarUnavailable (mic venue : String)
  | providerTimeout
  | providerProcess
  /-- Whatever an adapter raises. -/
  | adapter (typeName text : String)
deriving DecidableEq, Repr

namespace PyError

def unknownSourceCode : String := "unknown_source"

def adapterErrorCodeText : String := "adapter_error"

def providerTimeoutCode : String := "provider_timeout"

/-- Map an exception to a bounded, generic error code. -/
def adapterErrorCode : PyError → String
  | unknownSource .. => unknownSourceCode
  | providerTimeout => providerTimeoutCode
  | _ => adapterErrorCodeText

/-- The exceptions that are instances of `StaleJobClaimError`. -/
def isStaleJobClaim : PyError → Bool
  | staleJobClaim .. => true
  | _ => false

end PyError

end MarketRelay
