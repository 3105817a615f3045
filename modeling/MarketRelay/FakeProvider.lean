import MarketRelay.Lib.Decimal
import MarketRelay.Lib.IsoDate
import MarketRelay.Lib.Json
import MarketRelay.Replanning

/-!
# The Fake Provider

The default provider of prices and of a calendar, deterministic and without network access. Both of
its loops step from day to day and past the last day of the range too, which is not representable
for the last date of all. They decide for themselves which days count: the prices skip every weekend,
and the calendar every weekend but those of a crypto listing.

## Main results

* `FakeMarketDataProvider.PriceSource.deterministicPrice_spec`: what a price is.
* `FakeMarketDataProvider.sessionsInRange_eq`, `FakeMarketDataProvider.fetchRange_eq`: what either
  loop returns.
* `provider_agrees_iff`: exactly when the calendar and the prices agree.
* `provider_disagrees`: the Saturday of a crypto listing.
-/

open Gregorian

namespace MarketRelay

namespace FakeMarketDataProvider

/-! ### The prices -/

/-- What a price is derived from: the hexadecimal digest of a text, and the number that the
floating-point quotient of a number by `0xFFFFFFFF` is written as. -/
structure PriceSource where
  hexdigest : String → List Char
  ratio : ℕ → ℚ
  ratio_nonneg : ∀ n, 0 ≤ ratio n

namespace PriceSource

/-- `_deterministic_price`; it is asked for finite numbers only. -/
def deterministicPrice (p : PriceSource) (seed : String) : Decimal → Decimal → Decimal
  | .finite base, .finite spread =>
    let digest := p.hexdigest seed
    let ratio := p.ratio (Json.ofHex (digest.take 8))
    let value := base + spread * ratio
    .finite ((Rounding.halfAway 2).round value)
  | _, _ => .nan false

/-- **A price** is a number from 10 on, with two decimal places. -/
theorem deterministicPrice_spec (p : PriceSource) (seed : String) :
    ∃ q, p.deterministicPrice seed (.finite 10) (.finite 90) = .finite q ∧ 10 ≤ q ∧
      FitsScale 2 q := by
  have hratio := p.ratio_nonneg (Json.ofHex ((p.hexdigest seed).take 8))
  refine ⟨_, rfl, ?_, (Rounding.halfAway 2).fits _⟩
  exact_mod_cast Rounding.le_halfAway (n := 10) (by push_cast; linarith)

end PriceSource

/-! ### The two loops -/

section

variable (deterministicPrice : String → Decimal → Decimal → Decimal)

/-- What the source reports of a day; the price is derived from the seed. -/
def observationOf (externalListingId : String) (current : Date) : RawObservation :=
  let seed := externalListingId ++ "|" ++ current.isoformat
  let close := deterministicPrice seed (.finite 10) (.finite 90)
  { externalListingId := externalListingId
    sessionDate := current
    observationType := .eodClose
    currency := "EUR"
    close := close
    «open» := some close
    high := some close
    low := some close
    adjustedClose := some close }

/-- No weekends in the fake exchange. -/
def fetchRange (externalListingId : String) (start «end» : Date) :
    Except PyError (List RawObservation) :=
  RecoveryPlanner.orOverflow <| Date.dayLoop (fun current =>
    if current.weekday < 5 then [observationOf deterministicPrice externalListingId current]
    else []) «end» start

end

/-- `_expectation` -/
def expectation (assetClass : AssetClass) (sessionDate : Date) : SessionExpectation :=
  if assetClass = .crypto then .expectedPublished
  else if 5 ≤ sessionDate.weekday then .noSession
  else if assetClass = .fund ∧ sessionDate.weekday = 4 then .waitingForPublication
  else .expectedPublished

/-- `sessions_in_range` -/
def sessionsInRange : Calendar := fun assetClass _ _ start «end» =>
  RecoveryPlanner.orOverflow <| Date.dayLoop (fun current =>
    [⟨current, expectation assetClass current⟩]) «end» start

/-! ### What they return -/

section

variable {deterministicPrice : String → Decimal → Decimal → Decimal} {externalListingId : String}
  {assetClass : AssetClass} {venue : String} {mic : Option String} {start final : Date}

/-- **The calendar** classifies every date of the range, unless the range ends on the last date. -/
theorem sessionsInRange_eq :
    sessionsInRange assetClass venue mic start final =
      if start ≤ final ∧ final.ordinal = maxOrdinal then .error .overflow
      else Calendar.ofClassification (expectation assetClass) assetClass venue mic start final := by
  rw [sessionsInRange, Date.dayLoop_eq]
  split
  · rfl
  · rw [Calendar.ofClassification, List.map_eq_flatMap]
    rfl

/-- **The prices** are those of the weekdays, unless the range ends on the last date. -/
theorem fetchRange_eq :
    fetchRange deterministicPrice externalListingId start final =
      if start ≤ final ∧ final.ordinal = maxOrdinal then .error .overflow
      else .ok (((Date.interval start final).filter fun d => decide (d.weekday < 5)).map
        (observationOf deterministicPrice externalListingId)) := by
  rw [fetchRange, Date.dayLoop_ite]
  split <;> rfl

/-- A crypto market never closes. -/
theorem expectation_crypto (d : Date) : expectation .crypto d = .expectedPublished := rfl

/-- Any other market closes on weekends. -/
theorem expectation_eq_noSession_iff {d : Date} (hclass : assetClass ≠ .crypto) :
    expectation assetClass d = .noSession ↔ ¬ d.weekday < 5 := by
  rw [expectation, if_neg hclass, not_lt]
  split
  · rename_i hd
    exact iff_of_true rfl hd
  · rename_i hd
    split <;> exact iff_of_false (by simp) hd

end

end FakeMarketDataProvider

/-! ### The agreement -/

/-- The prices cover what the calendar expects, and nothing that it excludes, each date at most once
and in increasing order. -/
structure HistoryAgrees (checks : List SessionCheck) (observations : List RawObservation) :
    Prop where
  published : ∀ check ∈ checks, check.expectation = .expectedPublished →
    ∃ o ∈ observations, o.sessionDate = check.sessionDate
  closed : ∀ check ∈ checks, check.expectation = .noSession →
    ∀ o ∈ observations, o.sessionDate ≠ check.sessionDate
  increasing : (observations.map RawObservation.sessionDate).Pairwise (· < ·)

open FakeMarketDataProvider

section

variable {deterministicPrice : String → Decimal → Decimal → Decimal} {externalListingId : String}
  {classify : Date → SessionExpectation} {start final : Date}

/-- The agreement, day by day. -/
theorem historyAgrees_iff :
    HistoryAgrees ((Date.interval start final).map fun d => ⟨d, classify d⟩)
        (((Date.interval start final).filter fun d => decide (d.weekday < 5)).map
          (observationOf deterministicPrice externalListingId)) ↔
      ∀ d, start ≤ d → d ≤ final →
        (classify d = .expectedPublished → d.weekday < 5) ∧
          (classify d = .noSession → ¬ d.weekday < 5) := by
  have hfetched : ∀ d, start ≤ d → d ≤ final →
      ((∃ o ∈ ((Date.interval start final).filter fun d => decide (d.weekday < 5)).map
        (observationOf deterministicPrice externalListingId), o.sessionDate = d) ↔
          d.weekday < 5) := by
    intro d hstart hfinal
    simp only [List.mem_map, List.mem_filter, Date.mem_interval, decide_eq_true_eq,
      exists_exists_and_eq_and]
    constructor
    · rintro ⟨d', ⟨-, hd'⟩, rfl⟩
      exact hd'
    · exact fun hd => ⟨d, ⟨⟨hstart, hfinal⟩, hd⟩, rfl⟩
  constructor
  · intro h d hstart hfinal
    have hcheck : (⟨d, classify d⟩ : SessionCheck) ∈ (Date.interval start final).map fun d =>
        ⟨d, classify d⟩ := List.mem_map_of_mem (Date.mem_interval.mpr ⟨hstart, hfinal⟩)
    refine ⟨fun hpublished => (hfetched d hstart hfinal).mp (h.published _ hcheck hpublished),
      fun hnone hd => ?_⟩
    obtain ⟨o, ho, hdate⟩ := (hfetched d hstart hfinal).mpr hd
    exact h.closed _ hcheck hnone o ho hdate
  · intro h
    refine ⟨fun check hcheck hpublished => ?_, fun check hcheck hnone o ho hdate => ?_, ?_⟩
    · obtain ⟨d, hd, rfl⟩ := List.mem_map.mp hcheck
      obtain ⟨hstart, hfinal⟩ := Date.mem_interval.mp hd
      exact (hfetched d hstart hfinal).mpr ((h d hstart hfinal).1 hpublished)
    · obtain ⟨d, hd, rfl⟩ := List.mem_map.mp hcheck
      obtain ⟨hstart, hfinal⟩ := Date.mem_interval.mp hd
      exact (h d hstart hfinal).2 hnone ((hfetched d hstart hfinal).mp ⟨o, ho, hdate⟩)
    · rw [List.map_map]
      exact List.pairwise_map.mpr ((Date.interval_strict start final).filter _)

end

/-- **The calendar and the prices agree exactly when** the range does not end on the last
representable date, and, for a crypto listing, has no weekend. -/
theorem provider_agrees_iff (deterministicPrice : String → Decimal → Decimal → Decimal)
    (externalListingId : String) (assetClass : AssetClass) (venue : String) (mic : Option String)
    (start final : Date) :
    (∃ checks observations,
      sessionsInRange assetClass venue mic start final = .ok checks ∧
        fetchRange deterministicPrice externalListingId start final = .ok observations ∧
          HistoryAgrees checks observations) ↔
      (start ≤ final → final.ordinal < maxOrdinal) ∧
        (assetClass = .crypto → ∀ d, start ≤ d → d ≤ final → d.weekday < 5) := by
  rw [sessionsInRange_eq, fetchRange_eq]
  by_cases hlast : start ≤ final ∧ final.ordinal = maxOrdinal
  · rw [if_pos hlast]
    refine iff_of_false (fun ⟨_, _, h, _⟩ => nomatch h) fun ⟨hbefore, _⟩ => ?_
    exact absurd hlast.2 (hbefore hlast.1).ne
  · rw [if_neg hlast, if_neg hlast]
    have hbefore : start ≤ final → final.ordinal < maxOrdinal := fun hle =>
      lt_of_le_of_ne final.le_max fun heq => hlast ⟨hle, heq⟩
    simp only [Calendar.ofClassification, Except.ok.injEq, exists_and_left, exists_eq_left',
      historyAgrees_iff]
    constructor
    · rintro hagree
      refine ⟨hbefore, ?_⟩
      rintro rfl d hstart hfinal
      exact (hagree d hstart hfinal).1 (expectation_crypto d)
    · rintro ⟨-, hweekdays⟩ d hstart hfinal
      by_cases hclass : assetClass = .crypto
      · have hd := hweekdays hclass d hstart hfinal
        subst hclass
        exact ⟨fun _ => hd, fun hnone => absurd hnone (by rw [expectation_crypto]; simp)⟩
      · rw [expectation_eq_noSession_iff hclass]
        refine ⟨fun hpublished => ?_, id⟩
        by_contra hd
        rw [(expectation_eq_noSession_iff hclass).mpr hd] at hpublished
        exact absurd hpublished (by simp)

/-- **The calendar expects a price that there is not**: that of a crypto listing on a Saturday. -/
theorem provider_disagrees :
    ¬ ∀ (deterministicPrice : String → Decimal → Decimal → Decimal) (externalListingId : String)
      (assetClass : AssetClass) (venue : String) (mic : Option String) (start final : Date)
      (checks : List SessionCheck) (observations : List RawObservation),
      sessionsInRange assetClass venue mic start final = .ok checks →
        fetchRange deterministicPrice externalListingId start final = .ok observations →
          HistoryAgrees checks observations := by
  intro hall
  let saturday : Date := ⟨738891, by decide, by decide⟩
  have hlast : ¬ (saturday ≤ saturday ∧ saturday.ordinal = maxOrdinal) := by decide
  have hchecks : sessionsInRange .crypto "KRAKEN" none saturday saturday =
      .ok [⟨saturday, .expectedPublished⟩] := by
    rw [sessionsInRange_eq, if_neg hlast]
    decide +kernel
  have hprices : fetchRange (fun _ _ _ => .finite 10) "FAKE-BTC-KRAKEN" saturday saturday =
      .ok [] := by
    rw [fetchRange_eq, if_neg hlast]
    decide +kernel
  obtain ⟨o, ho, -⟩ := (hall _ _ _ _ _ _ _ _ _ hchecks hprices).published _
    List.mem_cons_self rfl
  exact absurd ho List.not_mem_nil

end MarketRelay
