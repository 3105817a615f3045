import MarketRelay.RowIsolation

/-!
# What Validation Accepts

The check of a raw row against its rules, row by row: it should return exactly for the rows that
meet them and refuse every other row with the one exception. The pattern of the currency ends in
`$`, which matches at the end of the text and also before a newline at the end, so a code of three
capital letters is accepted with such a newline.

## Main results

* `currencyMatches_iff`: the language of the pattern.
* `validate_exact_iff`: the rows for which the check decides the rules.
-/

open Gregorian

namespace MarketRelay

/-- **The language of the currency pattern**: the codes, and the codes before a final newline. -/
theorem currencyMatches_iff {s : String} :
    currencyMatches s = true ↔
      isCurrencyCode s = true ∨ ∃ code, isCurrencyCode code = true ∧ s = code ++ "\n" := by
  constructor
  · intro h
    rw [currencyMatches] at h
    split at h
    · rename_i a b c hlist
      refine Or.inl ?_
      rw [isCurrencyCode, hlist]
      exact h
    · rename_i a b c hlist
      refine Or.inr ⟨String.ofList [a, b, c], ?_, String.toList_inj.mp ?_⟩
      · rw [isCurrencyCode, String.toList_ofList]
        exact h
      · rw [hlist, String.toList_append, String.toList_ofList]
        rfl
    · exact absurd h (by simp)
  · rintro (hcode | ⟨code, hcode, rfl⟩)
    · exact currencyMatches_of_isCurrencyCode hcode
    · rw [isCurrencyCode] at hcode
      split at hcode
      · rename_i a b c hlist
        have hends : (code ++ "\n").toList = [a, b, c, '\n'] := by
          rw [String.toList_append, hlist]
          rfl
        rw [currencyMatches, hends]
        exact hcode
      · exact absurd hcode (by simp)

/-- A code with a newline after it is not a code. -/
theorem isCurrencyCode_newline {code : String} (h : isCurrencyCode code = true) :
    isCurrencyCode (code ++ "\n") = false := by
  rw [isCurrencyCode] at h
  split at h
  · rename_i a b c hlist
    have hends : (code ++ "\n").toList = [a, b, c, '\n'] := by
      rw [String.toList_append, hlist]
      rfl
    rw [isCurrencyCode, hends]
  · exact absurd h (by simp)

/-- A row that may be stored: of the listing and the range that were asked for, in a currency of
three capital letters, with a positive finite close. -/
structure Usable (listing : Json) (first last : Date) (raw : RawObservation) : Prop where
  externalListingId : listing.text? = some raw.externalListingId
  sessionDate : first ≤ raw.sessionDate ∧ raw.sessionDate ≤ last
  currency : isCurrencyCode raw.currency = true
  close : raw.close.isFinite = true ∧ raw.close.nonpos = some false

/-- The check returns exactly for a usable row, and refuses a row with `MalformedObservationError`
only. -/
structure ValidatesExactly (raw : RawObservation) (listing : Json) (first last : Date) : Prop where
  accepts : validateRawObservation raw listing first last = .ok () ↔ Usable listing first last raw
  refuses : ¬ Usable listing first last raw →
    ∃ message, validateRawObservation raw listing first last = .error (.malformedObservation message)

/-- **The check decides the rules exactly when** the row is not one that passes every other check
and ends its currency code with a newline. -/
theorem validate_exact_iff {raw : RawObservation} {listing : Json} {first last : Date}
    (hordered : raw.close.isNaN = false) :
    ValidatesExactly raw listing first last ↔
      ¬ (listing.text? = some raw.externalListingId ∧
        (first ≤ raw.sessionDate ∧ raw.sessionDate ≤ last) ∧
        (∃ code, isCurrencyCode code = true ∧ raw.currency = code ++ "\n") ∧
        raw.close.isFinite = true ∧ raw.close.nonpos = some false) := by
  constructor
  · rintro h ⟨hid, hdate, ⟨code, hcode, hcurrency⟩, hclose⟩
    have hok := IngestionRunner.validate_eq_ok_iff.mpr
      ⟨hid, hdate, currencyMatches_iff.mpr (Or.inr ⟨code, hcode, hcurrency⟩), hclose⟩
    have husable := (h.accepts.mp hok).currency
    rw [hcurrency, isCurrencyCode_newline hcode] at husable
    exact absurd husable (by simp)
  · intro h
    have haccepts : validateRawObservation raw listing first last = .ok () ↔
        Usable listing first last raw := by
      rw [IngestionRunner.validate_eq_ok_iff]
      constructor
      · rintro ⟨hid, hdate, hmatches, hclose⟩
        have hcode := (currencyMatches_iff.mp hmatches).resolve_right fun hnewline =>
          h ⟨hid, hdate, hnewline, hclose⟩
        exact ⟨hid, hdate, hcode, hclose⟩
      · intro husable
        exact ⟨husable.externalListingId, husable.sessionDate,
          currencyMatches_of_isCurrencyCode husable.currency, husable.close⟩
    refine ⟨haccepts, fun hno => ?_⟩
    cases hvalidate : validateRawObservation raw listing first last with
    | ok _ => exact absurd (haccepts.mp hvalidate) hno
    | error e =>
        obtain ⟨message, rfl⟩ :=
          IngestionRunner.malformed_of_validate hvalidate fun _ _ _ => hordered
        exact ⟨message, rfl⟩

/-- A row in euros is decided by the rules. -/
theorem validate_exact_euro :
    ValidatesExactly (dayRow "EUR" (.finite 1)) claimedCursor.externalListingId
      claimedCursor.start claimedCursor.end :=
  (validate_exact_iff rfl).mpr fun ⟨_, _, ⟨code, _, hcurrency⟩, _⟩ => by
    have hlast := congrArg (fun s : String => s.toList.getLast?) hcurrency
    simp [dayRow, String.toList_append] at hlast

/-- **A newline after the code is accepted**, in a row that is not usable. -/
theorem validate_accepts_newline :
    validateRawObservation (dayRow "EUR\n" (.finite 1)) claimedCursor.externalListingId
        claimedCursor.start claimedCursor.end = .ok () ∧
      ¬ ValidatesExactly (dayRow "EUR\n" (.finite 1)) claimedCursor.externalListingId
        claimedCursor.start claimedCursor.end := by
  have hok : validateRawObservation (dayRow "EUR\n" (.finite 1)) claimedCursor.externalListingId
      claimedCursor.start claimedCursor.end = .ok () := by decide +kernel
  exact ⟨hok, fun h => absurd (h.accepts.mp hok).currency (by decide)⟩

end MarketRelay
