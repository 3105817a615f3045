import MarketRelay.Lib.IsoDate
import MarketRelay.Lib.Json
import MarketRelay.Ports

/-!
# The Cursor of a Fetch

What a worker needs to retrieve a range, serialized into the cursor column of a job. The
text is a JSON object; reading it does not check that the two identifiers are texts, so the
cursor that is read carries JSON values in their place.

## Main results

* `FetchCursor.parse_serialize`: a serialized cursor is read back.
* `FetchCursor.serialize_injective`: distinct cursors have distinct texts.
-/

open Gregorian

namespace MarketRelay

/-- `ObservationType.value` -/
def ObservationType.value : ObservationType → String
  | eodClose => "EOD_CLOSE"
  | nav => "NAV"

/-- `ObservationType(...)`, of a text. -/
def ObservationType.ofValue? (s : String) : Option ObservationType :=
  [eodClose, nav].find? fun t => decide (t.value = s)

/-- Everything a worker needs to retrieve a specific range. -/
structure FetchCursor (τ : Type) where
  externalListingId : τ
  credentialScope : τ
  observationType : ObservationType
  start : Date
  «end» : Date

/-- Why a text is not a cursor. -/
inductive CursorFault where
  /-- The job has no text. -/
  | absent
  /-- The text is not JSON, or not of the right shape. -/
  | malformed
deriving DecidableEq, Repr

/-- The text of the `InvalidCursorError`, given the representation of its cause. -/
def CursorFault.message (cause : String) : CursorFault → String
  | absent => "The job has no serialized cursor."
  | malformed => "Malformed job cursor: " ++ cause

namespace FetchCursor

/-- The same cursor with other identifiers. -/
def map {τ υ : Type} (f : τ → υ) (c : FetchCursor τ) : FetchCursor υ :=
  ⟨f c.externalListingId, f c.credentialScope, c.observationType, c.start, c.end⟩

/-- The payload, with its keys sorted. -/
def payload (c : FetchCursor String) : List (String × String) :=
  [("credential_scope", c.credentialScope), ("end", c.end.isoformat),
    ("external_listing_id", c.externalListingId), ("observation_type", c.observationType.value),
    ("start", c.start.isoformat)]

def serialize (c : FetchCursor String) : String := Json.encodeObject c.payload

/-- The cursor of a payload. -/
def ofPayload (members : List (List ℕ × Json)) : Option (FetchCursor Json) := do
  let externalListingId ← Json.lookup members "external_listing_id"
  let credentialScope ← Json.lookup members "credential_scope"
  let observationType ← Json.lookup members "observation_type"
  let observationType ← observationType.text?.bind ObservationType.ofValue?
  let start ← Json.lookup members "start"
  let start ← start.text?.bind Date.fromIsoformat?
  let «end» ← Json.lookup members "end"
  let «end» ← «end».text?.bind Date.fromIsoformat?
  return ⟨externalListingId, credentialScope, observationType, start, «end»⟩

def parse (raw : Option String) : Except CursorFault (FetchCursor Json) :=
  match raw with
  | none => .error .absent
  | some text =>
    if text = "" then .error .absent
    else
      match Json.decode text with
      | some (.object members) =>
        match ofPayload members with
        | some cursor => .ok cursor
        | none => .error .malformed
      | _ => .error .malformed

theorem ofValue?_value (t : ObservationType) : ObservationType.ofValue? t.value = some t := by
  cases t <;> decide

private theorem ofPayload_payload (c : FetchCursor String) :
    ofPayload (c.payload.map fun m => (Json.codesOf m.1, Json.ofText m.2)) =
      some (c.map Json.ofText) := by
  simp only [ofPayload, Json.lookup_encoded]
  simp [payload, ofValue?_value, Date.fromIsoformat?_isoformat, map]

/-- **A serialized cursor is read back.** -/
theorem parse_serialize (c : FetchCursor String) :
    parse (some c.serialize) = .ok (c.map Json.ofText) := by
  have hdecode := Json.decode_encodeObject c.payload
  have hne : c.serialize ≠ "" := by
    intro h
    rw [serialize] at h
    rw [h] at hdecode
    exact absurd hdecode (by rw [show Json.decode "" = none from rfl]; simp)
  rw [parse, if_neg hne, serialize, hdecode]
  simp only [ofPayload_payload]

/-- **Distinct cursors have distinct texts.** -/
theorem serialize_injective : Function.Injective serialize := by
  intro a b h
  have hparse := parse_serialize a
  rw [h, parse_serialize b] at hparse
  injection hparse with heq
  injection heq with hext hscope htype hstart hend
  cases a
  cases b
  simp only at hext hscope htype hstart hend
  rw [Json.ofText_injective hext, Json.ofText_injective hscope, htype, hstart, hend]

end FetchCursor

end MarketRelay
