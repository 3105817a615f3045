import MarketRelay.Cursor

/-!
# The Exceptions of Reading a Cursor

`FetchCursor.parse` with the exceptions that its expressions raise and the handler that turns three
classes of them into `InvalidCursorError`: a payload that is no object raises on the first
subscript, a missing key, an unknown observation type and a text that is no date raise each in its
own way, and the decoder can run out of stack on a text that nests too deep. The last one is the
only exception that the handler does not name.

Where the decoder does not run out of stack, this is the parser of `Cursor`
(`parseRaising_eq_parse`).

## Main results

* `FetchCursor.parse_total`: round trip, distinct texts, and no other exception on a short text.
-/

open Gregorian

namespace MarketRelay

/-- What reading a cursor can raise. -/
inductive CursorError where
  | keyError (key : String)
  | valueError
  | typeError
  | recursionError
  /-- `InvalidCursorError` -/
  | invalidCursor (fault : CursorFault)
deriving DecidableEq, Repr

/-- `except (KeyError, ValueError, TypeError)` -/
def CursorError.isHandled : CursorError → Bool
  | keyError _ | valueError | typeError => true
  | recursionError | invalidCursor _ => false

namespace FetchCursor

/-- `json.loads`, in an interpreter whose stack does not suffice for some texts.
`JSONDecodeError` is a `ValueError`. -/
def loads (exhausts : String → Bool) (raw : String) : Except CursorError Json :=
  if exhausts raw then .error .recursionError
  else
    match Json.decode raw with
    | some payload => .ok payload
    | none => .error .valueError

/-- `payload[key]`. Only an object has text keys; every other value raises `TypeError`. -/
def getItem (payload : Json) (key : String) : Except CursorError Json :=
  match payload with
  | .object members =>
    match Json.lookup members key with
    | some value => .ok value
    | none => .error (.keyError key)
  | _ => .error .typeError

/-- `ObservationType(value)`. A value that is not hashable is looked for one by one, and is no
member either. -/
def observationTypeOf (value : Json) : Except CursorError ObservationType :=
  match value.text?.bind ObservationType.ofValue? with
  | some observationType => .ok observationType
  | none => .error .valueError

/-- `date.fromisoformat(value)` -/
def dateOf (value : Json) : Except CursorError Date :=
  match value with
  | .string codes =>
    match (Json.string codes).text?.bind Date.fromIsoformat? with
    | some day => .ok day
    | none => .error .valueError
  | _ => .error .typeError

/-- The arguments of the constructor, in their order. -/
def construct (payload : Json) : Except CursorError (FetchCursor Json) := do
  let externalListingId ← getItem payload "external_listing_id"
  let credentialScope ← getItem payload "credential_scope"
  let observationType ← observationTypeOf (← getItem payload "observation_type")
  let start ← dateOf (← getItem payload "start")
  let «end» ← dateOf (← getItem payload "end")
  return ⟨externalListingId, credentialScope, observationType, start, «end»⟩

/-- The handler around an expression. -/
def handle {α : Type} : Except CursorError α → Except CursorError α
  | .ok value => .ok value
  | .error e => if e.isHandled then .error (.invalidCursor .malformed) else .error e

/-- `FetchCursor.parse`, with every exception. -/
def parseRaising (exhausts : String → Bool) (raw : Option String) :
    Except CursorError (FetchCursor Json) :=
  match raw with
  | none => .error (.invalidCursor .absent)
  | some text =>
    if text = "" then .error (.invalidCursor .absent)
    else handle do
      let payload ← loads exhausts text
      construct payload

/-! ### Against the parser without exceptions -/

/-- Every exception of an expression of the constructor is handled. -/
def OnlyHandled {α : Type} (x : Except CursorError α) : Prop :=
  ∀ e, x = .error e → e.isHandled = true

theorem OnlyHandled.bind {α β : Type} {x : Except CursorError α} {f : α → Except CursorError β}
    (hx : OnlyHandled x) (hf : ∀ a, OnlyHandled (f a)) : OnlyHandled (x >>= f) := by
  intro e he
  cases x with
  | error e' =>
      obtain rfl : e' = e := Except.error.inj he
      exact hx e' rfl
  | ok a => exact hf a e he

theorem onlyHandled_getItem (payload : Json) (key : String) :
    OnlyHandled (getItem payload key) := by
  intro e he
  cases payload with
  | object members =>
      rw [getItem] at he
      split at he
      · exact absurd he (by simp)
      · exact Except.error.inj he ▸ rfl
  | _ => exact Except.error.inj he ▸ rfl

theorem onlyHandled_observationTypeOf (value : Json) : OnlyHandled (observationTypeOf value) := by
  intro e he
  rw [observationTypeOf] at he
  split at he
  · exact absurd he (by simp)
  · exact Except.error.inj he ▸ rfl

theorem onlyHandled_dateOf (value : Json) : OnlyHandled (dateOf value) := by
  intro e he
  cases value with
  | string codes =>
      rw [dateOf] at he
      split at he
      · exact absurd he (by simp)
      · exact Except.error.inj he ▸ rfl
  | _ => exact Except.error.inj he ▸ rfl

theorem onlyHandled_construct (payload : Json) : OnlyHandled (construct payload) :=
  (onlyHandled_getItem _ _).bind fun _ => (onlyHandled_getItem _ _).bind fun _ =>
    (onlyHandled_getItem _ _).bind fun _ => (onlyHandled_observationTypeOf _).bind fun _ =>
      (onlyHandled_getItem _ _).bind fun _ => (onlyHandled_dateOf _).bind fun _ =>
        (onlyHandled_getItem _ _).bind fun _ => (onlyHandled_dateOf _).bind fun _ =>
          fun _ he => absurd he (by simp [pure, Except.pure])

theorem toOption_bind {α β : Type} (x : Except CursorError α) (f : α → Except CursorError β) :
    (x >>= f).toOption = x.toOption.bind fun a => (f a).toOption := by
  cases x <;> rfl

theorem toOption_getItem (members : List (List ℕ × Json)) (key : String) :
    (getItem (.object members) key).toOption = Json.lookup members key := by
  rw [getItem]
  cases Json.lookup members key <;> rfl

theorem toOption_observationTypeOf (value : Json) :
    (observationTypeOf value).toOption = value.text?.bind ObservationType.ofValue? := by
  rw [observationTypeOf]
  cases value.text?.bind ObservationType.ofValue? <;> rfl

theorem toOption_dateOf (value : Json) :
    (dateOf value).toOption = value.text?.bind Date.fromIsoformat? := by
  cases value with
  | string codes =>
      rw [dateOf]
      cases (Json.string codes).text?.bind Date.fromIsoformat? <;> rfl
  | _ => rfl

theorem toOption_construct (members : List (List ℕ × Json)) :
    (construct (.object members)).toOption = ofPayload members := by
  simp only [construct, toOption_bind, toOption_getItem, toOption_observationTypeOf,
    toOption_dateOf, ofPayload]
  rfl

theorem handle_of_onlyHandled {α : Type} {x : Except CursorError α} (h : OnlyHandled x) :
    handle x = match x.toOption with
      | some a => .ok a
      | none => .error (.invalidCursor .malformed) := by
  cases x with
  | ok a => rfl
  | error e => rw [handle, if_pos (h e rfl)]; rfl

theorem onlyHandled_loads {exhausts : String → Bool} {text : String} (h : exhausts text = false) :
    OnlyHandled (loads exhausts text) := by
  intro e he
  rw [loads, h, if_neg Bool.false_ne_true] at he
  split at he
  · exact absurd he (by simp)
  · exact Except.error.inj he ▸ rfl

theorem toOption_loads {exhausts : String → Bool} {text : String} (h : exhausts text = false) :
    (loads exhausts text).toOption = Json.decode text := by
  rw [loads, h, if_neg Bool.false_ne_true]
  cases Json.decode text <;> rfl

/-- **The parser without exceptions**: where the stack suffices, every exception is one for an
invalid cursor. -/
theorem parseRaising_eq_parse {exhausts : String → Bool} {raw : Option String}
    (h : ∀ text, raw = some text → exhausts text = false) :
    parseRaising exhausts raw = match parse raw with
      | .ok cursor => .ok cursor
      | .error fault => .error (.invalidCursor fault) := by
  cases raw with
  | none => rfl
  | some text =>
      by_cases hempty : text = ""
      · rw [parseRaising, parse, if_pos hempty, if_pos hempty]
      · have hstack := h text rfl
        rw [parseRaising, parse, if_neg hempty, if_neg hempty,
          handle_of_onlyHandled ((onlyHandled_loads hstack).bind onlyHandled_construct),
          toOption_bind, toOption_loads hstack]
        cases Json.decode text with
        | none => rfl
        | some payload =>
            cases payload with
            | object members =>
                rw [Option.bind_some, toOption_construct]
                cases hcursor : ofPayload members <;> simp only [hcursor]
            | _ => rfl

/-! ### Short texts -/

/-- An interpreter with this many levels of stack: only a text that nests deeper exhausts it. A text
nests no deeper than it has characters, and one that is decoded nests as deep as its value. -/
structure StackLimit (levels : ℕ) (exhausts : String → Bool) : Prop where
  length : ∀ text, exhausts text = true → levels < text.length
  depth : ∀ text payload, exhausts text = true → Json.decode text = some payload →
    levels < payload.depth

/-- A serialized cursor is one level deep. -/
theorem StackLimit.serialize {levels : ℕ} {exhausts : String → Bool}
    (h : StackLimit levels exhausts) (hlevels : 1 ≤ levels) (c : FetchCursor String) :
    exhausts c.serialize = false := by
  refine Bool.eq_false_iff.mpr fun hexhausts => ?_
  have hdeep := h.depth _ _ hexhausts (Json.decode_encodeObject c.payload)
  rw [Json.depth_encoded] at hdeep
  omega

/-- **Cursors survive the column, and reading one raises nothing else**: a serialized cursor is
parsed to itself, distinct cursors have distinct texts, and of no text, or of a text of at most 512
characters, the parser returns a cursor or raises `InvalidCursorError`. -/
theorem parse_total {levels : ℕ} {exhausts : String → Bool} (hstack : StackLimit levels exhausts)
    (hlevels : 512 ≤ levels) :
    (∀ c : FetchCursor String,
      parseRaising exhausts (some c.serialize) = .ok (c.map Json.ofText)) ∧
    Function.Injective serialize ∧
    ∀ raw : Option String, (∀ text, raw = some text → text.length ≤ 512) →
      (∃ cursor, parseRaising exhausts raw = .ok cursor) ∨
        ∃ fault, parseRaising exhausts raw = .error (.invalidCursor fault) := by
  refine ⟨fun c => ?_, serialize_injective, fun raw hshort => ?_⟩
  · have hsuffices : ∀ text, some c.serialize = some text → exhausts text = false := by
      intro text htext
      obtain rfl := Option.some.inj htext
      exact hstack.serialize (Nat.le_trans (by decide) hlevels) c
    rw [parseRaising_eq_parse hsuffices, parse_serialize]
  · have hsuffices : ∀ text, raw = some text → exhausts text = false := by
      refine fun text htext => Bool.eq_false_iff.mpr fun hexhausts => ?_
      have hlong := hstack.length text hexhausts
      have hlen := hshort text htext
      omega
    rw [parseRaising_eq_parse hsuffices]
    cases parse raw with
    | ok cursor => exact Or.inl ⟨cursor, rfl⟩
    | error fault => exact Or.inr ⟨fault, rfl⟩

/-- An interpreter with a thousand levels. -/
def exhaustsThousand (text : String) : Bool :=
  decide (1000 < text.length) &&
    (Json.decode text).all fun payload => decide (1000 < payload.depth)

/-- A payload of the wrong shape is refused. -/
theorem parse_total_thousand :
    (∃ cursor, parseRaising exhaustsThousand (some "[1]") = .ok cursor) ∨
      ∃ fault, parseRaising exhaustsThousand (some "[1]") = .error (.invalidCursor fault) := by
  have hstack : StackLimit 1000 exhaustsThousand := by
    refine ⟨fun text h => ?_, fun text payload h hdecode => ?_⟩
    · exact of_decide_eq_true (Bool.and_eq_true_iff.mp h).1
    · have hdeep := (Bool.and_eq_true_iff.mp h).2
      rw [hdecode] at hdeep
      exact of_decide_eq_true hdeep
  exact (parse_total hstack (by decide)).2.2 (some "[1]") fun text htext => by
    obtain rfl := Option.some.inj htext
    decide

end FetchCursor

end MarketRelay
