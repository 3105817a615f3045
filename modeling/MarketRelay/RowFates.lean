import MarketRelay.RunnerPaths

/-!
# What Becomes of the Rows

The loop over the rows of a response, read as a computation on values. What a row asks the store to
record is a key and a value (`Entry`); whether it is recorded depends on the value of the current
revision of its key, and on nothing else of the store. So the rows of a response and the values that
are current before it determine the fate of every row: rejected, recorded as a new revision, found
recorded already, or raising an exception, which ends the loop.

## Main results

* `record_fate`: what a call of `record` does is the fate of its entry.
* `Rows.tally`: the loop ends with the numbers of the rows that were stored and rejected, unless a
  row raises.
* `Rows.adds`: the observations that the loop adds are those of the rows that were stored.
-/

open Relational Interaction Gregorian

namespace MarketRelay

/-! ### Entries and values -/

/-- What a row asks the store to record: a natural key, and the value as it is stored. -/
structure Entry where
  key : NaturalKey
  value : ObservationValue
deriving DecidableEq

def ObservationInput.entry (data : ObservationInput) : Entry := ⟨data.key, data.stored⟩

@[simp] theorem ObservationInput.entry_key (data : ObservationInput) : data.entry.key = data.key :=
  rfl

def Observation.entry (o : Observation) : Entry := ⟨o.key, o.value⟩

/-- The value of the current revision of each natural key. -/
abbrev Values := NaturalKey → Option ObservationValue

def currentValues (t : ObservationTable) : Values := fun key =>
  (currentRevision key t).map Observation.value

/-- What becomes of a row. -/
inductive Fate where
  | rejected
  | stored
  /-- The current revision carries its value already. -/
  | repeated
  | raised (e : PyError)
deriving DecidableEq

/-- What `_same_value` makes of an entry whose key has a current revision. -/
def Fate.ofComparison : Option Bool → Fate
  | some true => repeated
  | some false => stored
  | none => raised .invalidOperation

def Fate.isRaised : Fate → Bool
  | raised _ => true
  | _ => false

theorem Fate.ofComparison_eq_repeated_iff {r : Option Bool} :
    ofComparison r = repeated ↔ r = some true := by
  rcases r with _ | _ | _ <;> simp [ofComparison]

namespace Values

/-- The values once an entry has been recorded. -/
def record (values : Values) (entry : Entry) : Values :=
  Function.update values entry.key (some entry.value)

/-- What becomes of an entry that the store is asked to record. -/
def entryFate (values : Values) (entry : Entry) : Fate :=
  match values entry.key with
  | none => .stored
  | some current => .ofComparison (sameValue current entry.value)

/-- What becomes of a row that gives an entry, or an exception. -/
def fate (values : Values) : Except PyError Entry → Fate
  | .error (.malformedObservation _) => .rejected
  | .error e => .raised e
  | .ok entry => values.entryFate entry

theorem fate_of_error {values : Values} {e : PyError}
    (h : ∀ message, e ≠ .malformedObservation message) :
    values.fate (.error e) = .raised e := by
  cases e with
  | malformedObservation message => exact absurd rfl (h message)
  | _ => rfl

theorem fate_eq_stored_iff {values : Values} {row : Except PyError Entry} :
    values.fate row = .stored ↔ ∃ entry, row = .ok entry ∧ values.entryFate entry = .stored := by
  cases row with
  | error e => cases e <;> simp [fate]
  | ok entry => simp [fate]

/-- The values after a row. -/
def after (values : Values) : Except PyError Entry → Values
  | .error _ => values
  | .ok entry => values.record entry

theorem entryFate_of_none {values : Values} {entry : Entry} (h : values entry.key = none) :
    values.entryFate entry = .stored := by
  rw [entryFate, h]

theorem entryFate_of_some {values : Values} {entry : Entry} {current : ObservationValue}
    (h : values entry.key = some current) :
    values.entryFate entry = .ofComparison (sameValue current entry.value) := by
  rw [entryFate, h]

theorem entryFate_ne_rejected (values : Values) (entry : Entry) :
    values.entryFate entry ≠ .rejected := by
  cases h : values entry.key with
  | none => simp [entryFate_of_none h]
  | some current =>
      rw [entryFate_of_some h]
      rcases sameValue current entry.value with _ | _ | _ <;> simp [Fate.ofComparison]

theorem entryFate_congr {values values' : Values} {entry : Entry}
    (h : values' entry.key = values entry.key) :
    values'.entryFate entry = values.entryFate entry := by
  rw [entryFate, entryFate, h]

theorem entryFate_eq_repeated_iff {values : Values} {entry : Entry} :
    values.entryFate entry = .repeated ↔
      ∃ current, values entry.key = some current ∧ sameValue current entry.value = some true := by
  cases h : values entry.key with
  | none => simp [entryFate_of_none h]
  | some current => simp [entryFate_of_some h, Fate.ofComparison_eq_repeated_iff]

/-- Recording a value that is current already changes nothing. -/
theorem record_of_repeated {values : Values} {entry : Entry}
    (h : values.entryFate entry = .repeated) : values.record entry = values := by
  obtain ⟨current, hcurrent, hsame⟩ := entryFate_eq_repeated_iff.mp h
  rw [record, ← eq_of_sameValue hsame, ← hcurrent, Function.update_eq_self]

end Values

/-! ### Values that can be compared -/

/-- The decimals of the value are no signaling NaNs, which a numeric column cannot hold. -/
def ObservationValue.FitsColumns (v : ObservationValue) : Prop :=
  ∀ d ∈ v.decimals, d.isSignaling = false

theorem conjunction_ne_none {rs : List (Option Bool)} (h : ∀ r ∈ rs, r ≠ none) :
    conjunction rs ≠ none := by
  induction rs with
  | nil => simp [conjunction]
  | cons r rest ih =>
      rw [List.forall_mem_cons] at h
      rcases r with _ | _ | _
      · exact absurd rfl h.1
      · simp [conjunction]
      · exact ih h.2

/-- Values that fit their columns can be compared. -/
theorem sameValue_ne_none {v w : ObservationValue} (hv : v.FitsColumns) (hw : w.FitsColumns) :
    sameValue v w ≠ none := by
  have hoption : ∀ {u : ObservationValue}, u.FitsColumns →
      ∀ o ∈ [u.open, u.high, u.low, u.adjustedClose], ∀ d ∈ o, d.isSignaling = false := by
    intro u hu o ho d hd
    refine hu d (List.mem_cons_of_mem _ (List.mem_flatMap.mpr ⟨o, ho, ?_⟩))
    rw [Option.mem_def.mp hd]
    exact List.mem_singleton_self d
  refine conjunction_ne_none ?_
  simp only [List.forall_mem_cons, List.not_mem_nil, false_imp_iff, implies_true, and_true] at hoption ⊢
  obtain ⟨hvopen, hvhigh, hvlow, hvadjusted⟩ := hoption hv
  obtain ⟨hwopen, hwhigh, hwlow, hwadjusted⟩ := hoption hw
  exact ⟨by simp, Decimal.equal_ne_none (hv _ List.mem_cons_self) (hw _ List.mem_cons_self),
    Decimal.equalOption_ne_none hvopen hwopen, Decimal.equalOption_ne_none hvhigh hwhigh,
    Decimal.equalOption_ne_none hvlow hwlow, Decimal.equalOption_ne_none hvadjusted hwadjusted,
    by simp⟩

/-! ### Recording one entry -/

namespace ObservationStore

variable {data : ObservationInput} {db db' : Db} {l l' : Session} {r : Except PyError RecordOutcome}

/-- The next revision of a key can always be inserted. -/
theorem insert?_next (data : ObservationInput) (t : ObservationTable) (n : ℕ) :
    ∃ t', t.insert? ((data.candidate (nextRevision (currentRevision data.key t))).row (t.draw n)) =
      some t' := by
  rw [← Option.ne_none_iff_exists']
  intro hnone
  obtain ⟨o, ho, hclash⟩ := Table.insert?_eq_none_iff.mp hnone
  rcases hclash with hid | ⟨hkey, hrevision⟩
  · exact Table.get?_eq_none_iff.mp (t.get?_draw n) o ho hid
  · have hmem : o ∈ revisionsOf data.key t := List.mem_filter.mpr ⟨ho, decide_eq_true hkey⟩
    have hnext : o.revision = nextRevision (currentRevision data.key t) := hrevision
    cases hcurrent : currentRevision data.key t with
    | none =>
        rw [latestBy_eq_none_iff.mp hcurrent] at hmem
        exact absurd hmem List.not_mem_nil
    | some existing =>
        have hle := (latestBy_eq_some hcurrent).2 o hmem
        rw [hcurrent] at hnext
        exact absurd hle (by simp [hnext, nextRevision])

/-- An insertion of the next revision succeeds, and ends the call. -/
private theorem insertNext_returns {current : Option Observation} {attempts : ℕ}
    (hcurrent : currentRevision data.key db.observations = current)
    (h : (do
      match ← issue (.insertObservation (data.candidate (nextRevision current))) with
      | some candidate => return ⟨candidate, true, current.isSome⟩
      | none => recordLoop data attempts : App RecordOutcome).Executes semantics db l r db' l') :
    ∃ outcome, r = .ok outcome := by
  obtain ⟨e, h⟩ := Script.executes_op_bind.mp h
  obtain ⟨t, ht⟩ := insert?_next data db.observations e.uuid
  rw [hcurrent] at ht
  simp only [semantics_exec, exec, ht] at h
  exact ⟨_, (Script.executes_pure.mp h).1⟩

/-- A call of `record` raises exactly when the comparison with the current revision does. -/
theorem record_raises_iff (h : (record data).Executes semantics db l r db' l') :
    (∃ e, r = .error e) ↔ ∃ existing, currentRevision data.key db.observations = some existing ∧
      sameValue existing.value data.stored = none := by
  obtain ⟨_, h⟩ := Script.executes_op_bind.mp h
  simp only [semantics_exec, exec] at h
  cases hcurrent : currentRevision data.key db.observations with
  | none =>
      rw [hcurrent, duplicate, pure_bind] at h
      obtain ⟨outcome, rfl⟩ := insertNext_returns hcurrent h
      simp
  | some existing =>
      rw [hcurrent, duplicate] at h
      cases hsame : sameValue existing.value data.stored with
      | none =>
          rw [hsame] at h
          obtain ⟨rfl, -⟩ := Script.executes_throw.mp h
          exact ⟨fun _ => ⟨existing, rfl, hsame⟩, fun _ => ⟨_, rfl⟩⟩
      | some same =>
          rw [hsame] at h
          cases same with
          | true =>
              obtain ⟨rfl, -⟩ := Script.executes_pure.mp h
              simp [hsame]
          | false =>
              rw [pure_bind] at h
              obtain ⟨outcome, rfl⟩ := insertNext_returns hcurrent h
              simp [hsame]

/-- **What a call of `record` does is the fate of its entry.** -/
theorem record_fate (h : (record data).Executes semantics db l r db' l') :
    ((currentValues db.observations).entryFate data.entry = .repeated ∧
        ∃ existing, r = .ok ⟨existing, false, false⟩ ∧ db' = db) ∨
      ((currentValues db.observations).entryFate data.entry = .stored ∧ Stored data db r db') ∨
      ∃ raised e, (currentValues db.observations).entryFate data.entry = .raised raised ∧
        r = .error e ∧ db' = db := by
  have hraises := record_raises_iff h
  have hfate : ∀ {existing}, currentRevision data.key db.observations = some existing →
      (currentValues db.observations).entryFate data.entry =
        .ofComparison (sameValue existing.value data.stored) := by
    intro existing hcurrent
    exact Values.entryFate_of_some (by simp [currentValues, hcurrent])
  rcases record_executes h with
    ⟨existing, ⟨hcurrent, hsame⟩, rfl, rfl⟩ | ⟨hnot, hstored | ⟨⟨e, rfl⟩, rfl⟩⟩
  · exact Or.inl ⟨by rw [hfate hcurrent, hsame]; rfl, existing, rfl, rfl⟩
  · refine Or.inr (Or.inl ⟨?_, hstored⟩)
    cases hcurrent : currentRevision data.key db.observations with
    | none => exact Values.entryFate_of_none (by simp [currentValues, hcurrent])
    | some existing =>
        obtain ⟨_, -, rfl⟩ := hstored
        rw [hfate hcurrent]
        cases hsame : sameValue existing.value data.stored with
        | none => exact absurd (hraises.mpr ⟨existing, hcurrent, hsame⟩) (by simp)
        | some same =>
            cases same with
            | true => exact absurd ⟨hcurrent, hsame⟩ (hnot existing)
            | false => rfl
  · obtain ⟨existing, hcurrent, hsame⟩ := hraises.mp ⟨e, rfl⟩
    exact Or.inr (Or.inr ⟨.invalidOperation, e, by rw [hfate hcurrent, hsame]; rfl, rfl, rfl⟩)

/-- A new revision is one new row, and makes its value the current one of its key. -/
theorem Stored.adds {outcome : RecordOutcome} (h : Stored data db (.ok outcome) db') :
    outcome.created = true ∧
      (∃ o, db'.observations.rows = db.observations.rows ++ [o] ∧ o.entry = data.entry ∧
        o.listingId = data.listingId) ∧
      currentValues db'.observations = (currentValues db.observations).record data.entry := by
  have hcurrent := h.currentRevision
  obtain ⟨id, hins, hr⟩ := h
  obtain rfl := Except.ok.inj hr
  obtain ⟨-, hrows⟩ := Table.insert?_eq_some_iff.mp hins
  refine ⟨rfl, ⟨_, hrows, rfl, rfl⟩, funext fun key => ?_⟩
  by_cases hkey : key = data.key
  · rw [hkey, currentValues, hcurrent, Values.record]
    exact (Function.update_self data.key _ (currentValues db.observations)).symm
  · have hrevisions : revisionsOf key db'.observations = revisionsOf key db.observations := by
      rw [revisionsOf, hrows, List.filter_append,
        List.filter_cons_of_neg fun heq => hkey (of_decide_eq_true heq).symm, List.filter_nil, List.append_nil,
        ← revisionsOf]
    rw [Values.record, data.entry_key, Function.update_of_ne hkey, currentValues, currentValues,
      MarketRelay.currentRevision, MarketRelay.currentRevision, hrevisions]

end ObservationStore

/-! ### The rows of a response -/

namespace IngestionRunner

section Rows

variable (row : RawObservation → Except PyError Entry)

/-- The fates of rows, of which each changes the values for those after it. -/
def fates : Values → List RawObservation → List Fate
  | _, [] => []
  | values, raw :: rest => values.fate (row raw) :: fates (values.after (row raw)) rest

/-- The values after some rows. -/
def valuesAfter (values : Values) (raws : List RawObservation) : Values :=
  raws.foldl (fun values raw => values.after (row raw)) values

/-- Some row raises an exception. -/
def Raises (values : Values) (raws : List RawObservation) : Prop :=
  ∃ e, Fate.raised e ∈ fates row values raws

/-- An entry is stored: a row gives it, no row before this one raises, and its value is not the
current one then. -/
def StoresEntry (values : Values) (raws : List RawObservation) (entry : Entry) : Prop :=
  ∃ before raw rest, raws = before ++ raw :: rest ∧ ¬ Raises row values before ∧
    row raw = .ok entry ∧ (valuesAfter row values before).entryFate entry = .stored

variable {row} {values : Values} {raw : RawObservation} {rest : List RawObservation}

instance (values : Values) (raws : List RawObservation) : Decidable (Raises row values raws) :=
  decidable_of_iff ((fates row values raws).any Fate.isRaised = true) <| by
    rw [List.any_eq_true, Raises]
    constructor
    · rintro ⟨fate, hfate, hraised⟩
      cases fate with
      | raised e => exact ⟨e, hfate⟩
      | _ => exact absurd hraised (by simp [Fate.isRaised])
    · exact fun ⟨e, he⟩ => ⟨.raised e, he, rfl⟩

@[simp] theorem not_raises_nil : ¬ Raises row values [] := fun ⟨_, h⟩ => absurd h List.not_mem_nil

theorem raises_cons : Raises row values (raw :: rest) ↔
    (∃ e, values.fate (row raw) = .raised e) ∨ Raises row (values.after (row raw)) rest := by
  simp only [Raises, fates, List.mem_cons, exists_or, eq_comm]

theorem raises_cons_of_fate {fate : Fate} (h : values.fate (row raw) = fate)
    (hfate : ∀ e, fate ≠ .raised e) :
    Raises row values (raw :: rest) ↔ Raises row (values.after (row raw)) rest := by
  rw [raises_cons, h, or_iff_right (not_exists.mpr hfate)]

theorem fates_append (before : List RawObservation) :
    fates row values (before ++ rest) =
      fates row values before ++ fates row (valuesAfter row values before) rest := by
  induction before generalizing values with
  | nil => rfl
  | cons raw before ih =>
      rw [List.cons_append, fates, fates, ih, List.cons_append]
      rfl

theorem raises_append (before : List RawObservation) : Raises row values (before ++ rest) ↔
    Raises row values before ∨ Raises row (valuesAfter row values before) rest := by
  simp only [Raises, fates_append, List.mem_append, exists_or]

theorem valuesAfter_concat (before : List RawObservation) :
    valuesAfter row values (before ++ [raw]) =
      (valuesAfter row values before).after (row raw) := by
  rw [valuesAfter, List.foldl_append]
  rfl

theorem storesEntry_cons {entry : Entry} : StoresEntry row values (raw :: rest) entry ↔
    (row raw = .ok entry ∧ values.entryFate entry = .stored) ∨
      (¬ ∃ e, values.fate (row raw) = .raised e) ∧
        StoresEntry row (values.after (row raw)) rest entry := by
  constructor
  · rintro ⟨before, raw', rest', heq, hraises, hrow, hfate⟩
    cases before with
    | nil =>
        obtain ⟨rfl, rfl⟩ := List.cons.inj heq
        exact Or.inl ⟨hrow, hfate⟩
    | cons first before =>
        obtain ⟨rfl, rfl⟩ := List.cons.inj heq
        rw [raises_cons, not_or] at hraises
        exact Or.inr ⟨hraises.1, before, raw', rest', rfl, hraises.2, hrow, hfate⟩
  · rintro (⟨hrow, hfate⟩ | ⟨hraises, before, raw', rest', rfl, hbefore, hrow, hfate⟩)
    · exact ⟨[], raw, rest, rfl, not_raises_nil, hrow, hfate⟩
    · exact ⟨raw :: before, raw', rest', rfl, raises_cons.not.mpr (not_or.mpr ⟨hraises, hbefore⟩),
        hrow, hfate⟩

/-! ### Keys that are not stored -/

/-- A key keeps its value over a row that is not for it, or that repeats its value. -/
theorem after_apply_of_repeated {row : Except PyError Entry} {key : NaturalKey}
    (h : ∀ entry, row = .ok entry → entry.key = key → values.entryFate entry = .repeated) :
    values.after row key = values key := by
  cases row with
  | error e => rfl
  | ok entry =>
      by_cases hkey : entry.key = key
      · rw [Values.after, Values.record_of_repeated (h entry rfl hkey)]
      · exact Function.update_of_ne (Ne.symm hkey) _ _

/-- A row for a key that is not stored, and does not raise, repeats its value. -/
theorem repeated_of_not_stored {entry : Entry} (hrow : row raw = .ok entry)
    (hraises : ∀ e, values.fate (row raw) ≠ .raised e)
    (hstored : values.entryFate entry ≠ .stored) : values.entryFate entry = .repeated := by
  rw [hrow] at hraises
  cases hfate : values.entryFate entry with
  | rejected => exact absurd hfate (values.entryFate_ne_rejected entry)
  | stored => exact absurd hfate hstored
  | repeated => rfl
  | raised e => exact absurd hfate (hraises e)

/-- **Nothing is stored for a key exactly when** every row for it that is reached repeats the value
that is current before the response. -/
theorem not_storesEntry_iff {raws : List RawObservation} {key : NaturalKey} :
    (∀ entry, StoresEntry row values raws entry → entry.key ≠ key) ↔
      ∀ before raw rest entry, raws = before ++ raw :: rest →
        ¬ Raises row values (before ++ [raw]) → row raw = .ok entry → entry.key = key →
        values.entryFate entry = .repeated := by
  induction raws generalizing values with
  | nil => simp [StoresEntry]
  | cons first rest ih =>
      -- Over the first row, unless it raises, the key keeps its value.
      constructor
      · intro h before raw rest' entry heq hraises hrow hkey
        have hfirst : (∀ e, values.fate (row first) ≠ .raised e) → ∀ entry, row first = .ok entry →
            entry.key = key → values.entryFate entry = .repeated := fun hraises entry hrow hkey =>
          repeated_of_not_stored hrow hraises fun hstored =>
            h entry (storesEntry_cons.mpr (Or.inl ⟨hrow, hstored⟩)) hkey
        cases before with
        | nil =>
            obtain ⟨rfl, rfl⟩ := List.cons.inj heq
            rw [List.nil_append, raises_cons, not_or] at hraises
            exact hfirst (not_exists.mp hraises.1) entry hrow hkey
        | cons first' before =>
            obtain ⟨rfl, rfl⟩ := List.cons.inj heq
            rw [List.cons_append, raises_cons, not_or] at hraises
            have hkeep := after_apply_of_repeated (hfirst (not_exists.mp hraises.1))
            have hrepeated := ih.mp (fun e he => h e (storesEntry_cons.mpr (Or.inr ⟨hraises.1, he⟩)))
              before raw rest' entry rfl hraises.2 hrow hkey
            rwa [Values.entryFate_congr (hkey ▸ hkeep)] at hrepeated
      · intro h entry hstores hkey
        have hfirst : (∀ e, values.fate (row first) ≠ .raised e) → ∀ entry, row first = .ok entry →
            entry.key = key → values.entryFate entry = .repeated := fun hraises entry hrow hkey =>
          h [] first rest entry rfl
            (raises_cons.not.mpr (not_or.mpr ⟨not_exists.mpr hraises, not_raises_nil⟩)) hrow hkey
        rcases storesEntry_cons.mp hstores with ⟨hrow, hfate⟩ | ⟨hraises, hrest⟩
        · have hrepeated := hfirst (by simp [hrow, Values.fate, hfate]) entry hrow hkey
          exact absurd (hrepeated.symm.trans hfate) (by simp)
        · have hkeep := after_apply_of_repeated (hfirst (not_exists.mp hraises))
          refine ih.mpr (fun before raw rest' e heq hbefore hrow' hkey' => ?_) entry hrest hkey
          have hrepeated := h (first :: before) raw rest' e (by rw [heq]; rfl)
            (raises_cons.not.mpr (not_or.mpr ⟨hraises, hbefore⟩)) hrow' hkey'
          rwa [Values.entryFate_congr (hkey' ▸ hkeep)]

/-- **Rows of which none raises store nothing exactly when** each of them repeats a value that is
current before the response. -/
theorem nothing_stored_iff {raws : List RawObservation} (h : ¬ Raises row values raws) :
    (∀ entry, ¬ StoresEntry row values raws entry) ↔
      ∀ raw ∈ raws, ∀ entry, row raw = .ok entry → values.entryFate entry = .repeated := by
  constructor
  · intro hnothing raw hraw entry hrow
    obtain ⟨before, rest, rfl⟩ := List.append_of_mem hraw
    refine not_storesEntry_iff.mp (fun e he => absurd he (hnothing e)) before raw rest entry rfl ?_
      hrow rfl
    rw [← List.singleton_append, ← List.append_assoc, raises_append, not_or] at h
    exact h.1
  · intro hrepeated entry hstores
    refine not_storesEntry_iff.mpr (fun before raw rest e heq _ hrow _ => ?_) entry hstores rfl
    exact hrepeated raw (heq ▸ List.mem_append_right _ List.mem_cons_self) e hrow

/-- Rows of which none raises store something exactly when one of them is stored. -/
theorem count_stored_eq_zero_iff {raws : List RawObservation} (h : ¬ Raises row values raws) :
    (fates row values raws).count .stored = 0 ↔ ∀ entry, ¬ StoresEntry row values raws entry := by
  induction raws generalizing values with
  | nil => simp [fates, StoresEntry]
  | cons first rest ih =>
      rw [raises_cons, not_or] at h
      have hfirst : values.fate (row first) ≠ .stored ↔
          ∀ entry, ¬ (row first = .ok entry ∧ values.entryFate entry = .stored) := by
        rw [Ne, Values.fate_eq_stored_iff, not_exists]
      simp only [storesEntry_cons, not_or, h.1, not_false_eq_true, true_and, forall_and]
      rw [← ih h.2, ← hfirst, fates, List.count_cons]
      by_cases hstored : values.fate (row first) = .stored <;> simp [hstored]

/-- After some rows, a key has the value of one of its rows, or the one that it had before them. -/
theorem valuesAfter_apply (raws : List RawObservation) (key : NaturalKey) :
    (∃ raw ∈ raws, ∃ entry, row raw = .ok entry ∧ entry.key = key ∧
        valuesAfter row values raws key = some entry.value) ∨
      (∀ raw ∈ raws, ∀ entry, row raw = .ok entry → entry.key ≠ key) ∧
        valuesAfter row values raws key = values key := by
  induction raws using List.reverseRecOn with
  | nil => exact Or.inr ⟨by simp, rfl⟩
  | append_singleton before raw ih =>
      rw [valuesAfter_concat]
      have hstep : (∃ entry, row raw = .ok entry ∧ entry.key = key ∧
          (valuesAfter row values before).after (row raw) key = some entry.value) ∨
          (∀ entry, row raw = .ok entry → entry.key ≠ key) ∧
            (valuesAfter row values before).after (row raw) key =
              valuesAfter row values before key := by
        cases row raw with
        | error e => exact Or.inr ⟨by simp, rfl⟩
        | ok entry =>
            by_cases hkey : entry.key = key
            · refine Or.inl ⟨entry, rfl, hkey, ?_⟩
              rw [← hkey]
              exact Function.update_self ..
            · refine Or.inr ⟨fun e he => Except.ok.inj he ▸ hkey, ?_⟩
              exact Function.update_of_ne (Ne.symm hkey) _ _
      rcases hstep with ⟨entry, hrow, hkey, hvalue⟩ | ⟨hother, hsame⟩
      · exact Or.inl ⟨raw, List.mem_append_right _ List.mem_cons_self, entry, hrow, hkey, hvalue⟩
      · rw [hsame]
        refine ih.imp ?_ fun ⟨hnone, hvalue⟩ => ⟨fun raw' hraw' => ?_, hvalue⟩
        · rintro ⟨raw', hraw', h⟩
          exact ⟨raw', List.mem_append_left _ hraw', h⟩
        · rcases List.mem_append.mp hraw' with hraw' | hraw'
          · exact hnone raw' hraw'
          · obtain rfl := List.mem_singleton.mp hraw'
            exact hother

/-- A row of which no exception comes gives an entry or is malformed. -/
theorem malformed_of_not_raises {raws : List RawObservation} (h : ¬ Raises row values raws)
    {raw : RawObservation} (hraw : raw ∈ raws) {e : PyError} (hrow : row raw = .error e) :
    ∃ message, e = .malformedObservation message := by
  induction raws generalizing values with
  | nil => exact absurd hraw List.not_mem_nil
  | cons first rest ih =>
      rw [raises_cons, not_or] at h
      rcases List.mem_cons.mp hraw with rfl | hraw
      · by_contra hother
        refine h.1 ⟨e, ?_⟩
        rw [hrow]
        exact Values.fate_of_error (not_exists.mp hother)
      · exact ih h.2 hraw

/-- Rows of which none raises are rejected when they give no entry. -/
theorem count_rejected {raws : List RawObservation} (h : ¬ Raises row values raws) :
    (fates row values raws).count .rejected = raws.countP fun raw => !(row raw).isOk := by
  induction raws generalizing values with
  | nil => rfl
  | cons first rest ih =>
      have hfirst : values.fate (row first) = .rejected ↔ (!(row first).isOk) = true := by
        cases hrow : row first with
        | error e =>
            obtain ⟨message, rfl⟩ := malformed_of_not_raises h List.mem_cons_self hrow
            exact iff_of_true rfl rfl
        | ok entry => exact iff_of_false (values.entryFate_ne_rejected entry) (by simp [Except.isOk, Except.toBool])
      rw [raises_cons, not_or] at h
      rw [fates, List.count_cons, List.countP_cons, ih h.2]
      congr 1
      simp only [beq_iff_eq, hfirst]

/-! ### Rows that do not raise -/

/-- Rows that give an entry or are malformed do not raise, as long as no value of theirs, and none
that is current for their keys, holds a signaling NaN. -/
theorem not_raises_of_comparable {raws : List RawObservation}
    (hrows : ∀ raw ∈ raws, (∃ entry, row raw = .ok entry ∧ entry.value.FitsColumns) ∨
      ∃ message, row raw = .error (.malformedObservation message))
    (hvalues : ∀ raw ∈ raws, ∀ entry, row raw = .ok entry →
      ∀ current ∈ values entry.key, current.FitsColumns) : ¬ Raises row values raws := by
  induction raws generalizing values with
  | nil => exact not_raises_nil
  | cons first rest ih =>
      rw [raises_cons, not_or]
      have hrest : ∀ raw ∈ rest, _ := fun raw hraw => hrows raw (List.mem_cons_of_mem _ hraw)
      have hcurrent : ∀ raw ∈ rest, _ := fun raw hraw => hvalues raw (List.mem_cons_of_mem _ hraw)
      rcases hrows first List.mem_cons_self with ⟨entry, hrow, hfits⟩ | ⟨message, hrow⟩
      · rw [hrow]
        constructor
        · rintro ⟨e, he⟩
          cases hkey : values entry.key with
          | none => exact absurd ((Values.entryFate_of_none hkey).symm.trans he) (by simp)
          | some current =>
              have hsame := sameValue_ne_none
                (hvalues first List.mem_cons_self entry hrow current hkey) hfits
              rw [Values.fate, Values.entryFate_of_some hkey] at he
              rcases hcompare : sameValue current entry.value with _ | _ | _
              · exact hsame hcompare
              · exact absurd (hcompare ▸ he) (by simp [Fate.ofComparison])
              · exact absurd (hcompare ▸ he) (by simp [Fate.ofComparison])
        · refine ih hrest fun raw hraw e hrow' current hmem => ?_
          by_cases hkey : e.key = entry.key
          · rw [Values.after, Values.record, hkey, Function.update_self] at hmem
            obtain rfl := Option.some.inj hmem
            exact hfits
          · rw [Values.after, Values.record, Function.update_of_ne hkey] at hmem
            exact hcurrent raw hraw e hrow' current hmem
      · rw [hrow]
        exact ⟨by simp [Values.fate], ih hrest hcurrent⟩

/-! ### The loop -/

variable {input : RawObservation → Except PyError ObservationInput} {db db' : Db}
  {raws : List RawObservation} {recorded rejected : ℕ} {result : Except PyError (ℕ × ℕ)}
  (hinput : ∀ raw, row raw = (input raw).map ObservationInput.entry)

include hinput

/-- **The loop counts the rows that are stored and rejected**, unless one of them raises. -/
theorem Rows.tally (h : Rows input db raws recorded rejected result db') :
    (¬ Raises row (currentValues db.observations) raws ∧
        result = .ok (recorded + (fates row (currentValues db.observations) raws).count .stored,
          rejected + (fates row (currentValues db.observations) raws).count .rejected) ∧
        currentValues db'.observations = valuesAfter row (currentValues db.observations) raws) ∨
      Raises row (currentValues db.observations) raws ∧ ∃ e, result = .error e := by
  induction h with
  | nil => exact Or.inl ⟨not_raises_nil, rfl, rfl⟩
  | @malformed db _ raw rest recorded rejected message _ hraw _ ih =>
      have hrow : row raw = .error (.malformedObservation message) := by rw [hinput, hraw]; rfl
      have hfate : (currentValues db.observations).fate (row raw) = .rejected := by rw [hrow]; rfl
      have hafter : (currentValues db.observations).after (row raw) =
          currentValues db.observations := by rw [hrow]; rfl
      rw [raises_cons_of_fate hfate (by simp), fates, hfate, hafter, List.count_cons_self,
        List.count_cons_of_ne (by simp)]
      refine ih.imp (fun ⟨hraises, hresult, hvalues⟩ => ⟨hraises, ?_, ?_⟩) id
      · rw [hresult, add_assoc, add_comm 1]
      · rw [hvalues, valuesAfter, valuesAfter, List.foldl_cons, hafter]
  | @raised db raw rest recorded rejected e hraw hother =>
      have hrow : row raw = .error e := by rw [hinput, hraw]; rfl
      have hfate : (currentValues db.observations).fate (row raw) = .raised e := by
        rw [hrow, Values.fate_of_error hother]
      exact Or.inr ⟨raises_cons.mpr (Or.inl ⟨e, hfate⟩), e, rfl⟩
  | @recorded db db₁ _ raw rest recorded rejected data outcome l l₁ _ hraw hrecord _ ih =>
      have hrow : row raw = .ok data.entry := by rw [hinput, hraw]; rfl
      have hfate : (currentValues db.observations).fate (row raw) =
          (currentValues db.observations).entryFate data.entry := by rw [hrow]; rfl
      have hafter : (currentValues db.observations).after (row raw) =
          (currentValues db.observations).record data.entry := by rw [hrow]; rfl
      rcases ObservationStore.record_fate hrecord with
        ⟨hrepeated, existing, hr, rfl⟩ | ⟨hstored, hadds⟩ | ⟨_, e, -, hr, -⟩
      · obtain rfl := Except.ok.inj hr
        rw [hrepeated] at hfate
        rw [Values.record_of_repeated hrepeated] at hafter
        rw [raises_cons_of_fate hfate (by simp), fates, hfate, hafter,
          List.count_cons_of_ne (by simp), List.count_cons_of_ne (by simp)]
        refine ih.imp (fun ⟨hraises, hresult, hvalues⟩ => ⟨hraises, hresult, ?_⟩) id
        rw [hvalues, valuesAfter, valuesAfter, List.foldl_cons, hafter]
      · obtain ⟨hcreated, -, hvalues₁⟩ := hadds.adds
        rw [hstored] at hfate
        rw [← hvalues₁] at hafter
        rw [raises_cons_of_fate hfate (by simp), fates, hfate, hafter, List.count_cons_self,
          List.count_cons_of_ne (by simp)]
        refine ih.imp (fun ⟨hraises, hresult, hvalues⟩ => ⟨hraises, ?_, ?_⟩) id
        · rw [hresult, if_pos hcreated, add_assoc, add_comm 1]
        · rw [hvalues, valuesAfter, valuesAfter, List.foldl_cons, hafter]
      · exact absurd hr (by simp)
  | @failed db _ raw rest recorded rejected data e l l' hraw hrecord =>
      have hrow : row raw = .ok data.entry := by rw [hinput, hraw]; rfl
      rcases ObservationStore.record_fate hrecord with
        ⟨-, _, hr, -⟩ | ⟨-, _, -, hr⟩ | ⟨raised, _, hfate, -⟩
      · exact absurd hr (by simp)
      · exact absurd hr (by simp)
      · exact Or.inr ⟨raises_cons.mpr (Or.inl ⟨raised, by rw [hrow]; exact hfate⟩), e, rfl⟩

omit hinput in
/-- A row that raises ends the loop: nothing is stored for it or after it. -/
theorem not_storesEntry_of_raised {e : PyError} (h : values.fate (row raw) = .raised e)
    (entry : Entry) : ¬ StoresEntry row values (raw :: rest) entry := by
  rw [storesEntry_cons]
  rintro (⟨hrow, hfate⟩ | ⟨hraises, -⟩)
  · rw [hrow] at h
    exact absurd (h.symm.trans hfate) (by simp)
  · exact hraises ⟨e, h⟩

/-- **The observations that the loop adds** are those of the entries that are stored. -/
theorem Rows.adds (h : Rows input db raws recorded rejected result db') :
    ∃ new, db'.observations.rows = db.observations.rows ++ new ∧
      (∀ o ∈ new, ∃ raw ∈ raws, ∃ data, input raw = .ok data ∧ o.entry = data.entry ∧
        o.listingId = data.listingId) ∧
      ∀ entry, (∃ o ∈ new, o.entry = entry) ↔
        StoresEntry row (currentValues db.observations) raws entry := by
  induction h with
  | nil =>
      refine ⟨[], (List.append_nil _).symm, by simp, fun entry => ?_⟩
      simp [StoresEntry]
  | @malformed db _ raw rest recorded rejected message _ hraw _ ih =>
      have hrow : row raw = .error (.malformedObservation message) := by rw [hinput, hraw]; rfl
      obtain ⟨new, hrows, hnew, hstores⟩ := ih
      refine ⟨new, hrows, fun o ho => ?_, fun entry => ?_⟩
      · obtain ⟨raw', hraw', hdata⟩ := hnew o ho
        exact ⟨raw', List.mem_cons_of_mem _ hraw', hdata⟩
      · rw [hstores, storesEntry_cons, hrow]
        simp [Values.fate, Values.after]
  | @raised db raw rest recorded rejected e hraw hother =>
      refine ⟨[], (List.append_nil _).symm, by simp, fun entry => ?_⟩
      have hfate : (currentValues db.observations).fate (row raw) = .raised e := by
        rw [hinput, hraw]
        exact Values.fate_of_error hother
      exact iff_of_false (by simp) (not_storesEntry_of_raised hfate entry)
  | @recorded db db₁ _ raw rest recorded rejected data outcome l l₁ _ hraw hrecord _ ih =>
      have hrow : row raw = .ok data.entry := by rw [hinput, hraw]; rfl
      obtain ⟨new, hrows, hnew, hstores⟩ := ih
      have hlater : ∀ o ∈ new, ∃ raw' ∈ raw :: rest, ∃ data, input raw' = .ok data ∧
          o.entry = data.entry ∧ o.listingId = data.listingId := fun o ho =>
        (hnew o ho).imp fun raw' h => ⟨List.mem_cons_of_mem _ h.1, h.2⟩
      rcases ObservationStore.record_fate hrecord with
        ⟨hrepeated, _, hr, rfl⟩ | ⟨hstored, hadds⟩ | ⟨_, _, -, hr, -⟩
      · refine ⟨new, hrows, hlater, fun entry => ?_⟩
        rw [hstores, storesEntry_cons, hrow, Values.fate, hrepeated, Values.after,
          Values.record_of_repeated hrepeated]
        refine ⟨fun h => Or.inr ⟨by simp, h⟩, ?_⟩
        rintro (⟨heq, hfate⟩ | ⟨-, h⟩)
        · obtain rfl := Except.ok.inj heq
          exact absurd (hrepeated.symm.trans hfate) (by simp)
        · exact h
      · obtain ⟨-, ⟨o, hrows₁, hentry, hlisting⟩, hvalues₁⟩ := hadds.adds
        refine ⟨o :: new, ?_, ?_, fun entry => ?_⟩
        · rw [hrows, hrows₁, List.append_assoc, List.singleton_append]
        · refine List.forall_mem_cons.mpr ⟨?_, hlater⟩
          exact ⟨raw, List.mem_cons_self, data, hraw, hentry, hlisting⟩
        · simp only [List.exists_mem_cons_iff]
          rw [hstores, storesEntry_cons, hrow, Values.fate, hstored, Values.after, ← hvalues₁,
            hentry]
          refine or_congr ⟨fun h => h ▸ ⟨rfl, hstored⟩, fun h => Except.ok.inj h.1⟩ ?_
          simp
      · exact absurd hr (by simp)
  | @failed db db' raw rest recorded rejected data e l l' hraw hrecord =>
      rcases ObservationStore.record_fate hrecord with
        ⟨-, _, hr, -⟩ | ⟨-, _, -, hr⟩ | ⟨raised, _, hfate, -, rfl⟩
      · exact absurd hr (by simp)
      · exact absurd hr (by simp)
      · refine ⟨[], (List.append_nil _).symm, by simp, fun entry => ?_⟩
        have hrow : (currentValues db'.observations).fate (row raw) = .raised raised := by
          rw [hinput, hraw]
          exact hfate
        exact iff_of_false (by simp) (not_storesEntry_of_raised hrow entry)

end Rows

end IngestionRunner

end MarketRelay
