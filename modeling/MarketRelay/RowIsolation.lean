import MarketRelay.Processed

/-!
# Isolation of Rows

The rules for a row (`MeetsRules`), stated apart from the code, and what a call would do if it
isolated every row that breaks them: store the others in order, count the broken ones, and return.
The code differs from the rules in two places. The currency pattern also accepts a code that is
followed by a newline; and the comparison of the close with zero raises on a NaN, with an exception
that the loop does not handle.

## Main results

* `process_isolates_iff`: exactly when a call isolates the rows that break the rules.
* `process_raises_on_nan`: a row that ends the call, before a valid one.
-/

open Relational Interaction Gregorian

namespace MarketRelay

/-- Three capital letters. -/
def isCurrencyCode (s : String) : Bool :=
  match s.toList with
  | [a, b, c] => [a, b, c].all fun x => decide ('A' ≤ x) && decide (x ≤ 'Z')
  | _ => false

/-- The pattern of the code accepts every code of three capital letters. -/
theorem currencyMatches_of_isCurrencyCode {s : String} (h : isCurrencyCode s = true) :
    currencyMatches s = true := by
  rw [isCurrencyCode] at h
  rw [currencyMatches]
  split at h
  · rename_i a b c heq
    rw [heq]
    exact h
  · exact absurd h (by simp)

namespace IngestionRunner

/-- The rules for a row: the listing and the range that were asked for, a currency of three capital
letters, and a positive finite close. -/
def MeetsRules (cursor : FetchCursor Json) (raw : RawObservation) : Prop :=
  cursor.externalListingId.text? = some raw.externalListingId ∧
    (cursor.start ≤ raw.sessionDate ∧ raw.sessionDate ≤ cursor.end) ∧
    isCurrencyCode raw.currency = true ∧
    raw.close.isFinite = true ∧ raw.close.nonpos = some false

instance (cursor : FetchCursor Json) : DecidablePred (MeetsRules cursor) :=
  fun _ => inferInstanceAs (Decidable (_ ∧ _))

/-- Recording rows one after the other, each as the input that it gives. -/
inductive RecordedInOrder (input : RawObservation → Except PyError ObservationInput) :
    Db → List RawObservation → Db → Prop where
  | nil {db : Db} : RecordedInOrder input db [] db
  | cons {db db₁ db' : Db} {raw : RawObservation} {rest : List RawObservation}
      {data : ObservationInput} {outcome : RecordOutcome} {l l₁ : Session} :
      input raw = .ok data →
      (ObservationStore.record data).Executes semantics db l (.ok outcome) db₁ l₁ →
      RecordedInOrder input db₁ rest db' →
      RecordedInOrder input db (raw :: rest) db'

/-- The call isolates the rows that break the rules: it stores what recording the others in order
stores, and returns with the number of those that it has rejected. -/
structure Isolates (j : Job) (cursor : FetchCursor Json) (now : Instant)
    (raws : List RawObservation) (db db' : Db) (r : Except PyError JobOutcome) : Prop where
  stored : ∃ authorization db₀ db₁, db₀.observations = db.observations ∧
    RecordedInOrder (rowInput j cursor authorization now) db₀
      (raws.filter fun raw => decide (MeetsRules cursor raw)) db₁ ∧
    db'.observations = db₁.observations
  returned : ∃ outcome, r = .ok outcome ∧
    outcome.observationsRejected = raws.countP fun raw => !decide (MeetsRules cursor raw)

variable {now : Instant} {j j' : Job} {cursor : FetchCursor Json} {raws : List RawObservation}
  {db db' : Db} {r : Except PyError JobOutcome}

/-- A row is accepted when it meets the rules, except for what its currency may end with. -/
theorem validate_eq_ok_iff {raw : RawObservation} {listing : Json} {first last : Date} :
    validateRawObservation raw listing first last = .ok () ↔
      listing.text? = some raw.externalListingId ∧
        (first ≤ raw.sessionDate ∧ raw.sessionDate ≤ last) ∧
        currencyMatches raw.currency = true ∧
        raw.close.isFinite = true ∧ raw.close.nonpos = some false := by
  have hclose : (∃ q, raw.close = .finite q ∧ 0 < q) ↔
      raw.close.isFinite = true ∧ raw.close.nonpos = some false := by
    cases raw.close <;> simp [Decimal.isFinite, Decimal.nonpos]
  rw [validateRawObservation_eq_ok_iff, hclose]

theorem accepted_iff {raw : RawObservation} :
    Accepted cursor raw ↔ cursor.externalListingId.text? = some raw.externalListingId ∧
      (cursor.start ≤ raw.sessionDate ∧ raw.sessionDate ≤ cursor.end) ∧
      currencyMatches raw.currency = true ∧
      raw.close.isFinite = true ∧ raw.close.nonpos = some false :=
  validate_eq_ok_iff

theorem MeetsRules.accepted {raw : RawObservation} (h : MeetsRules cursor raw) :
    Accepted cursor raw :=
  accepted_iff.mpr ⟨h.1, h.2.1, currencyMatches_of_isCurrencyCode h.2.2.1, h.2.2.2⟩

/-- A row that has passed the other checks raises when its close is a NaN. -/
theorem rowEntry_of_nan {raw : RawObservation}
    (hexternal : cursor.externalListingId.text? = some raw.externalListingId)
    (hrange : cursor.start ≤ raw.sessionDate ∧ raw.sessionDate ≤ cursor.end)
    (hcurrency : currencyMatches raw.currency = true) (hnan : raw.close.isNaN = true) :
    rowEntry j cursor raw = .error .invalidOperation := by
  have hnonpos : raw.close.nonpos = none := by
    cases hclose : raw.close with
    | nan signaling => rfl
    | _ => simp [hclose, Decimal.isNaN] at hnan
  have hvalidate : validateRawObservation raw cursor.externalListingId cursor.start cursor.end =
      .error .invalidOperation := by
    rw [validateRawObservation, if_neg (by simpa using hexternal), if_neg (by simpa using hrange),
      if_neg (by simpa using hcurrency), hnonpos]
  rw [rowEntry, hvalidate]

/-- Nothing else makes validation raise. -/
theorem malformed_of_validate {raw : RawObservation} {listing : Json} {first last : Date}
    {e : PyError} (h : validateRawObservation raw listing first last = .error e)
    (hcomparable : listing.text? = some raw.externalListingId →
      (first ≤ raw.sessionDate ∧ raw.sessionDate ≤ last) →
      currencyMatches raw.currency = true → raw.close.isNaN = false) :
    ∃ message, e = .malformedObservation message := by
  rw [validateRawObservation] at h
  split at h
  · exact ⟨_, (Except.error.inj h).symm⟩
  rename_i hexternal
  split at h
  · exact ⟨_, (Except.error.inj h).symm⟩
  rename_i hrange
  split at h
  · exact ⟨_, (Except.error.inj h).symm⟩
  rename_i hcurrency
  have hnan := hcomparable (not_not.mp hexternal) (not_not.mp hrange) (not_not.mp hcurrency)
  cases hclose : raw.close with
  | nan signaling => exact absurd (hclose ▸ hnan) (by simp [Decimal.isNaN])
  | finite q =>
      simp only [hclose, Decimal.nonpos] at h
      split at h
      · exact ⟨_, (Except.error.inj h).symm⟩
      · exact absurd h (by simp)
  | infinity negative =>
      simp only [hclose, Decimal.nonpos] at h
      split at h
      · exact ⟨_, (Except.error.inj h).symm⟩
      · exact absurd h (by simp)

/-- The conditions under which the code follows the rules: no row that passes the other checks has
a NaN for its close, and no row is accepted whose currency is not a code. -/
structure FollowsRules (cursor : FetchCursor Json) (raws : List RawObservation) : Prop where
  comparable : ∀ raw ∈ raws, cursor.externalListingId.text? = some raw.externalListingId →
    (cursor.start ≤ raw.sessionDate ∧ raw.sessionDate ≤ cursor.end) →
    currencyMatches raw.currency = true → raw.close.isNaN = false
  currency : ∀ raw ∈ raws, Accepted cursor raw → isCurrencyCode raw.currency = true

theorem FollowsRules.accepted_iff (h : FollowsRules cursor raws) {raw : RawObservation}
    (hraw : raw ∈ raws) : Accepted cursor raw ↔ MeetsRules cursor raw := by
  refine ⟨fun haccepted => ?_, MeetsRules.accepted⟩
  obtain ⟨hexternal, hrange, -, hclose⟩ := IngestionRunner.accepted_iff.mp haccepted
  exact ⟨hexternal, hrange, h.currency raw hraw haccepted, hclose⟩

/-- Rows that follow the rules do not raise, of a job that names its listing and its scope. -/
theorem FollowsRules.not_raises (h : FollowsRules cursor raws) {listingId : ℕ}
    {credentialScope : String} (hlisting : j.listingId = some listingId)
    (hscope : cursor.credentialScope.text? = some credentialScope)
    (hfits : ∀ raw ∈ raws, Accepted cursor raw → (rowValue raw).FitsColumns)
    {t : ObservationTable} (hstore : ∀ o ∈ t.rows, o.value.FitsColumns) :
    ¬ Raises (rowEntry j cursor) (currentValues t) raws := by
  refine not_raises_of_comparable (fun raw hraw => ?_) fun raw hraw entry hrow current hcurrent => ?_
  · cases hvalidate : validateRawObservation raw cursor.externalListingId cursor.start
        cursor.end with
    | error e =>
        obtain ⟨message, rfl⟩ := malformed_of_validate hvalidate (h.comparable raw hraw)
        exact Or.inr ⟨message, by rw [rowEntry, hvalidate]⟩
    | ok _ =>
        refine Or.inl ⟨_, rowEntry_eq_ok_iff.mpr ⟨hvalidate, _, _, hlisting, hscope, rfl⟩, ?_⟩
        exact hfits raw hraw hvalidate
  · obtain ⟨o, ho, rfl⟩ := Option.map_eq_some_iff.mp hcurrent
    exact hstore o (List.mem_filter.mp (latestBy_eq_some ho).1).1

/-- A loop that returns has recorded the rows that give an input, in order. -/
theorem Rows.recordedInOrder {input : RawObservation → Except PyError ObservationInput}
    {recorded rejected : ℕ} {counts : ℕ × ℕ}
    (h : Rows input db raws recorded rejected (.ok counts) db') :
    RecordedInOrder input db (raws.filter fun raw => (input raw).isOk) db' := by
  generalize hresult : (.ok counts : Except PyError (ℕ × ℕ)) = result at h
  induction h with
  | nil => exact .nil
  | malformed hraw _ ih =>
      rw [List.filter_cons_of_neg (by simp [hraw, Except.isOk, Except.toBool])]
      exact ih hresult
  | raised | failed => exact absurd hresult (by simp)
  | recorded hraw hrecord _ ih =>
      rw [List.filter_cons_of_pos (by simp [hraw, Except.isOk, Except.toBool])]
      exact .cons hraw hrecord (ih hresult)

/-- A call that rejects as many rows as break the rules, without raising, follows the rules. -/
theorem followsRules_of_count {values : Values}
    (hraises : ¬ Raises (rowEntry j cursor) values raws)
    (hcount : (fates (rowEntry j cursor) values raws).count .rejected =
      raws.countP fun raw => !decide (MeetsRules cursor raw)) : FollowsRules cursor raws := by
  have haccepted : (raws.countP fun raw => !decide (Accepted cursor raw)) =
      raws.countP fun raw => !decide (MeetsRules cursor raw) := by
    rw [← hcount, count_rejected hraises]
    refine List.countP_congr fun raw hraw => ?_
    have hok := isOk_rowEntry_iff hraises hraw
    by_cases h : Accepted cursor raw <;> simp_all
  -- The accepted rows contain those that meet the rules, and there are no more of them.
  have hfilter : (raws.filter fun raw => !decide (Accepted cursor raw)) =
      raws.filter fun raw => !decide (MeetsRules cursor raw) := by
    refine List.Sublist.eq_of_length (List.monotone_filter_right raws fun raw hraw => ?_) ?_
    · have hmeets : MeetsRules cursor raw → Accepted cursor raw := MeetsRules.accepted
      by_cases h : MeetsRules cursor raw <;> simp_all
    · rw [← List.countP_eq_length_filter, ← List.countP_eq_length_filter, haccepted]
  refine ⟨fun raw hraw hexternal hrange hcurrency => ?_, fun raw hraw hvalid => ?_⟩
  · by_contra hnan
    obtain ⟨message, he⟩ := malformed_of_not_raises hraises hraw
      (rowEntry_of_nan hexternal hrange hcurrency (by simpa using hnan))
    exact absurd he (by simp)
  · by_contra hcurrency
    have hbroken : raw ∈ raws.filter fun raw => !decide (MeetsRules cursor raw) :=
      List.mem_filter.mpr ⟨hraw, by simpa using fun h : MeetsRules cursor raw => hcurrency h.2.2.1⟩
    rw [← hfilter] at hbroken
    simpa [hvalid] using (List.mem_filter.mp hbroken).2

end IngestionRunner

open IngestionRunner in
/-- **A call isolates the rows that break the rules exactly when** no row that passes the other
checks has a NaN for its close, and no row is accepted whose currency is not three capital
letters. -/
theorem process_isolates_iff {j : Job} {workerId : String} {now : Instant} {db db' : Db}
    {l l' : Session} {events : List (Event Cmd Cmd.Resp)} {r : Except PyError JobOutcome}
    {cursor : FetchCursor Json} {raws : List RawObservation} {listingId : ℕ}
    {credentialScope : String} (h : l.InStep db j) (hready : Ready j workerId)
    (happroved : PolicyGate.IngestionApproved db.decisions j.source)
    (hcursor : FetchCursor.parse j.cursor = .ok cursor)
    (hlisting : j.listingId = some listingId)
    (hscope : cursor.credentialScope.text? = some credentialScope)
    (hfits : ∀ raw ∈ raws, Accepted cursor raw → (rowValue raw).FitsColumns)
    (hstore : ∀ o ∈ db.observations.rows, o.value.FitsColumns)
    (hx : (process j.id workerId now).Traces semantics db l events r db' l')
    (hserved : Served raws events) :
    Isolates j cursor now raws db db' r ↔
      (∀ raw ∈ raws, cursor.externalListingId.text? = some raw.externalListingId →
        (cursor.start ≤ raw.sessionDate ∧ raw.sessionDate ≤ cursor.end) →
        currencyMatches raw.currency = true → raw.close.isNaN = false) ∧
      ∀ raw ∈ raws, Accepted cursor raw → isCurrencyCode raw.currency = true := by
  obtain ⟨j', authorization, db₀, db₁, result, -, hobs₀, hrows, ⟨running, -, hending⟩, hobs₁⟩ :=
    process_looped h hready happroved hcursor hx hserved
  have hentry := rowEntry_eq j cursor authorization now
  have htally := hrows.tally hentry
  rw [hobs₀] at htally
  constructor
  · rintro ⟨-, outcome, rfl, hrejected⟩
    rcases htally with ⟨hraises, rfl, -⟩ | ⟨-, e, rfl⟩
    · obtain ⟨_, hr, hcount⟩ := hending.returned
      obtain rfl := Except.ok.inj hr
      rw [hrejected, Nat.zero_add] at hcount
      have hfollows := followsRules_of_count hraises hcount.symm
      exact ⟨hfollows.comparable, hfollows.currency⟩
    · cases hending
  · rintro ⟨hcomparable, hcurrency⟩
    have hfollows : FollowsRules cursor raws := ⟨hcomparable, hcurrency⟩
    have hraises := hfollows.not_raises hlisting hscope hfits hstore
    obtain ⟨-, rfl, -⟩ := htally.resolve_right fun h => hraises h.1
    have hmeets : ∀ raw ∈ raws, (rowEntry j cursor raw).isOk = decide (MeetsRules cursor raw) := by
      intro raw hraw
      rw [Bool.eq_iff_iff, isOk_rowEntry_iff hraises hraw, hfollows.accepted_iff hraw,
        decide_eq_true_iff]
    have hinput : ∀ raw, (rowInput j cursor authorization now raw).isOk =
        (rowEntry j cursor raw).isOk := by
      intro raw
      rw [hentry]
      cases rowInput j cursor authorization now raw <;> rfl
    refine ⟨⟨authorization, db₀, db₁, hobs₀, ?_, hobs₁⟩, ?_⟩
    · have hordered := hrows.recordedInOrder
      rwa [List.filter_congr fun raw hraw => (hinput raw).trans (hmeets raw hraw)] at hordered
    · obtain ⟨outcome, hr, hcount⟩ := hending.returned
      refine ⟨outcome, hr, ?_⟩
      rw [hcount, Nat.zero_add, count_rejected hraises]
      exact List.countP_congr fun raw hraw => by rw [hmeets raw hraw]

/-- A row in lower case is isolated from a valid one. -/
theorem process_isolates_lowercase :
    ∃ events r db' l',
      (IngestionRunner.process 1 "worker" 0).Traces semantics (claimedOver .empty) Session.new events
        r db' l' ∧
      IngestionRunner.Isolates claimedJob claimedCursor 0
        [dayRow "eur" (.finite 1), dayRow "EUR" (.finite 1)] (claimedOver .empty) db' r := by
  obtain ⟨events, r, db', l', -, hx, hserved, -⟩ :=
    exists_processed .empty [dayRow "eur" (.finite 1), dayRow "EUR" (.finite 1)]
  have hfits : ∀ raw ∈ [dayRow "eur" (.finite 1), dayRow "EUR" (.finite 1)],
      IngestionRunner.Accepted claimedCursor raw →
        (IngestionRunner.rowValue raw).FitsColumns := by
    simp [dayRow, IngestionRunner.rowValue, ObservationValue.FitsColumns,
      ObservationValue.decimals, Decimal.isSignaling]
  refine ⟨events, r, db', l', hx, (process_isolates_iff (claimedOver_inStep _) claimedJob_ready
    (claimedOver_approved _) claimedJob_cursor rfl rfl hfits (fun _ h => absurd h List.not_mem_nil)
    hx hserved).mpr ⟨?_, by decide +kernel⟩⟩
  simp [dayRow, Decimal.isNaN]

/-- **A row whose close is a NaN ends the call**, and keeps the valid row after it from being
stored. -/
theorem process_raises_on_nan :
    ∃ events r db' l',
      (IngestionRunner.process 1 "worker" 0).Traces semantics (claimedOver .empty) Session.new events
        r db' l' ∧
      IngestionRunner.Served [dayRow "EUR" (.nan false), dayRow "EUR" (.finite 1)] events ∧
      IngestionRunner.MeetsRules claimedCursor (dayRow "EUR" (.finite 1)) ∧
      (∃ e, r = .error e) ∧ db'.observations.rows = [] ∧
      ¬ IngestionRunner.Isolates claimedJob claimedCursor 0
        [dayRow "EUR" (.nan false), dayRow "EUR" (.finite 1)] (claimedOver .empty) db' r := by
  obtain ⟨events, r, db', l', j', hx, hserved, -, hprocessed⟩ :=
    exists_processed .empty [dayRow "EUR" (.nan false), dayRow "EUR" (.finite 1)]
  obtain ⟨e, rfl⟩ := hprocessed.raises (by decide +kernel)
  refine ⟨events, _, db', l', hx, hserved, by decide +kernel, ⟨e, rfl⟩, ?_, fun h => ?_⟩
  · obtain ⟨new, hrows, -, hstores⟩ := hprocessed.adds
    have hnew : new = [] := List.eq_nil_iff_forall_not_mem.mpr fun o ho =>
      IngestionRunner.not_storesEntry_of_raised rfl o.entry ((hstores _).mp ⟨o, ho, rfl⟩)
    rw [hrows, hnew]
    rfl
  · obtain ⟨outcome, hr, -⟩ := h.returned
    exact absurd hr (by simp)

end MarketRelay
