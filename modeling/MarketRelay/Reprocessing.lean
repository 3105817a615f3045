import MarketRelay.Processed

/-!
# Processing a Response Again

A response is processed, and what it has stored is committed; then a retry of the job receives the
same response. Each row of it is compared with the current revision of its key, which the last row
of that key has left behind. So the second pass adds nothing when the rows of each key agree, and
stores the whole alternation once more when they do not.

## Main results

* `process_again_iff`: exactly when processing a response is idempotent.
* `process_again_stores`: a response of two rows for one day, which is stored twice.
-/

open Relational Interaction Gregorian

namespace MarketRelay

namespace IngestionRunner

/-- The decimals of the row are numbers that the columns store unchanged. -/
def Exact (raw : RawObservation) : Prop :=
  ∀ d ∈ (rowValue raw).decimals, ∃ q, d = .finite q ∧ FitsScale numericScale q

/-- A retry of a job with the same response, by any worker, once what is stored has been
committed. -/
inductive Retry (ρ : Rounding numericScale) (j : Job) (raws : List RawObservation) (db : Db) :
    Db → Db → Prop where
  | call {j' : Job} {workerId : String} {now : Instant} {db₁ db₂ : Db} {l₁ l₂ : Session}
      {events : List (Event Cmd Cmd.Resp)} {r : Except PyError JobOutcome} :
      j'.id = j.id → j'.source = j.source → j'.listingId = j.listingId → j'.cursor = j.cursor →
      db₁.observations = (db.readBack ρ).observations → l₁.InStep db₁ j' → Ready j' workerId →
      PolicyGate.IngestionApproved db₁.decisions j'.source →
      (process j'.id workerId now).Traces semantics db₁ l₁ events r db₂ l₂ →
      Served raws events → Retry ρ j raws db db₁ db₂

/-- Rows of one key carry one value. -/
def Agree (raws : List RawObservation) : Prop :=
  ∀ raw ∈ raws, ∀ raw' ∈ raws, raw.sessionDate = raw'.sessionDate →
    raw.observationType = raw'.observationType → rowValue raw = rowValue raw'

theorem Exact.hasScale {raw : RawObservation} (h : Exact raw) : (rowValue raw).HasScale := by
  intro d hd
  obtain ⟨q, rfl, hq⟩ := h d hd
  exact hq

theorem Exact.fitsColumns {raw : RawObservation} (h : Exact raw) :
    (rowValue raw).FitsColumns := by
  intro d hd
  obtain ⟨q, rfl, -⟩ := h d hd
  rfl

theorem Exact.same {raw : RawObservation} (h : Exact raw) :
    sameValue (rowValue raw) (rowValue raw) = some true := by
  refine sameValue_self_iff.mpr (ObservationValue.hasNaN_of_decimals fun d hd => ?_)
  obtain ⟨q, rfl, -⟩ := h d hd
  rfl

/-- The values that are current after a commit. -/
theorem currentValues_readBack (ρ : Rounding numericScale) (db : Db) (key : NaturalKey) :
    currentValues (db.readBack ρ).observations key =
      (currentValues db.observations key).map (ObservationValue.rounded ρ) := by
  rw [currentValues, Db.currentRevision_readBack, currentValues, Option.map_map, Option.map_map]
  rfl

section Again

variable {ρ : Rounding numericScale} {now now' : Instant} {j j' : Job}
  {cursor : FetchCursor Json} {raws : List RawObservation} {db db₁ db₂ db₃ : Db}
  {r' : Except PyError JobOutcome} {row row' : Job} {outcome : JobOutcome}

/-- The valid rows of a call that has returned have given entries. -/
theorem Processed.entry_of_accepted (h : Processed now j cursor raws db db₁ (.ok outcome) row)
    {raw : RawObservation} (hraw : raw ∈ raws) (hvalid : Accepted cursor raw) :
    ∃ credentialScope, cursor.credentialScope.text? = some credentialScope ∧
      rowEntry j cursor raw = .ok ⟨rowKey j.source credentialScope raw, rowValue raw⟩ := by
  have hok := (isOk_rowEntry_iff h.not_raises hraw).mpr hvalid
  cases hrow : rowEntry j cursor raw with
  | error e => exact absurd (hrow ▸ hok) (by simp [Except.isOk, Except.toBool])
  | ok entry =>
      obtain ⟨-, _, credentialScope, -, hscope, rfl⟩ := rowEntry_eq_ok_iff.mp hrow
      exact ⟨credentialScope, hscope, rfl⟩

/-- **What a retry reads** as the value of a row's key is the value of a row of that key. -/
theorem Processed.value_of_row (h : Processed now j cursor raws db db₁ (.ok outcome) row)
    (hexact : ∀ raw ∈ raws, Exact raw) {raw : RawObservation} (hraw : raw ∈ raws) {entry : Entry}
    (hentry : rowEntry j cursor raw = .ok entry) :
    ∃ raw' ∈ raws, ∃ entry', rowEntry j cursor raw' = .ok entry' ∧ entry'.key = entry.key ∧
      currentValues (db₁.readBack ρ).observations entry.key = some (rowValue raw') := by
  rw [currentValues_readBack, h.values h.not_raises]
  obtain ⟨raw', hraw', entry', hentry', hkey, hvalue⟩ :=
    (valuesAfter_apply raws entry.key).resolve_right fun hnone =>
      hnone.1 raw hraw entry hentry rfl
  obtain ⟨-, _, _, -, -, rfl⟩ := rowEntry_eq_ok_iff.mp hentry'
  refine ⟨raw', hraw', _, hentry', hkey, ?_⟩
  rw [hvalue, Option.map_some, (ObservationValue.rounded_eq_self_iff ρ).mpr
    (hexact raw' hraw').hasScale]

/-- A second pass adds nothing exactly when the rows of each key agree. -/
theorem Processed.again_iff (h : Processed now j cursor raws db db₁ (.ok outcome) row)
    (hobs : db₂.observations = (db₁.readBack ρ).observations)
    (hentry : rowEntry j' cursor = rowEntry j cursor)
    (h' : Processed now' j' cursor raws db₂ db₃ r' row')
    (hvalid : ∀ raw ∈ raws, Accepted cursor raw) (hexact : ∀ raw ∈ raws, Exact raw) :
    db₃.observations = db₂.observations ↔ Agree raws := by
  obtain ⟨new, hrows, -, hstores⟩ := h'.adds
  rw [hentry, hobs] at hstores
  rw [hobs] at hrows ⊢
  have hnothing : db₃.observations = (db₁.readBack ρ).observations ↔
      ∀ entry, ¬ StoresEntry (rowEntry j cursor)
        (currentValues (db₁.readBack ρ).observations) raws entry := by
    simp only [← hstores, Table.ext_iff, hrows, List.append_right_eq_self]
    constructor
    · rintro rfl entry ⟨o, ho, -⟩
      exact absurd ho List.not_mem_nil
    · exact fun hnone => List.eq_nil_iff_forall_not_mem.mpr fun o ho => hnone _ ⟨o, ho, rfl⟩
  rw [hnothing]
  constructor
  · intro hnone raw hraw raw' hraw' hdate htype
    have hraises : ¬ Raises (rowEntry j cursor) (currentValues (db₁.readBack ρ).observations)
        raws := by
      refine not_raises_of_comparable (fun raw hraw => ?_) fun raw hraw e hrow current hcurrent => ?_
      · obtain ⟨_, -, hrow⟩ := h.entry_of_accepted hraw (hvalid raw hraw)
        exact Or.inl ⟨_, hrow, (hexact raw hraw).fitsColumns⟩
      · obtain ⟨raw', hraw', _, -, -, hvalue⟩ := h.value_of_row hexact hraw hrow
        obtain rfl := Option.some.inj (hvalue.symm.trans hcurrent)
        exact (hexact raw' hraw').fitsColumns
    have hrepeated := (nothing_stored_iff hraises).mp hnone
    obtain ⟨credentialScope, hscope, hrow⟩ := h.entry_of_accepted hraw (hvalid raw hraw)
    obtain ⟨_, hscope', hrow'⟩ := h.entry_of_accepted hraw' (hvalid raw' hraw')
    obtain rfl := Option.some.inj (hscope.symm.trans hscope')
    have hexternal : raw.externalListingId = raw'.externalListingId :=
      Option.some.inj ((validateRawObservation_eq_ok_iff.mp (hvalid raw hraw)).1.symm.trans
        (validateRawObservation_eq_ok_iff.mp (hvalid raw' hraw')).1)
    have hkey : rowKey j.source credentialScope raw = rowKey j.source credentialScope raw' := by
      rw [rowKey, rowKey, hexternal, hdate, htype]
    obtain ⟨current, hcurrent, hsame⟩ :=
      Values.entryFate_eq_repeated_iff.mp (hrepeated raw hraw _ hrow)
    obtain ⟨current', hcurrent', hsame'⟩ :=
      Values.entryFate_eq_repeated_iff.mp (hrepeated raw' hraw' _ hrow')
    rw [hkey, hcurrent'] at hcurrent
    obtain rfl := Option.some.inj hcurrent
    exact (eq_of_sameValue hsame).symm.trans (eq_of_sameValue hsame')
  · intro hagree entry hstored
    refine not_storesEntry_iff.mpr (fun before raw rest e heq _ hrow _ => ?_) entry hstored rfl
    have hraw : raw ∈ raws := heq ▸ List.mem_append_right _ List.mem_cons_self
    obtain ⟨raw', hraw', e', hrow', hkey, hvalue⟩ := h.value_of_row hexact hraw hrow
    obtain ⟨-, _, _, -, -, rfl⟩ := rowEntry_eq_ok_iff.mp hrow
    obtain ⟨-, _, _, -, -, rfl⟩ := rowEntry_eq_ok_iff.mp hrow'
    have hsame : rowValue raw' = rowValue raw := hagree raw' hraw' raw hraw
      (congrArg NaturalKey.sessionDate hkey) (congrArg NaturalKey.observationType hkey)
    exact Values.entryFate_eq_repeated_iff.mpr ⟨rowValue raw', hvalue, by
      rw [hsame]
      exact (hexact raw hraw).same⟩

end Again

end IngestionRunner

open IngestionRunner in
/-- **Processing a response again adds nothing exactly when** any two of its rows for one day and
observation type carry the same value: for a response of valid rows whose numbers have at most
eight decimal places, any store, and any retry once the first call has returned. -/
theorem process_again_iff (ρ : Rounding numericScale) {j : Job} {workerId : String} {now : Instant}
    {db db₁ : Db} {l l₁ : Session} {events : List (Event Cmd Cmd.Resp)} {outcome : JobOutcome}
    {cursor : FetchCursor Json} {raws : List RawObservation} (h : l.InStep db j)
    (hready : Ready j workerId) (happroved : PolicyGate.IngestionApproved db.decisions j.source)
    (hcursor : FetchCursor.parse j.cursor = .ok cursor)
    (hvalid : ∀ raw ∈ raws, Accepted cursor raw) (hexact : ∀ raw ∈ raws, Exact raw)
    (hx : (process j.id workerId now).Traces semantics db l events (.ok outcome) db₁ l₁)
    (hserved : Served raws events) :
    (∀ db₂ db₃, Retry ρ j raws db₁ db₂ db₃ → db₃.observations = db₂.observations) ↔
      ∀ raw ∈ raws, ∀ raw' ∈ raws, raw.sessionDate = raw'.sessionDate →
        raw.observationType = raw'.observationType → rowValue raw = rowValue raw' := by
  obtain ⟨row, -, hprocessed⟩ := process_processed h hready happroved hcursor hx hserved
  constructor
  · intro hall
    -- The job is queued again, and a worker claims it.
    let queued : Job := { j with status := .pending }
    let db₂ : Db := ⟨⟨[queued], List.pairwise_singleton _ _⟩, (db₁.readBack ρ).observations,
      db.decisions⟩
    obtain ⟨events', r', db₃, l₃, hx', hserved'⟩ :=
      exists_served queued.id workerId now raws db₂ Session.new
    have hstep : Session.new.InStep db₂ queued := .of_forgotten (by simp [db₂, Table.get?]) rfl
    have hpending : Ready queued workerId := Or.inl rfl
    have hretry : Retry ρ j raws db₁ db₂ db₃ :=
      .call (show queued.id = j.id from rfl) rfl rfl rfl rfl hstep hpending happroved hx' hserved'
    obtain ⟨row', -, hprocessed'⟩ :=
      process_processed hstep hpending happroved hcursor hx' hserved'
    have hobs : db₂.observations = (db₁.readBack ρ).observations := rfl
    have hentry : rowEntry queued cursor = rowEntry j cursor := rfl
    exact (hprocessed.again_iff hobs hentry hprocessed' hvalid hexact).mp (hall db₂ db₃ hretry)
  · rintro hagree db₂ db₃ ⟨hid, hsource, hlisting, hcursor', hobs, hstep, hready', happroved', hx',
      hserved'⟩
    obtain ⟨row', -, hprocessed'⟩ :=
      process_processed hstep hready' happroved' (hcursor'.symm ▸ hcursor) hx' hserved'
    refine (hprocessed.again_iff hobs ?_ hprocessed' hvalid hexact).mpr hagree
    funext raw
    rw [rowEntry, rowEntry, hsource, hlisting]

theorem dayRow_exact {currency : String} {q : ℚ} (h : FitsScale numericScale q) :
    IngestionRunner.Exact (dayRow currency (.finite q)) := by
  intro d hd
  obtain rfl : d = .finite q := by
    simpa [dayRow, IngestionRunner.rowValue, ObservationValue.decimals] using hd
  exact ⟨q, rfl, h⟩

/-- A response that repeats one row. -/
theorem process_again_repeated :
    ∃ events outcome db₁ l₁,
      (IngestionRunner.process 1 "worker" 0).Traces semantics (claimedOver .empty) Session.new events
        (.ok outcome) db₁ l₁ ∧
      ∀ db₂ db₃, IngestionRunner.Retry (.halfAway numericScale) claimedJob
        [dayRow "EUR" (.finite 1), dayRow "EUR" (.finite 1)] db₁ db₂ db₃ →
          db₃.observations = db₂.observations := by
  obtain ⟨events, r, db₁, l₁, _, hx, hserved, -, hprocessed⟩ :=
    exists_processed .empty [dayRow "EUR" (.finite 1), dayRow "EUR" (.finite 1)]
  obtain ⟨outcome, rfl⟩ := hprocessed.returned (by decide +kernel)
  refine ⟨events, outcome, db₁, l₁, hx, (process_again_iff (.halfAway numericScale)
    (claimedOver_inStep _) claimedJob_ready (claimedOver_approved _) claimedJob_cursor
    (by decide +kernel) ?_ hx hserved).mpr (by decide +kernel)⟩
  simpa using dayRow_exact (by decide +kernel)

open IngestionRunner in
/-- **A response of two rows for one day is stored again** by a retry. -/
theorem process_again_stores :
    ∃ events outcome db₁ l₁,
      (process 1 "worker" 0).Traces semantics (claimedOver .empty) Session.new events (.ok outcome)
        db₁ l₁ ∧
      Served [dayRow "EUR" (.finite 1), dayRow "EUR" (.finite 2)] events ∧
      (∀ raw ∈ [dayRow "EUR" (.finite 1), dayRow "EUR" (.finite 2)],
        Accepted claimedCursor raw ∧ Exact raw) ∧
      ∃ db₂ db₃, Retry (.halfAway numericScale) claimedJob
        [dayRow "EUR" (.finite 1), dayRow "EUR" (.finite 2)] db₁ db₂ db₃ ∧
          db₃.observations ≠ db₂.observations := by
  obtain ⟨events, r, db₁, l₁, _, hx, hserved, -, hprocessed⟩ :=
    exists_processed .empty [dayRow "EUR" (.finite 1), dayRow "EUR" (.finite 2)]
  obtain ⟨outcome, rfl⟩ := hprocessed.returned (by decide +kernel)
  obtain ⟨events', r', db₃, l₃, _, hx', hserved', -, hprocessed'⟩ :=
    exists_processed (db₁.readBack (.halfAway numericScale)).observations
      [dayRow "EUR" (.finite 1), dayRow "EUR" (.finite 2)]
  have hvalid : ∀ raw ∈ [dayRow "EUR" (.finite 1), dayRow "EUR" (.finite 2)],
      Accepted claimedCursor raw := by decide +kernel
  have hexact : ∀ raw ∈ [dayRow "EUR" (.finite 1), dayRow "EUR" (.finite 2)], Exact raw := by
    simpa using ⟨dayRow_exact (by decide +kernel), dayRow_exact (by decide +kernel)⟩
  have hobs : (claimedOver (db₁.readBack (.halfAway numericScale)).observations).observations =
      (db₁.readBack (.halfAway numericScale)).observations := rfl
  refine ⟨events, outcome, db₁, l₁, hx, hserved, fun raw hraw => ⟨hvalid raw hraw, hexact raw hraw⟩,
    _, db₃, .call rfl rfl rfl rfl hobs (claimedOver_inStep _) claimedJob_ready
      (claimedOver_approved _) hx' hserved', fun hsame => ?_⟩
  have hagree := (hprocessed.again_iff hobs rfl hprocessed' hvalid hexact).mp hsame
  exact absurd (hagree _ List.mem_cons_self _ (List.mem_cons_of_mem _ List.mem_cons_self) rfl rfl)
    (by decide +kernel)

end MarketRelay
