import MarketRelay.Processed

/-!
# The Keys of Stored Rows

A row of a response is checked against the listing and the range of the cursor, and is stored for
the listing and the source of the job under the scope of the cursor. Its observation type is its
own: nothing compares it with the type of the cursor. So a call can add rows outside the series of
its job, whose last completed session the planner reads.

## Main results

* `process_belongs_iff`: exactly when everything that a call adds belongs to its job.
* `process_stores_foreign`: a call that stores a net asset value for a job of closes.
-/

open Relational Interaction Gregorian

namespace MarketRelay

namespace IngestionRunner

/-- The observation is one that the job asks for: of its listing, in the series of its source and
cursor, and for a session in the range of the cursor. -/
structure BelongsTo (j : Job) (cursor : FetchCursor Json) (o : Observation) : Prop where
  listing : j.listingId = some o.listingId
  series : ∃ credentialScope externalListingId,
    cursor.credentialScope.text? = some credentialScope ∧
    cursor.externalListingId.text? = some externalListingId ∧
    o.key = SeriesKey.at ⟨j.source, credentialScope, externalListingId, cursor.observationType⟩
      o.key.sessionDate
  range : cursor.start ≤ o.key.sessionDate ∧ o.key.sessionDate ≤ cursor.end

variable {now : Instant} {j j' : Job} {cursor : FetchCursor Json} {raws : List RawObservation}
  {db db' : Db} {r : Except PyError JobOutcome}

/-- The entry of a row has the observation type of the row. -/
theorem observationType_of_rowEntry {raw : RawObservation} {entry : Entry}
    (h : rowEntry j cursor raw = .ok entry) :
    entry.key.observationType = raw.observationType := by
  obtain ⟨-, _, _, -, -, rfl⟩ := rowEntry_eq_ok_iff.mp h
  rfl

/-- A row that has been stored belongs to the job exactly when its type is that of the cursor. -/
theorem belongsTo_iff {raw : RawObservation} {o : Observation}
    (h : rowEntry j cursor raw = .ok o.entry) (hlisting : j.listingId = some o.listingId) :
    BelongsTo j cursor o ↔ raw.observationType = cursor.observationType := by
  have htype := observationType_of_rowEntry h
  obtain ⟨haccepted, _, credentialScope, -, hscope, hentry⟩ := rowEntry_eq_ok_iff.mp h
  obtain ⟨hexternal, hrange, -⟩ := validateRawObservation_eq_ok_iff.mp haccepted
  have hkey : o.key = rowKey j.source credentialScope raw := congrArg Entry.key hentry
  constructor
  · rintro ⟨-, ⟨_, _, -, -, hseries⟩, -⟩
    rw [← htype]
    exact congrArg NaturalKey.observationType hseries
  · intro heq
    refine ⟨hlisting, ⟨credentialScope, raw.externalListingId, hscope, hexternal, ?_⟩, ?_⟩
    · rw [hkey, rowKey, heq]
      rfl
    · rw [hkey]
      exact hrange

/-- **Everything that a processed response adds belongs to the job exactly when** every row of
another type that is reached repeats what is stored. -/
theorem Processed.belongs_iff (h : Processed now j cursor raws db db' r j') :
    (∀ o ∈ db'.observations.rows, o ∉ db.observations.rows → BelongsTo j cursor o) ↔
      ∀ before raw rest entry, raws = before ++ raw :: rest →
        ¬ Raises (rowEntry j cursor) (currentValues db.observations) (before ++ [raw]) →
        rowEntry j cursor raw = .ok entry → raw.observationType ≠ cursor.observationType →
        (currentValues db.observations).entryFate entry = .repeated := by
  obtain ⟨new, hrows, hnew, hstores⟩ := h.adds
  have hfresh : ∀ o ∈ new, o ∉ db.observations.rows := by
    intro o ho hmem
    have hunique := db'.observations.unique
    rw [hrows, List.pairwise_append] at hunique
    exact hunique.2.2 o hmem o ho (Or.inl rfl)
  constructor
  · intro hall before raw rest entry heq hraises hrow htype
    refine not_storesEntry_iff.mp (fun e he hkey => htype ?_) before raw rest entry heq hraises hrow
      rfl
    obtain ⟨o, ho, rfl⟩ := (hstores e).mpr he
    obtain ⟨raw', -, hrow', hlisting⟩ := hnew o ho
    have hbelongs := hall o (hrows ▸ List.mem_append_right _ ho) (hfresh o ho)
    rw [← observationType_of_rowEntry hrow, ← hkey, observationType_of_rowEntry hrow']
    exact (belongsTo_iff hrow' hlisting).mp hbelongs
  · intro hrepeated o ho hnot
    rw [hrows] at ho
    have ho := (List.mem_append.mp ho).resolve_left hnot
    obtain ⟨raw, -, hrow, hlisting⟩ := hnew o ho
    rw [belongsTo_iff hrow hlisting]
    by_contra htype
    refine not_storesEntry_iff.mpr (fun before raw' rest entry heq hraises hrow' hkey => ?_)
      o.entry ((hstores _).mp ⟨o, ho, rfl⟩) rfl
    refine hrepeated before raw' rest entry heq hraises hrow' fun htype' => htype ?_
    rw [← htype', ← observationType_of_rowEntry hrow', hkey, observationType_of_rowEntry hrow]

end IngestionRunner

open IngestionRunner in
/-- **Everything that a call adds belongs to its job exactly when** every valid row of another
observation type that is reached, that is, neither it nor a row before it raises, carries the value
of the current revision of its key already. -/
theorem process_belongs_iff {j : Job} {workerId : String} {now : Instant} {db db' : Db}
    {l l' : Session} {events : List (Event Cmd Cmd.Resp)} {r : Except PyError JobOutcome}
    {cursor : FetchCursor Json} {raws : List RawObservation}
    (h : l.InStep db j) (hready : Ready j workerId)
    (happroved : PolicyGate.IngestionApproved db.decisions j.source)
    (hcursor : FetchCursor.parse j.cursor = .ok cursor)
    (hx : (process j.id workerId now).Traces semantics db l events r db' l')
    (hserved : Served raws events) :
    (∀ o ∈ db'.observations.rows, o ∉ db.observations.rows → BelongsTo j cursor o) ↔
      ∀ before raw rest entry, raws = before ++ raw :: rest →
        ¬ Raises (rowEntry j cursor) (currentValues db.observations) (before ++ [raw]) →
        rowEntry j cursor raw = .ok entry → raw.observationType ≠ cursor.observationType →
        (currentValues db.observations).entryFate entry = .repeated := by
  obtain ⟨j', -, hprocessed⟩ := process_processed h hready happroved hcursor hx hserved
  exact hprocessed.belongs_iff

/-- A response of one close, for a job of closes. -/
theorem process_belongs_close :
    ∃ events r db' l',
      (IngestionRunner.process 1 "worker" 0).Traces semantics (claimedOver .empty) Session.new events
        r db' l' ∧
      ∀ o ∈ db'.observations.rows, o ∉ (claimedOver .empty).observations.rows →
        IngestionRunner.BelongsTo claimedJob claimedCursor o := by
  obtain ⟨events, r, db', l', -, hx, hserved, -⟩ :=
    exists_processed .empty [dayRow "EUR" (.finite 1)]
  refine ⟨events, r, db', l', hx, (process_belongs_iff (claimedOver_inStep _) claimedJob_ready
    (claimedOver_approved _) claimedJob_cursor hx hserved).mpr fun before raw rest entry heq => ?_⟩
  obtain rfl : raw = dayRow "EUR" (.finite 1) :=
    List.mem_singleton.mp (heq ▸ List.mem_append_right _ List.mem_cons_self)
  exact fun _ _ htype => absurd rfl htype

/-- A net asset value, for the day of the claimed job. -/
def navRow : RawObservation := { dayRow "EUR" (.finite 1) with observationType := .nav }

/-- **A job of closes stores a net asset value**, outside its series. -/
theorem process_stores_foreign :
    ∃ events r db' l',
      (IngestionRunner.process 1 "worker" 0).Traces semantics (claimedOver .empty) Session.new events
        r db' l' ∧
      IngestionRunner.Served [navRow] events ∧
      ∃ o ∈ db'.observations.rows, ¬ IngestionRunner.BelongsTo claimedJob claimedCursor o := by
  obtain ⟨events, r, db', l', j', hx, hserved, -, hprocessed⟩ := exists_processed .empty [navRow]
  obtain ⟨new, hrows, hnew, hstores⟩ := hprocessed.adds
  obtain ⟨o, ho, -⟩ := (hstores ⟨IngestionRunner.rowKey "fake" "default" navRow,
    IngestionRunner.rowValue navRow⟩).mpr ⟨[], navRow, [], rfl, IngestionRunner.not_raises_nil,
      by decide +kernel, by decide +kernel⟩
  obtain ⟨raw, hraw, hrow, hlisting⟩ := hnew o ho
  obtain rfl := List.mem_singleton.mp hraw
  refine ⟨events, r, db', l', hx, hserved, o, hrows ▸ List.mem_append_right _ ho, ?_⟩
  rw [IngestionRunner.belongsTo_iff hrow hlisting]
  decide

end MarketRelay
