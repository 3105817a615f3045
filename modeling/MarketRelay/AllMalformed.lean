import MarketRelay.Processed

/-!
# Failing a Response as Malformed

After the loop over the rows, a job fails as `all_malformed` when some row was rejected and none
was recorded. A row that repeats the current revision of its key is not counted as recorded. So a
response of which one row is valid fails the job when its valid rows are stored already, which is
what an earlier attempt leaves behind.

## Main results

* `process_decided_iff`: exactly when the outcome is decided by the validity of the rows.
* `process_fails_retry`: a response with a valid row that fails the job.
-/

open Relational Interaction Gregorian

namespace MarketRelay

namespace IngestionRunner

/-- The outcome of a call is decided by which rows are valid: it fails as malformed a response that
has rows and no valid one, and completes the job when there is one. -/
structure DecidedByValidity (cursor : FetchCursor Json) (raws : List RawObservation)
    (r : Except PyError JobOutcome) (j' : Job) : Prop where
  allMalformed : (∃ outcome, r = .ok outcome ∧ outcome.detail = "all_malformed") ↔
    raws ≠ [] ∧ ∀ raw ∈ raws, ¬ Accepted cursor raw
  done : (∃ raw ∈ raws, Accepted cursor raw) →
    ∃ outcome, r = .ok outcome ∧ outcome.status = .done ∧ j'.status = .done

/-- Some valid row does not repeat what is stored already. -/
def SomeNew (j : Job) (cursor : FetchCursor Json) (raws : List RawObservation)
    (t : ObservationTable) : Prop :=
  ∃ raw ∈ raws, ∃ entry, rowEntry j cursor raw = .ok entry ∧
    (currentValues t).entryFate entry ≠ .repeated

section Decided

variable {now : Instant} {j j' : Job} {cursor : FetchCursor Json} {raws : List RawObservation}
  {db db' : Db} {r : Except PyError JobOutcome}

/-- Without an exception, nothing is recorded exactly when no valid row is new. -/
theorem count_stored_iff (h : ¬ Raises (rowEntry j cursor) (currentValues db.observations) raws) :
    (fates (rowEntry j cursor) (currentValues db.observations) raws).count .stored = 0 ↔
      ¬ SomeNew j cursor raws db.observations := by
  rw [count_stored_eq_zero_iff h, nothing_stored_iff h, SomeNew]
  simp only [not_exists, not_and, not_not]

/-- Without an exception, nothing is rejected exactly when all rows are valid. -/
theorem count_rejected_iff
    (h : ¬ Raises (rowEntry j cursor) (currentValues db.observations) raws) :
    (fates (rowEntry j cursor) (currentValues db.observations) raws).count .rejected = 0 ↔
      ∀ raw ∈ raws, Accepted cursor raw := by
  rw [count_rejected h, List.countP_eq_zero]
  refine forall₂_congr fun raw hraw => ?_
  rw [← isOk_rowEntry_iff h hraw]
  simp

/-- How a response without exceptions ends. -/
theorem Processed.decided (h : Processed now j cursor raws db db' r j')
    (hraises : ¬ Raises (rowEntry j cursor) (currentValues db.observations) raws) :
    DecidedByValidity cursor raws r j' ↔
      (∀ raw ∈ raws, Accepted cursor raw) ∨ (∀ raw ∈ raws, ¬ Accepted cursor raw) ∨
        SomeNew j cursor raws db.observations := by
  have hstored := count_stored_iff hraises
  have hrejected := count_rejected_iff hraises
  obtain ⟨running, -, hends⟩ := h.ends hraises
  generalize (fates (rowEntry j cursor) (currentValues db.observations) raws).count .stored =
    stored at hstored hends
  generalize (fates (rowEntry j cursor) (currentValues db.observations) raws).count .rejected =
    rejected at hrejected hends
  cases hends with
  | allMalformed hpos =>
      have hnew : ¬ SomeNew j cursor raws db.observations := hstored.mp rfl
      constructor
      · exact fun d => Or.inr (Or.inl (d.allMalformed.mp ⟨_, rfl, rfl⟩).2)
      · rintro (hall | hnone | hsome)
        · exact absurd (hrejected.mpr hall) (Nat.ne_of_gt hpos)
        · refine ⟨iff_of_true ⟨_, rfl, rfl⟩ ⟨?_, hnone⟩, fun ⟨raw, hraw, hvalid⟩ =>
            absurd hvalid (hnone raw hraw)⟩
          rintro rfl
          exact absurd (hrejected.mpr (by simp)) (Nat.ne_of_gt hpos)
        · exact absurd hsome hnew
  | done hcounts =>
      have hcases : (∀ raw ∈ raws, Accepted cursor raw) ∨ SomeNew j cursor raws db.observations := by
        rcases Nat.eq_zero_or_pos rejected with hzero | hpos
        · exact Or.inl (hrejected.mp hzero)
        · exact Or.inr (not_not.mp (hstored.not.mp fun hzero => hcounts ⟨hpos, hzero⟩))
      have hvalid : raws ≠ [] → ∃ raw ∈ raws, Accepted cursor raw := by
        intro hne
        rcases hcases with hall | ⟨raw, hraw, entry, hentry, -⟩
        · obtain ⟨raw, hraw⟩ := List.exists_mem_of_ne_nil raws hne
          exact ⟨raw, hraw, hall raw hraw⟩
        · exact ⟨raw, hraw, (rowEntry_eq_ok_iff.mp hentry).1⟩
      refine iff_of_true ⟨iff_of_false ?_ ?_, fun _ => ⟨_, rfl, rfl, rfl⟩⟩ (hcases.imp_right Or.inr)
      · rintro ⟨outcome, hr, hdetail⟩
        obtain rfl := Except.ok.inj hr
        exact absurd hdetail (by simp)
      · rintro ⟨hne, hnone⟩
        obtain ⟨raw, hraw, hvalid⟩ := hvalid hne
        exact hnone raw hraw hvalid

/-- A call that raises does not decide by validity. -/
theorem Processed.not_decided (h : Processed now j cursor raws db db' r j')
    (hraises : Raises (rowEntry j cursor) (currentValues db.observations) raws) :
    ¬ DecidedByValidity cursor raws r j' := by
  intro d
  obtain ⟨e, rfl⟩ := h.raises hraises
  by_cases hvalid : ∃ raw ∈ raws, Accepted cursor raw
  · obtain ⟨outcome, hr, -⟩ := d.done hvalid
    exact absurd hr (by simp)
  · have hne : raws ≠ [] := by
      rintro rfl
      exact not_raises_nil hraises
    obtain ⟨outcome, hr, -⟩ := d.allMalformed.mpr ⟨hne, fun raw hraw h => hvalid ⟨raw, hraw, h⟩⟩
    exact absurd hr (by simp)

end Decided

end IngestionRunner

open IngestionRunner in
/-- **The outcome of a response is decided by which of its rows are valid exactly when** no row
raises, and its rows are all valid, or all invalid, or one of the valid ones is not stored
already. -/
theorem process_decided_iff {j : Job} {workerId : String} {now : Instant} {db db' : Db}
    {l l' : Session} {events : List (Event Cmd Cmd.Resp)} {r : Except PyError JobOutcome}
    {cursor : FetchCursor Json} {raws : List RawObservation}
    (h : l.InStep db j) (hready : Ready j workerId)
    (happroved : PolicyGate.IngestionApproved db.decisions j.source)
    (hcursor : FetchCursor.parse j.cursor = .ok cursor)
    (hx : (process j.id workerId now).Traces semantics db l events r db' l')
    (hserved : Served raws events) :
    (∃ j', db'.jobs.get? j.id = some j' ∧ DecidedByValidity cursor raws r j') ↔
      ¬ Raises (rowEntry j cursor) (currentValues db.observations) raws ∧
        ((∀ raw ∈ raws, Accepted cursor raw) ∨ (∀ raw ∈ raws, ¬ Accepted cursor raw) ∨
          SomeNew j cursor raws db.observations) := by
  obtain ⟨j', hrow, hprocessed⟩ := process_processed h hready happroved hcursor hx hserved
  have hunique : (∃ j', db'.jobs.get? j.id = some j' ∧ DecidedByValidity cursor raws r j') ↔
      DecidedByValidity cursor raws r j' := by
    simp only [hrow, Option.some.injEq, exists_eq_left']
  rw [hunique]
  by_cases hraises : Raises (rowEntry j cursor) (currentValues db.observations) raws
  · exact iff_of_false (hprocessed.not_decided hraises) fun h => h.1 hraises
  · rw [hprocessed.decided hraises]
    exact ⟨fun hcases => ⟨hraises, hcases⟩, fun h => h.2⟩

/-- A valid row and a malformed one. -/
def mixedRows : List RawObservation := [dayRow "EUR" (.finite 1), dayRow "eur" (.finite 1)]

/-- A response of which one row is valid, and new, completes the job. -/
theorem process_decided_first :
    ∃ events r db' l',
      (IngestionRunner.process 1 "worker" 0).Traces semantics (claimedOver .empty) Session.new events
        r db' l' ∧
      ∃ j', db'.jobs.get? 1 = some j' ∧
        IngestionRunner.DecidedByValidity claimedCursor mixedRows r j' := by
  obtain ⟨events, r, db', l', -, hx, hserved, -⟩ := exists_processed .empty mixedRows
  refine ⟨events, r, db', l', hx, (process_decided_iff (claimedOver_inStep _)
    claimedJob_ready (claimedOver_approved _) claimedJob_cursor hx hserved).mpr ⟨by decide +kernel, ?_⟩⟩
  exact Or.inr (Or.inr ⟨_, List.mem_cons_self, _, rfl, by decide +kernel⟩)

open IngestionRunner in
/-- **A retry fails on a response that an earlier attempt would have completed**: one of its two
rows is valid, and is stored already. -/
theorem process_fails_retry :
    ∃ events r db' l' j',
      (process 1 "worker" 0).Traces semantics (claimedOver (holding (dayRow "EUR" (.finite 1))))
        Session.new events r db' l' ∧
      Served mixedRows events ∧ db'.jobs.get? 1 = some j' ∧
      (∃ raw ∈ mixedRows, Accepted claimedCursor raw) ∧
      ¬ DecidedByValidity claimedCursor mixedRows r j' := by
  let db := claimedOver (holding (dayRow "EUR" (.finite 1)))
  obtain ⟨events, r, db', l', j', hx, hserved, hrow, hprocessed⟩ :=
    exists_processed db.observations mixedRows
  have hvalid : ∃ raw ∈ mixedRows, Accepted claimedCursor raw :=
    ⟨_, List.mem_cons_self, by decide +kernel⟩
  refine ⟨events, r, db', l', j', hx, hserved, hrow, hvalid, ?_⟩
  have hraises : ¬ Raises (rowEntry claimedJob claimedCursor) (currentValues db.observations)
      mixedRows := by decide +kernel
  have hnew : ¬ SomeNew claimedJob claimedCursor mixedRows db.observations :=
    (count_stored_iff hraises).mp (by decide +kernel)
  rw [hprocessed.decided hraises]
  rintro (hall | hnone | hsome)
  · exact absurd (hall _ (List.mem_cons_of_mem _ List.mem_cons_self)) (by decide +kernel)
  · obtain ⟨raw, hraw, haccepted⟩ := hvalid
    exact hnone raw hraw haccepted
  · exact hnew hsome

end MarketRelay
