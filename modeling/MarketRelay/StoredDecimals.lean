import MarketRelay.Lib.Execution
import MarketRelay.ObservationStore

/-!
# Stored Decimals

The numeric columns of an observation keep eight decimal places: what a later session reads
back has been rounded. `_same_value` compares it with the input as the caller gave it. So an
input that has more decimal places is never the same as the row that was stored for it, and
recording it once more stores it as a correction of itself.

## Main results

* `columnSemantics_exec`: values that the columns store exactly.
* `record_executes`: what a call of `record` does, run alone.
* `record_again_iff`: recording is idempotent across sessions exactly for the inputs that the
  columns store unchanged.
* `record_again_corrects`: an input that is recorded as a correction of itself.
-/

open Relational Interaction Gregorian

namespace MarketRelay

/-! ### What is read back -/

/-- The decimal places of the numeric columns. -/
def numericScale : ℕ := 8

/-- The value as a later session reads it. -/
def ObservationValue.rounded (ρ : Rounding numericScale) (v : ObservationValue) :
    ObservationValue :=
  { v with
    close := v.close.rounded ρ
    «open» := v.open.map (Decimal.rounded ρ)
    high := v.high.map (Decimal.rounded ρ)
    low := v.low.map (Decimal.rounded ρ)
    adjustedClose := v.adjustedClose.map (Decimal.rounded ρ) }

/-- The decimals of a value. -/
def ObservationValue.decimals (v : ObservationValue) : List Decimal :=
  v.close :: [v.open, v.high, v.low, v.adjustedClose].flatMap Option.toList

/-- A value has a NaN only among its decimals. -/
theorem ObservationValue.hasNaN_of_decimals {v : ObservationValue}
    (h : ∀ d ∈ v.decimals, d.isNaN = false) : v.hasNaN = false := by
  have hoption : ∀ o ∈ [v.open, v.high, v.low, v.adjustedClose], o.any Decimal.isNaN = false := by
    intro o ho
    cases o with
    | none => rfl
    | some d =>
        refine h d (List.mem_cons_of_mem _ (List.mem_flatMap.mpr ⟨some d, ho, ?_⟩))
        exact List.mem_singleton_self d
  simp only [ObservationValue.hasNaN, Bool.or_eq_false_iff]
  exact ⟨⟨⟨⟨h _ List.mem_cons_self, hoption _ (by simp)⟩, hoption _ (by simp)⟩,
    hoption _ (by simp)⟩, hoption _ (by simp)⟩

/-- Every decimal of the value has at most the decimal places of the columns. -/
def ObservationValue.HasScale (v : ObservationValue) : Prop :=
  ∀ d ∈ v.decimals, d.HasScale numericScale

theorem ObservationValue.rounded_eq_self_iff (ρ : Rounding numericScale) {v : ObservationValue} :
    v.rounded ρ = v ↔ v.HasScale := by
  have hoption : ∀ o : Option Decimal, o.map (Decimal.rounded ρ) = o ↔
      ∀ d ∈ o.toList, d.HasScale numericScale := by
    intro o
    cases o with
    | none => simp
    | some d => simp [Decimal.rounded_eq_self_iff]
  obtain ⟨currency, close, «open», high, low, adjustedClose, quality⟩ := v
  simp only [rounded, mk.injEq, HasScale, decimals, List.mem_cons, List.flatMap_cons,
    List.flatMap_nil, List.append_nil, List.mem_append, or_imp, forall_and, forall_eq,
    Decimal.rounded_eq_self_iff, hoption, true_and, and_true]

/-- The row as a later session reads it. -/
def Observation.rounded (ρ : Rounding numericScale) (o : Observation) : Observation :=
  { o with value := o.value.rounded ρ }

def Observation.roundedEdit (ρ : Rounding numericScale) : Edit Observation where
  apply := Observation.rounded ρ
  pk_apply _ := rfl
  clash_apply _ _ := Iff.rfl

/-- The database as a later session reads it, after a commit. -/
def Db.readBack (ρ : Rounding numericScale) (db : Db) : Db :=
  { db with observations := db.observations.update (fun _ => true) (Observation.roundedEdit ρ) }

theorem Db.rows_readBack (ρ : Rounding numericScale) (db : Db) :
    (db.readBack ρ).observations.rows = db.observations.rows.map (Observation.rounded ρ) :=
  List.map_congr_left fun _ _ => if_pos rfl

theorem Db.currentRevision_readBack (ρ : Rounding numericScale) (db : Db) (key : NaturalKey) :
    currentRevision key (db.readBack ρ).observations =
      (currentRevision key db.observations).map (Observation.rounded ρ) := by
  have hrevisions : revisionsOf key (db.readBack ρ).observations =
      (revisionsOf key db.observations).map (Observation.rounded ρ) := by
    rw [revisionsOf, revisionsOf, rows_readBack, List.filter_map]
    rfl
  rw [currentRevision, currentRevision, hrevisions]
  exact latestBy_map (fun _ => rfl) _

/-! ### Columns that round -/

/-- The effects of the commands when a numeric column stores what it is given rounded to its decimal
places. -/
def columnSemantics (ρ : Rounding numericScale) : Semantics Cmd Cmd.Resp Answers Db Session where
  exec
    | .insertObservation candidate =>
      exec (.insertObservation { candidate with value := candidate.value.rounded ρ })
    | c => exec c

/-- The command stores no value that the columns round. -/
def Cmd.Exact (c : Cmd) : Prop :=
  ∀ candidate, c = .insertObservation candidate → candidate.value.HasScale

/-- **Values with at most eight decimal places are stored exactly.** -/
theorem columnSemantics_exec (ρ : Rounding numericScale) {c : Cmd} (h : c.Exact) :
    (columnSemantics ρ).exec c = exec c := by
  cases c with
  | insertObservation candidate =>
      have hround := (ObservationValue.rounded_eq_self_iff ρ).mpr (h candidate rfl)
      change exec (.insertObservation { candidate with value := candidate.value.rounded ρ }) = _
      rw [hround]
  | _ => rfl

/-! ### Recording, run alone -/

namespace ObservationStore

variable {data : ObservationInput} {db db' : Db} {l l' : Session} {r : Except PyError RecordOutcome}

/-- The current revision carries the value of the input. -/
def Recorded (data : ObservationInput) (db : Db) (existing : Observation) : Prop :=
  currentRevision data.key db.observations = some existing ∧
    sameValue existing.value data.stored = some true

/-- The call has stored a new revision. -/
def Stored (data : ObservationInput) (db : Db) (r : Except PyError RecordOutcome) (db' : Db) :
    Prop :=
  ∃ id, db.observations.insert? ((data.candidate (nextRevision (currentRevision data.key
      db.observations))).row id) = some db'.observations ∧
    r = .ok ⟨(data.candidate (nextRevision (currentRevision data.key db.observations))).row id, true,
      (currentRevision data.key db.observations).isSome⟩

/-- Comparing with the current revision changes nothing. -/
private theorem duplicate_executes {r : Except PyError (Option Observation)}
    (h : (duplicate (currentRevision data.key db.observations) data).Executes semantics db l r
      db' l') :
    db' = db ∧ ((∃ existing, Recorded data db existing ∧ r = .ok (some existing)) ∨
      (∀ existing, ¬ Recorded data db existing) ∧ (r = .ok none ∨ ∃ e, r = .error e)) := by
  cases hcurrent : currentRevision data.key db.observations with
  | none =>
      rw [hcurrent] at h
      obtain ⟨rfl, rfl, -⟩ := Script.executes_pure.mp h
      exact ⟨rfl, Or.inr ⟨fun existing hrec => absurd (hcurrent.symm.trans hrec.1) (by simp),
        Or.inl rfl⟩⟩
  | some existing =>
      rw [hcurrent, duplicate] at h
      have hother : sameValue existing.value data.stored ≠ some true →
          ∀ existing', ¬ Recorded data db existing' := by
        intro hne existing' hrec
        obtain rfl := Option.some.inj (hcurrent.symm.trans hrec.1)
        exact hne hrec.2
      split at h
      · rename_i hsame
        obtain ⟨rfl, rfl, -⟩ := Script.executes_pure.mp h
        exact ⟨rfl, Or.inl ⟨existing, ⟨hcurrent, hsame⟩, rfl⟩⟩
      · rename_i hsame
        obtain ⟨rfl, rfl, -⟩ := Script.executes_pure.mp h
        exact ⟨rfl, Or.inr ⟨hother (by simp [hsame]), Or.inl rfl⟩⟩
      · rename_i hsame
        obtain ⟨rfl, rfl, -⟩ := Script.executes_throw.mp h
        exact ⟨rfl, Or.inr ⟨hother (by simp [hsame]), Or.inr ⟨_, rfl⟩⟩⟩

/-- An insertion adds the row, unless it violates a constraint. -/
private theorem insertObservation_executes {candidate : ObservationCandidate}
    {r : Except PyError (Option Observation)}
    (h : (issue (.insertObservation candidate) : App (Option Observation)).Executes semantics db l r
      db' l') :
    (∃ id, db.observations.insert? (candidate.row id) = some db'.observations ∧
      r = .ok (some (candidate.row id))) ∨ r = .ok none ∧ db' = db := by
  obtain ⟨e, rfl, rfl, -⟩ := Script.executes_op.mp h
  cases hins : db.observations.insert? (candidate.row (db.observations.draw e.uuid)) with
  | some t =>
      refine Or.inl ⟨db.observations.draw e.uuid, ?_, ?_⟩
      · rw [hins]
        simp only [semantics_exec, exec, hins]
      · simp only [semantics_exec, exec, hins]
  | none =>
      refine Or.inr ⟨?_, ?_⟩ <;> simp only [semantics_exec, exec, hins]

private theorem recordLoop_executes {attempts : ℕ}
    (h : (recordLoop data attempts).Executes semantics db l r db' l') :
    (∃ existing, Recorded data db existing ∧ r = .ok ⟨existing, false, false⟩ ∧ db' = db) ∨
      ((∃ existing, Recorded data db existing) → attempts = 0) ∧
        (Stored data db r db' ∨ (∃ e, r = .error e) ∧ db' = db) := by
  induction attempts generalizing l with
  | zero =>
      obtain ⟨rfl, rfl, -⟩ := Script.executes_throw.mp h
      exact Or.inr ⟨fun _ => rfl, Or.inr ⟨⟨_, rfl⟩, rfl⟩⟩
  | succ attempts ih =>
      obtain ⟨_, hrest⟩ := Script.executes_op_bind.mp h
      rcases Script.executes_bind.mp hrest with ⟨found, db₂, l₂, hdup, hinsert⟩ | ⟨e, hdup, rfl⟩
      swap
      · obtain ⟨rfl, ⟨_, -, hr⟩ | ⟨hnot, -⟩⟩ := duplicate_executes hdup
        · exact absurd hr (by simp)
        · exact Or.inr ⟨fun ⟨existing, hrec⟩ => absurd hrec (hnot existing),
            Or.inr ⟨⟨e, rfl⟩, rfl⟩⟩
      obtain ⟨rfl, ⟨existing, hrec, hr⟩ | ⟨hnot, hr | ⟨_, hr⟩⟩⟩ := duplicate_executes hdup
      · obtain rfl := Except.ok.inj hr
        obtain ⟨rfl, rfl, -⟩ := Script.executes_pure.mp hinsert
        exact Or.inl ⟨existing, hrec, rfl, rfl⟩
      · obtain rfl := Except.ok.inj hr
        refine Or.inr ⟨fun ⟨existing, hrec⟩ => absurd hrec (hnot existing), ?_⟩
        obtain ⟨stored, db₃, l₃, hop, hlast⟩ := Script.executes_bind_of_returns
          (fun e _ _ => Script.op_returns e) hinsert
        rcases insertObservation_executes hop with ⟨id, hins, hr⟩ | ⟨hr, rfl⟩
        · obtain rfl := Except.ok.inj hr
          obtain ⟨rfl, rfl, -⟩ := Script.executes_pure.mp hlast
          exact Or.inl ⟨id, hins, rfl⟩
        · obtain rfl := Except.ok.inj hr
          rcases ih hlast with ⟨existing, hrec, -⟩ | ⟨-, hout⟩
          · exact absurd hrec (hnot existing)
          · exact hout
      · exact absurd hr (by simp)

/-- **What a call of `record` does**, run alone: it returns the current revision when that
carries the value, and otherwise it stores a new revision or fails. -/
theorem record_executes (h : (record data).Executes semantics db l r db' l') :
    (∃ existing, Recorded data db existing ∧ r = .ok ⟨existing, false, false⟩ ∧ db' = db) ∨
      (∀ existing, ¬ Recorded data db existing) ∧
        (Stored data db r db' ∨ (∃ e, r = .error e) ∧ db' = db) := by
  rcases recordLoop_executes h with hrec | ⟨hnot, hout⟩
  · exact Or.inl hrec
  · exact Or.inr ⟨fun existing hrec => absurd (hnot ⟨existing, hrec⟩) (by decide), hout⟩

/-- A revision that has been stored is the current one. -/
theorem Stored.currentRevision {outcome : RecordOutcome} (h : Stored data db (.ok outcome) db') :
    currentRevision data.key db'.observations = some outcome.observation := by
  obtain ⟨id, hins, hr⟩ := h
  obtain rfl := Except.ok.inj hr
  obtain ⟨-, hrows⟩ := Table.insert?_eq_some_iff.mp hins
  have hrevisions : revisionsOf data.key db'.observations = revisionsOf data.key db.observations ++
      [(data.candidate (nextRevision (MarketRelay.currentRevision data.key
        db.observations))).row id] := by
    rw [revisionsOf, hrows, List.filter_append]
    congr 1
    exact List.filter_cons_of_pos (decide_eq_true rfl)
  rw [MarketRelay.currentRevision, hrevisions, latestBy_concat, ← MarketRelay.currentRevision]
  cases hcurrent : MarketRelay.currentRevision data.key db.observations with
  | none => rfl
  | some existing => exact if_pos (Nat.lt_succ_self existing.revision)

/-- After a call that has returned, the row that it returns is the current revision, and carries
the value of the input. -/
theorem current_of_record {outcome : RecordOutcome}
    (h : (record data).Executes semantics db l (.ok outcome) db' l') :
    MarketRelay.currentRevision data.key db'.observations = some outcome.observation ∧
      outcome.observation.value = data.stored := by
  rcases record_executes h with ⟨existing, ⟨hcurrent, hsame⟩, hr, rfl⟩ | ⟨-, hstored | ⟨⟨e, hr⟩, -⟩⟩
  · obtain rfl := Except.ok.inj hr
    exact ⟨hcurrent, eq_of_sameValue hsame⟩
  · refine ⟨hstored.currentRevision, ?_⟩
    obtain ⟨id, -, hr⟩ := hstored
    obtain rfl := Except.ok.inj hr
    rfl
  · exact absurd hr (by simp)

end ObservationStore

/-! ### Recording again -/

/-- A finite positive close and finite optional decimals, within the range of the columns. -/
structure ObservationInput.Admissible (ρ : Rounding numericScale) (data : ObservationInput) :
    Prop where
  close : ∃ q, data.value.close = .finite q ∧ 0 < q
  finite : ∀ d ∈ data.value.decimals, ∃ q, d = .finite q ∧ |ρ.round q| < 10 ^ 12

theorem ObservationInput.Admissible.hasNaN {ρ : Rounding numericScale} {data : ObservationInput}
    (h : data.Admissible ρ) : data.stored.hasNaN = false := by
  refine ObservationValue.hasNaN_of_decimals fun d hd => ?_
  obtain ⟨q, rfl, -⟩ := h.finite d hd
  rfl

/-- The input is stored unchanged exactly when its decimals have at most the decimal places of the
columns. -/
theorem ObservationInput.rounded_stored_iff (ρ : Rounding numericScale) {data : ObservationInput} :
    data.stored.rounded ρ = data.stored ↔ data.value.HasScale :=
  ObservationValue.rounded_eq_self_iff ρ

/-- **Recording is idempotent across sessions exactly when** every decimal of the input has at most
eight decimal places: after a call has returned and its transaction is committed, every call with
the same input from a new session returns the first row, as not created, and adds no row. -/
theorem record_again_iff (ρ : Rounding numericScale) {data : ObservationInput}
    (hdata : data.Admissible ρ) {db db₁ : Db} {l l₁ : Session} {first : RecordOutcome}
    (hfirst : (ObservationStore.record data).Executes semantics (db.readBack ρ) l (.ok first)
      db₁ l₁) :
    (∀ l₂ r db₂ l₃, (ObservationStore.record data).Executes semantics (db₁.readBack ρ) l₂ r db₂ l₃ →
      r = .ok ⟨first.observation, false, false⟩ ∧
        db₂.observations = (db₁.readBack ρ).observations) ↔
      data.value.HasScale := by
  obtain ⟨hcurrent, hvalue⟩ := ObservationStore.current_of_record hfirst
  have hread : currentRevision data.key (db₁.readBack ρ).observations =
      some (first.observation.rounded ρ) := by
    rw [Db.currentRevision_readBack, hcurrent]
    rfl
  constructor
  · intro hall
    obtain ⟨r, db₂, l₃, hagain⟩ := Prog.exists_executes semantics
      (ObservationStore.record data).run (db₁.readBack ρ) Session.new
    obtain ⟨rfl, -⟩ := hall Session.new r db₂ l₃ hagain
    rcases ObservationStore.record_executes hagain with
      ⟨existing, ⟨hexisting, hsame⟩, -, -⟩ | ⟨-, ⟨id, -, hr⟩ | ⟨⟨e, hr⟩, -⟩⟩
    · obtain rfl := Option.some.inj (hexisting.symm.trans hread)
      have hrounded : first.observation.value.rounded ρ = data.stored := eq_of_sameValue hsame
      rw [hvalue] at hrounded
      exact (ObservationInput.rounded_stored_iff ρ).mp hrounded
    · exact absurd (congrArg RecordOutcome.created (Except.ok.inj hr)) (by simp)
    · exact absurd hr (by simp)
  · intro hscale l₂ r db₂ l₃ hagain
    have hsame : first.observation.rounded ρ = first.observation := by
      rw [Observation.rounded, hvalue, (ObservationInput.rounded_stored_iff ρ).mpr hscale, ← hvalue]
    rw [hsame] at hread
    have hrecorded : ObservationStore.Recorded data (db₁.readBack ρ) first.observation :=
      ⟨hread, by rw [hvalue]; exact sameValue_self_iff.mpr hdata.hasNaN⟩
    rcases ObservationStore.record_executes hagain with
      ⟨existing, ⟨hexisting, -⟩, rfl, rfl⟩ | ⟨hnot, -⟩
    · obtain rfl := Option.some.inj (hexisting.symm.trans hread)
      exact ⟨rfl, rfl⟩
    · exact absurd hrecorded (hnot _)

/-! ### Inputs on concrete tables -/

/-- The close of a day of a listing. -/
def dayClose (close : ℚ) : ObservationInput where
  listingId := 1
  key := ⟨"fake", "default", "BTC", today, .eodClose⟩
  value := ⟨"EUR", .finite close, none, none, none, none, .ok⟩
  retrievedAt := 0
  retrievalPolicyDecisionId := none
  storagePolicyDecisionId := none

theorem dayClose_admissible {q : ℚ} (hpos : 0 < q)
    (hrange : |(Rounding.halfAway numericScale).round q| < 10 ^ 12) :
    (dayClose q).Admissible (Rounding.halfAway numericScale) where
  close := ⟨q, rfl, hpos⟩
  finite d hd := by
    obtain rfl : d = .finite q := by simpa [dayClose, ObservationValue.decimals] using hd
    exact ⟨q, rfl, hrange⟩

/-- A close with one decimal place is recorded once. -/
theorem record_again_once :
    ∃ db₁ l₁ first, (ObservationStore.record (dayClose (3 / 2))).Executes semantics
        ((⟨Table.empty, Table.empty, Table.empty⟩ : Db).readBack (.halfAway numericScale))
        Session.new (.ok first) db₁ l₁ ∧
      ∀ l₂ r db₂ l₃, (ObservationStore.record (dayClose (3 / 2))).Executes semantics
        (db₁.readBack (.halfAway numericScale)) l₂ r db₂ l₃ →
          r = .ok ⟨first.observation, false, false⟩ ∧
            db₂.observations = (db₁.readBack (.halfAway numericScale)).observations := by
  have hrun : ((ObservationStore.record (dayClose (3 / 2))).run.execute semantics
      [default, default] ((⟨Table.empty, Table.empty, Table.empty⟩ : Db).readBack
        (.halfAway numericScale)) Session.new).any (fun first => first.1.toOption.isSome) = true := by
    decide +kernel
  obtain ⟨⟨r, db₁, l₁⟩, hexec, hok⟩ := (Option.any_eq_true _ _).mp hrun
  rcases r with e | first
  · exact absurd hok (by simp [Except.toOption])
  refine ⟨db₁, l₁, first, ⟨_, hexec⟩, (record_again_iff (.halfAway numericScale)
    (dayClose_admissible (by norm_num) (by decide +kernel)) ⟨_, hexec⟩).mpr ?_⟩
  intro d hd
  obtain rfl : d = .finite (3 / 2) := by simpa [dayClose, ObservationValue.decimals] using hd
  exact (by decide +kernel : FitsScale numericScale (3 / 2))

/-- **An input can be recorded as a correction of itself**: its close has nine decimal places. -/
theorem record_again_corrects :
    ¬ ∀ (data : ObservationInput) (db db₁ db₂ : Db) (l l₁ l₂ l₃ : Session) (first : RecordOutcome)
      (r : Except PyError RecordOutcome), data.Admissible (.halfAway numericScale) →
      (ObservationStore.record data).Executes semantics (db.readBack (.halfAway numericScale)) l
        (.ok first) db₁ l₁ →
      (ObservationStore.record data).Executes semantics (db₁.readBack (.halfAway numericScale)) l₂ r
        db₂ l₃ →
      r = .ok ⟨first.observation, false, false⟩ ∧
        db₂.observations = (db₁.readBack (.halfAway numericScale)).observations := by
  intro hall
  let data := dayClose (123456789 / 10 ^ 9)
  let db : Db := ⟨Table.empty, Table.empty, Table.empty⟩
  have hrun : ((ObservationStore.record data).run.execute semantics [default, default]
      (db.readBack (.halfAway numericScale)) Session.new).any (fun first =>
        first.1.toOption.isSome && ((ObservationStore.record data).run.execute semantics
          [default, default] (first.2.1.readBack (.halfAway numericScale)) Session.new).any
            fun second => second.1.toOption.any RecordOutcome.isCorrection) = true := by
    decide +kernel
  obtain ⟨⟨r, db₁, l₁⟩, hfirst, hrun⟩ := (Option.any_eq_true _ _).mp hrun
  obtain ⟨hok, hrun⟩ := Bool.and_eq_true_iff.mp hrun
  obtain ⟨⟨r', db₂, l₃⟩, hsecond, hcorrection⟩ := (Option.any_eq_true _ _).mp hrun
  rcases r with e | first
  · exact absurd hok (by simp [Except.toOption])
  obtain ⟨rfl, -⟩ := hall data db db₁ db₂ Session.new l₁ Session.new l₃ first r'
    (dayClose_admissible (by norm_num) (by decide +kernel)) ⟨_, hfirst⟩ ⟨_, hsecond⟩
  exact absurd hcorrection (by simp [Except.toOption])

end MarketRelay
