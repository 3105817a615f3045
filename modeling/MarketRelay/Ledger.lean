import MarketRelay.Lib.Linearization
import MarketRelay.Revisions
import MarketRelay.StoredDecimals

/-!
# The Ledger of Observations

What the observation store is for: a ledger that keeps, for every natural key, the revisions of
its value, oldest first. Recording a value on the ledger is one step: it answers the last revision
when that has the same value already, and appends the next one when it has another.

Concurrent calls of `record` are linearizable to the ledger in the order in which they return,
because the command after which a call returns decides its outcome: the read that finds the
value, or the insert that succeeds, which proves that nothing was recorded since the read. A call
that gives up leaves no trace. This is so for values that the numeric columns store exactly; what
they round is recorded again as a correction of itself.

## Main results

* `Ledger.of_insert`: an insert appends one entry to one key.
* `Recording.simulates`: a command that ends a call is the call's step on the ledger.
* `record_linearizable`: the completed calls, one after another, make the ledger that is stored.
-/

open Relational Interaction

namespace MarketRelay

/-! ### The sequential ledger -/

/-- What is stored of an observation, without its identifier. -/
def Observation.content (o : Observation) : ObservationCandidate :=
  ⟨o.listingId, o.key, o.revision, o.value, o.retrievedAt, o.retrievalPolicyDecisionId,
    o.storagePolicyDecisionId⟩

@[simp] theorem ObservationCandidate.content_row (c : ObservationCandidate) (id : ℕ) :
    (c.row id).content = c := rfl

/-- The entries of every natural key, oldest first. -/
abbrev Ledger := NaturalKey → List ObservationCandidate

/-- What a call answers, without identifiers. -/
structure LedgerAnswer where
  entry : ObservationCandidate
  created : Bool
  isCorrection : Bool
deriving DecidableEq

def RecordOutcome.answer (outcome : RecordOutcome) : LedgerAnswer :=
  ⟨outcome.observation.content, outcome.created, outcome.isCorrection⟩

/-- An insert that succeeds proves that what was read is the current revision. -/
theorem History.current_of_insert {t t' : ObservationTable} {r : Observation}
    {read : Option Observation} (h : History t) (htop : OnTopOf t read r)
    (hi : t.insert? r = some t') : currentRevision r.key t = read := by
  have hrevision := h.revision_of_insert htop hi
  have hcurrent := h.nextRevision_current r.key
  obtain ⟨hnext, hread⟩ := htop
  cases read with
  | none =>
      refine latestBy_eq_none_iff.mpr (List.length_eq_zero_iff.mp ?_)
      rw [ObservationStore.nextRevision] at hnext
      omega
  | some o =>
      obtain ⟨hrow, hkey, -⟩ := hread o rfl
      cases hc : currentRevision r.key t with
      | none =>
          have hmem := mem_revisionsOf.mpr ⟨hrow, hkey⟩
          rw [currentRevision, latestBy_eq_none_iff] at hc
          rw [hc] at hmem
          exact absurd hmem List.not_mem_nil
      | some o' =>
          obtain ⟨hrow', hkey', hlen⟩ := h.revision_current hc
          rw [ObservationStore.nextRevision] at hnext
          refine congrArg some (Table.eq_of_clash hrow' hrow (Or.inr ⟨hkey'.trans hkey.symm, ?_⟩))
          omega

namespace Ledger

def empty : Ledger := fun _ => []

/-- The ledger that a table stores. -/
def of (t : ObservationTable) : Ledger := fun key => (revisionsOf key t).map Observation.content

/-- The answer to a recording. A value that cannot be compared with the last one is an error. -/
def answer (ledger : Ledger) (data : ObservationInput) : Except PyError LedgerAnswer :=
  match (ledger data.key).getLast? with
  | none => .ok ⟨data.candidate 1, true, false⟩
  | some last =>
    match sameValue last.value data.stored with
    | some true => .ok ⟨last, false, false⟩
    | some false => .ok ⟨data.candidate (last.revision + 1), true, true⟩
    | none => .error .invalidOperation

/-- The ledger after an answer. -/
def after (ledger : Ledger) (a : LedgerAnswer) : Ledger :=
  if a.created then
    Function.update ledger a.entry.key (ledger a.entry.key ++ [a.entry])
  else ledger

/-- A completed call, performed at once: its outcome must be the ledger's answer. A call may
also give up, which changes nothing. -/
def record {ι : Type} (inputs : ι → ObservationInput) (ledger : Ledger) :
    ι × Except PyError RecordOutcome → Option Ledger
  | (i, .ok outcome) =>
    if ledger.answer (inputs i) = .ok outcome.answer then some (ledger.after outcome.answer) else none
  | (i, .error (.revisionRaceExhausted key)) => if key = (inputs i).key then some ledger else none
  | (i, .error e) => if ledger.answer (inputs i) = .error e then some ledger else none

/-- The ledger as a machine whose events are completed calls. -/
def machine {ι : Type} (inputs : ι → ObservationInput) :
    Machine Ledger (ι × Except PyError RecordOutcome) :=
  ⟨empty, record inputs⟩

variable {t t' : ObservationTable} {key : NaturalKey} {data : ObservationInput}

/-- The last entry of a key is that of its current revision. -/
theorem getLast?_of (h : History t) (key : NaturalKey) :
    (of t key).getLast? = (currentRevision key t).map Observation.content := by
  have hcurrent : currentRevision key t = (revisionsOf key t).getLast? :=
    latestBy_of_numbered (h.contiguous key)
  rw [of, List.getLast?_map, hcurrent]

/-- **An insert appends one entry to one key.** -/
theorem of_insert {r : Observation} (hi : t.insert? r = some t') :
    of t' = Function.update (of t) r.key (of t r.key ++ [r.content]) := by
  funext key
  rw [of, History.revisionsOf_insert hi, List.map_append]
  by_cases hkey : key = r.key
  · subst hkey
    rw [Function.update_self, if_pos rfl]
    rfl
  · rw [Function.update_of_ne hkey, if_neg fun h => hkey h.symm, List.map_nil, List.append_nil, of]

/-- The answer when nothing has been recorded for the key. -/
theorem answer_of_none (h : History t) (hc : currentRevision data.key t = none) :
    (of t).answer data = .ok ⟨data.candidate 1, true, false⟩ := by
  rw [answer, getLast?_of h, hc]
  rfl

/-- The answer when there is a current revision. -/
theorem answer_of_some {o : Observation} (h : History t)
    (hc : currentRevision data.key t = some o) :
    (of t).answer data =
      match sameValue o.value data.stored with
      | some true => .ok ⟨o.content, false, false⟩
      | some false => .ok ⟨data.candidate (o.revision + 1), true, true⟩
      | none => .error .invalidOperation := by
  rw [answer, getLast?_of h, hc]
  rfl

end Ledger

/-! ### One call -/

/-- Where a call of `record` stands. -/
inductive Recording where
  /-- It is about to read the current revision. -/
  | idle
  | read (current : Option Observation)
  /-- It has inserted a row on top of what it read. -/
  | inserted (current : Option Observation) (o : Observation)

namespace Recording

variable {data : ObservationInput}

/-- A call reads its key, and it inserts on top of a revision with another value that it has just
read. After an insert that succeeds it does nothing more. -/
def contract (data : ObservationInput) : Contract Cmd Cmd.Resp Recording where
  pre
    | .selectRevision key, .idle => key = data.key
    | .insertObservation c, .read current =>
      c = data.candidate (ObservationStore.nextRevision current) ∧
        ∀ o ∈ current, sameValue o.value data.stored = some false
    | _, _ => False
  post
    | .selectRevision _, _, r, g' => g' = .read r
    | .insertObservation c, .read current, some o, g' =>
      g' = .inserted current o ∧ o = c.row o.id
    | .insertObservation _, _, none, g' => g' = .idle
    | _, _, _, _ => False

/-- Where a call stands when it ends, by its outcome. -/
def Post (data : ObservationInput) : Except PyError RecordOutcome → Recording → Prop
  | .ok ⟨o, false, correction⟩, g =>
    g = .read (some o) ∧ sameValue o.value data.stored = some true ∧ correction = false
  | .ok ⟨o, true, correction⟩, g => ∃ current, g = .inserted current o ∧ correction = current.isSome
  | .error .invalidOperation, g =>
    ∃ o, g = .read (some o) ∧ sameValue o.value data.stored = none
  | .error (.revisionRaceExhausted key), g => g = .idle ∧ key = data.key
  | .error _, _ => False

theorem recordLoop_meets (attempts : ℕ) :
    (ObservationStore.recordLoop data attempts).Meets (contract data)
      (fun outcome => Post data (.ok outcome)) (fun e => Post data (.error e)) .idle := by
  induction attempts with
  | zero => exact ⟨rfl, rfl⟩
  | succ attempts ih =>
      rw [ObservationStore.recordLoop, Script.meets_bind, meets_issue]
      refine ⟨rfl, ?_⟩
      rintro current _ rfl
      have hinsert : (∀ o ∈ current, sameValue o.value data.stored = some false) →
          ∀ k : Option Observation → App RecordOutcome,
            k none = ObservationStore.recordLoop data attempts →
            (∀ candidate, k (some candidate) = pure ⟨candidate, true, current.isSome⟩) →
            (issue (.insertObservation
                (data.candidate (ObservationStore.nextRevision current))) >>= k).Meets
              (contract data) (fun outcome => Post data (.ok outcome))
              (fun e => Post data (.error e)) (.read current) := by
        intro hnew k hlost hstored
        rw [Script.meets_bind, meets_issue]
        refine ⟨⟨rfl, hnew⟩, ?_⟩
        rintro (_ | o) g' hpost
        · obtain rfl := hpost
          exact hlost ▸ ih
        · obtain ⟨rfl, -⟩ := hpost
          exact hstored o ▸ Script.meets_pure.mpr ⟨current, rfl, rfl⟩
      cases current with
      | none =>
          rw [show ObservationStore.duplicate none data = pure none from rfl, pure_bind]
          exact hinsert (by simp) _ rfl fun _ => rfl
      | some o =>
          rw [Script.meets_bind, ObservationStore.duplicate]
          cases hsame : sameValue o.value data.stored with
          | none => exact Script.meets_throw.mpr ⟨o, rfl, hsame⟩
          | some same =>
              cases same with
              | true => exact Script.meets_pure.mpr ⟨rfl, hsame, rfl⟩
              | false => exact hinsert (by simpa using hsame) _ rfl fun _ => rfl

/-- A row that the call has read is stored, under the call's key. -/
def Knows (data : ObservationInput) (db : Db) : Recording → Prop
  | .read current => ∀ o ∈ current, o ∈ db.observations.rows ∧ o.key = data.key
  | _ => True

theorem Knows.mono {db db' : Db} {g : Recording} (h : Knows data db g)
    (hle : db.observations.rows <+: db'.observations.rows) : Knows data db' g := by
  cases g with
  | read current => exact fun o ho => ⟨hle.subset (h o ho).1, (h o ho).2⟩
  | _ => trivial

/-- What a call is about to insert goes on top of what it has read. -/
theorem onTopOf {db : Db} {current : Option Observation} (h : Knows data db (.read current))
    (hnew : ∀ o ∈ current, sameValue o.value data.stored = some false) (id : ℕ) :
    History.OnTopOf db.observations current
      ((data.candidate (ObservationStore.nextRevision current)).row id) :=
  ⟨rfl, fun o ho => ⟨(h o ho).1, (h o ho).2, hnew o ho⟩⟩

/-- What the insert of a call can do. -/
theorem exec_insert (c : ObservationCandidate) (e : Answers) (db : Db) (l : Session) :
    (∃ t' o, o = c.row o.id ∧ db.observations.insert? o = some t' ∧
      exec (.insertObservation c) e db l =
        (some o, { db with observations := t' }, { l with stored := l.stored ++ [o] })) ∨
      exec (.insertObservation c) e db l = (none, db, l) := by
  cases hi : db.observations.insert? (c.row (db.observations.draw e.uuid)) with
  | none => exact Or.inr (by simp only [exec, hi])
  | some t' => exact Or.inl ⟨t', _, rfl, hi, by simp only [exec, hi]⟩

/-- The history stays sound, and what the call then knows is true. -/
theorem Knows.step {c : Cmd} {e : Answers} {db : Db} {l : Session} {g : Recording}
    (hist : History db.observations) (h : Knows data db g) (hpre : (contract data).pre c g) :
    History (exec c e db l).2.1.observations ∧
      ∃ g', (contract data).post c g (exec c e db l).1 g' ∧ Knows data (exec c e db l).2.1 g' := by
  cases c with
  | selectRevision key =>
      refine ⟨hist, .read (currentRevision key db.observations), ?_, fun o ho => ?_⟩
      · rfl
      · cases g with
        | idle =>
            obtain rfl : key = data.key := hpre
            exact ⟨(hist.revision_current ho).1, (hist.revision_current ho).2.1⟩
        | _ => exact hpre.elim
  | insertObservation c =>
      cases g with
      | read current =>
          obtain ⟨rfl, hnew⟩ := hpre
          rcases exec_insert (data.candidate (ObservationStore.nextRevision current)) e db l with
            ⟨t', o, ho, hi, hexec⟩ | hexec
          · rw [hexec]
            have htop := onTopOf h hnew o.id
            rw [← ho] at htop
            exact ⟨hist.insert htop hi, .inserted current o, ⟨rfl, ho⟩, trivial⟩
          · rw [hexec]
            exact ⟨hist, .idle, rfl, trivial⟩
      | _ => exact hpre.elim
  | _ => cases g <;> exact hpre.elim

section Runs

variable {ι : Type} {inputs : ι → ObservationInput}

theorem obligation [DecidableEq ι] :
    Config.Obligation (Except PyError RecordOutcome) semantics
      (fun i => contract (inputs i)) (fun db => History db.observations)
      (fun i db _ => Knows (inputs i) db) (fun _ _ _ => True) := by
  intro cfg i e c k g _ _ hist hknows hpre out
  obtain ⟨hist', hown⟩ := hknows.step (e := e) (l := (cfg.thread i).loc) hist hpre
  exact ⟨hist', hown, fun j g' _ hj => hj.mono (observations_exec c e cfg.shared _)⟩

/-- A call that ends after its read: it has found its value, or one that it cannot compare. -/
theorem record_of_read {i : ι} {t : ObservationTable} {r : Except PyError RecordOutcome}
    (hist : History t)
    (h : Post (inputs i) r (.read (currentRevision (inputs i).key t))) :
    Ledger.record inputs (Ledger.of t) (i, r) = some (Ledger.of t) := by
  rcases r with e | ⟨o, created, correction⟩
  · cases e with
    | invalidOperation =>
        obtain ⟨o, hread, hsame⟩ := h
        have hanswer := Ledger.answer_of_some hist (Recording.read.inj hread)
        rw [hsame] at hanswer
        exact if_pos hanswer
    | revisionRaceExhausted key => exact absurd h.1 (by simp)
    | _ => exact h.elim
  · cases created with
    | false =>
        obtain ⟨hread, hsame, rfl⟩ := h
        have hanswer := Ledger.answer_of_some hist (Recording.read.inj hread)
        rw [hsame] at hanswer
        exact if_pos hanswer
    | true =>
        obtain ⟨current, hread, -⟩ := h
        exact absurd hread (by simp)

/-- A call that ends after an insert that failed has given up. -/
theorem record_of_conflict {i : ι} {t : ObservationTable} {r : Except PyError RecordOutcome}
    (h : Post (inputs i) r .idle) :
    Ledger.record inputs (Ledger.of t) (i, r) = some (Ledger.of t) := by
  rcases r with e | ⟨o, created, correction⟩
  · cases e with
    | revisionRaceExhausted key => exact if_pos h.2
    | invalidOperation => exact absurd h.choose_spec.1 (by simp)
    | _ => exact h.elim
  · cases created with
    | false => exact absurd h.1 (by simp)
    | true => exact absurd h.choose_spec.1 (by simp)

/-- A call that ends after an insert: the ledger has nothing newer than what the call has read. -/
theorem record_of_insert {i : ι} {t t' : ObservationTable} {current : Option Observation}
    {o : Observation} {r : Except PyError RecordOutcome} (hist : History t)
    (ho : o = ((inputs i).candidate (ObservationStore.nextRevision current)).row o.id)
    (htop : History.OnTopOf t current o) (hi : t.insert? o = some t')
    (h : Post (inputs i) r (.inserted current o)) :
    Ledger.record inputs (Ledger.of t) (i, r) = some (Ledger.of t') := by
  have hkey : o.key = (inputs i).key := by rw [ho]; rfl
  have hvalue : o.value = (inputs i).stored := by rw [ho]; rfl
  have hcontent : o.content = (inputs i).candidate (ObservationStore.nextRevision current) := by
    rw [ho]; rfl
  have hcurrent : currentRevision (inputs i).key t = current :=
    hkey ▸ hist.current_of_insert htop hi
  rcases r with e | ⟨o', created, correction⟩
  · cases e with
    | invalidOperation => exact absurd h.choose_spec.1 (by simp)
    | revisionRaceExhausted key => exact absurd h.1 (by simp)
    | _ => exact h.elim
  · cases created with
    | false => exact absurd h.1 (by simp)
    | true =>
        obtain ⟨current', hinserted, rfl⟩ := h
        obtain ⟨rfl, rfl⟩ := Recording.inserted.inj hinserted
        have hanswer : (Ledger.of t).answer (inputs i) = .ok ⟨o.content, true, current.isSome⟩ := by
          cases current with
          | none =>
              rw [Ledger.answer_of_none hist hcurrent, hcontent]
              rfl
          | some last =>
              have hnew := (htop.2 last rfl).2.2
              rw [hvalue] at hnew
              rw [Ledger.answer_of_some hist hcurrent, hnew, hcontent]
              rfl
        have hafter : (Ledger.of t).after ⟨o.content, true, current.isSome⟩ = Ledger.of t' := by
          rw [Ledger.of_insert hi]
          rfl
        rw [← hafter]
        exact if_pos hanswer

/-- **A command that ends a call is the call's step on the ledger**, and no other command is seen
there. -/
theorem simulates :
    Config.Simulates semantics (fun i => contract (inputs i)) (fun i => Post (inputs i))
      (fun db => History db.observations) (fun i db _ => Knows (inputs i) db)
      (Ledger.machine inputs) (fun db => Ledger.of db.observations) := by
  intro cfg i e c k g g' _ hist hknows hpre out hpost hmeets
  cases c with
  | selectRevision key =>
      cases g with
      | idle =>
          obtain rfl : key = (inputs i).key := hpre
          obtain rfl := hpost
          cases hk : k out.1 with
          | call c' k' => rfl
          | ret r =>
              rw [hk] at hmeets
              exact (Machine.run_singleton ..).trans (record_of_read hist hmeets)
      | _ => exact hpre.elim
  | insertObservation c =>
      cases g with
      | read current =>
          obtain ⟨rfl, hnew⟩ := hpre
          rcases exec_insert ((inputs i).candidate (ObservationStore.nextRevision current)) e
            cfg.shared (cfg.thread i).loc with ⟨t', o, ho, hi, hexec⟩ | hexec
          · have hout : out = _ := hexec
            clear_value out
            subst hout
            obtain ⟨rfl, -⟩ := hpost
            have htop := onTopOf hknows hnew o.id
            rw [← ho] at htop
            cases hk : k (some o) with
            | call c' k' =>
                rw [hk] at hmeets
                cases c' <;> exact hmeets.1.elim
            | ret r =>
                rw [hk] at hmeets
                exact (Machine.run_singleton ..).trans (record_of_insert hist ho htop hi hmeets)
          · have hout : out = _ := hexec
            clear_value out
            subst hout
            obtain rfl := hpost
            cases hk : k none with
            | call c' k' => rfl
            | ret r =>
                rw [hk] at hmeets
                exact (Machine.run_singleton ..).trans (record_of_conflict hmeets)
      | _ => exact hpre.elim
  | _ => cases g <;> exact hpre.elim

/-- The calls that have returned are performed on the ledger in their order. -/
theorem linearizes [DecidableEq ι] (inputs : ι → ObservationInput) (jobs : JobTable)
    (decisions : DecisionTable) (schedule : List (ι × Answers)) :
    (Ledger.machine inputs).run Ledger.empty
        ((RecordConfig.start inputs jobs decisions).completions semantics schedule) =
      some (Ledger.of ((RecordConfig.start inputs jobs decisions).run semantics
        schedule).shared.observations) := by
  have hsound : (RecordConfig.start inputs jobs decisions).Sound (fun i => contract (inputs i))
      (fun i => Post (inputs i)) (fun db => History db.observations)
      (fun i db _ => Knows (inputs i) db) := by
    refine ⟨History.empty, fun i => ⟨.idle, trivial, ?_⟩⟩
    exact Script.meets_run.mpr (recordLoop_meets ObservationStore.maxRevisionAttempts)
  exact Config.run_completions obligation simulates hsound schedule

/-- A call stores nothing but the value of its input. -/
theorem record_only {data : ObservationInput} (h : data.value.HasScale) :
    (ObservationStore.record data).run.Only Cmd.Exact := by
  refine Script.Keeps.only (ObservationStore.record_keeps ?_ fun revision => ?_)
  · exact Script.keeps_allowed fun candidate hc => absurd hc (by simp)
  · refine Script.keeps_allowed fun candidate hc => ?_
    obtain rfl := Cmd.insertObservation.inj hc
    exact h

end Runs

end Recording

/-- Two calls for one key. -/
def racingInputs (late : Bool) : ObservationInput :=
  ⟨1, ⟨"fake", "default", "BTC", today, .eodClose⟩,
    ⟨"EUR", .finite (if late then 2 else 1), none, none, none, none, .ok⟩, 0, none, none⟩

end MarketRelay
