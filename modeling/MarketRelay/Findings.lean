import MarketRelay.Processed
import MarketRelay.Resumption

/-!
# What an Execution Knows When It Writes

Two statements of an execution decide what the service promises about its data: the insert of an
observation, and `mark_done`. Neither checks anything of what it depends on. What makes them sound
is what the call has done before: it has read the source and the cursor of the job, fetched the
range of the cursor, validated the row, and looked for a revision with the same value; and it
completes the job only after every valid row of the response has been recorded.

The ghost state of an execution is the list of what it has learned from its responses
(`Finding`), and its contract allows the two statements on the strength of that list alone.

## Main results

* `ObservationStore.record_leads`: what `record` returns from is stored.
* `Execution.program_keeps_findings`: an execution writes only what its findings warrant.
-/

open Relational Interaction Gregorian

namespace MarketRelay

/-! ### What an execution learns -/

/-- What an execution has learned. -/
inductive Finding where
  /-- The source and the cursor of a job. -/
  | job (id : ℕ) (source : String) (cursor : Option String)
  /-- The response to a fetch. -/
  | response (source : String) (externalListingId : Option String) (start «end» : Date)
      (raws : List RawObservation)
  /-- A revision of the key carries the value. -/
  | stored (key : NaturalKey) (revision : ℕ) (value : ObservationValue)

/-- What a response tells. -/
def Cmd.learns : (c : Cmd) → c.Resp → List Finding
  | .attributes _, r => (r.map fun j => .job j.id j.source j.cursor).toList
  | .fetchRange source listing start «end», r =>
    (r.toOption.map fun raws => .response source listing start «end» raws).toList
  | .selectRevision _, r => (r.map fun o => .stored o.key o.revision o.value).toList
  | .insertObservation _, r => (r.map fun o => .stored o.key o.revision o.value).toList
  | _, _ => []

/-- The response is about what was asked for. -/
def Cmd.Matches : (c : Cmd) → c.Resp → Prop
  | .attributes id, r => ∀ j ∈ r, j.id = id
  | .load id, r => ∀ j ∈ r, j.id = id
  | .selectRevision key, r => ∀ o ∈ r, o.key = key
  | .insertObservation candidate, r =>
    ∀ o ∈ r, ∃ id, o = candidate.row id
  | _, _ => True

/-- The job that a command would complete. -/
def Cmd.completes? : Cmd → Option ℕ
  | .update (.owned id _ _ .markDone) => some id
  | .update (.owned id _ _ (.markFailed _ .done _ _)) => some id
  | _ => none

/-- The observation that a command would insert. -/
def Cmd.inserts? : Cmd → Option ObservationCandidate
  | .insertObservation candidate => some candidate
  | _ => none

/-- A command that completes no job and inserts no observation. -/
def Cmd.IsFree (c : Cmd) : Prop := c.completes? = none ∧ c.inserts? = none

namespace IngestionRunner

/-- The cursor of the job has been read. -/
def Parsed (id : ℕ) (cursor : FetchCursor Json) (facts : List Finding) : Prop :=
  ∃ source text, .job id source text ∈ facts ∧ FetchCursor.parse text = .ok cursor

/-- The range of the cursor has been fetched for the job. -/
def Fetched (id : ℕ) (cursor : FetchCursor Json) (raws : List RawObservation)
    (facts : List Finding) : Prop :=
  ∃ source text, .job id source text ∈ facts ∧
    .response source cursor.externalListingId.text? cursor.start cursor.end raws ∈ facts

/-- The row belongs to the job: its key and its value under the source and the scope of the job. -/
def RowOf (id : ℕ) (cursor : FetchCursor Json) (raw : RawObservation) (key : NaturalKey)
    (value : ObservationValue) (facts : List Finding) : Prop :=
  ∃ source text credentialScope, .job id source text ∈ facts ∧
    cursor.credentialScope.text? = some credentialScope ∧
    key = rowKey source credentialScope raw ∧ value = rowValue raw

/-- The row has been recorded for the job. -/
def RowStored (id : ℕ) (cursor : FetchCursor Json) (raw : RawObservation) (facts : List Finding) :
    Prop :=
  ∃ key revision value, RowOf id cursor raw key value facts ∧ .stored key revision value ∈ facts

/-- Every row of the response that passes validation has been recorded for the job. -/
def Justified (id : ℕ) (facts : List Finding) : Prop :=
  ∃ cursor raws, Parsed id cursor facts ∧ Fetched id cursor raws facts ∧
    ∀ raw ∈ raws, Accepted cursor raw → RowStored id cursor raw facts

/-- The value was answered: it is that of a valid row of a response to a job. -/
def Sourced (key : NaturalKey) (value : ObservationValue) (facts : List Finding) : Prop :=
  ∃ id cursor raws, Parsed id cursor facts ∧ Fetched id cursor raws facts ∧
    ∃ raw ∈ raws, Accepted cursor raw ∧ RowOf id cursor raw key value facts

end IngestionRunner

/-- The revision is the first of its key, or follows one with another value. -/
def ObservationCandidate.Corrects (candidate : ObservationCandidate) (facts : List Finding) :
    Prop :=
  candidate.revision = 1 ∨ ∃ n value, .stored candidate.key n value ∈ facts ∧
    candidate.revision = n + 1 ∧ sameValue value candidate.value = some false

/-- A job is completed only when that is justified, and an observation inserted only when it was
answered and corrects what it follows. -/
def writeContract : Contract Cmd Cmd.Resp (List Finding) where
  pre c facts := (∀ id ∈ c.completes?, IngestionRunner.Justified id facts) ∧
    ∀ candidate ∈ c.inserts?,
      IngestionRunner.Sourced candidate.key candidate.value facts ∧ candidate.Corrects facts
  post c facts r facts' := c.Matches r ∧ facts' = c.learns r ++ facts

/-- An assertion that more facts do not falsify. -/
def Grows (I : List Finding → Prop) : Prop := ∀ facts facts', facts ⊆ facts' → I facts → I facts'

section Facts

variable {I J : List Finding → Prop} {fact : Finding}

theorem Grows.mem (fact : Finding) : Grows fun facts => fact ∈ facts := fun _ _ hsub h => hsub h

theorem Grows.and (hI : Grows I) (hJ : Grows J) : Grows fun facts => I facts ∧ J facts :=
  fun _ _ hsub h => ⟨hI _ _ hsub h.1, hJ _ _ hsub h.2⟩

theorem Grows.learned (hI : Grows I) {c : Cmd} {facts facts' : List Finding} {r : c.Resp}
    (h : writeContract.post c facts r facts') (hfacts : I facts) : I facts' := by
  obtain ⟨-, rfl⟩ := h
  exact hI _ _ (List.subset_append_right _ _) hfacts

open IngestionRunner in
theorem Grows.parsed (id : ℕ) (cursor : FetchCursor Json) : Grows (Parsed id cursor) := by
  rintro _ _ hsub ⟨source, text, hjob, hparse⟩
  exact ⟨source, text, hsub hjob, hparse⟩

open IngestionRunner in
theorem Grows.fetched (id : ℕ) (cursor : FetchCursor Json) (raws : List RawObservation) :
    Grows (Fetched id cursor raws) := by
  rintro _ _ hsub ⟨source, text, hjob, hresponse⟩
  exact ⟨source, text, hsub hjob, hsub hresponse⟩

open IngestionRunner in
theorem Grows.rowOf (id : ℕ) (cursor : FetchCursor Json) (raw : RawObservation) (key : NaturalKey)
    (value : ObservationValue) : Grows (RowOf id cursor raw key value) := by
  rintro _ _ hsub ⟨source, text, scope, hjob, hrest⟩
  exact ⟨source, text, scope, hsub hjob, hrest⟩

open IngestionRunner in
theorem Grows.rowStored (id : ℕ) (cursor : FetchCursor Json) (raw : RawObservation) :
    Grows (RowStored id cursor raw) := by
  rintro _ _ hsub ⟨key, revision, value, hrow, hstored⟩
  exact ⟨key, revision, value, Grows.rowOf id cursor raw key value _ _ hsub hrow, hsub hstored⟩

open IngestionRunner in
theorem Grows.justified (id : ℕ) : Grows (Justified id) := by
  rintro facts facts' hsub ⟨cursor, raws, hparsed, hfetched, hrows⟩
  exact ⟨cursor, raws, Grows.parsed id cursor _ _ hsub hparsed,
    Grows.fetched id cursor raws _ _ hsub hfetched,
    fun raw hraw haccepted => Grows.rowStored id cursor raw _ _ hsub (hrows raw hraw haccepted)⟩

theorem Cmd.IsFree.pre {c : Cmd} (hc : c.IsFree) (facts : List Finding) :
    writeContract.pre c facts :=
  ⟨fun id hid => absurd (hc.1 ▸ hid) (by simp), fun candidate h => absurd (hc.2 ▸ h) (by simp)⟩

/-- A free command may be issued at any time. -/
theorem Grows.issue (hI : Grows I) {c : Cmd} (hc : c.IsFree) :
    Script.Keeps writeContract I (issue c) :=
  Script.keeps_op fun facts hfacts => ⟨hc.pre facts, fun _ _ hpost => hI.learned hpost hfacts⟩

/-- What the response to a command tells. -/
theorem leads_issue {c : Cmd} (hc : ∀ facts, I facts → writeContract.pre c facts)
    {Q : c.Resp → List Finding → Prop}
    (h : ∀ facts, I facts → ∀ r, c.Matches r → Q r (c.learns r ++ facts)) :
    Script.Leads writeContract I (issue c) Q :=
  Script.leads_op fun facts hfacts => ⟨hc facts hfacts, by
    rintro r _ ⟨hmatches, rfl⟩
    exact h facts hfacts r hmatches⟩

theorem JobQueue.IsJobCmd.isFree {c : Cmd} (h : JobQueue.IsJobCmd c) : c.IsFree := by
  cases c with
  | update op =>
      cases op with
      | owned => exact absurd h id
      | _ => exact ⟨rfl, rfl⟩
  | insertObservation => exact absurd h id
  | _ => exact ⟨rfl, rfl⟩

theorem Grows.job (hI : Grows I) (c : Cmd) (hc : JobQueue.IsJobCmd c) :
    Script.Keeps writeContract I (MarketRelay.issue c) := hI.issue hc.isFree

/-- A row that is read has the identifier that was asked for. -/
theorem writeContract_attributes (id : ℕ) (facts : List Finding) (r : Option Job)
    (facts' : List Finding) (h : writeContract.post (.attributes id) facts r facts') :
    ∀ j ∈ r, j.id = id := h.1

theorem writeContract_load (id : ℕ) (facts : List Finding) (r : Option Job)
    (facts' : List Finding) (h : writeContract.post (.load id) facts r facts') :
    ∀ j ∈ r, j.id = id := h.1

end Facts

/-! ### Recording a response -/

section Programs

variable {I : List Finding → Prop}

/-- Reading the attributes of a job tells its source and its cursor. -/
theorem Grows.attributes (hI : Grows I) (id : ℕ) :
    Script.Leads writeContract I (attributes id)
      fun j facts => I facts ∧ .job id j.source j.cursor ∈ facts := by
  refine Script.Leads.bind
    (Q := fun r facts => I facts ∧ ∀ j ∈ r, .job id j.source j.cursor ∈ facts)
    (leads_issue (fun facts _ => Cmd.IsFree.pre ⟨rfl, rfl⟩ facts) fun facts hfacts r hmatches => ?_)
    fun r => ?_
  · refine ⟨hI _ _ (List.subset_append_right _ _) hfacts, fun j hj => ?_⟩
    obtain rfl := Option.mem_def.mp hj
    have hid : j.id = id := hmatches j rfl
    exact hid ▸ List.mem_cons_self
  · cases r with
    | none => exact Script.leads_throw
    | some j => exact Script.leads_pure fun facts h => ⟨h.1, h.2 j rfl⟩

namespace ObservationStore

/-- What the loop knows once it has looked for a duplicate: it has found one, or the next revision
corrects the current one. -/
theorem duplicate_leads (data : ObservationInput) (current : Option Observation) :
    Script.Leads writeContract
      (fun facts => I facts ∧ ∀ o ∈ current, .stored data.key o.revision o.value ∈ facts)
      (duplicate current data) fun existing facts => I facts ∧
        (∀ o ∈ existing, ∃ n, .stored data.key n data.stored ∈ facts) ∧
        (existing = none → (data.candidate (nextRevision current)).Corrects facts) := by
  cases current with
  | none => exact Script.leads_pure fun facts h => ⟨h.1, by simp, fun _ => Or.inl rfl⟩
  | some existing =>
      rw [duplicate]
      split
      · rename_i hsame
        refine Script.leads_pure fun facts h => ⟨h.1, fun o _ => ⟨existing.revision, ?_⟩, by simp⟩
        exact eq_of_sameValue hsame ▸ h.2 existing rfl
      · rename_i hdiffer
        exact Script.leads_pure fun facts h => ⟨h.1, by simp, fun _ =>
          Or.inr ⟨existing.revision, existing.value, h.2 existing rfl, rfl, hdiffer⟩⟩
      · exact Script.leads_throw

/-- **What `record` returns from is stored**: by the call itself, or before it. It may be called
with what was answered. -/
theorem record_leads (hI : Grows I) (data : ObservationInput)
    (hsourced : ∀ facts, I facts → IngestionRunner.Sourced data.key data.stored facts) :
    Script.Leads writeContract I (record data)
      fun _ facts => I facts ∧ ∃ n, .stored data.key n data.stored ∈ facts := by
  have hloop : ∀ attempts, Script.Leads writeContract I (recordLoop data attempts)
      fun _ facts => I facts ∧ ∃ n, .stored data.key n data.stored ∈ facts := by
    intro attempts
    induction attempts with
    | zero => exact Script.leads_throw
    | succ attempts ih =>
        refine Script.Leads.bind (Q := fun current facts => I facts ∧
            ∀ o ∈ current, .stored data.key o.revision o.value ∈ facts)
          (leads_issue (fun facts _ => Cmd.IsFree.pre ⟨rfl, rfl⟩ facts)
            fun facts hfacts current hmatches => ?_) fun current => ?_
        · refine ⟨hI _ _ (List.subset_append_right _ _) hfacts, fun o ho => ?_⟩
          obtain rfl := Option.mem_def.mp ho
          have hkey : o.key = data.key := hmatches o rfl
          exact hkey ▸ List.mem_cons_self
        refine (duplicate_leads data current).bind fun existing => ?_
        cases existing with
        | some existing => exact Script.leads_pure fun facts h => ⟨h.1, h.2.1 existing rfl⟩
        | none =>
            refine Script.Leads.bind (Q := fun inserted facts => I facts ∧
                ∀ o ∈ inserted, ∃ n, .stored data.key n data.stored ∈ facts)
              (leads_issue
                (fun facts h => ⟨by simp [Cmd.completes?], fun candidate hcandidate => ?_⟩)
                fun facts h inserted hmatches => ?_) fun inserted => ?_
            · obtain rfl := Option.some.inj hcandidate
              exact ⟨hsourced facts h.1, h.2.2 rfl⟩
            · refine ⟨hI _ _ (List.subset_append_right _ _) h.1, fun o ho => ⟨o.revision, ?_⟩⟩
              obtain rfl := Option.mem_def.mp ho
              obtain ⟨id, rfl⟩ := hmatches o rfl
              exact List.mem_cons_self
            · cases inserted with
              | some candidate => exact Script.leads_pure fun facts h => ⟨h.1, h.2 candidate rfl⟩
              | none => exact fun facts h => ih facts h.1
  exact hloop maxRevisionAttempts

end ObservationStore

namespace IngestionRunner

variable {id : ℕ} {workerId : String} {now : Instant} {cursor : FetchCursor Json}
  {authorization : IngestionAuthorization}

/-- A valid row of the response is recorded under the source and the scope of the job. -/
theorem recordRow_leads {raws : List RawObservation} {raw : RawObservation} (hI : Grows I)
    (hresponse : ∀ facts, I facts → Parsed id cursor facts ∧ Fetched id cursor raws facts)
    (hraw : raw ∈ raws) (haccepted : Accepted cursor raw) :
    Script.Leads writeContract I (recordRow id cursor authorization now raw)
      fun _ facts => I facts ∧ RowStored id cursor raw facts := by
  refine (hI.attributes id).bind fun job => ?_
  split
  · exact Script.leads_throw
  · split
    · exact Script.leads_throw
    · rename_i scope hscope
      have hrow : ∀ facts, I facts ∧ .job id job.source job.cursor ∈ facts →
          RowOf id cursor raw (rowKey job.source scope raw) (rowValue raw) facts :=
        fun facts h => ⟨job.source, job.cursor, scope, h.2, hscope, rfl, rfl⟩
      refine (ObservationStore.record_leads (hI.and (.mem _)) _ fun facts h => ?_).bind
        fun outcome => Script.leads_pure fun facts h => ?_
      · obtain ⟨hparsed, hfetched⟩ := hresponse facts h.1
        exact ⟨id, cursor, raws, hparsed, hfetched, raw, hraw, haccepted, hrow facts h⟩
      · obtain ⟨hknown, n, hstored⟩ := h
        exact ⟨hknown.1, _, n, _, hrow facts hknown, hstored⟩

/-- **The loop records every row that passes validation.** -/
theorem recordRows_leads {response : List RawObservation} (raws : List RawObservation)
    (hsub : raws ⊆ response) (recorded rejected : ℕ) (hI : Grows I)
    (hresponse : ∀ facts, I facts → Parsed id cursor facts ∧ Fetched id cursor response facts) :
    Script.Leads writeContract I
      (recordRows id cursor authorization now raws recorded rejected)
      fun _ facts => I facts ∧
        ∀ raw ∈ raws, Accepted cursor raw → RowStored id cursor raw facts := by
  induction raws generalizing I recorded rejected with
  | nil => exact Script.leads_pure fun facts h => ⟨h, fun raw hraw => absurd hraw List.not_mem_nil⟩
  | cons raw rest ih =>
      have hrest : rest ⊆ response := fun _ h => hsub (List.mem_cons_of_mem _ h)
      rw [recordRows]
      split
      · rename_i message hmalformed
        refine (ih hrest recorded (rejected + 1) hI hresponse).mono
          fun _ facts h => ⟨h.1, fun raw' hraw' haccepted => ?_⟩
        rcases List.mem_cons.mp hraw' with rfl | hraw'
        · exact absurd (hmalformed.symm.trans haccepted) (by simp)
        · exact h.2 raw' hraw' haccepted
      · exact Script.leads_throw
      · rename_i hvalid
        refine (recordRow_leads hI hresponse (hsub List.mem_cons_self) hvalid).bind
          fun created => ?_
        refine (ih hrest _ rejected (hI.and (.rowStored id cursor raw))
          fun facts h => hresponse facts h.1).mono
          fun _ facts h => ⟨h.1.1, fun raw' hraw' haccepted => ?_⟩
        rcases List.mem_cons.mp hraw' with rfl | hraw'
        · exact h.1.2
        · exact h.2 raw' hraw' haccepted

/-! ### Completing a job -/

/-- A failure completes no job. -/
theorem failure_isFree (generation : ℕ) (copy : Job) (error : String) :
    (Cmd.update (.owned id workerId generation (.failure copy error now))).IsFree := by
  simp only [Transition.failure]
  split <;> exact ⟨rfl, rfl⟩

theorem markFailed_keeps_findings (hI : Grows I) (generation : ℕ) (error : String) :
    Script.Keeps writeContract I (JobQueue.markFailed id workerId generation error now) :=
  (JobQueue.attributes_keeps hI.job id).bind fun job =>
    JobQueue.ownedTransition_keeps hI.job writeContract_attributes
      (hI.issue (failure_isFree generation job error))

theorem fail_keeps_findings (hI : Grows I) (generation : ℕ) (error : String) (recorded rejected : ℕ)
    (detail : String) : Script.Keeps writeContract I
      (fail id workerId generation error now recorded rejected detail) :=
  (markFailed_keeps_findings hI generation error).bind fun _ =>
    (JobQueue.attributes_keeps hI.job id).bind fun _ => Script.keeps_pure _

/-- **The part after the fetch completes the job only when every row is recorded.** -/
theorem store_leads {generation : ℕ} (raws : List RawObservation) :
    Script.Leads writeContract
      (fun facts => Parsed id cursor facts ∧ Fetched id cursor raws facts)
      (store id workerId generation now cursor authorization raws) fun _ _ => True := by
  have hI : Grows fun facts => Parsed id cursor facts ∧ Fetched id cursor raws facts :=
    (Grows.parsed id cursor).and (.fetched id cursor raws)
  refine (JobQueue.assertOwned_keeps hI.job _ _ _).leads.bind fun _ => ?_
  refine (JobQueue.attributes_keeps hI.job id).leads.bind fun job => ?_
  refine (hI.issue (c := .consumeQuota job.source 1) ⟨rfl, rfl⟩).leads.bind fun consumed => ?_
  refine (orRaise_keeps consumed).leads.bind fun _ => ?_
  refine (recordRows_leads raws (List.Subset.refl _) 0 0 hI fun _ h => h).bind fun counts => ?_
  obtain ⟨recorded, rejected⟩ := counts
  have hjustified : ∀ facts, ((Parsed id cursor facts ∧ Fetched id cursor raws facts) ∧
      ∀ raw ∈ raws, Accepted cursor raw → RowStored id cursor raw facts) → Justified id facts :=
    fun facts h => ⟨cursor, raws, h.1.1, h.1.2, h.2⟩
  have hdone : ∀ facts, Justified id facts → Script.Meets writeContract
      (if 0 < rejected ∧ recorded = 0 then
        fail id workerId generation
          (toString rejected ++ " malformed observations out of " ++ toString raws.length ++
            " received.") now recorded rejected "all_malformed"
      else do
        JobQueue.markDone id workerId generation
        let job ← attributes id
        return ⟨job.status, recorded, rejected, "done"⟩ : App JobOutcome)
      (fun _ _ => True) (fun _ _ => True) facts := by
    have hgrows := Grows.justified id
    split
    · exact (fail_keeps_findings hgrows _ _ _ _ _).leads.mono fun _ _ _ => trivial
    · refine ((JobQueue.ownedTransition_keeps hgrows.job writeContract_attributes ?_).bind
        fun _ => (JobQueue.attributes_keeps hgrows.job id).bind fun _ =>
          Script.keeps_pure _).leads.mono fun _ _ _ => trivial
      refine Script.keeps_op fun facts hfacts => ⟨⟨fun id' hid' => ?_, by simp [Cmd.inserts?]⟩,
        fun r facts' hpost => hgrows.learned hpost hfacts⟩
      obtain rfl := Option.some.inj hid'
      exact hfacts
  exact fun facts h => hdone facts (hjustified facts h)

/-- The part after the cursor fetches the range of the cursor for the job. -/
theorem fetch_leads : Script.Leads writeContract (Parsed id cursor)
    (fetch id workerId now cursor authorization) fun _ _ => True := by
  have hI := Grows.parsed id cursor
  refine (JobQueue.generation_keeps hI.job id).leads.bind fun generation => ?_
  refine (hI.attributes id).bind fun job => ?_
  have hJ : Grows fun facts => Parsed id cursor facts ∧ .job id job.source job.cursor ∈ facts :=
    hI.and (.mem _)
  refine (hJ.issue (c := .checkQuota job.source) ⟨rfl, rfl⟩).leads.bind fun answer => ?_
  refine (orRaise_keeps answer).leads.bind fun quotaStatus => ?_
  split
  · refine ((JobQueue.ownedTransition_keeps hJ.job writeContract_attributes
      (hJ.issue ⟨rfl, rfl⟩)).bind fun _ => (JobQueue.attributes_keeps hJ.job id).bind fun _ =>
        Script.keeps_pure _).leads.mono fun _ _ _ => trivial
  refine (JobQueue.ownedTransition_keeps hJ.job writeContract_attributes
    (hJ.issue ⟨rfl, rfl⟩)).leads.bind fun _ => ?_
  refine Script.Leads.bind (Q := fun response facts => Parsed id cursor facts ∧
      ∀ raws, response = .ok raws → Fetched id cursor raws facts)
    (leads_issue (fun facts _ => Cmd.IsFree.pre ⟨rfl, rfl⟩ facts) fun facts hfacts response _ => ?_)
    fun response => ?_
  · refine ⟨hI _ _ (List.subset_append_right _ _) hfacts.1, ?_⟩
    rintro raws rfl
    exact ⟨job.source, job.cursor, List.mem_append_right _ hfacts.2, List.mem_cons_self⟩
  · cases response with
    | error e =>
        have hK : Grows fun facts => Parsed id cursor facts ∧ ∀ raws : List RawObservation,
            (Except.error e : Except PyError _) = .ok raws → Fetched id cursor raws facts :=
          fun _ _ hsub h => ⟨hI _ _ hsub h.1, fun raws hraws => absurd hraws (by simp)⟩
        exact (fail_keeps_findings hK _ _ _ _ _).leads.mono fun _ _ _ => trivial
    | ok raws => exact fun facts h => store_leads raws facts ⟨h.1, h.2 raws rfl⟩

theorem resume_leads : Script.Leads writeContract (fun _ => True)
    (resume id workerId now authorization) fun _ _ => True := by
  have hI : Grows fun _ => True := fun _ _ _ _ => trivial
  refine (hI.attributes id).bind fun job => ?_
  split
  · rename_i cursor hparse
    exact fun facts h => fetch_leads facts ⟨job.source, job.cursor, h.2, hparse⟩
  · refine Script.Leads.bind (Q := fun _ _ => True)
      (fun facts _ => ((hI.issue (c := .describeFault job.cursor) ⟨rfl, rfl⟩).leads facts trivial))
      ?_
    exact fun cause => ((JobQueue.generation_keeps hI.job id).bind fun generation =>
      fail_keeps_findings hI _ _ _ _ _).leads

/-- The whole call. -/
theorem process_keeps_findings : Script.Keeps writeContract (fun _ => True)
    (process id workerId now) := by
  have hI : Grows fun _ => True := fun _ _ _ _ => trivial
  refine process_keeps_of hI.job writeContract_attributes writeContract_load ?_
  refine authorize_keeps_of hI.job (fun error detail => ?_) (fun source => ?_)
    fun authorization => resume_leads.keeps
  · exact (JobQueue.generation_keeps hI.job id).bind fun generation =>
      fail_keeps_findings hI _ _ _ _ _
  · exact PolicyGate.authorizeIngestion_keeps fun capability => hI.issue ⟨rfl, rfl⟩

end IngestionRunner

/-- **An execution writes only what its findings warrant.** -/
theorem Execution.program_keeps_findings (x : Execution) :
    Script.Keeps writeContract (fun _ => True) x.program := by
  have hI : Grows fun _ => True := fun _ _ _ _ => trivial
  refine (JobQueue.claimNext_keeps hI.job _ _ _ _ _).bind fun claimed =>
    Scheduler.processJobs_keeps claimed (fun id _ outcome => ?_) _
  exact Scheduler.processJob_keeps_of hI.job (fun source => hI.issue ⟨rfl, rfl⟩)
    (fun source => hI.issue ⟨rfl, rfl⟩) IngestionRunner.process_keeps_findings
    (fun error => (JobQueue.generation_keeps hI.job id).bind fun generation =>
      IngestionRunner.markFailed_keeps_findings hI generation error) outcome

end Programs

end MarketRelay
