import MarketRelay.ObservationStore

/-!
# Concurrent Recording of Observations

Any number of `record` calls, interleaved in any way. A call reads the current revision of
its key and inserts the next one; what makes this safe is that the insert can only succeed
while the revision that it read is still the current one, because the revisions of a key
have no gap (`History.insert`).

A call keeps a lower bound on the number of revisions of its key (`RecordGhost.low`). A
lost insert raises the bound by one, since somebody else must have inserted the revision,
so a call that gives up after eight attempts has seen eight rows of others appear.

## Main results

* `History.insert`: an insert on top of a revision that was read keeps the history sound.
* `ObservationStore.record_meets`: what one call does, whatever the others do.
* `concurrent_record`: the revisions are `1..n`, nothing stored changes, consecutive
  revisions differ, and each outcome says truly what its call did.
-/

open Relational Interaction

namespace MarketRelay

/-! ### Sound histories -/

/-- The stored revisions are sound: those of each key are exactly `1..n`, in the order in
which they were stored, and no two consecutive ones carry the same value. -/
structure History (t : ObservationTable) : Prop where
  contiguous : ∀ key,
    (revisionsOf key t).map Observation.revision = List.range' 1 (revisionsOf key t).length
  changes : ∀ o ∈ t.rows, ∀ o' ∈ t.rows, o'.key = o.key → o'.revision = o.revision + 1 →
    sameValue o.value o'.value = some false

theorem History.empty : History Table.empty :=
  ⟨fun _ => rfl, fun _ ho => absurd ho List.not_mem_nil⟩

theorem mem_revisionsOf {key : NaturalKey} {t : ObservationTable} {o : Observation} :
    o ∈ revisionsOf key t ↔ o ∈ t.rows ∧ o.key = key := by
  simp [revisionsOf]

namespace History

variable {t t' : ObservationTable} {key : NaturalKey} {o : Observation}

/-- The revision numbers of a key are exactly `1..n`. -/
theorem exists_revision_iff (h : History t) (key : NaturalKey) (n : ℕ) :
    (∃ o ∈ t.rows, o.key = key ∧ o.revision = n) ↔
      1 ≤ n ∧ n ≤ (revisionsOf key t).length := by
  have hmem : n ∈ (revisionsOf key t).map Observation.revision ↔
      ∃ o ∈ t.rows, o.key = key ∧ o.revision = n := by
    simp [mem_revisionsOf, and_assoc]
  rw [← hmem, h.contiguous key, List.mem_range'_1]
  omega

/-- The current revision carries the number of revisions. -/
theorem revision_current (h : History t) (ho : currentRevision key t = some o) :
    o ∈ t.rows ∧ o.key = key ∧ o.revision = (revisionsOf key t).length := by
  obtain ⟨hmem, hmax⟩ := latestBy_eq_some ho
  obtain ⟨hrow, hkey⟩ := mem_revisionsOf.mp hmem
  refine ⟨hrow, hkey, le_antisymm ?_ ?_⟩
  · exact ((h.exists_revision_iff key o.revision).mp ⟨o, hrow, hkey, rfl⟩).2
  · have hpos : 1 ≤ (revisionsOf key t).length := List.length_pos_of_mem hmem
    obtain ⟨o', hrow', hkey', hrev⟩ := (h.exists_revision_iff key _).mpr ⟨hpos, le_rfl⟩
    exact hrev ▸ hmax o' (mem_revisionsOf.mpr ⟨hrow', hkey'⟩)

/-- The revision after the current one is the first that is free. -/
theorem nextRevision_current (h : History t) (key : NaturalKey) :
    ObservationStore.nextRevision (currentRevision key t) = (revisionsOf key t).length + 1 := by
  cases hc : currentRevision key t with
  | none =>
      have hnil : revisionsOf key t = [] := latestBy_eq_none_iff.mp hc
      simp [ObservationStore.nextRevision, hnil]
  | some o => simp [ObservationStore.nextRevision, (h.revision_current hc).2.2]

/-- The candidate `r` goes on top of a revision that has been read: the first of its key,
or the successor of a stored row whose value it does not repeat. -/
def OnTopOf (t : ObservationTable) (read : Option Observation) (r : Observation) : Prop :=
  r.revision = ObservationStore.nextRevision read ∧
    ∀ o ∈ read, o ∈ t.rows ∧ o.key = r.key ∧ sameValue o.value r.value = some false

/-- An insert that succeeds proves that the revision read was still the current one. -/
theorem revision_of_insert (h : History t) {r : Observation} {read : Option Observation}
    (htop : OnTopOf t read r) (hi : t.insert? r = some t') :
    r.revision = (revisionsOf r.key t).length + 1 := by
  obtain ⟨hfree, -⟩ := Table.insert?_eq_some_iff.mp hi
  obtain ⟨hrev, hread⟩ := htop
  have hnot : ¬ (1 ≤ r.revision ∧ r.revision ≤ (revisionsOf r.key t).length) := by
    rintro hle
    obtain ⟨o, hrow, hkey, ho⟩ := (h.exists_revision_iff r.key _).mpr hle
    exact hfree o hrow (Or.inr ⟨hkey, ho⟩)
  cases read with
  | none =>
      rw [ObservationStore.nextRevision] at hrev
      omega
  | some o =>
      obtain ⟨hrow, hkey, -⟩ := hread o rfl
      have hle := ((h.exists_revision_iff r.key o.revision).mp ⟨o, hrow, hkey, rfl⟩).2
      rw [ObservationStore.nextRevision] at hrev
      omega

theorem revisionsOf_insert {r : Observation} (hi : t.insert? r = some t') (key : NaturalKey) :
    revisionsOf key t' = revisionsOf key t ++ if r.key = key then [r] else [] := by
  rw [revisionsOf, (Table.insert?_eq_some_iff.mp hi).2, List.filter_append, revisionsOf]
  by_cases hk : r.key = key <;> simp [hk]

/-- **An insert on top of a revision that was read keeps the history sound.** -/
theorem insert (h : History t) {r : Observation} {read : Option Observation}
    (htop : OnTopOf t read r) (hi : t.insert? r = some t') : History t' := by
  have hnext := h.revision_of_insert htop hi
  have hrows := (Table.insert?_eq_some_iff.mp hi).2
  refine ⟨fun key => ?contiguous, fun o ho o' ho' hkey hrev => ?changes⟩
  case contiguous =>
    rw [revisionsOf_insert hi]
    by_cases hk : r.key = key
    · subst hk
      simp only [if_true, List.map_append, h.contiguous, List.map_cons, List.map_nil,
        List.length_append, List.length_singleton, List.range'_1_concat, hnext]
      rw [Nat.add_comm 1]
    · simp only [if_neg hk, List.append_nil, h.contiguous]
  case changes =>
    rw [hrows, List.mem_append, List.mem_singleton] at ho ho'
    have hle : ∀ o ∈ t.rows, o.key = r.key → o.revision < r.revision := by
      intro o ho hk
      have := ((h.exists_revision_iff r.key o.revision).mp ⟨o, ho, hk, rfl⟩).2
      omega
    rcases ho with ho | rfl <;> rcases ho' with ho' | rfl
    · exact h.changes o ho o' ho' hkey hrev
    · obtain ⟨hr, hread⟩ := htop
      cases read with
      | none =>
          rw [ObservationStore.nextRevision] at hr
          have := ((h.exists_revision_iff o.key o.revision).mp ⟨o, ho, rfl, rfl⟩).1
          omega
      | some top =>
          obtain ⟨htop, htopkey, hsame⟩ := hread top rfl
          rw [ObservationStore.nextRevision] at hr
          have heq : o = top := by
            refine Table.eq_of_clash ho htop (Or.inr ⟨hkey.symm.trans htopkey.symm, ?_⟩)
            omega
          rw [heq]
          exact hsame
    · have := hle o' ho' hkey
      omega
    · omega

/-- A failed insert proves that the revision is taken. -/
theorem revision_le_of_conflict (h : History t) {r : Observation}
    (hid : t.get? r.id = none) (hi : t.insert? r = none) :
    r.revision ≤ (revisionsOf r.key t).length := by
  obtain ⟨o, hrow, hclash⟩ := Table.insert?_eq_none_iff.mp hi
  rcases hclash with hk | ⟨hk, hrev⟩
  · exact absurd hk (Table.get?_eq_none_iff.mp hid o hrow)
  · exact hrev ▸ ((h.exists_revision_iff r.key o.revision).mp ⟨o, hrow, hk, rfl⟩).2

end History

/-! ### One call -/

/-- What a call of `record` knows. -/
structure RecordGhost where
  /-- A number of revisions of its key that exist. -/
  low : ℕ
  /-- The answer of the last command, when that was a read of the current revision. -/
  read : Option (Option Observation)
  /-- The rows that the call has inserted. -/
  added : List Observation

namespace ObservationStore

variable {data : ObservationInput}

/-- What a call of `record` does to the database: it reads its key, and it inserts on top of
the revision that it has just read. -/
def contract (data : ObservationInput) : Contract Cmd Cmd.Resp RecordGhost where
  pre
    | .selectRevision key, _ => key = data.key
    | .insertObservation c, g => ∃ read, g.read = some read ∧
        c = data.candidate (nextRevision read) ∧
        ∀ o ∈ read, sameValue o.value data.stored = some false
    | _, _ => False
  post
    | .selectRevision _, g, r, g' => g.low + 1 ≤ nextRevision r ∧
        g' = ⟨nextRevision r - 1, some r, g.added⟩
    | .insertObservation c, g, some o, g' => o = c.row o.id ∧
        g' = ⟨c.revision, none, g.added ++ [o]⟩
    | .insertObservation c, g, none, g' => g' = ⟨c.revision, none, g.added⟩
    | _, _, _, _ => False

/-- The knowledge is true of the table and of the session. -/
def Knows (data : ObservationInput) (db : Db) (l : Session) (g : RecordGhost) : Prop :=
  g.low ≤ (revisionsOf data.key db.observations).length ∧ l.stored = g.added ∧
    (∀ o ∈ g.added, o ∈ db.observations.rows) ∧
    ∀ read, g.read = some read → ∀ o ∈ read, o ∈ db.observations.rows ∧ o.key = data.key

/-- What a call knows when it ends, if at least `start` revisions existed when it began. -/
def Post (data : ObservationInput) (start : ℕ) : Except PyError RecordOutcome → RecordGhost → Prop
  | .ok ⟨o, true, _⟩, g => g.read = none ∧ g.added = [o] ∧ o.key = data.key ∧
      o.value = data.stored
  | .ok ⟨o, false, _⟩, g => g.read = some (some o) ∧ g.added = [] ∧
      sameValue o.value data.stored = some true
  | .error (.revisionRaceExhausted key), g => g.added = [] ∧ key = data.key ∧
      start + maxRevisionAttempts ≤ g.low
  | .error _, g => g.added = []

private theorem duplicate_meets {Q : Option Observation → RecordGhost → Prop}
    {X : PyError → RecordGhost → Prop} {read : Option Observation} {g : RecordGhost}
    (hdup : ∀ o, read = some o → sameValue o.value data.stored = some true → Q (some o) g)
    (hnew : (∀ o ∈ read, sameValue o.value data.stored = some false) → Q none g)
    (hfail : X .invalidOperation g) :
    (duplicate read data).Meets (contract data) Q X g := by
  cases read with
  | none => exact Script.meets_pure.mpr (hnew (by simp))
  | some o =>
      rw [duplicate]
      split
      · rename_i h
        exact Script.meets_pure.mpr (hdup o rfl h)
      · rename_i h
        exact Script.meets_pure.mpr (hnew (by simpa using h))
      · exact Script.meets_throw.mpr hfail

private theorem recordLoop_meets {start : ℕ} (attempts : ℕ) (g : RecordGhost)
    (hadded : g.added = []) (hlow : start + maxRevisionAttempts ≤ g.low + attempts) :
    (recordLoop data attempts).Meets (contract data) (fun o => Post data start (.ok o))
      (fun e => Post data start (.error e)) g := by
  have hfail : ∀ g : RecordGhost, g.added = [] → Post data start (.error .invalidOperation) g :=
    fun _ h => h
  induction attempts generalizing g with
  | zero => exact ⟨hadded, rfl, by simpa using hlow⟩
  | succ attempts ih =>
      rw [recordLoop, Script.meets_bind, meets_issue]
      refine ⟨rfl, ?_⟩
      rintro read g' ⟨hle, rfl⟩
      rw [Script.meets_bind]
      refine duplicate_meets ?dup ?new (hfail _ hadded)
      case dup =>
        rintro o rfl hsame
        exact Script.meets_pure.mpr ⟨rfl, hadded, hsame⟩
      case new =>
        intro hnew
        rw [Script.meets_bind, meets_issue]
        refine ⟨⟨read, rfl, rfl, hnew⟩, ?_⟩
        rintro (_ | o) g' hpost
        · obtain rfl := hpost
          exact ih ⟨nextRevision read, none, g.added⟩ hadded (by simp only; omega)
        · obtain ⟨ho, rfl⟩ := hpost
          refine Script.meets_pure.mpr ⟨rfl, by simp [hadded], ?_, ?_⟩
          · rw [ho]; rfl
          · rw [ho]; rfl

/-- **What one call does**, whatever the others do: from its start on it stays within its
contract, and its outcome says truly what it did. -/
theorem record_meets {start : ℕ} {g : RecordGhost} (hadded : g.added = [])
    (hlow : start ≤ g.low) :
    (record data).run.Meets (contract data) (Post data start) g :=
  Script.meets_run.mpr (recordLoop_meets maxRevisionAttempts g hadded (by omega))

end ObservationStore

/-! ### Runs -/

section Runs

variable {ι : Type} {inputs : ι → ObservationInput}

/-- The configurations of concurrent `record` calls. -/
abbrev RecordConfig (ι : Type) := Config Cmd Cmd.Resp Db Session (Except PyError RecordOutcome) ι

/-- The calls before their first step, over an empty history. -/
def RecordConfig.start (inputs : ι → ObservationInput) (jobs : JobTable)
    (decisions : DecisionTable) : RecordConfig ι :=
  ⟨⟨jobs, Table.empty, decisions⟩,
    fun i => ⟨Session.new, (ObservationStore.record (inputs i)).run⟩⟩

/-- What a call knows is stable: the table only grows. -/
theorem ObservationStore.Knows.mono {data : ObservationInput} {db db' : Db} {l : Session}
    {g : RecordGhost} (h : Knows data db l g)
    (hle : db.observations.rows <+: db'.observations.rows) : Knows data db' l g := by
  obtain ⟨hlow, hstored, hadded, hread⟩ := h
  refine ⟨?_, hstored, fun o ho => hle.subset (hadded o ho), fun r hr o ho => ?_⟩
  · exact hlow.trans (hle.filter _).length_le
  · exact ⟨hle.subset (hread r hr o ho).1, (hread r hr o ho).2⟩

/-- One command of a call keeps the history sound and makes the call's new knowledge true. -/
private theorem ObservationStore.Knows.step {data : ObservationInput} {c : Cmd} {e : Answers}
    {db : Db} {l : Session} {g : RecordGhost} (hist : History db.observations)
    (h : Knows data db l g) (hpre : (contract data).pre c g) :
    History (exec c e db l).2.1.observations ∧
      ∃ g', (contract data).post c g (exec c e db l).1 g' ∧
        Knows data (exec c e db l).2.1 (exec c e db l).2.2 g' := by
  have hmono := h.mono (observations_exec c e db l)
  obtain ⟨hlow, hstored, hadded, hread⟩ := h
  cases c with
  | selectRevision key =>
      obtain rfl : key = data.key := hpre
      have hnext := hist.nextRevision_current data.key
      refine ⟨hist, ⟨_, some (currentRevision data.key db.observations), g.added⟩,
        ⟨?_, rfl⟩, ?_, hstored, hadded, ?_⟩
      · change _ ≤ nextRevision (currentRevision data.key db.observations)
        omega
      · change nextRevision (currentRevision data.key db.observations) - 1 ≤ _
        exact Nat.sub_le_of_le_add hnext.le
      · rintro _ ⟨⟩ o ho
        obtain ⟨hrow, hkey, -⟩ := hist.revision_current ho
        exact ⟨hrow, hkey⟩
  | insertObservation cand =>
      obtain ⟨read, hr, rfl, hsame⟩ := hpre
      set row := (data.candidate (nextRevision read)).row (db.observations.draw e.uuid) with hrow
      have htop : History.OnTopOf db.observations read row :=
        ⟨rfl, fun o ho => ⟨(hread read hr o ho).1, (hread read hr o ho).2, hsame o ho⟩⟩
      cases hi : db.observations.insert? row with
      | none =>
          have hle := hist.revision_le_of_conflict (db.observations.get?_draw e.uuid) hi
          simp only [exec, ← hrow, hi]
          refine ⟨hist, ⟨nextRevision read, none, g.added⟩, rfl, hle, hstored, hadded, ?_⟩
          simp
      | some t' =>
          have hrows := (Table.insert?_eq_some_iff.mp hi).2
          have hrev := hist.revision_of_insert htop hi
          simp only [exec, ← hrow, hi]
          refine ⟨hist.insert htop hi, ⟨nextRevision read, none, g.added ++ [row]⟩, ⟨rfl, rfl⟩,
            ?_, by simp [hstored], ?_, by simp⟩
          · change nextRevision read ≤ (revisionsOf row.key t').length
            rw [History.revisionsOf_insert hi, if_pos rfl, List.length_append]
            exact hrev.le
          · intro o ho
            rw [hrows, List.mem_append]
            exact (List.mem_append.mp ho).imp_left (hadded o)
  | _ => exact hpre.elim

theorem ObservationStore.obligation [DecidableEq ι] :
    Config.Obligation (Except PyError RecordOutcome) semantics
      (fun i => contract (inputs i)) (fun db => History db.observations)
      (fun i db th => Knows (inputs i) db th.loc) (fun _ _ _ => True) := by
  intro cfg i e c k g _ _ hist hknows hpre out
  obtain ⟨hist', hown⟩ := hknows.step (e := e) hist hpre
  exact ⟨hist', hown, fun j g' _ hj => hj.mono (observations_exec c e cfg.shared _)⟩

variable [DecidableEq ι] {jobs : JobTable} {decisions : DecisionTable} {cfg cfg' : RecordConfig ι}

/-- Every reachable configuration is sound. -/
private theorem RecordConfig.sound
    (hr : Config.Reaches semantics (fun _ _ _ => True) (start inputs jobs decisions) cfg) :
    cfg.Sound (fun i => ObservationStore.contract (inputs i))
      (fun i => ObservationStore.Post (inputs i) 0) (fun db => History db.observations)
      (fun i db th => ObservationStore.Knows (inputs i) db th.loc) := by
  refine hr.sound ObservationStore.obligation ⟨History.empty, fun i => ?_⟩
  exact ⟨⟨0, none, []⟩, ⟨Nat.zero_le _, rfl, by simp, by simp⟩,
    ObservationStore.record_meets rfl le_rfl⟩

/-- A reachable configuration in which a call has not begun is sound, with the number of
revisions that exist as the start of that call. -/
private theorem RecordConfig.sound_of_begin {i : ι}
    (hr : Config.Reaches semantics (fun _ _ _ => True) (start inputs jobs decisions) cfg)
    (hi : cfg.thread i = (start inputs jobs decisions).thread i) :
    cfg.Sound (fun i => ObservationStore.contract (inputs i))
      (fun j => ObservationStore.Post (inputs j) (Function.update (fun _ => 0) i
        (revisionsOf (inputs i).key cfg.shared.observations).length j))
      (fun db => History db.observations) (fun i db th => ObservationStore.Knows (inputs i) db th.loc) := by
  have hsound := RecordConfig.sound hr
  refine ⟨hsound.inv, fun j => ?_⟩
  by_cases hj : j = i
  · subst hj
    rw [Function.update_self, hi]
    exact ⟨⟨_, none, []⟩, ⟨le_rfl, rfl, by simp, by simp⟩,
      ObservationStore.record_meets rfl le_rfl⟩
  · rw [Function.update_of_ne hj]
    exact hsound.thread j

/-- Nothing that is stored changes or disappears over a run. -/
private theorem RecordConfig.rows_of_reaches
    (hr : Config.Reaches semantics (fun _ _ _ => True) cfg cfg') :
    cfg.shared.observations.rows <+: cfg'.shared.observations.rows := by
  induction hr with
  | refl => exact List.prefix_rfl
  | @step cfg₁ i e _ _ ih =>
      refine ih.trans ?_
      cases hp : (cfg₁.thread i).prog with
      | ret a => simp only [Config.step_ret hp, List.prefix_rfl]
      | call c k =>
          rw [Config.step_call hp]
          exact observations_exec c e cfg₁.shared _

/-- **Concurrent recording is exact.** For any number of `record` calls on any inputs and
any interleaving of their steps, in every configuration that is reached:

* the revisions stored for each key are exactly `1..n`, in this order;
* no stored row changes or disappears later;
* two consecutive revisions never carry the same value, and are not even equal unless they
  contain a NaN, which is not the same as itself;
* a call that returned `created = True` has added one row, with its key and its value;
* a call that returned `created = False` has added none, and its last step read as the
  current revision a row of the same value;
* a call that raised `RevisionRaceExhaustedError` has added none, and since any instant at
  which it had not begun, at least eight rows of its key have been added. -/
theorem concurrent_record
    (hr : Config.Reaches semantics (fun _ _ _ => True)
      (RecordConfig.start inputs jobs decisions) cfg) :
    (∀ key, (revisionsOf key cfg.shared.observations).map Observation.revision =
      List.range' 1 (revisionsOf key cfg.shared.observations).length) ∧
    (∀ cfg', Config.Reaches semantics (fun _ _ _ => True) cfg cfg' →
      cfg.shared.observations.rows <+: cfg'.shared.observations.rows) ∧
    (∀ o ∈ cfg.shared.observations.rows, ∀ o' ∈ cfg.shared.observations.rows,
      o'.key = o.key → o'.revision = o.revision + 1 →
      sameValue o.value o'.value = some false ∧ (o.value = o'.value → o.value.hasNaN = true)) ∧
    (∀ i o correction, (cfg.thread i).prog.result? = some (.ok ⟨o, true, correction⟩) →
      (cfg.thread i).loc.stored = [o] ∧ o ∈ cfg.shared.observations.rows ∧
        o.key = (inputs i).key ∧ o.value = (inputs i).stored) ∧
    (∀ i o correction, (cfg.thread i).prog.result? = some (.ok ⟨o, false, correction⟩) →
      (cfg.thread i).loc.stored = [] ∧ sameValue o.value (inputs i).stored = some true ∧
        ∃ cfg₁ e, Config.Reaches semantics (fun _ _ _ => True)
            (RecordConfig.start inputs jobs decisions) cfg₁ ∧
          (cfg₁.thread i).prog.next? = some (.selectRevision (inputs i).key) ∧
          currentRevision (inputs i).key cfg₁.shared.observations = some o ∧
          Config.Reaches semantics (fun _ _ _ => True) (cfg₁.step semantics i e) cfg) ∧
    (∀ i key, (cfg.thread i).prog.result? = some (.error (.revisionRaceExhausted key)) →
      (cfg.thread i).loc.stored = [] ∧ key = (inputs i).key ∧
        ∀ cfg₀, Config.Reaches semantics (fun _ _ _ => True)
            (RecordConfig.start inputs jobs decisions) cfg₀ →
          cfg₀.thread i = (RecordConfig.start inputs jobs decisions).thread i →
          Config.Reaches semantics (fun _ _ _ => True) cfg₀ cfg →
          (revisionsOf key cfg₀.shared.observations).length + 8 ≤
            (revisionsOf key cfg.shared.observations).length) := by
  have hsound := RecordConfig.sound hr
  refine ⟨hsound.inv.contiguous, fun cfg' hr' => RecordConfig.rows_of_reaches hr',
    fun o ho o' ho' hkey hrev => ?changes, fun i o correction hres => ?created,
    fun i o correction hres => ?duplicate, fun i key hres => ?exhausted⟩
  case changes =>
    have hsame := hsound.inv.changes o ho o' ho' hkey hrev
    refine ⟨hsame, fun heq => ?_⟩
    by_contra hnan
    rw [← heq, sameValue_self_iff.mpr (by simpa using hnan)] at hsame
    exact absurd hsame (by simp)
  case created =>
    obtain ⟨g, ⟨-, hstored, hadded, -⟩, -, hg, hkey, hvalue⟩ :=
      hsound.ret (Prog.result?_eq_some_iff.mp hres)
    rw [hg] at hstored hadded
    exact ⟨hstored, hadded o (List.mem_singleton_self o), hkey, hvalue⟩
  case duplicate =>
    obtain ⟨g, ⟨-, hstored, -, -⟩, -, hg, hsame⟩ :=
      hsound.ret (Prog.result?_eq_some_iff.mp hres)
    refine ⟨hstored.trans hg, hsame, ?_⟩
    obtain ⟨cfg₁, e, c, k, hr₁, hp, hok, hk, hr₂⟩ := hr.last_step rfl hres
    obtain ⟨g₁, g₂, -, hpre, hpost, hm⟩ :=
      (RecordConfig.sound hr₁).after ObservationStore.obligation hok hp
    rw [Prog.result?_eq_some_iff.mp hk] at hm
    obtain ⟨hread, -, -⟩ := hm
    cases c with
    | selectRevision key =>
        obtain rfl : key = (inputs i).key := hpre
        obtain ⟨-, rfl⟩ := hpost
        exact ⟨cfg₁, e, hr₁, Prog.next?_eq_some_iff.mpr ⟨k, hp⟩, Option.some.inj hread, hr₂⟩
    | insertObservation cand =>
        revert hpost
        cases (semantics.exec (.insertObservation cand) e cfg₁.shared (cfg₁.thread i).loc).1 with
        | none =>
            rintro rfl
            exact absurd hread (by simp)
        | some row =>
            rintro ⟨-, rfl⟩
            exact absurd hread (by simp)
    | _ => exact hpre.elim
  case exhausted =>
    obtain ⟨g, ⟨-, hstored, -, -⟩, hg, hkey, -⟩ :=
      hsound.ret (Prog.result?_eq_some_iff.mp hres)
    refine ⟨hstored.trans hg, hkey, fun cfg₀ hr₀ hbegin hr' => ?_⟩
    have hsound' := hr'.sound ObservationStore.obligation
      (RecordConfig.sound_of_begin hr₀ hbegin)
    obtain ⟨g', ⟨hlow, -⟩, -, -, height⟩ := hsound'.ret (Prog.result?_eq_some_iff.mp hres)
    rw [Function.update_self] at height
    rw [hkey]
    exact height.trans hlow

end Runs

/-- The concurrency test: two writers of one value read an empty history, `false` wins the
first revision, and `true` reads again and finds its value stored. -/
theorem concurrent_record_identical :
    let data : ObservationInput := ⟨1, ⟨"fake", "default", "FAKE-DE", ⟨1, by decide, by decide⟩, .eodClose⟩,
      ⟨"EUR", .finite 120, none, none, none, none, .ok⟩, 0, none, none⟩
    let cfg := (RecordConfig.start (fun _ : Bool => data) Table.empty Table.empty).run semantics
      [(false, default), (true, default), (false, default), (true, default), (true, default)]
    (revisionsOf data.key cfg.shared.observations).map Observation.revision = [1] ∧
      (cfg.thread false).loc.stored.length = 1 ∧ (cfg.thread true).loc.stored = [] := by
  intro data cfg
  have hr : Config.Reaches semantics (fun _ _ _ => True)
      (RecordConfig.start (fun _ : Bool => data) Table.empty Table.empty) cfg :=
    Config.reaches_run _ _
  let row := (data.candidate 1).row 0
  obtain ⟨hrev, -, -, hcreated, hduplicate, -⟩ := concurrent_record hr
  refine ⟨(hrev data.key).trans (by decide +kernel), ?_, ?_⟩
  · rw [(hcreated false row false (by decide +kernel)).1]
    rfl
  · exact (hduplicate true row false (by decide +kernel)).1

end MarketRelay
