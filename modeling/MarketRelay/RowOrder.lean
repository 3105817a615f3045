import MarketRelay.Priority
import MarketRelay.StoredDecimals

/-!
# The Order of the Rows

The query of the selector has no `ORDER BY`: the database may return the matching rows in any
order. Of the revisions of an account the first of the highest ones is kept, and of the accounts
of a source the first of the most recently retrieved ones. Ties are possible: a listing can have
two external identifiers at one source, whose rows have revisions of their own, and the rows of
one run all carry its instant.

## Main results

* `select_order_iff`: when a selection does not depend on the order of the rows.
* `select_order_dependent`: a store whose selection depends on it, after two calls of `record`.
-/

open Relational Interaction Gregorian

namespace MarketRelay

/-! ### Calls of `record` in sequence -/

/-- Calls of `record`, one after another, each in any session and each meeting a condition on the
state that it finds, lead from one state to another. Between two calls the transaction may be
committed and read back. -/
inductive RecordingsUnder (P : ObservationInput → Db → Prop) :
    Db → List ObservationInput → Db → Prop where
  | nil (db : Db) : RecordingsUnder P db [] db
  | cons {db db' db'' : Db} {data : ObservationInput} {rest : List ObservationInput}
      {l l' : Session} {r : Except PyError RecordOutcome} : P data db →
      (ObservationStore.record data).Executes semantics db l r db' l' →
      RecordingsUnder P db' rest db'' → RecordingsUnder P db (data :: rest) db''
  | readBack {db db' : Db} {calls : List ObservationInput} (ρ : Rounding numericScale) :
      RecordingsUnder P (db.readBack ρ) calls db' → RecordingsUnder P db calls db'

/-- Any sequence of calls. -/
abbrev Recordings : Db → List ObservationInput → Db → Prop := RecordingsUnder fun _ _ => True

namespace ObservationSelector

/-! ### Candidates -/

/-- The rows that a selection looks at. -/
def matchingRows (db : Db) (listingId : ℕ) (sessionDate : Date)
    (observationType : ObservationType) : List Observation :=
  rowsFor listingId sessionDate observationType (visibleRows db)

/-- The row of each source, among some rows. -/
def candidatesOf (rows : List Observation) : List (String × Observation) :=
  bySource ((latestByKey rows).map Prod.snd)

theorem currentPublishableBySource_eq_candidatesOf (db : Db) (listingId : ℕ) (sessionDate : Date)
    (observationType : ObservationType) :
    currentPublishableBySource db listingId sessionDate observationType =
      candidatesOf (matchingRows db listingId sessionDate observationType) :=
  currentPublishableBySource_eq db listingId sessionDate observationType

/-- No row of its account has a higher revision. -/
def IsLatest (rows : List Observation) (o : Observation) : Prop :=
  o ∈ rows ∧ ∀ r ∈ rows, account r = account o → r.revision ≤ o.revision

section Rows

variable {rows : List Observation} {o o' : Observation} {source : String}

theorem IsLatest.of_same_rows {rows' : List Observation} (h : IsLatest rows o)
    (hrows : ∀ o, o ∈ rows ↔ o ∈ rows') : IsLatest rows' o :=
  ⟨(hrows o).mp h.1, fun r hr => h.2 r ((hrows r).mpr hr)⟩

theorem isLatest_of_mem (h : o ∈ (latestByKey rows).map Prod.snd) : IsLatest rows o := by
  obtain ⟨⟨k, b⟩, hentry, rfl⟩ := List.mem_map.mp h
  obtain ⟨hmem, hk⟩ := mem_groupBest hentry
  exact ⟨hmem, fun r hr hkey =>
    le_of_mem_groupBest (fun _ _ => decide_eq_true_iff) hentry hr (hkey.trans hk.symm)⟩

theorem exists_latest (h : o ∈ rows) :
    ∃ b ∈ (latestByKey rows).map Prod.snd, account b = account o := by
  obtain ⟨b, hb⟩ := (exists_groupBest_iff account
    fun row current => decide (current.revision < row.revision)).mpr ⟨o, h, rfl⟩
  exact ⟨b, List.mem_map.mpr ⟨_, hb, rfl⟩, (mem_groupBest hb).2.symm⟩

/-- One row is kept for each account. -/
theorem latest_unique (h : o ∈ (latestByKey rows).map Prod.snd)
    (h' : o' ∈ (latestByKey rows).map Prod.snd) (haccount : account o = account o') : o = o' := by
  obtain ⟨⟨k, b⟩, hb, rfl⟩ := List.mem_map.mp h
  obtain ⟨⟨k', b'⟩, hb', rfl⟩ := List.mem_map.mp h'
  obtain rfl : k = k' := (mem_groupBest hb).2.trans (haccount.trans (mem_groupBest hb').2.symm)
  exact groupBest_unique hb hb'

theorem mem_latest_of_candidate (h : (source, o) ∈ candidatesOf rows) :
    o ∈ (latestByKey rows).map Prod.snd ∧ o.key.source = source :=
  ⟨(mem_groupBest h).1, (mem_groupBest h).2.symm⟩

/-- The candidate of a source is a latest row of the source. -/
theorem isLatest_of_candidate (h : (source, o) ∈ candidatesOf rows) :
    IsLatest rows o ∧ o.key.source = source :=
  ⟨isLatest_of_mem (mem_latest_of_candidate h).1, (mem_latest_of_candidate h).2⟩

theorem exists_candidateOf (h : o ∈ rows) : ∃ c, (o.key.source, c) ∈ candidatesOf rows := by
  obtain ⟨b, hb, haccount⟩ := exists_latest h
  exact (exists_groupBest_iff (fun o : Observation => o.key.source)
    fun o current => decide (current.retrievedAt < o.retrievedAt)).mpr
      ⟨b, hb, congrArg Prod.fst haccount⟩

/-! ### What decides a source -/

/-- The row of a source, in whatever order the rows come: it is the only latest row of its account,
and was retrieved after the latest rows of every other account of the source. -/
structure Decides (rows : List Observation) (source : String) (w : Observation) : Prop where
  latest : IsLatest rows w
  ofSource : w.key.source = source
  sole : ∀ o, IsLatest rows o → account o = account w → o = w
  newest : ∀ o, IsLatest rows o → o.key.source = source → account o ≠ account w →
    o.retrievedAt < w.retrievedAt

theorem Decides.of_same_rows {rows' : List Observation} {w : Observation}
    (h : Decides rows source w) (hrows : ∀ o, o ∈ rows ↔ o ∈ rows') : Decides rows' source w where
  latest := h.latest.of_same_rows hrows
  ofSource := h.ofSource
  sole o ho := h.sole o (ho.of_same_rows fun o => (hrows o).symm)
  newest o ho := h.newest o (ho.of_same_rows fun o => (hrows o).symm)

/-- The row that decides a source is its candidate. -/
theorem Decides.candidate {w c : Observation} (h : Decides rows source w)
    (hc : (source, c) ∈ candidatesOf rows) : c = w := by
  obtain ⟨b, hb, haccount⟩ := exists_latest h.latest.1
  obtain rfl := h.sole b (isLatest_of_mem hb) haccount
  obtain ⟨hlatest, hsource⟩ := isLatest_of_candidate hc
  by_cases hsame : account c = account b
  · exact h.sole c hlatest hsame
  · have hlt := h.newest c hlatest hsource hsame
    have hle := le_of_mem_groupBest (fun _ _ => decide_eq_true_iff) hc hb h.ofSource
    exact absurd hle (not_le.mpr hlt)

/-- A latest row that comes first is kept for its account. -/
theorem latestByKey_cons (h : IsLatest (o :: rows) o) :
    ∃ tail, (latestByKey (o :: rows)).map Prod.snd = o :: tail := by
  obtain ⟨tail, htail⟩ := groupBest_cons account
    (fun row current => decide (current.revision < row.revision)) fun r hr hkey =>
      decide_eq_false (not_lt.mpr (h.2 r (List.mem_cons_of_mem _ hr) hkey))
  exact ⟨tail.map Prod.snd, by rw [latestByKey, htail, List.map_cons]⟩

/-- **A latest row that comes first is the candidate of its source**, unless another account has
one that was retrieved later. -/
theorem candidate_of_first {w : Observation} (h : IsLatest (o :: rows) o)
    (hw : (o.key.source, w) ∈ candidatesOf (o :: rows)) :
    (account o = account w → o = w) ∧ (account o ≠ account w → o.retrievedAt < w.retrievedAt) := by
  obtain ⟨tail, htail⟩ := latestByKey_cons h
  have hwmem := (mem_latest_of_candidate hw).1
  have ho : o ∈ (latestByKey (o :: rows)).map Prod.snd := htail ▸ List.mem_cons_self
  have hbound : ∀ r ∈ (latestByKey (o :: rows)).map Prod.snd, r.key.source = o.key.source →
      r.retrievedAt ≤ w.retrievedAt := fun r hr hsource =>
    le_of_mem_groupBest (fun _ _ => decide_eq_true_iff) hw hr hsource
  refine ⟨latest_unique ho hwmem, fun hne => lt_of_le_of_ne (hbound o ho rfl) fun hequal => ?_⟩
  -- With equal instants the first one would have been kept.
  obtain ⟨tail', htail'⟩ := groupBest_cons (fun o : Observation => o.key.source)
    (fun o current => decide (current.retrievedAt < o.retrievedAt)) fun r hr hsource =>
      decide_eq_false (not_lt.mpr (hequal ▸ hbound r
        (htail ▸ List.mem_cons_of_mem _ hr) hsource))
  have hfirst : (o.key.source, o) ∈ candidatesOf (o :: rows) := by
    rw [candidatesOf, bySource, htail, htail']
    exact List.mem_cons_self
  exact hne (congrArg account (groupBest_unique hfirst hw))

/-- The candidates of two lists with the same rows, when the rows decide every source. -/
theorem candidatesOf_subset {rows' : List Observation} (hrows : ∀ o, o ∈ rows ↔ o ∈ rows')
    (hdecides : ∀ o ∈ rows, ∃ w, Decides rows o.key.source w) {entry : String × Observation}
    (h : entry ∈ candidatesOf rows) : entry ∈ candidatesOf rows' := by
  obtain ⟨source, c⟩ := entry
  obtain ⟨hlatest, rfl⟩ := isLatest_of_candidate h
  obtain ⟨w, hw⟩ := hdecides c hlatest.1
  obtain rfl := hw.candidate h
  obtain ⟨c', hc'⟩ := exists_candidateOf ((hrows c).mp hlatest.1)
  rwa [(hw.of_same_rows hrows).candidate hc'] at hc'

end Rows

/-! ### Selections in two orders -/

/-- The same outcome, up to the order of the alternatives. -/
def SameChoice : Except PyError SelectionResult → Except PyError SelectionResult → Prop
  | .ok result, .ok result' => result.selected = result'.selected ∧
      ∀ o, o ∈ result.alternatives ↔ o ∈ result'.alternatives
  | .error e, .error e' => e = e'
  | _, _ => False

theorem SameChoice.selected_eq {a b : Except PyError SelectionResult} (h : SameChoice a b) :
    a.toOption.map SelectionResult.selected = b.toOption.map SelectionResult.selected := by
  cases a <;> cases b
  · rfl
  · exact absurd h id
  · exact absurd h id
  · exact congrArg some h.1

section Select

variable {db : Db} {listingId : ℕ} {sessionDate : Date} {observationType : ObservationType}
  {policy : SourcePriorityPolicy}

theorem mem_matchingRows {o : Observation} :
    o ∈ matchingRows db listingId sessionDate observationType ↔
      o ∈ db.observations.rows ∧ PolicyGate.publicationAuthorized db.decisions o.key.source = true ∧
        o.listingId = listingId ∧ o.key.sessionDate = sessionDate ∧
        o.key.observationType = observationType := by
  simp only [matchingRows, rowsFor, visibleRows, List.mem_filter, Bool.and_eq_true,
    decide_eq_true_eq, and_assoc]

theorem same_matchingRows {t : ObservationTable} (ht : t.rows.Perm db.observations.rows)
    (o : Observation) : o ∈ matchingRows db listingId sessionDate observationType ↔
      o ∈ matchingRows { db with observations := t } listingId sessionDate observationType := by
  rw [mem_matchingRows, mem_matchingRows, ht.mem_iff]

/-- The candidates are the selected row and the alternatives. -/
theorem mem_of_candidate {result : SelectionResult}
    (h : select db listingId sessionDate observationType policy = .ok result) {o : Observation} :
    (∃ source, (source, o) ∈ candidatesOf (matchingRows db listingId sessionDate
      observationType)) ↔ o = result.selected ∨ o ∈ result.alternatives := by
  have hselected := (mem_of_select h).1
  rw [select, currentPublishableBySource_eq_candidatesOf] at h
  split at h
  · exact absurd h (by simp)
  · rename_i selected hfind
    obtain rfl := Except.ok.inj h
    obtain ⟨source, -, hlookup⟩ := List.exists_of_findSome?_eq_some hfind
    constructor
    · rintro ⟨source', hcandidate⟩
      by_cases hid : o.id = selected.id
      · -- Two rows of the table with one identifier are one row.
        have hrow := (mem_matchingRows.mp (isLatest_of_candidate hcandidate).1.1).1
        exact Or.inl (Table.eq_of_clash hrow hselected (Or.inl hid))
      · exact Or.inr (List.mem_filter.mpr ⟨List.mem_map.mpr ⟨_, hcandidate, rfl⟩,
          decide_eq_true hid⟩)
    · rintro (rfl | halternative)
      · exact ⟨source, mem_of_lookup? hlookup⟩
      · obtain ⟨⟨source', _⟩, hentry, rfl⟩ := List.mem_map.mp (List.mem_of_mem_filter halternative)
        exact ⟨source', hentry⟩

/-- A selection is the same for candidates that are the same. -/
theorem sameChoice_of_candidates {db' : Db}
    (h : ∀ entry, entry ∈ candidatesOf (matchingRows db listingId sessionDate observationType) ↔
      entry ∈ candidatesOf (matchingRows db' listingId sessionDate observationType)) :
    SameChoice (select db listingId sessionDate observationType policy)
      (select db' listingId sessionDate observationType policy) := by
  have hlookup : (fun source => lookup? source (candidatesOf (matchingRows db listingId sessionDate
      observationType))) = fun source => lookup? source (candidatesOf (matchingRows db' listingId
        sessionDate observationType)) := by
    funext source
    refine Option.ext fun o => ?_
    rw [candidatesOf, candidatesOf, bySource, bySource, lookup?_groupBest_iff,
      lookup?_groupBest_iff]
    exact h (source, o)
  rw [select, select, currentPublishableBySource_eq_candidatesOf,
    currentPublishableBySource_eq_candidatesOf, hlookup]
  cases policy.orderedSources.findSome? fun source => lookup? source (candidatesOf (matchingRows db'
      listingId sessionDate observationType)) with
  | none => exact rfl
  | some selected =>
      refine ⟨rfl, fun o => ?_⟩
      simp only [List.mem_filter, List.mem_map, h]

/-- The table with one row moved to the front. -/
def moveFirst (t : ObservationTable) (o : Observation) (h : o ∈ t.rows) : ObservationTable :=
  t.reorder (o :: t.rows.erase o) (List.perm_cons_erase h).symm

theorem matchingRows_moveFirst {o : Observation} (h : o ∈ db.observations.rows)
    (ho : o ∈ matchingRows db listingId sessionDate observationType) :
    ∃ rest, matchingRows { db with observations := moveFirst db.observations o h } listingId
      sessionDate observationType = o :: rest := by
  obtain ⟨-, hauth, hlisting, hdate, htype⟩ := mem_matchingRows.mp ho
  refine ⟨rowsFor listingId sessionDate observationType ((db.observations.rows.erase o).filter
    fun o => PolicyGate.publicationAuthorized db.decisions o.key.source), ?_⟩
  simp [matchingRows, visibleRows, rowsFor, moveFirst, Table.reorder, hauth, hlisting, hdate, htype]

/-- When the order does not matter, the candidate of a source decides it: a latest row that could
be kept in its place would be, if it came first. -/
theorem decides_of_sameChoice
    (hall : ∀ t : ObservationTable, t.rows.Perm db.observations.rows →
      SameChoice (select db listingId sessionDate observationType policy)
        (select { db with observations := t } listingId sessionDate observationType policy))
    {result : SelectionResult}
    (hselect : select db listingId sessionDate observationType policy = .ok result)
    {source : String} {w : Observation}
    (hw : (source, w) ∈ candidatesOf (matchingRows db listingId sessionDate observationType)) :
    Decides (matchingRows db listingId sessionDate observationType) source w := by
  obtain ⟨hlatest, hsource⟩ := isLatest_of_candidate hw
  have hfirst : ∀ o, IsLatest (matchingRows db listingId sessionDate observationType) o →
      o.key.source = source → (account o = account w → o = w) ∧
        (account o ≠ account w → o.retrievedAt < w.retrievedAt) := by
    intro o ho hsource'
    have hrow := (mem_matchingRows.mp ho.1).1
    have hperm : (moveFirst db.observations o hrow).rows.Perm db.observations.rows :=
      (List.perm_cons_erase hrow).symm
    have hchoice := hall _ hperm
    rw [hselect] at hchoice
    cases hselect' : select { db with observations := moveFirst db.observations o hrow } listingId
        sessionDate observationType policy with
    | error e => simp [hselect', SameChoice] at hchoice
    | ok result' =>
        rw [hselect'] at hchoice
        have hmem := (mem_of_candidate hselect).mp ⟨_, hw⟩
        rw [hchoice.1, hchoice.2, ← mem_of_candidate hselect'] at hmem
        obtain ⟨source', hw'⟩ := hmem
        obtain rfl : source' = o.key.source :=
          ((isLatest_of_candidate hw').2.symm.trans hsource).trans hsource'.symm
        obtain ⟨rest, hrows⟩ := matchingRows_moveFirst hrow ho.1
        have hlatest' := ho.of_same_rows (same_matchingRows hperm)
        rw [hrows] at hw' hlatest'
        exact candidate_of_first hlatest' hw'
  exact ⟨hlatest, hsource,
    fun o ho haccount => (hfirst o ho ((congrArg Prod.fst haccount).trans hsource)).1 haccount,
    fun o ho hsource' => (hfirst o ho hsource').2⟩

end Select

end ObservationSelector

/-! ### When the order does not matter -/

open ObservationSelector in
/-- **When a selection does not depend on the order of the rows**: exactly when no source of the
policy has a row that may be published, or every source with such rows has one that decides it. -/
theorem select_order_iff (db : Db) (listingId : ℕ) (sessionDate : Date)
    (observationType : ObservationType) (policy : SourcePriorityPolicy) :
    (∀ t : ObservationTable, t.rows.Perm db.observations.rows →
      SameChoice (select db listingId sessionDate observationType policy)
        (select { db with observations := t } listingId sessionDate observationType policy)) ↔
      (∀ o ∈ matchingRows db listingId sessionDate observationType,
        o.key.source ∉ policy.orderedSources) ∨
      ∀ o ∈ matchingRows db listingId sessionDate observationType,
        ∃ w, Decides (matchingRows db listingId sessionDate observationType) o.key.source w := by
  constructor
  · intro hall
    by_contra hneither
    push Not at hneither
    obtain ⟨⟨p, hp, hpolicy⟩, o, ho, hundecided⟩ := hneither
    -- A selection succeeds, and the candidate of the source is among its rows.
    obtain ⟨hrow, hauth, hlisting, hdate, htype⟩ := mem_matchingRows.mp hp
    obtain ⟨result, hselect⟩ := select_isOk_iff.mpr
      ⟨_, hpolicy, hauth, p, hrow, hlisting, hdate, htype, rfl⟩
    obtain ⟨w, hw⟩ := exists_candidateOf ho
    exact hundecided w (decides_of_sameChoice hall hselect hw)
  · rintro (hnone | hdecides) t ht
    · -- No selection succeeds.
      have herror : ∀ db' : Db, (∀ o, o ∈ matchingRows db listingId sessionDate observationType ↔
          o ∈ matchingRows db' listingId sessionDate observationType) →
          select db' listingId sessionDate observationType policy =
            .error (.noEligibleObservation policy.name listingId sessionDate observationType) := by
        intro db' hdb'
        cases hselect : select db' listingId sessionDate observationType policy with
        | error e => rw [select_eq_error hselect]
        | ok result =>
            obtain ⟨source, hsource, hauth, o, hrow, hlisting, hdate, htype, rfl⟩ :=
              select_isOk_iff.mp ⟨result, hselect⟩
            exact absurd hsource (hnone o ((hdb' o).mpr
              (mem_matchingRows.mpr ⟨hrow, hauth, hlisting, hdate, htype⟩)))
      rw [herror db fun _ => Iff.rfl, herror _ (same_matchingRows ht)]
      exact rfl
    · refine sameChoice_of_candidates fun entry =>
        ⟨candidatesOf_subset (same_matchingRows ht) hdecides, candidatesOf_subset
          (fun o => (same_matchingRows ht o).symm) fun o ho => ?_⟩
      obtain ⟨w, hw⟩ := hdecides o ((same_matchingRows ht o).mpr ho)
      exact ⟨w, hw.of_same_rows (same_matchingRows ht)⟩

/-- Two identifiers of one listing at one source, with different closes of a day. -/
def closeUnder (externalListingId : String) (close : ℚ) : ObservationInput where
  listingId := 1
  key := ⟨"fake", "default", externalListingId, today, .eodClose⟩
  value := ⟨"EUR", .finite close, none, none, none, none, .ok⟩
  retrievedAt := 0
  retrievalPolicyDecisionId := none
  storagePolicyDecisionId := none

/-- The row that is selected for the day. -/
def selectedOf (db : Db) : Option Observation :=
  (ObservationSelector.select db 1 today .eodClose
    ⟨"configured-sources", ["fake"]⟩).toOption.map SelectionResult.selected

/-- **A selection can depend on the order of the rows**: both rows are the first revisions of their
keys. -/
theorem select_order_dependent :
    ¬ ∀ (calls : List ObservationInput) (db₀ db : Db), db₀.observations = Table.empty →
      Recordings db₀ calls db →
      ∀ (listingId : ℕ) (sessionDate : Date) (observationType : ObservationType)
        (policy : SourcePriorityPolicy) (t : ObservationTable),
        t.rows.Perm db.observations.rows →
        ObservationSelector.SameChoice
          (ObservationSelector.select db listingId sessionDate observationType policy)
          (ObservationSelector.select { db with observations := t } listingId sessionDate
            observationType policy) := by
  intro hall
  let db₀ : Db := ⟨Table.empty, Table.empty, publishedRegister⟩
  have hrun : ((ObservationStore.record (closeUnder "A" 1)).run.execute semantics
      [default, default] db₀ Session.new).any (fun first =>
        ((ObservationStore.record (closeUnder "B" 2)).run.execute semantics
          [default, default] first.2.1 Session.new).any fun second =>
            decide (selectedOf second.2.1 ≠ selectedOf { second.2.1 with
              observations := second.2.1.observations.reorder _ (List.reverse_perm _) })) =
        true := by
    decide +kernel
  obtain ⟨⟨r, db₁, l₁⟩, hfirst, hrun⟩ := (Option.any_eq_true _ _).mp hrun
  obtain ⟨⟨r', db₂, l₂⟩, hsecond, hdiffer⟩ := (Option.any_eq_true _ _).mp hrun
  have hrecordings : Recordings db₀ [closeUnder "A" 1, closeUnder "B" 2] db₂ :=
    .cons trivial ⟨_, hfirst⟩ (.cons trivial ⟨_, hsecond⟩ (.nil db₂))
  have hchoice := hall _ db₀ db₂ rfl hrecordings 1 today .eodClose
    ⟨"configured-sources", ["fake"]⟩ (db₂.observations.reorder _ (List.reverse_perm _))
    (List.reverse_perm _)
  exact of_decide_eq_true hdiffer hchoice.selected_eq

end MarketRelay
