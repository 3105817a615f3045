import MarketRelay.ObservationView

/-!
# Sources outside the Priority List

A source that is not configured is never chosen: the priority policy walks over the configured
sources only. The alternatives of a selection, however, are all candidates, and a source is a
candidate when its publication is authorized, configured or not. The alternatives decide
`has_discrepancy`, so an observation of an unlisted source can show in a response.

Two states of the database are compared that differ only in observations of unlisted sources.

## Main results

* `unlisted_invisible_iff`: under which policy and configuration the two states give the same
  responses.
* `unlisted_shows`: two states that give different responses.
-/

open Relational Interaction Gregorian

namespace MarketRelay

/-- The rows of the configured sources. -/
def listedRows (settings : Settings) (db : Db) : List Observation :=
  db.observations.rows.filter fun o => decide (o.key.source ∈ settings.enabledSources)

/-- Two states that differ only in observations of sources that are not configured. -/
structure DifferUnlisted (settings : Settings) (db db' : Db) : Prop where
  jobs : db.jobs = db'.jobs
  decisions : db.decisions = db'.decisions
  observations : listedRows settings db = listedRows settings db'

/-! ### Two cases in which they do not show -/

section Invisible

variable {settings : Settings} {db db' : Db} (h : DifferUnlisted settings db db')

include h

/-- When only configured sources are authorized, the visible rows are rows of configured
sources. -/
theorem visibleRows_congr
    (hauth : ∀ source, PolicyGate.publicationAuthorized db.decisions source = true →
      source ∈ settings.enabledSources) :
    ObservationSelector.visibleRows db = ObservationSelector.visibleRows db' := by
  have hfilter : ∀ db'' : Db, db''.decisions = db.decisions →
      ObservationSelector.visibleRows db'' = (listedRows settings db'').filter fun o =>
        PolicyGate.publicationAuthorized db.decisions o.key.source := by
    intro db'' hdecisions
    rw [ObservationSelector.visibleRows, listedRows, List.filter_filter, hdecisions]
    refine List.filter_congr fun o _ => ?_
    cases ho : PolicyGate.publicationAuthorized db.decisions o.key.source with
    | false => rfl
    | true => simp [hauth _ ho]
  rw [hfilter db rfl, hfilter db' h.decisions.symm, h.observations]

omit h in
/-- When no configured source is authorized, every response is the state of an absence. -/
theorem buildObservationOut_of_unauthorized
    (hauth : ∀ source ∈ settings.enabledSources,
      PolicyGate.publicationAuthorized db.decisions source = false)
    (listing : Listing) (sessionDate : Date) (observationType : ObservationType)
    (calendar : Calendar) :
    ObservationView.buildObservationOut db listing sessionDate observationType settings calendar =
      (ObservationView.sessionExpectation calendar listing sessionDate).map fun expectation =>
        ⟨listing.id, sessionDate, availabilityByExpectation expectation, none⟩ := by
  have hselect : ¬ ObservationView.Selectable db listing observationType settings sessionDate := by
    rw [ObservationView.Selectable, ObservationSelector.select_isOk_iff]
    rintro ⟨source, hsource, hauthorized, -⟩
    exact absurd (hauth source hsource) (by simp [hauthorized])
  rw [ObservationView.not_selectable_iff] at hselect
  rw [ObservationView.buildObservationOut, hselect]
  cases ObservationView.sessionExpectation calendar listing sessionDate <;> rfl

end Invisible

/-! ### Two states that can be told apart -/

/-- A stored close of a listing, from a source. -/
def closeOf (id : ℕ) (source : String) (close : ℚ) : Observation :=
  ⟨id, 1, ⟨source, "default", "X", today, .eodClose⟩, 1,
    ⟨"EUR", .finite close, none, none, none, none, .ok⟩, 0, none, none⟩

/-- The state with the close of one source. -/
def oneClose (decisions : DecisionTable) (listed : String) : Db :=
  ⟨Table.empty, ⟨[closeOf 1 listed 1], List.pairwise_singleton _ _⟩, decisions⟩

/-- The state with the closes of two sources, which differ. -/
def twoCloses (decisions : DecisionTable) {listed unlisted : String} (h : listed ≠ unlisted) :
    Db :=
  ⟨Table.empty, ⟨[closeOf 1 listed 1, closeOf 2 unlisted 2], by
    refine List.pairwise_cons.mpr ⟨fun o ho => ?_, List.pairwise_singleton _ _⟩
    obtain rfl := List.mem_singleton.mp ho
    rintro (hid | ⟨hkey, -⟩)
    · exact absurd (show 1 = 2 from hid) (by decide)
    · exact h (congrArg NaturalKey.source hkey)⟩, decisions⟩

/-- The selection when one candidate is of a configured source. -/
theorem ObservationSelector.select_of_only {db : Db} {listingId : ℕ} {sessionDate : Date}
    {observationType : ObservationType} (policy : SourcePriorityPolicy) {source : String}
    (o : Observation) (hsource : source ∈ policy.orderedSources)
    (ho : lookup? source (currentPublishableBySource db listingId sessionDate observationType) =
      some o)
    (honly : ∀ other ∈ policy.orderedSources, other ≠ source →
      lookup? other (currentPublishableBySource db listingId sessionDate observationType) = none) :
    select db listingId sessionDate observationType policy = .ok ⟨o, policy.name,
      ((currentPublishableBySource db listingId sessionDate observationType).map Prod.snd).filter
        fun alternative => decide (alternative.id ≠ o.id)⟩ := by
  have hfind : policy.orderedSources.findSome? (fun source =>
      lookup? source (currentPublishableBySource db listingId sessionDate observationType)) =
        some o := by
    cases hfind : policy.orderedSources.findSome? fun source =>
        lookup? source (currentPublishableBySource db listingId sessionDate observationType) with
    | none =>
        rw [List.findSome?_eq_none_iff] at hfind
        exact absurd (hfind source hsource) (by simp [ho])
    | some found =>
        obtain ⟨other, hother, hlookup⟩ := List.exists_of_findSome?_eq_some hfind
        by_cases heq : other = source
        · rw [← hlookup, heq, ho]
        · exact absurd hlookup (by simp [honly other hother heq])
  rw [select, hfind]

section Separation

variable {decisions : DecisionTable} {settings : Settings} {listed unlisted : String}
  (hlisted : listed ∈ settings.enabledSources) (hunlisted : unlisted ∉ settings.enabledSources)

include hunlisted in
/-- The two states differ in a row of the unlisted source. -/
theorem differUnlisted_closes (h : listed ≠ unlisted) :
    DifferUnlisted settings (oneClose decisions listed) (twoCloses decisions h) := by
  refine ⟨rfl, rfl, ?_⟩
  have hrow : decide ((closeOf 2 unlisted 2).key.source ∈ settings.enabledSources) = false :=
    decide_eq_false hunlisted
  simp only [listedRows, oneClose, twoCloses, List.filter_cons, hrow, Bool.false_eq_true, if_false]

variable (hauth : PolicyGate.publicationAuthorized decisions listed = true)

include hlisted hauth

/-- One close is published without a discrepancy. -/
theorem hasDiscrepancy_oneClose (calendar : Calendar) :
    ∃ out value, ObservationView.buildObservationOut (oneClose decisions listed)
        ⟨1, .equity, "X", none⟩ today .eodClose settings calendar =
          .ok out ∧
      out.value = some value ∧ value.hasDiscrepancy = false := by
  have hcandidates : ObservationSelector.currentPublishableBySource (oneClose decisions listed) 1
      today .eodClose = [(listed, closeOf 1 listed 1)] := by
    simp [ObservationSelector.currentPublishableBySource, ObservationSelector.latestByKey,
      ObservationSelector.bySource, ObservationSelector.rowsFor, ObservationSelector.account,
      groupBest, insertBest, oneClose, closeOf, hauth]
  have hselect := ObservationSelector.select_of_only (priorityPolicy settings)
    (closeOf 1 listed 1) hlisted (by rw [hcandidates]; simp [lookup?]) fun other _ hne => by
      rw [hcandidates]
      simp [lookup?, hne.symm]
  rw [hcandidates] at hselect
  obtain ⟨result, hselect, hclose, hb⟩ : ∃ result, ObservationSelector.select
      (oneClose decisions listed) 1 today .eodClose (priorityPolicy settings) = .ok result ∧
        result.selected.value.close.isFinite = true ∧ result.hasDiscrepancy = .ok false :=
    ⟨_, hselect, rfl, rfl⟩
  obtain ⟨value, hvalue, -, -, -, hdiscrepancy⟩ :=
    ObservationView.valueOut_of_finite (oneClose decisions listed) hb hclose
  simp only [ObservationView.buildObservationOut, hselect, hvalue]
  exact ⟨_, _, rfl, rfl, hdiscrepancy⟩

include hunlisted

/-- The close of an authorized unlisted source makes a discrepancy. -/
theorem hasDiscrepancy_twoCloses (h : listed ≠ unlisted)
    (hauth' : PolicyGate.publicationAuthorized decisions unlisted = true) (calendar : Calendar) :
    ∃ out value, ObservationView.buildObservationOut (twoCloses decisions h)
        ⟨1, .equity, "X", none⟩ today .eodClose settings calendar =
          .ok out ∧
      out.value = some value ∧ value.hasDiscrepancy = true := by
  have hcandidates : ObservationSelector.currentPublishableBySource (twoCloses decisions h) 1
      today .eodClose =
        [(listed, closeOf 1 listed 1), (unlisted, closeOf 2 unlisted 2)] := by
    simp [ObservationSelector.currentPublishableBySource, ObservationSelector.latestByKey,
      ObservationSelector.bySource, ObservationSelector.rowsFor, ObservationSelector.account,
      groupBest, insertBest, twoCloses, closeOf, hauth, hauth', h]
  have hselect := ObservationSelector.select_of_only (priorityPolicy settings)
    (closeOf 1 listed 1) hlisted (by rw [hcandidates]; simp [lookup?]) fun other hother hne => by
      have hne' : other ≠ unlisted := fun heq => hunlisted (heq ▸ hother)
      rw [hcandidates]
      simp [lookup?, hne.symm, hne'.symm]
  rw [hcandidates] at hselect
  obtain ⟨result, hselect, hclose, hb⟩ : ∃ result, ObservationSelector.select
      (twoCloses decisions h) 1 today .eodClose (priorityPolicy settings) = .ok result ∧
        result.selected.value.close.isFinite = true ∧ result.hasDiscrepancy = .ok true :=
    ⟨_, hselect, rfl, rfl⟩
  obtain ⟨value, hvalue, -, -, -, hdiscrepancy⟩ :=
    ObservationView.valueOut_of_finite (twoCloses decisions h) hb hclose
  simp only [ObservationView.buildObservationOut, hselect, hvalue]
  exact ⟨_, _, rfl, rfl, hdiscrepancy⟩

end Separation

/-! ### When they do not show -/

/-- **When unlisted sources are invisible**: the responses do not depend on the observations of
the sources that are not configured exactly when only configured sources are authorized to be
published, or no configured source is. -/
theorem unlisted_invisible_iff (decisions : DecisionTable) (settings : Settings) :
    (∀ db db' : Db, db.decisions = decisions → DifferUnlisted settings db db' →
      ∀ (listing : Listing) (sessionDate : Date) (observationType : ObservationType)
        (calendar : Calendar),
      ObservationView.buildObservationOut db listing sessionDate observationType settings
          calendar =
        ObservationView.buildObservationOut db' listing sessionDate observationType settings
          calendar) ↔
      (∀ source, PolicyGate.publicationAuthorized decisions source = true →
        source ∈ settings.enabledSources) ∨
      ∀ source ∈ settings.enabledSources,
        PolicyGate.publicationAuthorized decisions source = false := by
  constructor
  · intro hsame
    by_contra hneither
    push Not at hneither
    obtain ⟨⟨unlisted, hauth', hunlisted⟩, listed, hlisted, hauth⟩ := hneither
    replace hauth := Bool.eq_true_of_not_eq_false hauth
    have hne : listed ≠ unlisted := fun heq => hunlisted (heq ▸ hlisted)
    have hequal := hsame _ _ rfl (differUnlisted_closes hunlisted hne)
      ⟨1, .equity, "X", none⟩ today .eodClose fun _ _ _ _ _ => .ok []
    obtain ⟨out, value, hout, hvalue, hfalse⟩ :=
      hasDiscrepancy_oneClose hlisted hauth fun _ _ _ _ _ => .ok []
    obtain ⟨out', value', hout', hvalue', htrue⟩ :=
      hasDiscrepancy_twoCloses hlisted hunlisted hauth hne hauth' fun _ _ _ _ _ => .ok []
    rw [hout, hout'] at hequal
    obtain rfl := Except.ok.inj hequal
    obtain rfl := Option.some.inj (hvalue.symm.trans hvalue')
    exact absurd (hfalse.symm.trans htrue) (by decide)
  · rintro (hauth | hauth) db db' rfl hdiffer listing sessionDate observationType calendar
    · exact ObservationView.buildObservationOut_congr hdiffer.decisions
        (visibleRows_congr hdiffer hauth) listing sessionDate observationType settings calendar
    · rw [buildObservationOut_of_unauthorized hauth, buildObservationOut_of_unauthorized
        (hdiffer.decisions ▸ hauth)]

/-- Two sources are authorized to be published. -/
def publishedRegister : DecisionTable :=
  ⟨[⟨1, "fake", .store, 1, .approved, "contract", "reviewer", 0, none⟩,
    ⟨2, "fake", .display, 1, .approved, "contract", "reviewer", 0, none⟩,
    ⟨3, "fake", .redistribute, 1, .approved, "contract", "reviewer", 0, none⟩,
    ⟨4, "other", .store, 1, .approved, "contract", "reviewer", 0, none⟩,
    ⟨5, "other", .display, 1, .approved, "contract", "reviewer", 0, none⟩,
    ⟨6, "other", .redistribute, 1, .approved, "contract", "reviewer", 0, none⟩], by decide⟩

/-- Only one of them is configured, and the close of the other shows in a response. -/
theorem unlisted_shows :
    ¬ ∀ (settings : Settings) (db db' : Db), DifferUnlisted settings db db' →
      ∀ (listing : Listing) (sessionDate : Date) (observationType : ObservationType)
        (calendar : Calendar),
      ObservationView.buildObservationOut db listing sessionDate observationType settings
          calendar =
        ObservationView.buildObservationOut db' listing sessionDate observationType settings
          calendar := by
  intro hsame
  let settings : Settings := ⟨["fake"], 300, 3600⟩
  have hlisted : "fake" ∈ settings.enabledSources := by decide
  have hunlisted : "other" ∉ settings.enabledSources := by decide
  have hne : "fake" ≠ "other" := by decide
  have hauth : PolicyGate.publicationAuthorized publishedRegister "fake" = true := by decide
  have hauth' : PolicyGate.publicationAuthorized publishedRegister "other" = true := by decide
  have hequal := hsame settings (oneClose publishedRegister "fake")
    (twoCloses publishedRegister hne) (differUnlisted_closes hunlisted hne)
    ⟨1, .equity, "X", none⟩ today .eodClose fun _ _ _ _ _ => .ok []
  obtain ⟨out, value, hout, hvalue, hfalse⟩ :=
    hasDiscrepancy_oneClose hlisted hauth fun _ _ _ _ _ => .ok []
  obtain ⟨out', value', hout', hvalue', htrue⟩ :=
    hasDiscrepancy_twoCloses hlisted hunlisted hauth hne hauth' fun _ _ _ _ _ => .ok []
  rw [hout, hout'] at hequal
  obtain rfl := Except.ok.inj hequal
  obtain rfl := Option.some.inj (hvalue.symm.trans hvalue')
  exact absurd (hfalse.symm.trans htrue) (by decide)

end MarketRelay
