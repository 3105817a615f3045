import MarketRelay.ObservationView
import MarketRelay.Reprocessing
import MarketRelay.Revisions
import MarketRelay.RowIsolation
import MarketRelay.Superseded

/-!
# From the Provider to the Consumer

A value passes from the response of a provider through validation, the revisions of the store and a
commit to the selection and the response for a consumer. What comes out for a date is the value of
the last valid row for it, in the precision of the columns: a correction is never held back, and an
older revision never served in its place.

This is for a listing with one identity at the source, and for the source that the priority policy
reaches first.

## Main results

* `select_of_preferred`: the current revision of the preferred source is selected.
* `ingested_value_published`: what was ingested last is what is published.
-/

open Relational Interaction Gregorian

namespace MarketRelay

/-! ### The preferred source -/

/-- At the source, the listing has this identity and no other one, and the identity is of no other
listing. -/
def SoleIdentity (t : ObservationTable) (listingId : ℕ)
    (source credentialScope externalId : String) : Prop :=
  ∀ o ∈ t.rows, o.key.source = source →
    (o.listingId = listingId ↔ o.key.credentialScope = credentialScope ∧
      o.key.externalListingId = externalId)

/-- The source may be published, and no source before it in the order that may be published has an
observation of the listing for the date. -/
structure Preferred (db : Db) (sources : List String) (listingId : ℕ) (sessionDate : Date)
    (observationType : ObservationType) (source : String) : Prop where
  authorized : PolicyGate.publicationAuthorized db.decisions source = true
  first : ∃ before after, sources = before ++ source :: after ∧ source ∉ before ∧
    ∀ s ∈ before, PolicyGate.publicationAuthorized db.decisions s = true →
      ∀ o ∈ db.observations.rows, o.listingId = listingId → o.key.sessionDate = sessionDate →
        o.key.observationType = observationType → o.key.source ≠ s

section Select

open ObservationSelector

variable (db : Db) (policy : SourcePriorityPolicy) {listingId : ℕ} {sessionDate : Date}
  {observationType : ObservationType} {source credentialScope externalId : String}

/-- The candidate of a source. -/
theorem lookup?_candidates_iff {o : Observation} :
    lookup? source (currentPublishableBySource db listingId sessionDate observationType) = some o ↔
      (source, o) ∈ candidatesOf (matchingRows db listingId sessionDate observationType) := by
  rw [currentPublishableBySource_eq_candidatesOf, candidatesOf, bySource, lookup?_groupBest_iff]

/-- **The current revision of the preferred source is selected.** -/
theorem select_of_preferred (hlinked : Linked db.observations)
    (hsole : SoleIdentity db.observations listingId source credentialScope externalId)
    (hpreferred : Preferred db policy.orderedSources listingId sessionDate observationType source)
    {o : Observation} (ho : o ∈ db.observations.rows) (hlisting : o.listingId = listingId)
    (hkey : o.key = ⟨source, credentialScope, externalId, sessionDate, observationType⟩) :
    ∃ result, select db listingId sessionDate observationType policy = .ok result ∧
      currentRevision o.key db.observations = some result.selected := by
  have hmatching : o ∈ matchingRows db listingId sessionDate observationType :=
    mem_matchingRows.mpr ⟨ho, by rw [hkey]; exact hpreferred.authorized, hlisting, by rw [hkey],
      by rw [hkey]⟩
  have hsource : o.key.source = source := by rw [hkey]
  obtain ⟨c, hc⟩ := exists_candidateOf hmatching
  rw [hsource] at hc
  obtain ⟨hlatest, hcsource⟩ := isLatest_of_candidate hc
  obtain ⟨hcmem, -, hclisting, hcdate, hctype⟩ := mem_matchingRows.mp hlatest.1
  have hckey : c.key = o.key := by
    obtain ⟨hscope, hexternal⟩ := (hsole c hcmem hcsource).mp hclisting
    rw [hkey, ← hcsource, ← hscope, ← hexternal, ← hcdate, ← hctype]
  obtain ⟨before, after, hsources, -, hbefore⟩ := hpreferred.first
  have hnone : before.findSome? (fun s => lookup? s (currentPublishableBySource db listingId
      sessionDate observationType)) = none := by
    rw [List.findSome?_eq_none_iff]
    intro s hs
    rw [Option.eq_none_iff_forall_ne_some]
    intro c' hc'
    obtain ⟨hlatest', hs'⟩ := isLatest_of_candidate ((lookup?_candidates_iff db).mp hc')
    obtain ⟨hmem', hauth', hlisting', hdate', htype'⟩ := mem_matchingRows.mp hlatest'.1
    exact hbefore s hs (hs' ▸ hauth') c' hmem' hlisting' hdate' htype' hs'
  have hselected : policy.orderedSources.findSome? (fun s => lookup? s
      (currentPublishableBySource db listingId sessionDate observationType)) = some c := by
    rw [hsources, List.findSome?_append, hnone, Option.none_or, List.findSome?_cons,
      (lookup?_candidates_iff db).mpr hc]
  rw [select, hselected]
  exact ⟨_, rfl, hckey ▸ currentRevision_of_isLatest hlinked hlatest⟩

end Select

/-! ### The response -/

/-- The response for a date with a selected observation. -/
theorem ObservationView.buildObservationOut_of_select {db : Db} {listing : Listing}
    {sessionDate : Date} {observationType : ObservationType} {settings : Settings}
    {result : SelectionResult} (calendar : Calendar)
    (hselect : ObservationSelector.select db listing.id sessionDate observationType
      (priorityPolicy settings) = .ok result)
    (hcloses : ∀ o ∈ db.observations.rows, o.value.close.isFinite = true) :
    ∃ value, buildObservationOut db listing sessionDate observationType settings calendar =
        .ok ⟨listing.id, sessionDate, .ok, some value⟩ ∧
      value.source = result.selected.key.source ∧ value.close = result.selected.value.close ∧
      value.currency = result.selected.value.currency := by
  obtain ⟨hclose, b, hb⟩ := result.answerable hselect hcloses
  obtain ⟨value, hvalue, hsource, hclose, hcurrency, -⟩ := valueOut_of_finite db hb hclose
  simp only [buildObservationOut, hselect, hvalue]
  exact ⟨_, rfl, hsource, hclose, hcurrency⟩

/-! ### What a call leaves behind -/

namespace IngestionRunner

variable {now : Instant} {j j' : Job} {cursor : FetchCursor Json}
  {raws before after : List RawObservation} {raw : RawObservation} {db db' : Db}
  {outcome : JobOutcome} {listingId : ℕ} {credentialScope externalId : String}

/-- The rows that come after some rows leave a key alone if none of them is for it. -/
theorem valuesAfter_append_of_other {row : RawObservation → Except PyError Entry} {values : Values}
    {key : NaturalKey}
    (hother : ∀ r ∈ after, ∀ entry, row r = .ok entry → entry.key ≠ key) :
    valuesAfter row values (before ++ after) key = valuesAfter row values before key := by
  rw [valuesAfter, List.foldl_append]
  have happly : (∃ r ∈ after, ∃ entry, row r = .ok entry ∧ entry.key = key ∧
        valuesAfter row (valuesAfter row values before) after key = some entry.value) ∨
      (∀ r ∈ after, ∀ entry, row r = .ok entry → entry.key ≠ key) ∧
        valuesAfter row (valuesAfter row values before) after key =
          valuesAfter row values before key := valuesAfter_apply after key
  rcases happly with ⟨r, hr, entry, hentry, hkey, -⟩ | ⟨-, hsame⟩
  · exact absurd hkey (hother r hr entry hentry)
  · exact hsame

/-- **The last valid row for a date is the current one** after the call. -/
theorem Processed.value_of_last (h : Processed now j cursor raws db db' (.ok outcome) j')
    (hraws : raws = before ++ raw :: after) (hvalid : Accepted cursor raw)
    (hlast : ∀ r ∈ after, Accepted cursor r → r.sessionDate = raw.sessionDate →
      r.observationType ≠ raw.observationType)
    (hscope : cursor.credentialScope.text? = some credentialScope) :
    currentValues db'.observations (rowKey j.source credentialScope raw) = some (rowValue raw) := by
  have hraw : raw ∈ raws := hraws ▸ List.mem_append_right _ List.mem_cons_self
  obtain ⟨scope, hscope', hentry⟩ := h.entry_of_accepted hraw hvalid
  obtain rfl := Option.some.inj (hscope.symm.trans hscope')
  have hother : ∀ r ∈ after, ∀ entry, rowEntry j cursor r = .ok entry →
      entry.key ≠ rowKey j.source credentialScope raw := by
    intro r hr entry hrow hkey
    obtain ⟨haccepted, _, scope, -, -, hentry'⟩ := rowEntry_eq_ok_iff.mp hrow
    rw [hentry'] at hkey
    exact hlast r hr haccepted (congrArg NaturalKey.sessionDate hkey)
      (congrArg NaturalKey.observationType hkey)
  have hsplit : raws = (before ++ [raw]) ++ after := by rw [hraws, List.append_assoc]; rfl
  rw [h.values h.not_raises, hsplit, valuesAfter_append_of_other hother, valuesAfter_concat, hentry]
  exact Function.update_self ..

/-- The job fetches the listing under its one identity at the source. -/
structure Feeds (j : Job) (cursor : FetchCursor Json) (db : Db) (listingId : ℕ)
    (credentialScope externalId : String) : Prop where
  listing : j.listingId = some listingId
  scope : cursor.credentialScope.text? = some credentialScope
  external : cursor.externalListingId.text? = some externalId
  sole : SoleIdentity db.observations listingId j.source credentialScope externalId

/-- What the call adds is of the listing and of its identity. -/
theorem Processed.added (h : Processed now j cursor raws db db' (.ok outcome) j')
    (hfeeds : Feeds j cursor db listingId credentialScope externalId) {o : Observation}
    (ho : o ∈ db'.observations.rows) :
    o ∈ db.observations.rows ∨ o.listingId = listingId ∧ o.key.source = j.source ∧
      o.key.credentialScope = credentialScope ∧ o.key.externalListingId = externalId ∧
        ∃ q, o.value.close = .finite q := by
  obtain ⟨new, hrows, hnew, -⟩ := h.adds
  rcases List.mem_append.mp (hrows ▸ ho) with hold | hadded
  · exact Or.inl hold
  · obtain ⟨r, -, hrow, hlisting⟩ := hnew o hadded
    obtain ⟨haccepted, _, scope, -, hscope, hentry⟩ := rowEntry_eq_ok_iff.mp hrow
    obtain rfl := Option.some.inj (hfeeds.scope.symm.trans hscope)
    obtain ⟨hexternal, -, -, hfinite, -⟩ := accepted_iff.mp haccepted
    have hkey : o.key = rowKey j.source credentialScope r := congrArg Entry.key hentry
    have hvalue : o.value = rowValue r := congrArg Entry.value hentry
    refine Or.inr ⟨Option.some.inj (hlisting.symm.trans hfeeds.listing), by rw [hkey]; rfl,
      by rw [hkey]; rfl, ?_, ?_⟩
    · rw [hkey]
      exact Option.some.inj (hexternal.symm.trans hfeeds.external)
    · rw [hvalue]
      change ∃ q, r.close = .finite q
      cases hclose : r.close with
      | finite q => exact ⟨q, rfl⟩
      | _ => simp [hclose, Decimal.isFinite] at hfinite

/-- The listing and its identity are still each other's only one. -/
theorem Processed.soleIdentity (h : Processed now j cursor raws db db' (.ok outcome) j')
    (hfeeds : Feeds j cursor db listingId credentialScope externalId) :
    SoleIdentity db'.observations listingId j.source credentialScope externalId := by
  intro o ho hsource
  rcases h.added hfeeds ho with hold | ⟨hlisting, -, hscope, hexternal, -⟩
  · exact hfeeds.sole o hold hsource
  · exact iff_of_true hlisting ⟨hscope, hexternal⟩

/-- The rows of a key are still of one listing. -/
theorem Processed.linked (h : Processed now j cursor raws db db' (.ok outcome) j')
    (hfeeds : Feeds j cursor db listingId credentialScope externalId)
    (hlinked : Linked db.observations) : Linked db'.observations := by
  have hlisted : ∀ o ∈ db'.observations.rows, o.key.source = j.source →
      o.key.credentialScope = credentialScope → o.key.externalListingId = externalId →
        o.listingId = listingId := fun o ho hsource hscope hexternal =>
    (h.soleIdentity hfeeds o ho hsource).mpr ⟨hscope, hexternal⟩
  intro a ha b hb hkey
  rcases h.added hfeeds ha with holda | ⟨hlisting, hsource, hscope, hexternal, -⟩
  · rcases h.added hfeeds hb with holdb | ⟨hlisting, hsource, hscope, hexternal, -⟩
    · exact hlinked a holda b holdb hkey
    · rw [hlisting]
      exact hlisted a ha (hkey ▸ hsource) (hkey ▸ hscope) (hkey ▸ hexternal)
  · rw [hlisting]
    exact (hlisted b hb (hkey ▸ hsource) (hkey ▸ hscope) (hkey ▸ hexternal)).symm

/-- The source is still the preferred one: nothing was added for a source before it. -/
theorem Processed.preferred (h : Processed now j cursor raws db db' (.ok outcome) j')
    (hfeeds : Feeds j cursor db listingId credentialScope externalId) {decisions : DecisionTable}
    {sources : List String} {sessionDate : Date} {observationType : ObservationType}
    (hpreferred : Preferred { db with decisions := decisions } sources listingId sessionDate
      observationType j.source) :
    Preferred { db' with decisions := decisions } sources listingId sessionDate observationType
      j.source := by
  obtain ⟨before, after, hsources, hnot, hbefore⟩ := hpreferred.first
  refine ⟨hpreferred.authorized, before, after, hsources, hnot, ?_⟩
  intro s hs hauth o ho hlisting hdate htype
  rcases h.added hfeeds ho with hold | ⟨-, hsource, -⟩
  · exact hbefore s hs hauth o hold hlisting hdate htype
  · rintro rfl
    exact hnot (hsource ▸ hs)

/-- The closes of the store are finite. -/
theorem Processed.closes (h : Processed now j cursor raws db db' (.ok outcome) j')
    (hfeeds : Feeds j cursor db listingId credentialScope externalId)
    (hcloses : ∀ o ∈ db.observations.rows, o.value.close.isFinite = true) :
    ∀ o ∈ db'.observations.rows, o.value.close.isFinite = true := by
  intro o ho
  rcases h.added hfeeds ho with hold | ⟨-, -, -, -, q, hclose⟩
  · exact hcloses o hold
  · rw [hclose]
    rfl

end IngestionRunner

/-! ### What a later session reads -/

section ReadBack

variable {ρ : Rounding numericScale} {db : Db}

theorem Db.mem_readBack {o : Observation} :
    o ∈ (db.readBack ρ).observations.rows ↔ ∃ o' ∈ db.observations.rows, o'.rounded ρ = o := by
  rw [rows_readBack, List.mem_map]

theorem SoleIdentity.readBack {listingId : ℕ} {source credentialScope externalId : String}
    (h : SoleIdentity db.observations listingId source credentialScope externalId) :
    SoleIdentity (db.readBack ρ).observations listingId source credentialScope externalId := by
  intro o ho hsource
  obtain ⟨o', ho', rfl⟩ := Db.mem_readBack.mp ho
  exact h o' ho' hsource

theorem Preferred.readBack {decisions : DecisionTable} {sources : List String} {listingId : ℕ}
    {sessionDate : Date} {observationType : ObservationType} {source : String}
    (h : Preferred { db with decisions := decisions } sources listingId sessionDate observationType
      source) :
    Preferred { db.readBack ρ with decisions := decisions } sources listingId sessionDate
      observationType source := by
  obtain ⟨before, after, hsources, hnot, hbefore⟩ := h.first
  refine ⟨h.authorized, before, after, hsources, hnot, ?_⟩
  intro s hs hauth o ho
  obtain ⟨o', ho', rfl⟩ := Db.mem_readBack.mp ho
  exact hbefore s hs hauth o' ho'

/-- A finite close is rounded to a finite one. -/
theorem Db.closes_readBack (h : ∀ o ∈ db.observations.rows, o.value.close.isFinite = true) :
    ∀ o ∈ (db.readBack ρ).observations.rows, o.value.close.isFinite = true := by
  intro o ho
  obtain ⟨o', ho', rfl⟩ := mem_readBack.mp ho
  have hclose := h o' ho'
  change (o'.value.close.rounded ρ).isFinite = true
  cases hvalue : o'.value.close with
  | finite q => rfl
  | infinity negative => rw [hvalue] at hclose; exact hclose
  | nan signaling => rw [hvalue] at hclose; exact hclose

end ReadBack

/-! ### The path -/

section Path

open IngestionRunner

variable {now : Instant} {j : Job} {cursor : FetchCursor Json}
  {raws before after : List RawObservation} {raw : RawObservation} {db db' : Db} {l l' : Session}
  {workerId : String} {events : List (Event Cmd Cmd.Resp)} {outcome : JobOutcome}
  {credentialScope externalId : String}

/-- The row that the store holds for the last valid row of a date. -/
theorem IngestionRunner.Processed.current {j' : Job} {listingId : ℕ}
    (h : Processed now j cursor raws db db' (.ok outcome) j')
    (hfeeds : Feeds j cursor db listingId credentialScope externalId)
    (hraws : raws = before ++ raw :: after) (hvalid : Accepted cursor raw)
    (hlast : ∀ r ∈ after, Accepted cursor r → r.sessionDate = raw.sessionDate →
      r.observationType ≠ raw.observationType) :
    ∃ stored ∈ db'.observations.rows, currentRevision stored.key db'.observations = some stored ∧
      stored.listingId = listingId ∧
      stored.key = ⟨j.source, credentialScope, externalId, raw.sessionDate, raw.observationType⟩ ∧
      stored.value = rowValue raw := by
  have hvalue := h.value_of_last hraws hvalid hlast hfeeds.scope
  rw [currentValues, Option.map_eq_some_iff] at hvalue
  obtain ⟨stored, hcurrent, hstored⟩ := hvalue
  obtain ⟨hmem, hkey⟩ := mem_revisionsOf.mp (latestBy_eq_some hcurrent).1
  have hexternal : raw.externalListingId = externalId :=
    Option.some.inj ((accepted_iff.mp hvalid).1.symm.trans hfeeds.external)
  have hlisting : stored.listingId = listingId :=
    (h.soleIdentity hfeeds stored hmem (by rw [hkey]; rfl)).mpr
      (by rw [hkey]; exact ⟨rfl, hexternal⟩)
  exact ⟨stored, hmem, hkey ▸ hcurrent, hlisting, by rw [hkey, rowKey, hexternal], hstored⟩

/-- What a later session publishes of a current revision of the preferred source. -/
theorem published_of_current (ρ : Rounding numericScale) (listing : Listing)
    (decisions : DecisionTable) (settings : Settings) (calendar : Calendar) {stored : Observation}
    {sessionDate : Date} {observationType : ObservationType} {source : String}
    (hmem : stored ∈ db.observations.rows)
    (hcurrent : currentRevision stored.key db.observations = some stored)
    (hlisting : stored.listingId = listing.id)
    (hkey : stored.key = ⟨source, credentialScope, externalId, sessionDate, observationType⟩)
    (hlinked : Linked db.observations)
    (hsole : SoleIdentity db.observations listing.id source credentialScope externalId)
    (hcloses : ∀ o ∈ db.observations.rows, o.value.close.isFinite = true)
    (hpreferred : Preferred { db with decisions := decisions } settings.enabledSources listing.id
      sessionDate observationType source) :
    ∃ value, ObservationView.buildObservationOut { db.readBack ρ with decisions := decisions }
        listing sessionDate observationType settings calendar =
          .ok ⟨listing.id, sessionDate, .ok, some value⟩ ∧
      value.source = source ∧ value.close = stored.value.close.rounded ρ ∧
      value.currency = stored.value.currency := by
  have hread : currentRevision stored.key (db.readBack ρ).observations =
      some (stored.rounded ρ) := by
    rw [Db.currentRevision_readBack, hcurrent]
    rfl
  obtain ⟨result, hselect, hselected⟩ := select_of_preferred
    { db.readBack ρ with decisions := decisions } (priorityPolicy settings) (hlinked.readBack ρ)
    hsole.readBack hpreferred.readBack (Db.mem_readBack.mpr ⟨stored, hmem, rfl⟩) hlisting hkey
  have hresult : result.selected = stored.rounded ρ :=
    Option.some.inj (hselected.symm.trans hread)
  obtain ⟨value, hout, hsource, hclose, hcurrency⟩ :=
    ObservationView.buildObservationOut_of_select calendar hselect (Db.closes_readBack hcloses)
  refine ⟨value, hout, ?_, ?_, ?_⟩
  · rw [hsource, hresult]
    exact congrArg NaturalKey.source hkey
  · rw [hclose, hresult]
    rfl
  · rw [hcurrency, hresult]
    rfl

/-- **What was ingested last is what is published.** After a call that returned, for each valid row
of the response that no later valid row of it replaces: once the source is the preferred one, a
consumer who asks for the date of the row is answered with its close and its currency, as the
columns hold them. -/
theorem ingested_value_published (ρ : Rounding numericScale) (listing : Listing)
    (decisions : DecisionTable) (settings : Settings) (calendar : Calendar)
    (h : l.InStep db j) (hready : Ready j workerId)
    (happroved : PolicyGate.IngestionApproved db.decisions j.source)
    (hcursor : FetchCursor.parse j.cursor = .ok cursor)
    (hx : (process j.id workerId now).Traces semantics db l events (.ok outcome) db' l')
    (hserved : Served raws events) (hlinked : Linked db.observations)
    (hcloses : ∀ o ∈ db.observations.rows, o.value.close.isFinite = true)
    (hfeeds : Feeds j cursor db listing.id credentialScope externalId)
    (hraws : raws = before ++ raw :: after) (hvalid : Accepted cursor raw)
    (hlast : ∀ r ∈ after, Accepted cursor r → r.sessionDate = raw.sessionDate →
      r.observationType ≠ raw.observationType)
    (hpreferred : Preferred { db with decisions := decisions } settings.enabledSources listing.id
      raw.sessionDate raw.observationType j.source) :
    ∃ value, ObservationView.buildObservationOut { db'.readBack ρ with decisions := decisions }
        listing raw.sessionDate raw.observationType settings calendar =
          .ok ⟨listing.id, raw.sessionDate, .ok, some value⟩ ∧
      value.source = j.source ∧ value.close = raw.close.rounded ρ ∧
      value.currency = upper raw.currency := by
  obtain ⟨_, -, hprocessed⟩ := process_processed h hready happroved hcursor hx hserved
  obtain ⟨stored, hmem, hcurrent, hlisting, hkey, hvalue⟩ :=
    hprocessed.current hfeeds hraws hvalid hlast
  obtain ⟨value, hout, hsource, hclose, hcurrency⟩ := published_of_current ρ listing decisions
    settings calendar hmem hcurrent hlisting hkey (hprocessed.linked hfeeds hlinked)
    (hprocessed.soleIdentity hfeeds) (hprocessed.closes hfeeds hcloses)
    (hprocessed.preferred hfeeds hpreferred)
  rw [hvalue] at hclose hcurrency
  exact ⟨value, hout, hsource, hclose, hcurrency⟩

/-- A response that corrects its own row, into an empty store: the correction is published. -/
theorem ingested_value_published_corrected :
    ∃ events outcome db' l' value,
      (process 1 "worker" 0).Traces semantics (claimedOver .empty) Session.new events (.ok outcome)
        db' l' ∧
      ObservationView.buildObservationOut
          { db'.readBack (.halfAway numericScale) with decisions := publishedRegister }
          ⟨1, .crypto, "BTC", none⟩ today .eodClose ⟨["fake"], 300, 3600⟩
          (fun _ _ _ _ _ => .ok []) =
        .ok ⟨1, today, .ok, some value⟩ ∧
      value.source = "fake" ∧ value.close = Decimal.rounded (.halfAway numericScale) (.finite 2) ∧
      value.currency = upper "EUR" := by
  obtain ⟨events, r, db', l', _, hx, hserved, -, hprocessed⟩ :=
    exists_processed .empty [dayRow "EUR" (.finite 1), dayRow "EUR" (.finite 2)]
  obtain ⟨outcome, rfl⟩ := hprocessed.returned (by decide +kernel)
  have hfeeds : Feeds claimedJob claimedCursor (claimedOver .empty) 1 "default" "BTC" :=
    ⟨rfl, rfl, rfl, fun o ho => absurd ho List.not_mem_nil⟩
  have hraws : [dayRow "EUR" (.finite 1), dayRow "EUR" (.finite 2)] =
      [dayRow "EUR" (.finite 1)] ++ dayRow "EUR" (.finite 2) :: [] := rfl
  obtain ⟨value, hpublished⟩ := ingested_value_published (.halfAway numericScale)
    ⟨1, .crypto, "BTC", none⟩ publishedRegister ⟨["fake"], 300, 3600⟩ (fun _ _ _ _ _ => .ok [])
    (claimedOver_inStep _) claimedJob_ready (claimedOver_approved _) claimedJob_cursor hx hserved
    (fun _ ha => absurd ha List.not_mem_nil) (fun _ ho => absurd ho List.not_mem_nil) hfeeds hraws
    (by decide +kernel) (fun _ hr => absurd hr List.not_mem_nil)
    ⟨by decide, [], [], rfl, List.not_mem_nil, fun _ hs => absurd hs List.not_mem_nil⟩
  exact ⟨events, outcome, db', l', value, hx, hpublished⟩

end Path

end MarketRelay
