import MarketRelay.Refresh

/-!
# The Bound of a Refresh

A refresh considers a bounded number of the identities of a source, so that its cost is
bounded even for a large catalog. The identities are the first ones in the order of the query,
and nothing is kept from one run to the next that would move that order on. So over an
unchanged catalog every run considers the same identities.

## Main results

* `refresh_considers_first`: the identities that any number of runs consider are the first ones,
  and all of them are considered exactly when the bound allows it.
* `refresh_starves`: two identities and a bound of one, where the second is never considered.
-/

open Relational Interaction Gregorian

namespace MarketRelay

/-- Consecutive runs of the phase with the bound `m`, over an unchanged catalog: in each of them
`current` are the identities of the source that have not expired, and its adapters are there.
Jobs may be processed between the runs. The iterations of each run are listed. -/
inductive RefreshRounds (source : String) (m : ℕ) (current : List ExternalIdentity) :
    List (List Refresh.Iteration) → Db → Prop
  | start (db : Db) : RefreshRounds source m current [] db
  | refresh {rounds : List (List Refresh.Iteration)} {db db' : Db} {l l' : Session} (x : Refresh)
      {events : List RefreshEvent} {its : List Refresh.Iteration}
      (h : RefreshRounds source m current rounds db)
      (henabled : source ∈ x.settings.enabledSources) (hbound : x.maxListingsPerSource = m)
      (hcatalog : x.catalog.currentIdentities source x.today = current)
      (hexec : x.events.Executes semantics db l (.ok events) db' l')
      (hits : x.Iterates db its db') (hvisits : x.Visits events its)
      (hports : ∀ e, .source source e ∉ events) :
      RefreshRounds source m current (rounds ++ [its]) db'
  | processing {rounds : List (List Refresh.Iteration)} {db : Db}
      (h : RefreshRounds source m current rounds db) (c : Cmd) (e : Answers) (l : Session) :
      RefreshRounds source m current rounds (exec c e db l).2.1

/-- The first identities in the order of the query. -/
def firstIdentities (m : ℕ) (current : List ExternalIdentity) : List ExternalIdentity :=
  (current.insertionSort ExternalIdentity.RefreshLe).take m

/-- The iterations of a run over the identities of a source. -/
theorem Refresh.Visits.mem_iff {x : Refresh} {events : List RefreshEvent}
    {its : List Refresh.Iteration} (h : x.Visits events its) {source : String}
    (henabled : source ∈ x.settings.enabledSources) (hports : ∀ e, .source source e ∉ events)
    {identity : ExternalIdentity} (hsource : identity.source = source) :
    identity ∈ its.map Refresh.Iteration.identity ↔ identity ∈ x.considered source := by
  obtain ⟨sources, -, hmap, hall⟩ := h
  rw [hmap, List.mem_flatMap]
  constructor
  · rintro ⟨source', -, hmem⟩
    obtain rfl : source' = source := (Catalog.mem_selectIdentities hmem).2.1.symm.trans hsource
    exact hmem
  · intro hmem
    rcases hall source henabled with hvisited | ⟨e, hevent⟩
    · exact ⟨source, hvisited, hmem⟩
    · exact absurd hevent (hports e)

/-- Each run considers the first identities of the source. -/
theorem RefreshRounds.mem_iff {source : String} {m : ℕ} {current : List ExternalIdentity}
    {rounds : List (List Refresh.Iteration)} {db : Db}
    (h : RefreshRounds source m current rounds db) {its : List Refresh.Iteration}
    (hits : its ∈ rounds) {identity : ExternalIdentity} (hsource : identity.source = source) :
    identity ∈ its.map Refresh.Iteration.identity ↔ identity ∈ firstIdentities m current := by
  induction h with
  | start => exact absurd hits List.not_mem_nil
  | refresh x _ henabled hbound hcatalog _ _ hvisits hports ih =>
      rcases List.mem_append.mp hits with hits | hits
      · exact ih hits
      · obtain rfl := List.mem_singleton.mp hits
        rw [hvisits.mem_iff henabled hports hsource, Refresh.considered, Catalog.selectIdentities,
          hbound, hcatalog, firstIdentities]
  | processing _ _ _ _ ih => exact ih hits

/-- The identities are of the source. -/
theorem RefreshRounds.source_eq {source : String} {m : ℕ} {current : List ExternalIdentity}
    {rounds : List (List Refresh.Iteration)} {db : Db}
    (h : RefreshRounds source m current rounds db) (hne : rounds ≠ [])
    {identity : ExternalIdentity} (hmem : identity ∈ current) : identity.source = source := by
  induction h with
  | start => exact absurd rfl hne
  | refresh x _ _ _ hcatalog _ _ _ _ _ =>
      rw [← hcatalog, Catalog.currentIdentities, List.mem_filter] at hmem
      simp only [Bool.and_eq_true, decide_eq_true_eq] at hmem
      exact hmem.2.1
  | processing _ _ _ _ ih => exact ih hne

/-- All identities are among the first ones exactly when the bound allows it. -/
theorem subset_firstIdentities_iff {m : ℕ} {current : List ExternalIdentity}
    (hnodup : current.Nodup) : current ⊆ firstIdentities m current ↔ current.length ≤ m := by
  constructor
  · intro hsub
    calc current.length ≤ (firstIdentities m current).length :=
          (List.subperm_of_subset hnodup hsub).length_le
      _ ≤ m := List.length_take_le _ _
  · intro hle identity hmem
    rw [firstIdentities, List.take_of_length_le (by rwa [List.length_insertionSort])]
    exact (List.mem_insertionSort _).mpr hmem

/-- **Every run considers the first identities of the source**, the same ones each time. So
after any number of runs all of them have been considered exactly when there are not more than
the bound. -/
theorem refresh_considers_first {source : String} {m : ℕ} {current : List ExternalIdentity}
    {rounds : List (List Refresh.Iteration)} {db : Db}
    (h : RefreshRounds source m current rounds db) (hnodup : current.Nodup)
    (hne : rounds ≠ []) :
    (∀ its ∈ rounds, ∀ identity, identity.source = source →
      (identity ∈ its.map Refresh.Iteration.identity ↔ identity ∈ firstIdentities m current)) ∧
    ((∀ identity ∈ current, ∃ its ∈ rounds, identity ∈ its.map Refresh.Iteration.identity) ↔
      current.length ≤ m) := by
  refine ⟨fun its hits identity hidentity => h.mem_iff hits hidentity, ?_⟩
  rw [← subset_firstIdentities_iff hnodup]
  refine forall₂_congr fun identity hmem => ?_
  constructor
  · rintro ⟨its, hits, hvisited⟩
    exact (h.mem_iff hits (h.source_eq hne hmem)).mp hvisited
  · intro hfirst
    obtain ⟨its, hits⟩ := List.exists_mem_of_ne_nil rounds hne
    exact ⟨its, hits, (h.mem_iff hits (h.source_eq hne hmem)).mpr hfirst⟩

/-! ### Runs on concrete tables -/

/-- A refresh that may consider one of two listings. -/
def oneOfTwoRefresh : Refresh :=
  { dailyRefresh 0 with
    catalog := ⟨[⟨1, "fake", "BTC", today, none⟩, ⟨2, "fake", "ETH", today, none⟩],
      [⟨1, .crypto, "X", none⟩, ⟨2, .crypto, "X", none⟩]⟩ }

/-- A run of the refresh that reports no source is another round. -/
theorem oneOfTwoRefresh_round {rounds : List (List Refresh.Iteration)} {db db' : Db} {l' : Session}
    {es : List Answers} {r : Except PyError (List RefreshEvent)}
    (h : RefreshRounds "fake" 1 oneOfTwoRefresh.catalog.identities rounds db)
    (hexec : oneOfTwoRefresh.events.run.execute semantics es db Session.new = some (r, db', l'))
    (hclean : (r.toOption.any fun events => events.all fun event => match event with
      | .source .. => false
      | _ => true) = true) :
    ∃ its, RefreshRounds "fake" 1 oneOfTwoRefresh.catalog.identities (rounds ++ [its]) db' := by
  obtain ⟨events, rfl, its, hits, hvisits⟩ := Refresh.events_iterates ⟨es, hexec⟩
  refine ⟨its, .refresh oneOfTwoRefresh h (List.mem_singleton_self _) rfl (by decide +kernel)
    ⟨es, hexec⟩ hits hvisits fun e hevent => ?_⟩
  exact absurd (List.all_eq_true.mp hclean _ hevent) (by simp)

/-- Two runs of the refresh. -/
theorem oneOfTwoRefresh_rounds :
    ∃ its its' db, RefreshRounds "fake" 1 oneOfTwoRefresh.catalog.identities [its, its'] db := by
  have hrun : ((oneOfTwoRefresh.events.run.execute semantics (List.replicate 4 default)
      ⟨Table.empty, Table.empty, Table.empty⟩ Session.new).any fun first =>
        (oneOfTwoRefresh.events.run.execute semantics (List.replicate 5 default) first.2.1
          Session.new).any fun second => [first.1, second.1].all fun r =>
            r.toOption.any fun events => events.all fun event => match event with
              | .source .. => false
              | _ => true) = true := by decide +kernel
  obtain ⟨⟨r, db, l⟩, hfirst, hrun⟩ := (Option.any_eq_true _ _).mp hrun
  obtain ⟨⟨r', db', l'⟩, hsecond, hclean⟩ := (Option.any_eq_true _ _).mp hrun
  obtain ⟨its, hround⟩ := oneOfTwoRefresh_round (.start _) hfirst
    (List.all_eq_true.mp hclean r List.mem_cons_self)
  obtain ⟨its', hround'⟩ := oneOfTwoRefresh_round hround hsecond
    (List.all_eq_true.mp hclean r' (List.mem_cons_of_mem _ List.mem_cons_self))
  exact ⟨its, its', db', hround'⟩

/-- In two runs one of the listings is considered, and the other one is not. -/
theorem refresh_considers_first_of_two :
    ∃ its its' db, RefreshRounds "fake" 1 oneOfTwoRefresh.catalog.identities [its, its'] db ∧
      ⟨1, "fake", "BTC", today, none⟩ ∈ its'.map Refresh.Iteration.identity := by
  obtain ⟨its, its', db, h⟩ := oneOfTwoRefresh_rounds
  refine ⟨its, its', db, h, ?_⟩
  refine ((refresh_considers_first h (by decide) (by simp)).1 its' (by simp) _ rfl).mpr ?_
  decide +kernel

/-- **An identity can be starved**: with two identities and a bound of one, the second is not
considered in two runs. -/
theorem refresh_starves :
    ¬ ∀ (source : String) (m : ℕ) (current : List ExternalIdentity)
      (rounds : List (List Refresh.Iteration)) (db : Db),
      RefreshRounds source m current rounds db → 1 ≤ m → current.Nodup →
      rounds.length = (current.length + m - 1) / m →
      ∀ identity ∈ current, ∃ its ∈ rounds, identity ∈ its.map Refresh.Iteration.identity := by
  intro hall
  obtain ⟨its, its', db, h⟩ := oneOfTwoRefresh_rounds
  let second : ExternalIdentity := ⟨2, "fake", "ETH", today, none⟩
  obtain ⟨its₀, hits, hvisited⟩ := hall "fake" 1 _ _ db h le_rfl (by decide) (by simp [oneOfTwoRefresh]) second
    (by decide)
  have hfirst := (h.mem_iff hits rfl).mp hvisited
  exact absurd hfirst (by decide +kernel)

end MarketRelay
