import MarketRelay.RowOrder

/-!
# Superseded Values

The store corrects a value by a new revision of its natural key, which names a listing by the
provider's external identifier. The selector looks at the rows of one listing and keeps the highest
revision of each account. When an identifier is linked to another listing, the correction of an old
row is stored under the new listing: it does not match, and the old row is selected although it has
been superseded.

## Main results

* `selected_is_current`: in a linked store, what is selected is the current revision of its key.
* `published_is_current`: every run of calls that keep the listing of a key leads to such a store.
* `published_superseded`: a superseded row that is selected, after two calls of `record`.
-/

open Relational Interaction Gregorian

namespace MarketRelay

/-- The rows of a natural key are of one listing. -/
def Linked (t : ObservationTable) : Prop :=
  ∀ a ∈ t.rows, ∀ b ∈ t.rows, a.key = b.key → a.listingId = b.listingId

/-- The call names the listing under which its natural key is stored, or adds nothing: the current
revision already carries its value. -/
def KeepsListing (data : ObservationInput) (db : Db) : Prop :=
  (∀ o ∈ db.observations.rows, o.key = data.key → o.listingId = data.listingId) ∨
    ∃ existing, ObservationStore.Recorded data db existing

/-! ### Stores in which identifiers are linked once -/

namespace Linked

theorem empty : Linked Table.empty := fun _ ha => absurd ha List.not_mem_nil

/-- A call keeps the store linked. -/
theorem record {db db' : Db} {data : ObservationInput} {l l' : Session}
    {r : Except PyError RecordOutcome} (h : Linked db.observations) (hdata : KeepsListing data db)
    (hrecord : (ObservationStore.record data).Executes semantics db l r db' l') :
    Linked db'.observations := by
  rcases ObservationStore.record_executes hrecord with
    ⟨existing, -, -, rfl⟩ | ⟨hnot, ⟨id, hins, -⟩ | ⟨-, rfl⟩⟩
  · exact h
  · rcases hdata with hlisting | ⟨existing, hrecorded⟩
    · obtain ⟨-, hrows⟩ := Table.insert?_eq_some_iff.mp hins
      intro a ha b hb hkey
      rw [hrows, List.mem_append, List.mem_singleton] at ha hb
      rcases ha with ha | rfl
      · rcases hb with hb | rfl
        · exact h a ha b hb hkey
        · exact hlisting a ha hkey
      · rcases hb with hb | rfl
        · exact (hlisting b hb hkey.symm).symm
        · rfl
    · exact absurd hrecorded (hnot existing)
  · exact h

/-- So does a commit. -/
theorem readBack {db : Db} (h : Linked db.observations) (ρ : Rounding numericScale) :
    Linked (db.readBack ρ).observations := by
  intro a ha b hb hkey
  rw [Db.rows_readBack] at ha hb
  obtain ⟨a', ha', rfl⟩ := List.mem_map.mp ha
  obtain ⟨b', hb', rfl⟩ := List.mem_map.mp hb
  exact h a' ha' b' hb' hkey

/-- **And so does every run** whose calls keep the listing of their key. -/
theorem run {db db' : Db} {calls : List ObservationInput}
    (hrun : RecordingsUnder KeepsListing db calls db') (h : Linked db.observations) :
    Linked db'.observations := by
  induction hrun with
  | nil db => exact h
  | cons hdata hrecord _ ih => exact ih (h.record hdata hrecord)
  | readBack ρ _ ih => exact ih (h.readBack ρ)

end Linked

/-! ### What is selected in such a store -/

section Select

open ObservationSelector

variable {db : Db} {listingId : ℕ} {sessionDate : Date} {observationType : ObservationType}
  {policy : SourcePriorityPolicy}

/-- The latest row of an account is the current revision of its key. -/
theorem currentRevision_of_isLatest (h : Linked db.observations) {o : Observation}
    (ho : IsLatest (matchingRows db listingId sessionDate observationType) o) :
    currentRevision o.key db.observations = some o := by
  obtain ⟨hrow, hauth, hlisting, hdate, htype⟩ := mem_matchingRows.mp ho.1
  have hmem : o ∈ revisionsOf o.key db.observations :=
    List.mem_filter.mpr ⟨hrow, decide_eq_true rfl⟩
  cases hcurrent : currentRevision o.key db.observations with
  | none =>
      have hnil : revisionsOf o.key db.observations = [] := latestBy_eq_none_iff.mp hcurrent
      exact absurd (hnil ▸ hmem) List.not_mem_nil
  | some current =>
      obtain ⟨hcurrent, hmax⟩ := latestBy_eq_some hcurrent
      obtain ⟨hrow', hkey⟩ := List.mem_filter.mp hcurrent
      replace hkey : current.key = o.key := of_decide_eq_true hkey
      -- The current revision is a row of the same listing, so it matches.
      have hmatch : current ∈ matchingRows db listingId sessionDate observationType := by
        rw [mem_matchingRows, hkey, h current hrow' o hrow hkey]
        exact ⟨hrow', hauth, hlisting, hdate, htype⟩
      have haccount : account current = account o := by rw [account, account, hkey]
      have hrevision := le_antisymm (ho.2 current hmatch haccount) (hmax o hmem)
      exact congrArg some (Table.eq_of_clash hrow' hrow (Or.inr ⟨hkey, hrevision⟩))

/-- **What is selected is current**, and so is every alternative. -/
theorem selected_is_current (h : Linked db.observations) {result : SelectionResult}
    (hselect : select db listingId sessionDate observationType policy = .ok result)
    {o : Observation} (ho : o = result.selected ∨ o ∈ result.alternatives) :
    currentRevision o.key db.observations = some o := by
  obtain ⟨source, hcandidate⟩ := (mem_of_candidate hselect).mpr ho
  exact currentRevision_of_isLatest h (isLatest_of_candidate hcandidate).1

end Select

/-! ### Runs -/

/-- **A superseded value is never published** in a run whose calls keep the listing of their key:
in the state that it leads to, whatever the policy decisions, the selected row and each alternative
are the current revisions of their keys. -/
theorem published_is_current {db₀ db : Db} {calls : List ObservationInput}
    (hempty : db₀.observations = Table.empty)
    (hrun : RecordingsUnder KeepsListing db₀ calls db) (decisions : DecisionTable)
    (listingId : ℕ) (sessionDate : Date) (observationType : ObservationType)
    (policy : SourcePriorityPolicy) {result : SelectionResult}
    (hselect : ObservationSelector.select { db with decisions := decisions } listingId sessionDate
      observationType policy = .ok result) :
    ∀ o, o = result.selected ∨ o ∈ result.alternatives →
      currentRevision o.key db.observations = some o := by
  intro o ho
  have hlinked : Linked db.observations := Linked.run hrun (hempty ▸ Linked.empty)
  have hlinked' : Linked ({ db with decisions := decisions } : Db).observations := hlinked
  exact selected_is_current hlinked' hselect ho

/-- A close that has been corrected: the correction is selected. -/
theorem published_is_current_corrected :
    ∃ (db : Db) (result : SelectionResult),
      RecordingsUnder KeepsListing ⟨Table.empty, Table.empty, Table.empty⟩
        [closeUnder "A" 1, closeUnder "A" 2] db ∧
      ObservationSelector.select { db with decisions := publishedRegister } 1
        ⟨739618, by decide, by decide⟩ .eodClose ⟨"configured-sources", ["fake"]⟩ = .ok result ∧
      currentRevision result.selected.key db.observations = some result.selected := by
  let db₀ : Db := ⟨Table.empty, Table.empty, Table.empty⟩
  have hrun : ((ObservationStore.record (closeUnder "A" 1)).run.execute semantics
      [default, default] db₀ Session.new).any (fun first =>
        decide (∀ o ∈ first.2.1.observations.rows, o.key = (closeUnder "A" 2).key →
          o.listingId = (closeUnder "A" 2).listingId) &&
        ((ObservationStore.record (closeUnder "A" 2)).run.execute semantics
          [default, default] first.2.1 Session.new).any fun second =>
            (ObservationSelector.select { second.2.1 with decisions := publishedRegister } 1
              ⟨739618, by decide, by decide⟩ .eodClose
              ⟨"configured-sources", ["fake"]⟩).toOption.isSome) = true := by
    decide +kernel
  obtain ⟨⟨r, db₁, l₁⟩, hfirst, hrun⟩ := (Option.any_eq_true _ _).mp hrun
  obtain ⟨hlisting, hrun⟩ := Bool.and_eq_true_iff.mp hrun
  obtain ⟨⟨r', db₂, l₂⟩, hsecond, hsome⟩ := (Option.any_eq_true _ _).mp hrun
  have hrecordings : RecordingsUnder KeepsListing db₀ [closeUnder "A" 1, closeUnder "A" 2] db₂ :=
    .cons (Or.inl fun o ho => absurd ho List.not_mem_nil) ⟨_, hfirst⟩
      (.cons (Or.inl (of_decide_eq_true hlisting)) ⟨_, hsecond⟩ (.nil db₂))
  cases hselect : ObservationSelector.select { db₂ with decisions := publishedRegister } 1
      ⟨739618, by decide, by decide⟩ .eodClose ⟨"configured-sources", ["fake"]⟩ with
  | error e =>
      rw [hselect] at hsome
      exact absurd hsome (by simp [Except.toOption])
  | ok result =>
      exact ⟨db₂, result, hrecordings, hselect, published_is_current rfl hrecordings
        publishedRegister 1 ⟨739618, by decide, by decide⟩ .eodClose
        ⟨"configured-sources", ["fake"]⟩ hselect _ (Or.inl rfl)⟩

/-- **A superseded value can be published**: the identifier of the close is linked to another
listing, and then the close is corrected. -/
theorem published_superseded :
    ¬ ∀ (calls : List ObservationInput) (db₀ db : Db), db₀.observations = Table.empty →
      Recordings db₀ calls db →
      ∀ (listingId : ℕ) (sessionDate : Date) (observationType : ObservationType)
        (policy : SourcePriorityPolicy) (result : SelectionResult),
        ObservationSelector.select db listingId sessionDate observationType policy = .ok result →
        ∀ o, o = result.selected ∨ o ∈ result.alternatives →
          currentRevision o.key db.observations = some o := by
  intro hall
  let db₀ : Db := ⟨Table.empty, Table.empty, publishedRegister⟩
  let relinked : ObservationInput := { closeUnder "A" 2 with listingId := 2 }
  have hrun : ((ObservationStore.record (closeUnder "A" 1)).run.execute semantics
      [default, default] db₀ Session.new).any (fun first =>
        ((ObservationStore.record relinked).run.execute semantics
          [default, default] first.2.1 Session.new).any fun second =>
            (selectedOf second.2.1).any fun o =>
              decide (currentRevision o.key second.2.1.observations ≠ some o)) = true := by
    decide +kernel
  obtain ⟨⟨r, db₁, l₁⟩, hfirst, hrun⟩ := (Option.any_eq_true _ _).mp hrun
  obtain ⟨⟨r', db₂, l₂⟩, hsecond, hrun⟩ := (Option.any_eq_true _ _).mp hrun
  obtain ⟨o, hselected, hdiffer⟩ := (Option.any_eq_true _ _).mp hrun
  have hrecordings : Recordings db₀ [closeUnder "A" 1, relinked] db₂ :=
    .cons trivial ⟨_, hfirst⟩ (.cons trivial ⟨_, hsecond⟩ (.nil db₂))
  cases hselect : ObservationSelector.select db₂ 1 today .eodClose
      ⟨"configured-sources", ["fake"]⟩ with
  | error e => simp [selectedOf, hselect, Except.toOption] at hselected
  | ok result =>
      have hcurrent := hall _ db₀ db₂ rfl hrecordings 1 today .eodClose
        ⟨"configured-sources", ["fake"]⟩ result hselect o
        (Or.inl (by simpa [selectedOf, hselect, Except.toOption, eq_comm] using hselected))
      exact of_decide_eq_true hdiffer hcurrent

end MarketRelay
