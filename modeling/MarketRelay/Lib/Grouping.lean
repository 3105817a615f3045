import Mathlib.Data.List.Pairwise
import Mathlib.Order.Lattice

/-!
# The Best Row of Each Group

Rows are read one after another into a dictionary that keeps one row for each key: the first
one, until a better one comes. The dictionary is a list of its entries in the order of their
first insertion, as an insertion-ordered dictionary is read.

## Main results

* `mem_groupBest`: an entry is a row under its own key.
* `exists_groupBest_iff`: every key of a row has an entry.
* `groupBest_filter`: choosing keys before or after grouping is the same.
* `groupBest_map`: only what is compared matters to the grouping.
* `groupBest_unique`: a key has one entry.
* `le_of_mem_groupBest`: an entry is the greatest of its group, when better means greater.
* `groupBest_cons`: among equals the first one is kept.
-/

namespace Relational

variable {α κ : Type} [DecidableEq κ] (key : α → κ) (better : α → α → Bool)

/-- Read one row into the dictionary. -/
def insertBest : List (κ × α) → α → List (κ × α)
  | [], r => [(key r, r)]
  | (k, b) :: rest, r =>
    if k = key r then (k, if better r b then r else b) :: rest
    else (k, b) :: insertBest rest r

/-- The dictionary of all rows. -/
def groupBest (rows : List α) : List (κ × α) := rows.foldl (insertBest key better) []

/-- `dictionary.get(k)` -/
def lookup? (k : κ) (entries : List (κ × α)) : Option α :=
  (entries.find? fun entry => decide (entry.1 = k)).map Prod.snd

variable {key better}

theorem mem_insertBest {entries : List (κ × α)} {r : α} {entry : κ × α}
    (h : entry ∈ insertBest key better entries r) : entry ∈ entries ∨ entry = (key r, r) := by
  induction entries with
  | nil => exact Or.inr (List.mem_singleton.mp h)
  | cons head rest ih =>
      obtain ⟨k, b⟩ := head
      rw [insertBest] at h
      split at h
      · rename_i hk
        rcases List.mem_cons.mp h with rfl | h
        · cases better r b
          · exact Or.inl List.mem_cons_self
          · exact Or.inr (by simp [hk])
        · exact Or.inl (List.mem_cons_of_mem _ h)
      · rcases List.mem_cons.mp h with rfl | h
        · exact Or.inl List.mem_cons_self
        · exact (ih h).imp_left (List.mem_cons_of_mem _)

/-- The keys after one more row. -/
theorem exists_insertBest_iff {entries : List (κ × α)} {r : α} {k : κ} :
    (∃ b, (k, b) ∈ insertBest key better entries r) ↔ (∃ b, (k, b) ∈ entries) ∨ k = key r := by
  induction entries with
  | nil => simp [insertBest]
  | cons head rest ih =>
      obtain ⟨k', b'⟩ := head
      rw [insertBest]
      split
      · rename_i hk
        simp only [List.mem_cons, Prod.mk.injEq, exists_or]
        constructor
        · rintro (⟨b, rfl, -⟩ | h)
          · exact Or.inr hk
          · exact Or.inl (Or.inr h)
        · rintro ((⟨b, rfl, -⟩ | h) | rfl)
          · exact Or.inl ⟨_, rfl, rfl⟩
          · exact Or.inr h
          · exact Or.inl ⟨_, hk.symm, rfl⟩
      · simp only [List.mem_cons, Prod.mk.injEq, exists_or, ih, or_assoc]

private theorem foldl_insertBest {rows : List α} {entries : List (κ × α)} {entry : κ × α}
    (h : entry ∈ rows.foldl (insertBest key better) entries) :
    entry ∈ entries ∨ entry.2 ∈ rows ∧ entry.1 = key entry.2 := by
  induction rows generalizing entries with
  | nil => exact Or.inl h
  | cons r rest ih =>
      rcases ih h with h | ⟨hmem, hkey⟩
      · rcases mem_insertBest h with h | rfl
        · exact Or.inl h
        · exact Or.inr ⟨List.mem_cons_self, rfl⟩
      · exact Or.inr ⟨List.mem_cons_of_mem _ hmem, hkey⟩

/-- **An entry is a row under its own key.** -/
theorem mem_groupBest {rows : List α} {entry : κ × α} (h : entry ∈ groupBest key better rows) :
    entry.2 ∈ rows ∧ entry.1 = key entry.2 :=
  (foldl_insertBest h).resolve_left List.not_mem_nil

private theorem exists_foldl_iff {rows : List α} {entries : List (κ × α)} {k : κ} :
    (∃ b, (k, b) ∈ rows.foldl (insertBest key better) entries) ↔
      (∃ b, (k, b) ∈ entries) ∨ ∃ r ∈ rows, key r = k := by
  induction rows generalizing entries with
  | nil => simp
  | cons r rest ih =>
      rw [List.foldl_cons, ih, exists_insertBest_iff, or_assoc]
      simp only [List.mem_cons, exists_eq_or_imp, eq_comm (a := k)]

variable (key better) in
/-- **Every key of a row has an entry.** -/
theorem exists_groupBest_iff {rows : List α} {k : κ} :
    (∃ b, (k, b) ∈ groupBest key better rows) ↔ ∃ r ∈ rows, key r = k := by
  rw [groupBest, exists_foldl_iff]
  simp

theorem insertBest_filter (p : κ → Bool) (entries : List (κ × α)) (r : α) :
    (insertBest key better entries r).filter (fun entry => p entry.1) =
      if p (key r) then insertBest key better (entries.filter fun entry => p entry.1) r
      else entries.filter fun entry => p entry.1 := by
  induction entries with
  | nil => cases h : p (key r) <;> simp [insertBest, h]
  | cons head rest ih =>
      obtain ⟨k, b⟩ := head
      rw [insertBest]
      by_cases hk : k = key r
      · subst hk
        cases h : p (key r) <;> simp [insertBest, h]
      · rw [if_neg hk]
        cases h : p k <;> cases hr : p (key r) <;> simp [insertBest, h, hr, hk, ih]

variable (key better) in
/-- **Choosing keys before or after grouping is the same.** -/
theorem groupBest_filter (p : κ → Bool) (rows : List α) :
    (groupBest key better rows).filter (fun entry => p entry.1) =
      groupBest key better (rows.filter fun r => p (key r)) := by
  have hfold : ∀ entries : List (κ × α),
      (rows.foldl (insertBest key better) entries).filter (fun entry => p entry.1) =
        (rows.filter fun r => p (key r)).foldl (insertBest key better)
          (entries.filter fun entry => p entry.1) := by
    induction rows with
    | nil => exact fun entries => rfl
    | cons r rest ih =>
        intro entries
        rw [List.foldl_cons, ih, insertBest_filter]
        cases h : p (key r) <;> simp [h]
  exact hfold []

variable (key better) in
/-- **Grouping depends on what is compared**: the images of the rows group as the rows do. -/
theorem groupBest_map {β : Type} (f : β → α) (rows : List β) :
    (groupBest (fun r => key (f r)) (fun r b => better (f r) (f b)) rows).map
        (fun entry => (entry.1, f entry.2)) =
      groupBest key better (rows.map f) := by
  have hinsert : ∀ (entries : List (κ × β)) (r : β),
      (insertBest (fun r => key (f r)) (fun r b => better (f r) (f b)) entries r).map
          (fun entry => (entry.1, f entry.2)) =
        insertBest key better (entries.map fun entry => (entry.1, f entry.2)) (f r) := by
    intro entries r
    induction entries with
    | nil => rfl
    | cons head rest ih =>
        obtain ⟨k, b⟩ := head
        simp only [insertBest, List.map_cons]
        split
        · rw [List.map_cons, apply_ite f]
        · rw [List.map_cons, ih]
  have hfold : ∀ entries : List (κ × β),
      (rows.foldl (insertBest (fun r => key (f r)) fun r b => better (f r) (f b)) entries).map
          (fun entry => (entry.1, f entry.2)) =
        (rows.map f).foldl (insertBest key better) (entries.map fun entry => (entry.1, f entry.2)) := by
    induction rows with
    | nil => exact fun entries => rfl
    | cons r rest ih =>
        intro entries
        rw [List.foldl_cons, ih, hinsert, List.map_cons, List.foldl_cons]
  exact hfold []

theorem lookup?_eq_none_iff {k : κ} {entries : List (κ × α)} :
    lookup? k entries = none ↔ ∀ b, (k, b) ∉ entries := by
  simp only [lookup?, Option.map_eq_none_iff, List.find?_eq_none, decide_eq_true_eq, Prod.forall]
  exact ⟨fun h b hb => h k b hb rfl, fun h k' b hb hk => h b (hk ▸ hb)⟩

theorem mem_of_lookup? {k : κ} {entries : List (κ × α)} {b : α}
    (h : lookup? k entries = some b) : (k, b) ∈ entries := by
  obtain ⟨entry, hentry, rfl⟩ := Option.map_eq_some_iff.mp h
  have hk : entry.1 = k := by simpa using List.find?_some hentry
  exact hk ▸ List.mem_of_find?_eq_some hentry

/-! ### One entry for each key -/

theorem insertBest_keys {entries : List (κ × α)} (h : entries.Pairwise fun a b => a.1 ≠ b.1)
    (r : α) : (insertBest key better entries r).Pairwise fun a b => a.1 ≠ b.1 := by
  induction entries with
  | nil => exact List.pairwise_singleton _ _
  | cons head rest ih =>
      obtain ⟨k, b⟩ := head
      obtain ⟨hhead, hrest⟩ := List.pairwise_cons.mp h
      rw [insertBest]
      split
      · exact List.pairwise_cons.mpr ⟨hhead, hrest⟩
      · rename_i hk
        refine List.pairwise_cons.mpr ⟨fun entry hentry => ?_, ih hrest⟩
        rcases mem_insertBest hentry with hentry | rfl
        · exact hhead entry hentry
        · exact hk

variable (key better) in
theorem groupBest_keys (rows : List α) :
    (groupBest key better rows).Pairwise fun a b => a.1 ≠ b.1 := by
  have hfold : ∀ entries : List (κ × α), (entries.Pairwise fun a b => a.1 ≠ b.1) →
      (rows.foldl (insertBest key better) entries).Pairwise fun a b => a.1 ≠ b.1 := by
    induction rows with
    | nil => exact fun entries h => h
    | cons r rest ih => exact fun entries h => ih _ (insertBest_keys h r)
  exact hfold [] List.Pairwise.nil

/-- **A key has one entry.** -/
theorem groupBest_unique {rows : List α} {k : κ} {b b' : α}
    (hb : (k, b) ∈ groupBest key better rows) (hb' : (k, b') ∈ groupBest key better rows) :
    b = b' := by
  by_contra hne
  have : Std.Symm fun a b : κ × α => a.1 ≠ b.1 := ⟨fun _ _ h => h.symm⟩
  exact (groupBest_keys key better rows).forall hb hb' (fun h => hne (congrArg Prod.snd h)) rfl

theorem lookup?_groupBest_iff {rows : List α} {k : κ} {b : α} :
    lookup? k (groupBest key better rows) = some b ↔ (k, b) ∈ groupBest key better rows := by
  refine ⟨mem_of_lookup?, fun hb => ?_⟩
  cases hlookup : lookup? k (groupBest key better rows) with
  | none => exact absurd hb (lookup?_eq_none_iff.mp hlookup b)
  | some b' => rw [groupBest_unique (mem_of_lookup? hlookup) hb]

/-! ### Greater is better -/

section Greatest

variable {β : Type} [LinearOrder β] {f : α → β}

theorem exists_insertBest_row (h : ∀ r b, better r b = true ↔ f b < f r)
    (entries : List (κ × α)) (r : α) :
    ∃ b, (key r, b) ∈ insertBest key better entries r ∧ f r ≤ f b := by
  induction entries with
  | nil => exact ⟨r, List.mem_singleton_self _, le_rfl⟩
  | cons head rest ih =>
      obtain ⟨k, b⟩ := head
      rw [insertBest]
      split
      · rename_i hk
        subst hk
        refine ⟨_, List.mem_cons_self, ?_⟩
        split
        · exact le_rfl
        · rename_i hbetter
          exact not_lt.mp fun hlt => hbetter ((h r b).mpr hlt)
      · obtain ⟨b', hb', hle⟩ := ih
        exact ⟨b', List.mem_cons_of_mem _ hb', hle⟩

theorem exists_insertBest_entry (h : ∀ r b, better r b = true ↔ f b < f r)
    {entries : List (κ × α)} {k : κ} {b : α} (hb : (k, b) ∈ entries) (r : α) :
    ∃ b', (k, b') ∈ insertBest key better entries r ∧ f b ≤ f b' := by
  induction entries with
  | nil => exact absurd hb List.not_mem_nil
  | cons head rest ih =>
      rw [insertBest]
      rcases List.mem_cons.mp hb with rfl | hb
      · split
        · refine ⟨_, List.mem_cons_self, ?_⟩
          split
          · rename_i hbetter
            exact ((h r b).mp hbetter).le
          · exact le_rfl
        · exact ⟨b, List.mem_cons_self, le_rfl⟩
      · split
        · exact ⟨b, List.mem_cons_of_mem _ hb, le_rfl⟩
        · obtain ⟨b', hb', hle⟩ := ih hb
          exact ⟨b', List.mem_cons_of_mem _ hb', hle⟩

/-- An entry is only replaced by greater ones. -/
private theorem exists_foldl_entry (h : ∀ r b, better r b = true ↔ f b < f r) (rows : List α)
    {entries : List (κ × α)} {k : κ} {b : α} (hb : (k, b) ∈ entries) :
    ∃ b', (k, b') ∈ rows.foldl (insertBest key better) entries ∧ f b ≤ f b' := by
  induction rows generalizing entries b with
  | nil => exact ⟨b, hb, le_rfl⟩
  | cons r rest ih =>
      obtain ⟨b₁, hb₁, hle⟩ := exists_insertBest_entry h hb r
      obtain ⟨b', hb', hle'⟩ := ih hb₁
      exact ⟨b', hb', hle.trans hle'⟩

private theorem exists_foldl_row (h : ∀ r b, better r b = true ↔ f b < f r) {rows : List α}
    (entries : List (κ × α)) {r : α} (hr : r ∈ rows) :
    ∃ b, (key r, b) ∈ rows.foldl (insertBest key better) entries ∧ f r ≤ f b := by
  induction rows generalizing entries with
  | nil => exact absurd hr List.not_mem_nil
  | cons r' rest ih =>
      rcases List.mem_cons.mp hr with rfl | hr
      · obtain ⟨b, hb, hle⟩ := exists_insertBest_row h entries r
        obtain ⟨b', hb', hle'⟩ := exists_foldl_entry h rest hb
        exact ⟨b', hb', hle.trans hle'⟩
      · exact ih _ hr

/-- **An entry is the greatest of its group.** -/
theorem le_of_mem_groupBest (h : ∀ r b, better r b = true ↔ f b < f r) {rows : List α} {k : κ}
    {b : α} (hb : (k, b) ∈ groupBest key better rows) {r : α} (hr : r ∈ rows)
    (hkey : key r = k) : f r ≤ f b := by
  obtain ⟨b', hb', hle⟩ : ∃ b', (key r, b') ∈ groupBest key better rows ∧ f r ≤ f b' :=
    exists_foldl_row h [] hr
  rw [hkey] at hb'
  exact groupBest_unique hb' hb ▸ hle

end Greatest

variable (key better) in
/-- **Among equals the first one is kept**: its entry stays the first of the dictionary. -/
theorem groupBest_cons {r : α} {rows : List α}
    (h : ∀ r' ∈ rows, key r' = key r → better r' r = false) :
    ∃ tail, groupBest key better (r :: rows) = (key r, r) :: tail := by
  have hfold : ∀ tail : List (κ × α), ∃ tail',
      rows.foldl (insertBest key better) ((key r, r) :: tail) = (key r, r) :: tail' := by
    induction rows with
    | nil => exact fun tail => ⟨tail, rfl⟩
    | cons r' rest ih =>
        intro tail
        obtain ⟨tail', htail⟩ : ∃ tail', insertBest key better ((key r, r) :: tail) r' =
            (key r, r) :: tail' := by
          rw [insertBest]
          split
          · rename_i hk
            rw [h r' List.mem_cons_self hk.symm]
            exact ⟨tail, rfl⟩
          · exact ⟨_, rfl⟩
        rw [List.foldl_cons, htail]
        exact ih (fun r'' hr'' => h r'' (List.mem_cons_of_mem _ hr'')) tail'
  exact hfold []

end Relational
