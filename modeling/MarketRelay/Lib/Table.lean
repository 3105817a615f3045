import Mathlib.Data.List.Pairwise
import Mathlib.Data.List.MinMax

/-!
# Tables with Unique Constraints

A relational table as the list of its rows, in the order in which the database returns
them, together with the proof that its unique constraints hold. The row type declares
its primary key and its constraints once (`Schema`); every statement of this module then
keeps them by construction:

* `insert?` adds a row, or fails when a constraint would be violated;
* `update` is the conditional bulk `UPDATE ... SET ... WHERE ...`, whose assignment is an
  `Edit`, that is, a function on rows that leaves the constrained columns alone;
* `get?` reads the row of a primary key.

## Main results

* `get?_update`: a bulk update acts on the row of each key separately.
* `get?_insert?`: an insert adds one row and touches no other.
* `count_update`: the row count of an update that names a primary key is `0` or `1`.
* `latestBy_eq_some`: `ORDER BY f DESC LIMIT 1` returns a greatest row.
* `get?_draw`: a key drawn by the client is new.
-/

namespace Relational

/-- The constraints of a row type: a primary key, and a relation `Clash` that holds
between two rows which may not stand in one table. -/
class Schema (ρ : Type*) (ι : outParam Type*) where
  /-- The primary key of a row. -/
  pk : ρ → ι
  /-- Two rows violate a unique constraint. -/
  Clash : ρ → ρ → Prop
  clash_of_pk : ∀ {a b : ρ}, pk a = pk b → Clash a b
  clash_symm : ∀ {a b : ρ}, Clash a b → Clash b a
  [decPk : DecidableEq ι]
  [decClash : DecidableRel Clash]

attribute [reducible, instance] Schema.decPk Schema.decClash

open Schema

variable {ρ ι : Type*} [Schema ρ ι]

/-- An assignment to the columns of a row that no constraint mentions. -/
structure Edit (ρ : Type*) {ι : Type*} [Schema ρ ι] where
  /-- The row after the assignment. -/
  apply : ρ → ρ
  pk_apply : ∀ r, pk (apply r) = pk r
  clash_apply : ∀ a b, Clash (apply a) b ↔ Clash a b

/-- A table: its rows in the order in which they are returned, no two of which clash. -/
@[ext] structure Table (ρ : Type*) {ι : Type*} [Schema ρ ι] where
  rows : List ρ
  unique : rows.Pairwise fun a b => ¬ Clash a b

namespace Table

/-- The table without rows. -/
def empty : Table ρ := ⟨[], List.Pairwise.nil⟩

instance : Inhabited (Table ρ) := ⟨empty⟩

/-- The row with a given primary key. -/
def get? (t : Table ρ) (k : ι) : Option ρ := t.rows.find? fun r => pk r = k

/-- Insert a row, or fail when it violates a unique constraint. -/
def insert? (t : Table ρ) (r : ρ) : Option (Table ρ) :=
  if h : ∃ a ∈ t.rows, Clash a r then none
  else some ⟨t.rows ++ [r], by
    rw [List.pairwise_append]
    refine ⟨t.unique, List.pairwise_singleton _ _, ?_⟩
    intro a ha b hb
    obtain rfl := List.mem_singleton.mp hb
    exact fun hc => h ⟨a, ha, hc⟩⟩

/-- The row that an update leaves for `r`. -/
def updateRow (p : ρ → Bool) (f : Edit ρ) (r : ρ) : ρ := if p r then f.apply r else r

theorem pk_updateRow (p : ρ → Bool) (f : Edit ρ) (r : ρ) : pk (updateRow p f r) = pk r := by
  unfold updateRow
  split
  · exact f.pk_apply r
  · rfl

theorem clash_updateRow (p : ρ → Bool) (f : Edit ρ) (a b : ρ) :
    Clash (updateRow p f a) (updateRow p f b) ↔ Clash a b := by
  have left : ∀ a b, Clash (updateRow p f a) b ↔ Clash a b := by
    intro a b
    unfold updateRow
    split
    · exact f.clash_apply a b
    · rfl
  rw [left]
  exact ⟨fun h => clash_symm ((left b a).mp (clash_symm h)),
    fun h => clash_symm ((left b a).mpr (clash_symm h))⟩

/-- `UPDATE ... SET f WHERE p`: every row that satisfies the condition is edited. -/
def update (t : Table ρ) (p : ρ → Bool) (f : Edit ρ) : Table ρ where
  rows := t.rows.map (updateRow p f)
  unique := by
    rw [List.pairwise_map]
    exact t.unique.imp fun h hc => h ((clash_updateRow p f _ _).mp hc)

/-- The number of rows that satisfy a condition: the `rowcount` of an update. -/
def count (t : Table ρ) (p : ρ → Bool) : ℕ := t.rows.countP p

/-- The same rows, returned in another order. -/
def reorder (t : Table ρ) (rows : List ρ) (h : rows.Perm t.rows) : Table ρ where
  rows := rows
  unique := (h.pairwise_iff fun hc hd => hc (clash_symm hd)).mpr t.unique

/-! ### Reading rows by primary key -/

theorem mem_of_get? {t : Table ρ} {k : ι} {r : ρ} (h : t.get? k = some r) :
    r ∈ t.rows ∧ pk r = k := by
  refine ⟨List.mem_of_find?_eq_some h, ?_⟩
  simpa using List.find?_some h

/-- Two rows of a table that clash are the same row. -/
theorem eq_of_clash {t : Table ρ} {a b : ρ} (ha : a ∈ t.rows) (hb : b ∈ t.rows)
    (h : Clash a b) : a = b := by
  by_contra hne
  have : Std.Symm fun a b : ρ => ¬ Clash a b := ⟨fun _ _ hc hd => hc (clash_symm hd)⟩
  exact t.unique.forall ha hb hne h

/-- At most one row satisfies a condition that makes rows clash. -/
theorem count_le_one {t : Table ρ} {p : ρ → Bool}
    (h : ∀ a b, p a = true → p b = true → Clash a b) : t.count p ≤ 1 := by
  rw [count, List.countP_eq_length_filter]
  have hpw := t.unique.filter p
  cases hrows : t.rows.filter p with
  | nil => exact Nat.zero_le _
  | cons a rest =>
      cases rest with
      | nil => exact le_rfl
      | cons b rest =>
          rw [hrows] at hpw
          have hmem : ∀ c ∈ a :: b :: rest, p c = true := fun c hc =>
            (List.mem_filter.mp (hrows ▸ hc)).2
          have hclash := h a b (hmem a List.mem_cons_self)
            (hmem b (List.mem_cons_of_mem _ List.mem_cons_self))
          exact absurd hclash ((List.pairwise_cons.mp hpw).1 b List.mem_cons_self)

theorem get?_eq_some_iff {t : Table ρ} {k : ι} {r : ρ} :
    t.get? k = some r ↔ r ∈ t.rows ∧ pk r = k := by
  refine ⟨mem_of_get?, ?_⟩
  rintro ⟨hr, rfl⟩
  obtain ⟨a, ha⟩ : ∃ a, t.get? (pk r) = some a := by
    rw [get?, ← Option.isSome_iff_exists, List.find?_isSome]
    exact ⟨r, hr, by simp⟩
  obtain ⟨hmem, hpk⟩ := mem_of_get? ha
  rw [ha, eq_of_clash hmem hr (clash_of_pk hpk)]

/-- A query that names a primary key returns the row of that key. -/
theorem filter_pk {t : Table ρ} {k : ι} {r : ρ} (h : t.get? k = some r) :
    (t.rows.filter fun a => decide (pk a = k)) = [r] := by
  obtain ⟨hr, hpk⟩ := get?_eq_some_iff.mp h
  have hmem : r ∈ t.rows.filter fun a => decide (pk a = k) := List.mem_filter.mpr ⟨hr, by simp [hpk]⟩
  have hone : (t.rows.filter fun a => decide (pk a = k)).length ≤ 1 := by
    rw [← List.countP_eq_length_filter]
    refine t.count_le_one fun a b ha hb => clash_of_pk ?_
    rw [decide_eq_true_eq] at ha hb
    exact ha.trans hb.symm
  obtain ⟨a, ha⟩ := List.length_eq_one_iff.mp (le_antisymm hone (List.length_pos_of_mem hmem))
  rw [ha, List.mem_singleton] at hmem
  rw [ha, hmem]

/-- A table with more rows still has those that were there. -/
theorem get?_of_subset {t t' : Table ρ} {k : ι} {r : ρ} (hsub : t.rows ⊆ t'.rows)
    (h : t.get? k = some r) : t'.get? k = some r := by
  obtain ⟨hr, hpk⟩ := get?_eq_some_iff.mp h
  exact get?_eq_some_iff.mpr ⟨hsub hr, hpk⟩

theorem get?_eq_none_iff {t : Table ρ} {k : ι} : t.get? k = none ↔ ∀ r ∈ t.rows, pk r ≠ k := by
  simp [get?]

@[simp] theorem get?_empty (k : ι) : (empty : Table ρ).get? k = none := rfl

/-! ### What the statements do to the row of a key -/

/-- An update acts on the row of each key separately. -/
theorem get?_update (t : Table ρ) (p : ρ → Bool) (f : Edit ρ) (k : ι) :
    (t.update p f).get? k = (t.get? k).map (updateRow p f) := by
  have hpk : (fun r : ρ => decide (pk r = k)) ∘ updateRow p f = fun r => decide (pk r = k) := by
    funext r
    simp only [Function.comp_apply, pk_updateRow]
  rw [get?, get?, update, List.find?_map, hpk]

/-- An update whose condition no row satisfies changes nothing. -/
theorem update_eq_self {t : Table ρ} {p : ρ → Bool} {f : Edit ρ}
    (h : ∀ r ∈ t.rows, p r = false) : t.update p f = t := by
  have hrows : t.rows.map (updateRow p f) = t.rows := by
    refine (List.map_congr_left fun r hr => ?_).trans (List.map_id _)
    simp [updateRow, h r hr]
  cases t
  simpa [update] using hrows

/-- A successful insert adds one row at the end, which clashes with no other. -/
theorem insert?_eq_some_iff {t t' : Table ρ} {r : ρ} :
    t.insert? r = some t' ↔ (∀ a ∈ t.rows, ¬ Clash a r) ∧ t'.rows = t.rows ++ [r] := by
  unfold insert?
  split
  · rename_i h
    obtain ⟨a, ha, hc⟩ := h
    exact ⟨fun hn => by simp at hn, fun ⟨hn, _⟩ => absurd hc (hn a ha)⟩
  · rename_i h
    push Not at h
    cases t'
    simp only [Option.some.injEq, Table.mk.injEq]
    exact ⟨fun e => ⟨h, e.symm⟩, fun e => e.2.symm⟩

theorem insert?_eq_none_iff {t : Table ρ} {r : ρ} :
    t.insert? r = none ↔ ∃ a ∈ t.rows, Clash a r := by
  unfold insert?
  split
  · rename_i h
    exact ⟨fun _ => h, fun _ => rfl⟩
  · rename_i h
    exact ⟨fun hn => by simp at hn, fun hc => absurd hc h⟩

/-- An insert adds the row of a new key and touches no other row. -/
theorem get?_insert? {t t' : Table ρ} {r : ρ} (h : t.insert? r = some t') (k : ι) :
    t'.get? k = if pk r = k then some r else t.get? k := by
  obtain ⟨hn, hrows⟩ := insert?_eq_some_iff.mp h
  rw [get?, hrows, List.find?_append]
  by_cases hk : pk r = k
  · have hnone : t.rows.find? (fun a => decide (pk a = k)) = none := by
      rw [List.find?_eq_none]
      intro a ha
      have : pk a ≠ k := fun e => hn a ha (clash_of_pk (e.trans hk.symm))
      simpa using this
    simp [hnone, hk]
  · simp [hk, get?]

/-- The row count of an update that names a primary key is `1` exactly when the row of
that key satisfies the rest of the condition, and `0` otherwise. -/
theorem count_update (t : Table ρ) (k : ι) (p : ρ → Bool) :
    t.count (fun r => decide (pk r = k) && p r) = 1 ↔ ∃ r, t.get? k = some r ∧ p r = true := by
  have huniq : (t.rows.filter fun r => decide (pk r = k) && p r).length ≤ 1 := by
    have hpw := (t.unique.filter fun r => decide (pk r = k) && p r)
    match hl : t.rows.filter fun r => decide (pk r = k) && p r with
    | [] => simp
    | [_] => simp
    | a :: b :: _ =>
        rw [hl] at hpw
        have hmem : ∀ r ∈ t.rows.filter (fun r => decide (pk r = k) && p r), pk r = k := by
          intro r hr
          simpa using (List.mem_filter.mp hr).2 |> fun h => (by simpa using h : pk r = k ∧ _).1
        rw [hl] at hmem
        have hab : ¬ Clash a b := (List.pairwise_cons.mp hpw).1 b (by simp)
        exact absurd (clash_of_pk ((hmem a (by simp)).trans (hmem b (by simp)).symm)) hab
  rw [count, List.countP_eq_length_filter]
  constructor
  · intro h
    obtain ⟨r, hr⟩ := List.length_eq_one_iff.mp h
    have hmem : r ∈ t.rows.filter fun r => decide (pk r = k) && p r := by rw [hr]; simp
    simp only [List.mem_filter, Bool.and_eq_true, decide_eq_true_eq] at hmem
    exact ⟨r, get?_eq_some_iff.mpr ⟨hmem.1, hmem.2.1⟩, hmem.2.2⟩
  · rintro ⟨r, hr, hp⟩
    obtain ⟨hmem, hpk⟩ := mem_of_get? hr
    have hin : r ∈ t.rows.filter fun r => decide (pk r = k) && p r := by
      simp [hmem, hpk, hp]
    have := List.length_pos_of_mem hin
    omega

/-- The row count of an update that names a primary key depends on the row of that key only. -/
theorem count_congr {t t' : Table ρ} {k : ι} (h : t.get? k = t'.get? k) (p : ρ → Bool) :
    t.count (fun r => decide (pk r = k) && p r) = t'.count fun r => decide (pk r = k) && p r := by
  have hclash : ∀ a b : ρ, (decide (pk a = k) && p a) = true → (decide (pk b = k) && p b) = true →
      Clash a b := by
    intro a b ha hb
    simp only [Bool.and_eq_true, decide_eq_true_eq] at ha hb
    exact clash_of_pk (ha.1.trans hb.1.symm)
  have hle := t.count_le_one hclash
  have hle' := t'.count_le_one hclash
  have hone : t.count (fun r => decide (pk r = k) && p r) = 1 ↔
      t'.count (fun r => decide (pk r = k) && p r) = 1 := by
    rw [count_update, count_update, h]
  omega

/-- A query that names a primary key finds the row of that key. -/
theorem any_pk (t : Table ρ) (k : ι) (p : ρ → Bool) :
    (t.rows.any fun r => decide (pk r = k) && p r) = (t.get? k).any p := by
  rw [Bool.eq_iff_iff, List.any_eq_true, Option.any_eq_true]
  constructor
  · rintro ⟨r, hr, hp⟩
    simp only [Bool.and_eq_true, decide_eq_true_eq] at hp
    exact ⟨r, get?_eq_some_iff.mpr ⟨hr, hp.1⟩, hp.2⟩
  · rintro ⟨r, hr, hp⟩
    obtain ⟨hmem, hpk⟩ := mem_of_get? hr
    exact ⟨r, hmem, by simp [hpk, hp]⟩

end Table

/-! ### The greatest row -/

section Latest

variable {α : Type*}

/-- The first row with the greatest value of `f`: `ORDER BY f DESC LIMIT 1`. -/
def latestBy (f : α → ℕ) (rows : List α) : Option α :=
  rows.foldl (fun best r =>
    match best with
    | some b => if f b < f r then some r else some b
    | none => some r) none

private theorem latestBy_foldl (f : α → ℕ) (rows : List α) (b : α) :
    ∃ r, rows.foldl (fun best r =>
        match best with
        | some b => if f b < f r then some r else some b
        | none => some r) (some b) = some r ∧
      (r = b ∨ r ∈ rows) ∧ f b ≤ f r ∧ ∀ x ∈ rows, f x ≤ f r := by
  induction rows generalizing b with
  | nil => exact ⟨b, rfl, Or.inl rfl, le_rfl, by simp⟩
  | cons x rest ih =>
      simp only [List.foldl_cons]
      by_cases h : f b < f x
      · rw [if_pos h]
        obtain ⟨r, hr, hmem, hle, hall⟩ := ih x
        refine ⟨r, hr, Or.inr ?_, by omega, ?_⟩
        · rcases hmem with rfl | hmem
          · exact List.mem_cons_self
          · exact List.mem_cons_of_mem x hmem
        · rintro y (_ | ⟨_, hy⟩)
          · exact hle
          · exact hall y hy
      · rw [if_neg h]
        obtain ⟨r, hr, hmem, hle, hall⟩ := ih b
        refine ⟨r, hr, hmem.imp_right (List.mem_cons_of_mem x), hle, ?_⟩
        rintro y (_ | ⟨_, hy⟩)
        · omega
        · exact hall y hy

/-- The greatest row is a row, and no row exceeds it. -/
theorem latestBy_eq_some {f : α → ℕ} {rows : List α} {r : α} (h : latestBy f rows = some r) :
    r ∈ rows ∧ ∀ x ∈ rows, f x ≤ f r := by
  cases rows with
  | nil => simp [latestBy] at h
  | cons x rest =>
      obtain ⟨r', hr', hmem, hle, hall⟩ := latestBy_foldl f rest x
      rw [latestBy, List.foldl_cons] at h
      obtain rfl := Option.some.inj (hr'.symm.trans h)
      refine ⟨?_, ?_⟩
      · rcases hmem with rfl | hmem
        · exact List.mem_cons_self
        · exact List.mem_cons_of_mem x hmem
      · rintro y (_ | ⟨_, hy⟩)
        · exact hle
        · exact hall y hy

theorem latestBy_eq_none_iff {f : α → ℕ} {rows : List α} : latestBy f rows = none ↔ rows = [] := by
  cases rows with
  | nil => simp [latestBy]
  | cons x rest =>
      obtain ⟨r, hr, -⟩ := latestBy_foldl f rest x
      rw [latestBy, List.foldl_cons]
      simp [hr]

/-- The greatest row after one more: the new row only when it exceeds the others. -/
theorem latestBy_concat (f : α → ℕ) (rows : List α) (r : α) :
    latestBy f (rows ++ [r]) =
      match latestBy f rows with
      | some b => if f b < f r then some r else some b
      | none => some r := by
  rw [latestBy, List.foldl_append]
  rfl

/-- The greatest row is mapped by what keeps the order. -/
theorem latestBy_map {β : Type*} {f : α → ℕ} {f' : β → ℕ} {g : α → β} (h : ∀ r, f' (g r) = f r)
    (rows : List α) : latestBy f' (rows.map g) = (latestBy f rows).map g := by
  induction rows using List.reverseRecOn with
  | nil => rfl
  | append_singleton init r ih =>
      rw [List.map_append, List.map_singleton, latestBy_concat, latestBy_concat, ih]
      cases latestBy f init with
      | none => rfl
      | some b =>
          simp only [Option.map_some, h]
          split <;> rfl

/-- Of rows that are numbered from one in their order, the greatest is the last. -/
theorem latestBy_of_numbered {f : α → ℕ} {rows : List α}
    (h : rows.map f = List.range' 1 rows.length) : latestBy f rows = rows.getLast? := by
  rcases rows.eq_nil_or_concat with rfl | ⟨init, r, rfl⟩
  · rfl
  · simp only [List.concat_eq_append, List.map_append, List.map_cons, List.map_nil,
      List.length_append, List.length_singleton, List.range'_1_concat] at h
    obtain ⟨hinit, hr⟩ := List.append_inj' h rfl
    rw [List.concat_eq_append, latestBy_concat, List.getLast?_concat]
    cases hbest : latestBy f init with
    | none => rfl
    | some b =>
        have hb : f b ∈ List.range' 1 init.length :=
          hinit ▸ List.mem_map_of_mem (latestBy_eq_some hbest).1
        rw [List.mem_range'_1] at hb
        have hlast : f r = 1 + init.length := List.head_eq_of_cons_eq hr
        exact if_pos (by omega)

end Latest

/-! ### Client-generated keys -/

namespace Table

variable {ρ : Type*} [Schema ρ ℕ]

/-- A key drawn by a client for a new row, given the number its generator proposes: the
generator never repeats a key of the table. -/
def draw (t : Table ρ) (n : ℕ) : ℕ :=
  if t.get? n = none then n else (t.rows.map pk).foldr max 0 + 1

theorem get?_draw (t : Table ρ) (n : ℕ) : t.get? (t.draw n) = none := by
  unfold draw
  split
  · assumption
  · rw [get?_eq_none_iff]
    intro r hr
    have hle : pk r ≤ (t.rows.map pk).foldr max 0 :=
      List.le_max_of_le' 0 (List.mem_map_of_mem hr) le_rfl
    omega

end Table

end Relational
