import MarketRelay.Lib.Table

/-!
# Statements and Triggers

The statements by which a client changes a table, whatever program it runs: an insert, or an update
or a deletion of the rows that satisfy a condition. No statement has a conflict clause: one that
violates a constraint fails, and does not replace the rows in its way, as `INSERT OR REPLACE` of
SQLite does without firing their triggers. A trigger rejects a statement when it affects a row. A
table whose triggers reject every update and every deletion is append-only (`execute_grows`).

A migration turns the rows of one schema into those of another. It fails when the new rows violate
a constraint (`convert?`), which cannot happen when the constraints are kept (`convert`).

## Main results

* `Table.execute_grows`: a table that rejects updates and deletions only grows.
* `Table.convert?_isSome_iff`: exactly when the rows satisfy the constraints of another schema.
-/

namespace Relational

open Schema

variable {ρ σ ι κ : Type*} [Schema ρ ι] [Schema σ κ]

/-- A statement without a conflict clause that changes the rows of a table. -/
inductive Statement (ρ : Type*) where
  | insert (r : ρ)
  | update (p : ρ → Bool) (f : ρ → ρ)
  | delete (p : ρ → Bool)

/-- What the triggers of a table reject. -/
structure Rejects where
  update : Bool
  delete : Bool
deriving DecidableEq

namespace Table

/-- The table with these rows, unless they violate a constraint. -/
def ofRows? (rows : List ρ) : Option (Table ρ) :=
  if h : rows.Pairwise fun a b => ¬ Clash a b then some ⟨rows, h⟩ else none

theorem rows_of_ofRows? {rows : List ρ} {t : Table ρ} (h : ofRows? rows = some t) :
    t.rows = rows := by
  unfold ofRows? at h
  split at h
  · exact (congrArg Table.rows (Option.some.inj h)).symm
  · exact absurd h (by simp)

theorem ofRows?_rows (t : Table ρ) : ofRows? t.rows = some t := dif_pos t.unique

/-- Execute a statement. A trigger is fired by each row that the statement affects. -/
def execute (rejects : Rejects) (t : Table ρ) : Statement ρ → Option (Table ρ)
  | .insert r => t.insert? r
  | .update p f =>
    if rejects.update && t.rows.any p then none
    else ofRows? (t.rows.map fun r => if p r then f r else r)
  | .delete p =>
    if rejects.delete && t.rows.any p then none
    else some ⟨t.rows.filter fun r => !p r, t.unique.filter _⟩

/-- **A table that rejects updates and deletions only grows.** -/
theorem execute_grows {rejects : Rejects} {t t' : Table ρ} {s : Statement ρ}
    (hupdate : rejects.update = true) (hdelete : rejects.delete = true)
    (h : t.execute rejects s = some t') : t.rows <+: t'.rows := by
  -- A statement that is not rejected affects no row, or is an insert.
  have hnone : ∀ p : ρ → Bool, ¬ t.rows.any p = true → ∀ r ∈ t.rows, p r = false := fun p hp =>
    by simpa using hp
  cases s with
  | insert r => exact ⟨[r], (insert?_eq_some_iff.mp h).2.symm⟩
  | update p f =>
      rw [execute, hupdate, Bool.true_and] at h
      split at h
      · exact absurd h (by simp)
      · rename_i hp
        rw [rows_of_ofRows? h]
        have hsame : t.rows.map (fun r => if p r then f r else r) = t.rows :=
          (List.map_congr_left fun r hr => by simp [hnone p hp r hr]).trans (List.map_id _)
        exact ⟨[], (List.append_nil _).trans hsame.symm⟩
  | delete p =>
      rw [execute, hdelete, Bool.true_and] at h
      split at h
      · exact absurd h (by simp)
      · rename_i hp
        obtain rfl := Option.some.inj h
        have hsame : t.rows.filter (fun r => !p r) = t.rows :=
          List.filter_eq_self.mpr fun r hr => by simp [hnone p hp r hr]
        exact ⟨[], (List.append_nil _).trans hsame.symm⟩

/-! ### Rows of another schema -/

/-- The rows of another schema, unless they violate one of its constraints. -/
def convert? (f : ρ → σ) (t : Table ρ) : Option (Table σ) := ofRows? (t.rows.map f)

/-- The rows of another schema that has no constraint of its own. -/
def convert (f : ρ → σ) (hf : ∀ a b, Clash (f a) (f b) → Clash a b) (t : Table ρ) : Table σ where
  rows := t.rows.map f
  unique := List.pairwise_map.mpr (t.unique.imp fun h hclash => h (hf _ _ hclash))

@[simp] theorem convert_rows {f : ρ → σ} {hf : ∀ a b, Clash (f a) (f b) → Clash a b}
    (t : Table ρ) : (t.convert f hf).rows = t.rows.map f := rfl

theorem rows_of_convert? {f : ρ → σ} {t : Table ρ} {t' : Table σ} (h : t.convert? f = some t') :
    t'.rows = t.rows.map f :=
  rows_of_ofRows? h

/-- **The rows satisfy the constraints of another schema** exactly when no two of them come to
clash. -/
theorem convert?_isSome_iff {f : ρ → σ} {t : Table ρ} : (t.convert? f).isSome ↔
    ∀ a ∈ t.rows, ∀ b ∈ t.rows, Clash (f a) (f b) → a = b := by
  have hsymm : Std.Symm fun a b : ρ => ¬ Clash (f a) (f b) :=
    ⟨fun _ _ hc hd => hc (clash_symm hd)⟩
  rw [convert?, ofRows?, Option.isSome_dite, List.pairwise_map]
  constructor
  · intro hpairwise a ha b hb hclash
    by_contra hne
    exact hpairwise.forall ha hb hne hclash
  · intro h
    refine t.unique.imp_of_mem fun {a b} ha hb hfree hclash => hfree ?_
    exact clash_of_pk (congrArg pk (h a ha b hb hclash))

/-- A conversion is undone by one that undoes it row by row. -/
theorem convert?_of_leftInverse {f : ρ → σ} {g : σ → ρ} (h : Function.LeftInverse g f)
    {t : Table ρ} {t' : Table σ} (ht : t'.rows = t.rows.map f) : t'.convert? g = some t := by
  have hrows : t'.rows.map g = t.rows := by
    rw [ht, List.map_map, h.comp_eq_id, List.map_id]
  rw [convert?, hrows, ofRows?_rows]

end Table

end Relational
