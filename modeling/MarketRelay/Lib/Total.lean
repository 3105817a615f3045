import Mathlib.Algebra.Order.BigOperators.Group.List
import Mathlib.Algebra.Order.Group.Nat
import Mathlib.Algebra.Ring.Nat
import MarketRelay.Lib.Table

/-!
# Totals over a Table

A measure of the rows, added up over a table. While rows are edited and none is added or removed, the
keys of the table stay the same (`Table.keys`), and the total follows the rows one by one: it does not
grow if no row's measure does, and it drops as soon as that of one row drops.

## Main results

* `Table.keys_update`: an update keeps the keys.
* `Table.total_le`, `Table.total_lt`: the total of a table whose rows have been edited.
-/

namespace Relational.Table

open Schema

variable {ρ ι : Type*} [Schema ρ ι] {t t' : Table ρ} {f : ρ → ℕ}

/-- The primary keys, in the order of the rows. -/
def keys (t : Table ρ) : List ι := t.rows.map pk

theorem mem_keys_iff {k : ι} : k ∈ t.keys ↔ ∃ r, t.get? k = some r := by
  simp only [keys, List.mem_map, get?_eq_some_iff]

/-- An update keeps the keys. -/
@[simp] theorem keys_update (t : Table ρ) (p : ρ → Bool) (g : Edit ρ) :
    (t.update p g).keys = t.keys := by
  rw [keys, keys, update, List.map_map]
  exact List.map_congr_left fun r _ => pk_updateRow p g r

/-- The measures of all rows, added up. -/
def total (f : ρ → ℕ) (t : Table ρ) : ℕ := (t.rows.map f).sum

/-- The total, key by key. -/
theorem total_eq_sum_keys (f : ρ → ℕ) (t : Table ρ) :
    t.total f = (t.keys.map fun k => ((t.get? k).map f).getD 0).sum := by
  rw [total, keys, List.map_map]
  refine congrArg List.sum (List.map_congr_left fun r hr => ?_)
  have hget : t.get? (pk r) = some r := get?_eq_some_iff.mpr ⟨hr, rfl⟩
  simp only [Function.comp_apply, hget, Option.map_some, Option.getD_some]

/-- A row's measure is part of the total. -/
theorem le_total {r : ρ} (hr : r ∈ t.rows) : f r ≤ t.total f :=
  List.le_sum_of_mem (List.mem_map_of_mem hr)

/-- **A total does not grow** when no row's measure does. -/
theorem total_le (hkeys : t'.keys = t.keys)
    (hle : ∀ k r, t.get? k = some r → ∃ r', t'.get? k = some r' ∧ f r' ≤ f r) :
    t'.total f ≤ t.total f := by
  rw [total_eq_sum_keys, total_eq_sum_keys, hkeys]
  refine List.sum_le_sum fun k hk => ?_
  obtain ⟨r, hr⟩ := mem_keys_iff.mp hk
  obtain ⟨r', hr', hfr⟩ := hle k r hr
  simpa only [hr, hr', Option.map_some, Option.getD_some] using hfr

/-- **A total drops** when the measure of one row does, and that of no row grows. -/
theorem total_lt (hkeys : t'.keys = t.keys)
    (hle : ∀ k r, t.get? k = some r → ∃ r', t'.get? k = some r' ∧ f r' ≤ f r)
    (hlt : ∃ k r r', t.get? k = some r ∧ t'.get? k = some r' ∧ f r' < f r) :
    t'.total f < t.total f := by
  rw [total_eq_sum_keys, total_eq_sum_keys, hkeys]
  refine List.sum_lt_sum _ _ (fun k hk => ?_) ?_
  · obtain ⟨r, hr⟩ := mem_keys_iff.mp hk
    obtain ⟨r', hr', hfr⟩ := hle k r hr
    simpa only [hr, hr', Option.map_some, Option.getD_some] using hfr
  · obtain ⟨k, r, r', hr, hr', hfr⟩ := hlt
    refine ⟨k, mem_keys_iff.mpr ⟨r, hr⟩, ?_⟩
    simpa only [hr, hr', Option.map_some, Option.getD_some] using hfr

end Relational.Table
