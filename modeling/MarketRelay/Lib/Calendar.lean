import Mathlib.Order.Lattice
import Mathlib.Data.Int.Order.Basic
import Mathlib.Data.List.Range
import Mathlib.Tactic.Linarith

/-!
# Representable Dates

The dates of a bounded proleptic Gregorian calendar, `0001-01-01` to `9999-12-31`, as
their day numbers: day `1` is `0001-01-01`. A day number outside the bounds cannot be
built, so date arithmetic is partial (`addDays`), as it is in the languages that bound
their dates.

## Main results

* `Date` is a linear order (by day number).
* `addDays_eq_some_iff`: date arithmetic is addition of day numbers, within the bounds.
* `mem_interval`, `interval_strict`: the dates from one to another, in order.
* `dayLoop_eq`: what a loop from day to day collects.
-/

namespace Gregorian

/-- The day number of `9999-12-31`. -/
def maxOrdinal : ℕ := 3652059

/-- A representable date, by its day number. -/
@[ext]
structure Date where
  ordinal : ℕ
  one_le : 1 ≤ ordinal
  le_max : ordinal ≤ maxOrdinal
deriving DecidableEq, Repr

namespace Date

theorem ordinal_injective : Function.Injective Date.ordinal := fun _ _ h => Date.ext h

instance : LinearOrder Date := LinearOrder.lift' Date.ordinal ordinal_injective

theorem le_def {a b : Date} : a ≤ b ↔ a.ordinal ≤ b.ordinal := Iff.rfl

theorem lt_def {a b : Date} : a < b ↔ a.ordinal < b.ordinal := Iff.rfl

/-- The date with a day number, when it is representable. -/
def ofOrdinal? (n : ℤ) : Option Date :=
  if h : 1 ≤ n ∧ n ≤ maxOrdinal then some ⟨n.toNat, by omega, by omega⟩ else none

/-- The date `n` days later, or `none` when it is not representable. -/
def addDays (d : Date) (n : ℤ) : Option Date := ofOrdinal? (d.ordinal + n)

theorem ofOrdinal?_eq_some_iff {n : ℤ} {d : Date} :
    ofOrdinal? n = some d ↔ (d.ordinal : ℤ) = n := by
  have h1 := d.one_le
  have h2 := d.le_max
  unfold ofOrdinal?
  split
  · rw [Option.some.injEq, Date.ext_iff]
    change n.toNat = d.ordinal ↔ _
    omega
  · simp only [reduceCtorEq, false_iff]
    omega

theorem addDays_eq_some_iff {d e : Date} {n : ℤ} :
    d.addDays n = some e ↔ (e.ordinal : ℤ) = d.ordinal + n :=
  ofOrdinal?_eq_some_iff

theorem addDays_eq_none_iff {d : Date} {n : ℤ} :
    d.addDays n = none ↔ ¬ (1 ≤ (d.ordinal : ℤ) + n ∧ (d.ordinal : ℤ) + n ≤ maxOrdinal) := by
  rw [addDays, ofOrdinal?]
  split
  · rename_i h
    simpa using h
  · rename_i h
    simpa using h

/-- The day of the week, Monday being `0`. -/
def weekday (d : Date) : ℕ := (d.ordinal + 6) % 7

/-! ### Intervals -/

/-- The dates from one to another, both included. -/
def interval (first final : Date) : List Date :=
  (List.range' first.ordinal (final.ordinal + 1 - first.ordinal)).filterMap fun n : ℕ =>
    ofOrdinal? n

theorem mem_interval {first final d : Date} :
    d ∈ interval first final ↔ first ≤ d ∧ d ≤ final := by
  rw [interval, List.mem_filterMap, le_def, le_def]
  constructor
  · rintro ⟨n, hn, hd⟩
    have hday := ofOrdinal?_eq_some_iff.mp hd
    have hrange := List.mem_range'_1.mp hn
    omega
  · intro h
    exact ⟨d.ordinal, List.mem_range'_1.mpr (by omega), ofOrdinal?_eq_some_iff.mpr rfl⟩

theorem interval_strict (first final : Date) : (interval first final).Pairwise (· < ·) := by
  refine List.Pairwise.filterMap _ (fun m n hmn a ha b hb => ?_) (List.pairwise_lt_range' 1)
  have hday := ofOrdinal?_eq_some_iff.mp ha
  have hday' := ofOrdinal?_eq_some_iff.mp hb
  exact lt_def.mpr (by omega)

section

variable {current next final : Date}

theorem interval_of_lt (h : final < current) : interval current final = [] := by
  rw [lt_def] at h
  rw [interval, show final.ordinal + 1 - current.ordinal = 0 by omega]
  rfl

theorem interval_cons (hle : current ≤ final) (hnext : current.addDays 1 = some next) :
    interval current final = current :: interval next final := by
  have hday := addDays_eq_some_iff.mp hnext
  rw [le_def] at hle
  have hself : ofOrdinal? (current.ordinal : ℤ) = some current := ofOrdinal?_eq_some_iff.mpr rfl
  rw [interval, interval,
    show final.ordinal + 1 - current.ordinal = (final.ordinal + 1 - next.ordinal) + 1 by omega,
    List.range'_succ, show current.ordinal + 1 = next.ordinal by omega]
  exact List.filterMap_cons_some hself

/-! ### Loops over days -/

variable {α : Type} (body : Date → List α)

/-- The loop `while current <= final: body; current += 1 day`, which collects what its body appends.
The increment is not representable after the last date. -/
def dayLoop (final current : Date) : Option (List α) :=
  if _hle : current ≤ final then
    match _hnext : current.addDays 1 with
    | none => none
    | some next => (dayLoop final next).map (body current ++ ·)
  else some []
termination_by final.ordinal + 1 - current.ordinal
decreasing_by
  have := addDays_eq_some_iff.mp _hnext
  rw [le_def] at _hle
  omega

/-- **The loop visits the dates up to the last one in order**, and cannot be left after the last
representable date. -/
theorem dayLoop_eq (final current : Date) :
    dayLoop body final current =
      if current ≤ final ∧ final.ordinal = maxOrdinal then none
      else some ((interval current final).flatMap body) := by
  fun_induction dayLoop body final current with
  | case1 current hle hnone =>
      have hlast := addDays_eq_none_iff.mp hnone
      have hmax := final.le_max
      have hfinal : final.ordinal = maxOrdinal := by rw [le_def] at hle; omega
      rw [if_pos ⟨hle, hfinal⟩]
  | case2 current hle next hnext ih =>
      have hday := addDays_eq_some_iff.mp hnext
      have hmax := next.le_max
      rw [ih, interval_cons hle hnext, List.flatMap_cons]
      by_cases hfinal : final.ordinal = maxOrdinal
      · rw [if_pos ⟨by rw [le_def]; omega, hfinal⟩, if_pos ⟨hle, hfinal⟩]
        rfl
      · rw [if_neg fun h => hfinal h.2, if_neg fun h => hfinal h.2]
        rfl
  | case3 current hnot =>
      rw [if_neg fun h => hnot h.1, interval_of_lt (not_le.mp hnot)]
      rfl

/-- A loop that collects something for some of the dates only. -/
theorem dayLoop_ite {keep : Date → Prop} [DecidablePred keep] {value : Date → α}
    (final current : Date) :
    dayLoop (fun d => if keep d then [value d] else []) final current =
      if current ≤ final ∧ final.ordinal = maxOrdinal then none
      else some (((interval current final).filter fun d => decide (keep d)).map value) := by
  have hkept : ∀ dates : List Date, (dates.flatMap fun d => if keep d then [value d] else []) =
      (dates.filter fun d => decide (keep d)).map value := by
    intro dates
    induction dates with
    | nil => rfl
    | cons d rest ih =>
        rw [List.flatMap_cons, ih]
        by_cases hd : keep d
        · simp only [if_pos hd, List.filter_cons, decide_eq_true hd, if_true, List.map_cons,
            List.singleton_append]
        · simp only [if_neg hd, List.filter_cons, decide_eq_false hd, Bool.false_eq_true, if_false,
            List.nil_append]
  rw [dayLoop_eq, hkept]

end

end Date

end Gregorian
