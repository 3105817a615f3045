import Mathlib.Algebra.Ring.Nat
import Mathlib.Data.List.Basic

/-!
# Parts Joined by a Separator

Lists are joined with a separator between them and nothing is escaped. The join determines the
parts, among the lists of as many parts, exactly when no part contains the separator.

## Main results

* `count_intercalate`: the separators in a join.
* `intercalate_merge`: a separator inside of a part is as good as one between two parts.
* `intercalate_unique_iff`: which parts can be told from their join.
-/

namespace Separated

variable {α : Type} {sep : α} {parts parts' : List (List α)}

/-- The separators of a join: those between the parts, and those inside of them. -/
theorem count_intercalate [DecidableEq α] (part : List α) (parts : List (List α)) :
    ([sep].intercalate (part :: parts)).count sep =
      parts.length + ((part :: parts).map (List.count sep)).sum := by
  induction parts generalizing part with
  | nil => simp
  | cons next parts ih =>
      rw [List.intercalate_cons_cons, List.count_append, List.count_append, ih,
        List.count_singleton_self]
      simp only [List.length_cons, List.map_cons, List.sum_cons]
      omega

/-- A separator inside of a part is as good as one between two parts. -/
theorem intercalate_merge (pre : List (List α)) (a b : List α) (post : List (List α)) :
    [sep].intercalate (pre ++ a :: b :: post) =
      [sep].intercalate (pre ++ (a ++ sep :: b) :: post) := by
  induction pre with
  | nil =>
      cases post with
      | nil => simp
      | cons next post => simp [List.intercalate_cons_cons]
  | cons part pre ih =>
      rw [List.cons_append, List.cons_append,
        List.intercalate_cons_of_ne_nil (by simp), List.intercalate_cons_of_ne_nil (by simp), ih]

/-- Parts without the separator are the only ones of their number with their join. -/
theorem eq_of_intercalate [DecidableEq α] (hfree : ∀ part ∈ parts, sep ∉ part)
    (hlength : parts'.length = parts.length)
    (h : [sep].intercalate parts' = [sep].intercalate parts) : parts' = parts := by
  cases parts with
  | nil => exact List.length_eq_zero_iff.mp hlength
  | cons part parts =>
      obtain ⟨part', parts', rfl⟩ := List.exists_cons_of_length_eq_add_one hlength
      -- The joins have as many separators, so the other parts have none inside of them either.
      have hcount := congrArg (List.count sep) h
      have hnone : ((part :: parts).map (List.count sep)).sum = 0 :=
        List.sum_eq_zero_iff_forall_eq_nat.mpr fun n hn => by
          obtain ⟨p, hp, rfl⟩ := List.mem_map.mp hn
          exact List.count_eq_zero.mpr (hfree p hp)
      rw [count_intercalate, count_intercalate, hnone] at hcount
      have hsum : ((part' :: parts').map (List.count sep)).sum = 0 := by
        simp only [List.length_cons] at hlength
        omega
      have hfree' : ∀ p ∈ part' :: parts', sep ∉ p := fun p hp =>
        List.count_eq_zero.mp (List.sum_eq_zero_iff_forall_eq_nat.mp hsum _ (List.mem_map_of_mem hp))
      rw [← List.splitOn_intercalate sep hfree' (List.cons_ne_nil _ _), h,
        List.splitOn_intercalate sep hfree (List.cons_ne_nil _ _)]

/-- A separator inside of a part can be traded for the one next to the part. -/
theorem exists_ne_of_mem {part : List α} (hpart : part ∈ parts) (hsep : sep ∈ part)
    (htwo : 2 ≤ parts.length) :
    ∃ parts', parts'.length = parts.length ∧
      [sep].intercalate parts' = [sep].intercalate parts ∧ parts' ≠ parts := by
  obtain ⟨pre, post, rfl⟩ := List.append_of_mem hpart
  obtain ⟨a, b, rfl⟩ := List.append_of_mem hsep
  cases post with
  | cons next post =>
      refine ⟨pre ++ a :: (b ++ sep :: next) :: post, by simp, ?_, fun h => ?_⟩
      · rw [intercalate_merge, intercalate_merge, List.append_assoc, List.cons_append]
      · have hhead := (List.cons.inj (List.append_cancel_left h)).1
        exact absurd (congrArg List.length hhead) (by simp)
  | nil =>
      obtain ⟨pre', last, rfl⟩ : ∃ pre' last, pre = pre' ++ [last] := by
        refine ⟨pre.dropLast, pre.getLast ?_, (List.dropLast_append_getLast _).symm⟩
        rintro rfl
        exact absurd htwo (by simp)
      refine ⟨pre' ++ (last ++ sep :: a) :: [b], by simp, ?_, fun h => ?_⟩
      · rw [List.append_assoc, List.singleton_append, intercalate_merge, intercalate_merge,
          List.append_assoc, List.cons_append]
      · rw [List.append_assoc, List.singleton_append] at h
        have hhead := (List.cons.inj (List.append_cancel_left h)).1
        exact absurd (congrArg List.length hhead) (by simp)

/-- **The join determines the parts exactly when** none of them contains the separator. -/
theorem intercalate_unique_iff [DecidableEq α] (htwo : 2 ≤ parts.length) :
    (∀ parts', parts'.length = parts.length →
      [sep].intercalate parts' = [sep].intercalate parts → parts' = parts) ↔
      ∀ part ∈ parts, sep ∉ part := by
  refine ⟨fun hunique part hpart hsep => ?_, fun hfree _ hlength h =>
    eq_of_intercalate hfree hlength h⟩
  obtain ⟨parts', hlength, h, hne⟩ := exists_ne_of_mem hpart hsep htwo
  exact hne (hunique parts' hlength h)

end Separated
