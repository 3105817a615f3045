import Mathlib.Data.List.Dedup
import MarketRelay.Dispatch
import MarketRelay.Replanning

/-!
# How Many Sessions a Job Spans

A chunk is bounded by its list of published sessions, but the job of a chunk carries only the
first and the last of them, and the sessions that still wait for publication lie among the
published ones. So the range of a job can span more sessions than the limit: those of the chunk
and the waiting ones between them, or, for the job of the waiting dates, everything from the
first of them to the last.

A waiting date is placed by its rank, the number of published dates before it. It lies inside
the `k`-th chunk of `size` sessions exactly when its rank is strictly between `k * size` and the
end of that chunk.

## Main results

* `slice_span`: how many sessions the range of a chunk spans.
* `dispatch_bounded_iff`: exactly when every job that a dispatch enqueues is bounded.
* `dispatch_unbounded`: a dispatch of a job that is not.
-/

open Relational Interaction Gregorian

namespace MarketRelay

/-! ### Sessions of an answer -/

/-- The dates of a range that a calendar's answer classifies as sessions. -/
def sessionsBetween (answer : List SessionCheck) (first final : Date) : List Date :=
  ((answer.filter fun c => decide (c.expectation ≠ .noSession) && decide (first ≤ c.sessionDate) &&
    decide (c.sessionDate ≤ final)).map SessionCheck.sessionDate).dedup

/-- The number of dates of a range with an expectation. -/
def countBetween (answer : List SessionCheck) (expectation : SessionExpectation)
    (first final : Date) : ℕ :=
  answer.countP fun c => decide (c.expectation = expectation) &&
    (decide (first ≤ c.sessionDate) && decide (c.sessionDate ≤ final))

/-- The number of published dates before a date. -/
def publishedBefore (answer : List SessionCheck) (d : Date) : ℕ :=
  answer.countP fun c => decide (c.expectation = .expectedPublished) && decide (c.sessionDate < d)

/-- The number of published dates. -/
def publishedCount (answer : List SessionCheck) : ℕ :=
  answer.countP fun c => decide (c.expectation = .expectedPublished)

/-- The number of waiting dates whose rank is strictly between two bounds. -/
def waitingRanked (answer : List SessionCheck) (low high : ℕ) : ℕ :=
  answer.countP fun c => decide (c.expectation = .waitingForPublication) &&
    (decide (low < publishedBefore answer c.sessionDate) &&
      decide (publishedBefore answer c.sessionDate < high))

/-- The waiting dates leave the jobs within the limit: none lies inside a full chunk, those
inside the last, incomplete one fit into it, and no two of them span too many sessions. -/
structure WaitingFits (answer : List SessionCheck) (size : ℕ) : Prop where
  full : ∀ check ∈ answer, check.expectation = .waitingForPublication →
    publishedBefore answer check.sessionDate < publishedCount answer / size * size →
    publishedBefore answer check.sessionDate % size = 0
  last : publishedCount answer % size + waitingRanked answer
    (publishedCount answer / size * size) (publishedCount answer) ≤ size
  span : ∀ check ∈ answer, ∀ check' ∈ answer, check.expectation = .waitingForPublication →
    check'.expectation = .waitingForPublication →
    (sessionsBetween answer check.sessionDate check'.sessionDate).length ≤ size

section Counting

variable {answer : List SessionCheck} {first final : Date}

/-- A session is published or waits for publication. -/
theorem length_sessionsBetween (h : (answer.map SessionCheck.sessionDate).Nodup)
    (first final : Date) :
    (sessionsBetween answer first final).length =
      countBetween answer .expectedPublished first final +
        countBetween answer .waitingForPublication first final := by
  rw [sessionsBetween, List.Nodup.dedup (h.sublist (List.filter_sublist.map _)), List.length_map,
    ← List.countP_eq_length_filter]
  clear h
  induction answer with
  | nil => rfl
  | cons check rest ih =>
      rw [countBetween, countBetween] at ih ⊢
      rw [List.countP_cons, List.countP_cons, List.countP_cons, ih]
      cases check.expectation <;>
        by_cases hrange : first ≤ check.sessionDate ∧ check.sessionDate ≤ final <;>
          simp [hrange] <;> omega

/-- A range within a range spans no more sessions. -/
theorem sessionsBetween_mono {a b : Date} (hlow : first ≤ a) (hhigh : b ≤ final) :
    (sessionsBetween answer a b).length ≤ (sessionsBetween answer first final).length := by
  refine List.Subperm.length_le (List.subperm_of_subset (List.nodup_dedup _) fun d hd => ?_)
  rw [sessionsBetween, List.mem_dedup, List.mem_map] at hd ⊢
  obtain ⟨check, hcheck, rfl⟩ := hd
  obtain ⟨hmem, hrange⟩ := List.mem_filter.mp hcheck
  simp only [Bool.and_eq_true, decide_eq_true_eq] at hrange
  refine ⟨check, List.mem_filter.mpr ⟨hmem, ?_⟩, rfl⟩
  simp only [Bool.and_eq_true, decide_eq_true_eq]
  exact ⟨⟨hrange.1.1, hlow.trans hrange.1.2⟩, hrange.2.trans hhigh⟩

open RecoveryPlanner in
/-- Counting among the sorted dates of an expectation is counting in the answer. -/
theorem countP_datesOf (expectation : SessionExpectation) (q : Date → Bool) :
    (datesOf expectation (inOrder answer)).countP q =
      answer.countP fun c => decide (c.expectation = expectation) && q c.sessionDate := by
  have hperm : (inOrder answer).Perm answer := List.perm_insertionSort _ answer
  rw [datesOf, List.countP_map, List.countP_filter, hperm.countP_eq]
  exact List.countP_congr fun c _ => by rw [Function.comp_apply, Bool.and_comm]

end Counting

/-! ### Ranks -/

/-- In a strictly sorted list the elements before a date are the first ones. -/
theorem lt_countP_iff {ds : List Date} (h : ds.Pairwise (· < ·)) (w : Date) {i : ℕ}
    (hi : i < ds.length) : i < ds.countP (fun d => decide (d < w)) ↔ ds[i] < w := by
  induction ds generalizing i with
  | nil => exact absurd hi (Nat.not_lt_zero i)
  | cons a rest ih =>
      obtain ⟨hbefore, hrest⟩ := List.pairwise_cons.mp h
      by_cases ha : a < w
      · rw [List.countP_cons_of_pos (by simpa using ha)]
        cases i with
        | zero => simpa using ha
        | succ i =>
            rw [List.getElem_cons_succ, ← ih hrest (by simpa using hi)]
            omega
      · have hnone : (a :: rest).countP (fun d => decide (d < w)) = 0 := by
          refine List.countP_eq_zero.mpr fun d hd hlt => ?_
          have hlt := of_decide_eq_true hlt
          rcases List.mem_cons.mp hd with rfl | hd
          · exact ha hlt
          · exact ha ((hbefore d hd).trans hlt)
        have hnot : ¬ (a :: rest)[i] < w := fun hlt => by
          cases i with
          | zero => exact ha hlt
          | succ i => exact ha ((hbefore _ (List.getElem_mem _)).trans hlt)
        rw [hnone]
        exact iff_of_false (Nat.not_lt_zero i) hnot

/-! ### The span of a chunk -/

namespace RecoveryPlanner

variable {α : Type} {size : ℕ} {xs : List α}

/-- The slices, by their indices. -/
theorem mem_slices_iff (hsize : 0 < size) {s : List α} :
    s ∈ slices size xs ↔ ∃ k, k * size < xs.length ∧ s = (xs.drop (k * size)).take size := by
  constructor
  · intro hs
    have hne := (slice_length hsize hs).1
    obtain ⟨k, -, rfl⟩ := List.mem_map.mp hs
    refine ⟨k, ?_, rfl⟩
    by_contra hle
    exact hne (by rw [List.drop_eq_nil_of_le (not_lt.mp hle), List.take_nil])
  · rintro ⟨k, hk, rfl⟩
    refine List.mem_map.mpr ⟨k, List.mem_range.mpr ?_, rfl⟩
    have hbound : (k + 1) * size ≤ xs.length + size - 1 := by
      rw [Nat.succ_mul]
      omega
    exact (Nat.le_div_iff_mul_le hsize).mpr hbound

/-- A chunk, with its first and its last date by their indices. -/
theorem chunkOf_eq {group : List Date} {c : RecoveryChunk} (h : chunkOf group = some c) :
    ∃ hpos : 0 < group.length, c = ⟨group[0], group[group.length - 1], group⟩ := by
  cases group with
  | nil => exact absurd h (by simp [chunkOf])
  | cons d rest =>
      obtain rfl := Option.some.inj h
      refine ⟨Nat.succ_pos _, ?_⟩
      simp only [RecoveryChunk.mk.injEq, List.getElem_cons_zero, true_and, and_true]
      exact List.getLast_eq_getElem _

/-- The first and the last element of the chunk of a slice, by their indices. -/
theorem chunkOf_slice {ds : List Date} {k : ℕ} {c : RecoveryChunk}
    (h : chunkOf ((ds.drop (k * size)).take size) = some c) :
    ∃ (hfirst : k * size < ds.length)
      (hlast : k * size + c.sessionDates.length - 1 < ds.length),
      c.sessionDates = (ds.drop (k * size)).take size ∧ 0 < c.sessionDates.length ∧
        c.start = ds[k * size] ∧ c.end = ds[k * size + c.sessionDates.length - 1] := by
  obtain ⟨hpos, rfl⟩ := chunkOf_eq h
  have hlen := hpos
  rw [List.length_take, List.length_drop] at hlen
  refine ⟨by omega, ?_, rfl, hpos, ?_, ?_⟩
  · simp only [List.length_take, List.length_drop]
    omega
  · simp only [List.getElem_take, List.getElem_drop, Nat.add_zero]
  · simp only [List.getElem_take, List.getElem_drop, Nat.add_sub_assoc hpos]

section Span

variable {answer : List SessionCheck} {k : ℕ} {c : RecoveryChunk}

/-- The published dates in the range of a chunk are its own. -/
theorem countBetween_published (honce : (answer.map SessionCheck.sessionDate).Nodup)
    (h : chunkOf (((datesOf .expectedPublished (inOrder answer)).drop (k * size)).take size) =
      some c) :
    countBetween answer .expectedPublished c.start c.end = c.sessionDates.length := by
  obtain ⟨hstart, hend⟩ := chunk_bounds h
  obtain ⟨hfirst, hlast, hdates, hpos, hfirstEq, hlastEq⟩ := chunkOf_slice h
  have hstrict : (datesOf .expectedPublished (inOrder answer)).Pairwise (· < ·) :=
    datesOf_strict honce
  set ds := datesOf .expectedPublished (inOrder answer) with hds
  rw [countBetween, ← countP_datesOf .expectedPublished fun d =>
    decide (c.start ≤ d) && decide (d ≤ c.end), ← hds]
  have hsplit : ds = ds.take (k * size) ++ (c.sessionDates ++ (ds.drop (k * size)).drop size) := by
    rw [hdates, List.take_append_drop, List.take_append_drop]
  rw [← hdates] at hstart hend
  rw [hsplit, List.pairwise_append, List.pairwise_append] at hstrict
  obtain ⟨-, ⟨hown, -, hafter⟩, hbefore⟩ := hstrict
  have hfront : (ds.take (k * size)).countP
      (fun d => decide (c.start ≤ d) && decide (d ≤ c.end)) = 0 := by
    refine List.countP_eq_zero.mpr fun d hd hrange => ?_
    simp only [Bool.and_eq_true, decide_eq_true_eq] at hrange
    exact absurd (hbefore d hd _ (List.mem_append_left _ hstart)) (not_lt.mpr hrange.1)
  have hback : ((ds.drop (k * size)).drop size).countP
      (fun d => decide (c.start ≤ d) && decide (d ≤ c.end)) = 0 := by
    refine List.countP_eq_zero.mpr fun d hd hrange => ?_
    simp only [Bool.and_eq_true, decide_eq_true_eq] at hrange
    exact absurd (hafter _ hend d hd) (not_lt.mpr hrange.2)
  have hall : c.sessionDates.countP (fun d => decide (c.start ≤ d) && decide (d ≤ c.end)) =
      c.sessionDates.length := by
    refine List.countP_eq_length.mpr fun d hd => ?_
    obtain ⟨hne, rfl⟩ := chunkOf_eq h
    obtain ⟨hlow, hhigh⟩ := mem_bounds (hown.imp le_of_lt) hd (List.ne_nil_of_mem hd)
    rw [List.head_eq_getElem] at hlow
    rw [List.getLast_eq_getElem] at hhigh
    simp only [Bool.and_eq_true, decide_eq_true_eq]
    exact ⟨hlow, hhigh⟩
  rw [hsplit, List.countP_append, List.countP_append, hfront, hback, hall]
  omega

/-- A waiting date is not published. -/
private theorem waiting_not_published (honce : (answer.map SessionCheck.sessionDate).Nodup)
    {check : SessionCheck} (hcheck : check ∈ answer)
    (hwaiting : check.expectation = .waitingForPublication) {d : Date}
    (hd : d ∈ datesOf .expectedPublished (inOrder answer)) : d ≠ check.sessionDate := by
  rintro rfl
  have hsame := List.inj_on_of_nodup_map honce (mem_datesOf.mp hd) hcheck rfl
  rw [← hsame] at hwaiting
  exact absurd hwaiting (by simp)

/-- The waiting dates in the range of a chunk are those whose rank lies inside it. -/
theorem countBetween_waiting (honce : (answer.map SessionCheck.sessionDate).Nodup)
    (h : chunkOf (((datesOf .expectedPublished (inOrder answer)).drop (k * size)).take size) =
      some c) :
    countBetween answer .waitingForPublication c.start c.end =
      waitingRanked answer (k * size) (k * size + c.sessionDates.length) := by
  obtain ⟨hfirst, hlast, -, hpos, hstart, hend⟩ := chunkOf_slice h
  have hstrict : (datesOf .expectedPublished (inOrder answer)).Pairwise (· < ·) :=
    datesOf_strict honce
  refine List.countP_congr fun check hcheck => ?_
  simp only [Bool.and_eq_true, decide_eq_true_eq]
  refine and_congr_right fun hwaiting => ?_
  have hrank : publishedBefore answer check.sessionDate =
      (datesOf .expectedPublished (inOrder answer)).countP
        fun d => decide (d < check.sessionDate) :=
    (countP_datesOf .expectedPublished fun d => decide (d < check.sessionDate)).symm
  have hne := fun {d} => waiting_not_published honce hcheck hwaiting (d := d)
  have hlow : c.start ≤ check.sessionDate ↔ k * size < publishedBefore answer check.sessionDate := by
    rw [hrank, lt_countP_iff hstrict _ hfirst, hstart]
    exact ⟨fun hle => lt_of_le_of_ne hle (hne (List.getElem_mem _)), le_of_lt⟩
  have hhigh : check.sessionDate ≤ c.end ↔
      publishedBefore answer check.sessionDate < k * size + c.sessionDates.length := by
    have hlt := lt_countP_iff hstrict check.sessionDate hlast
    rw [← hrank, ← hend] at hlt
    rw [← not_lt, ← hlt]
    omega
  rw [hlow, hhigh]

/-- **The range of a chunk spans its own sessions and the waiting dates ranked inside it.** -/
theorem slice_span (honce : (answer.map SessionCheck.sessionDate).Nodup)
    (h : chunkOf (((datesOf .expectedPublished (inOrder answer)).drop (k * size)).take size) =
      some c) :
    (sessionsBetween answer c.start c.end).length =
      c.sessionDates.length +
        waitingRanked answer (k * size) (k * size + c.sessionDates.length) := by
  rw [length_sessionsBetween honce, countBetween_published honce h, countBetween_waiting honce h]

end Span

/-! ### Chunks within the limit -/

section Fits

variable {answer : List SessionCheck}

theorem publishedCount_eq (answer : List SessionCheck) :
    (datesOf .expectedPublished (inOrder answer)).length = publishedCount answer := by
  rw [← List.countP_true, countP_datesOf]
  exact List.countP_congr fun c _ => by rw [Bool.and_true]

/-- No waiting date is ranked between two bounds. -/
private theorem waitingRanked_eq_zero {low high : ℕ} : waitingRanked answer low high = 0 ↔
    ∀ check ∈ answer, check.expectation = .waitingForPublication →
      low < publishedBefore answer check.sessionDate →
      high ≤ publishedBefore answer check.sessionDate := by
  rw [waitingRanked, List.countP_eq_zero]
  simp only [Bool.and_eq_true, decide_eq_true_eq, not_and, not_lt]

/-- The chunks span no more sessions than the limit exactly when no waiting date is ranked
inside a full chunk, and those inside the last one fit into it. -/
theorem spans_iff (hsize : 0 < size) :
    (∀ k, k * size < publishedCount answer →
      min size (publishedCount answer - k * size) + waitingRanked answer (k * size)
        (k * size + min size (publishedCount answer - k * size)) ≤ size) ↔
    (∀ check ∈ answer, check.expectation = .waitingForPublication →
      publishedBefore answer check.sessionDate < publishedCount answer / size * size →
      publishedBefore answer check.sessionDate % size = 0) ∧
    publishedCount answer % size + waitingRanked answer (publishedCount answer / size * size)
      (publishedCount answer) ≤ size := by
  set m := publishedCount answer with hm
  have hdiv : m / size * size + m % size = m := Nat.div_add_mod' m size
  have hmod : m % size < size := Nat.mod_lt m hsize
  constructor
  · intro hall
    refine ⟨fun check hcheck hwaiting hbefore => ?_, ?_⟩
    · -- The chunk with the rank of the date is full, and has no room for it.
      set r := publishedBefore answer check.sessionDate
      have hk := hall (r / size) (lt_of_le_of_lt (Nat.div_mul_le_self r size) (by omega))
      have hr : r / size * size + r % size = r := Nat.div_add_mod' r size
      have hrmod : r % size < size := Nat.mod_lt r hsize
      have hfull : r / size * size + size ≤ m / size * size := by
        rw [← Nat.succ_mul]
        exact Nat.mul_le_mul_right size ((Nat.div_lt_iff_lt_mul hsize).mpr hbefore)
      rw [min_eq_left (by omega)] at hk
      by_contra hne
      have hnone : waitingRanked answer (r / size * size) (r / size * size + size) = 0 := by omega
      have hout := waitingRanked_eq_zero.mp hnone check hcheck hwaiting (by omega)
      omega
    · rcases Nat.eq_zero_or_pos (m % size) with hzero | hpos
      · rw [waitingRanked_eq_zero.mpr fun check _ _ hlt => by omega]
        omega
      · have hk := hall (m / size) (by omega)
        rw [min_eq_right (by omega), show m - m / size * size = m % size by omega, hdiv] at hk
        exact hk
  · rintro ⟨hfull, hlast⟩ k hk
    by_cases hle : k * size + size ≤ m
    · have hnone : waitingRanked answer (k * size) (k * size + size) = 0 := by
        refine waitingRanked_eq_zero.mpr fun check hcheck hwaiting hlow => ?_
        by_contra hhigh
        have hkm : (k + 1) * size ≤ m / size * size :=
          Nat.mul_le_mul_right size ((Nat.le_div_iff_mul_le hsize).mpr (by
            rw [Nat.succ_mul]
            exact hle))
        rw [Nat.succ_mul] at hkm
        have hzero := hfull check hcheck hwaiting (by omega)
        obtain ⟨q, hq⟩ := Nat.dvd_of_mod_eq_zero hzero
        have hlt : k * size < q * size := by rw [Nat.mul_comm q size]; omega
        have hlt' : q * size < (k + 1) * size := by
          rw [Nat.succ_mul, Nat.mul_comm q size]
          omega
        have := Nat.lt_of_mul_lt_mul_right hlt
        have := Nat.lt_of_mul_lt_mul_right hlt'
        omega
      rw [min_eq_left (by omega), hnone]
      omega
    · have hkm : k = m / size := (Nat.div_eq_of_lt_le (by omega) (by
        rw [Nat.succ_mul]
        omega)).symm
      subst hkm
      rw [min_eq_right (by omega), show m - m / size * size = m % size by omega, hdiv]
      exact hlast

end Fits

end RecoveryPlanner

/-! ### The jobs of a dispatch -/

namespace Dispatch

open RecoveryPlanner

/-- What the calendar answers for the pending range; nothing, if nothing is pending or there is
no answer. -/
def pendingAnswer (calendar : Calendar) (args : DispatchArgs) : List SessionCheck :=
  match startDate (args.limits.getD .default) args.lastCompletedSession args.today with
  | .error _ => []
  | .ok first =>
    if args.today < first then []
    else (calendar args.assetClass args.venue args.mic first args.today).toOption.getD []

/-- The configured size of a chunk. -/
def sessionLimit (args : DispatchArgs) : ℤ := (args.limits.getD .default).maxSessionsPerChunk

/-- Every job that the dispatch enqueues, whatever the tables, has a cursor whose range contains
at most as many sessions as the limit. -/
def Bounded (calendar : Calendar) (args : DispatchArgs) : Prop :=
  ∀ (db : Db) (l : Session) (r : Except PyError DispatchResult) (db' : Db) (l' : Session),
    (planAndEnqueue calendar args).Executes semantics db l r db' l' →
    ∀ j ∈ db'.jobs.rows, j ∉ db.jobs.rows → ∃ c, FetchCursor.parse j.cursor = .ok c ∧
      ((sessionsBetween (pendingAnswer calendar args) c.start c.end).length : ℤ) ≤
        sessionLimit args

variable {calendar : Calendar} {args : DispatchArgs} {plan : RecoveryPlan}

/-- A plan is made of the pending answer. -/
theorem plan_pending (hsize : 1 ≤ sessionLimit args) (h : planOf calendar args = .ok plan) :
    chunks (sessionLimit args)
        (datesOf .expectedPublished (inOrder (pendingAnswer calendar args))) = .ok plan.chunks ∧
      plan.waitingForPublication =
        datesOf .waitingForPublication (inOrder (pendingAnswer calendar args)) := by
  obtain ⟨start, hstart, ⟨hlt, rfl⟩ | ⟨hle, answer, cs, hcall, hchunks, rfl⟩⟩ := plan_cases h
  · have hnone : pendingAnswer calendar args = [] := by
      rw [pendingAnswer, hstart]
      exact if_pos hlt
    obtain ⟨cs, hcs, -⟩ := chunks_eq (sessionLimit args) hsize []
    obtain rfl := chunks_nil hcs
    rw [hnone]
    exact ⟨hcs, rfl⟩
  · have hanswer : pendingAnswer calendar args = answer := by
      rw [pendingAnswer, hstart]
      simp only [if_neg hle, hcall, Except.toOption, Option.getD_some]
    rw [hanswer]
    exact ⟨hchunks, rfl⟩

/-- Without a plan there is no pending answer, or it could not be cut into chunks. -/
theorem pendingAnswer_of_error (hsize : 1 ≤ sessionLimit args) {e : PyError}
    (h : planOf calendar args = .error e) : pendingAnswer calendar args = [] := by
  rw [pendingAnswer]
  cases hstart : startDate (args.limits.getD .default) args.lastCompletedSession args.today with
  | error _ => rfl
  | ok first =>
      by_cases hlt : args.today < first
      · exact if_pos hlt
      · cases hcall : calendar args.assetClass args.venue args.mic first args.today with
        | error _ => simp only [if_neg hlt, hcall, Except.toOption, Option.getD_none]
        | ok answer =>
            obtain ⟨cs, hcs, -⟩ := chunks_eq (sessionLimit args) hsize
              (datesOf .expectedPublished (inOrder answer))
            have hplan := plan_of_answer hstart hlt hcall hcs
            exact absurd (h.symm.trans hplan) (by simp)

/-- The job of a range has a cursor with the dates of the range. -/
theorem IsJobOf.parse_cursor {range : PlannedRange} {j : Job} (h : IsJobOf args range j) :
    FetchCursor.parse j.cursor = .ok ((cursor args.series range).map Json.ofText) := by
  obtain ⟨id, createdAt, rfl⟩ := h
  have hcursor : FetchCursor.parse (some (cursor args.series range).serialize) =
      .ok ((cursor args.series range).map Json.ofText) := FetchCursor.parse_serialize _
  split <;> exact hcursor

/-- The jobs of a dispatch are bounded exactly when the ranges of its plan are. -/
theorem bounded_iff_ranges (hplan : planOf calendar args = .ok plan) :
    Bounded calendar args ↔ ∀ range ∈ plan.ranges,
      ((sessionsBetween (pendingAnswer calendar args) range.start range.end).length : ℤ) ≤
        sessionLimit args := by
  constructor
  · intro hbounded range hr
    -- On empty tables every key is free.
    obtain ⟨r, db', l', h⟩ := Prog.exists_executes semantics
      (planAndEnqueue calendar args).run ⟨Table.empty, Table.empty, Table.empty⟩ Session.new
    obtain ⟨-, result, -, -, henq⟩ := planAndEnqueue_executes hplan h
    obtain ⟨j, hj, hjob⟩ := henq.job_of_free hr fun j hj => absurd hj List.not_mem_nil
    obtain ⟨c, hc, hspan⟩ := hbounded _ _ _ _ _ h j hj List.not_mem_nil
    obtain rfl := Except.ok.inj (hjob.parse_cursor.symm.trans hc)
    exact hspan
  · intro hranges db l r db' l' h j hj hnew
    obtain ⟨-, result, -, -, henq⟩ := planAndEnqueue_executes hplan h
    obtain ⟨new, hrows, hjobs⟩ := henq.adds
    rw [hrows] at hj
    rcases List.mem_append.mp hj with hold | hj
    · exact absurd hold hnew
    · obtain ⟨range, hr, hjob, -⟩ := hjobs j hj
      exact ⟨_, hjob.parse_cursor, hranges range hr⟩

/-- The chunks of a plan, by the indices of their slices. -/
theorem mem_plan_chunks (hsize : 1 ≤ sessionLimit args) (h : planOf calendar args = .ok plan)
    {c : RecoveryChunk} :
    c ∈ plan.chunks ↔ ∃ k, k * (sessionLimit args).toNat <
        publishedCount (pendingAnswer calendar args) ∧
      chunkOf (((datesOf .expectedPublished (inOrder (pendingAnswer calendar args))).drop
        (k * (sessionLimit args).toNat)).take (sessionLimit args).toNat) = some c := by
  have hchunks := (plan_pending hsize h).1
  rw [chunks, if_neg (by omega), if_neg (by omega)] at hchunks
  rw [← Except.ok.inj hchunks, List.mem_filterMap, ← publishedCount_eq]
  constructor
  · rintro ⟨group, hgroup, hc⟩
    obtain ⟨k, hk, rfl⟩ := (mem_slices_iff (by omega)).mp hgroup
    exact ⟨k, hk, hc⟩
  · rintro ⟨k, hk, hc⟩
    exact ⟨_, (mem_slices_iff (by omega)).mpr ⟨k, hk, rfl⟩, hc⟩

/-- The ranges of the chunks span no more sessions than the limit exactly when the waiting dates
fit among the published ones. -/
theorem chunk_spans_iff (hsize : 1 ≤ sessionLimit args)
    (honce : ((pendingAnswer calendar args).map SessionCheck.sessionDate).Nodup)
    (h : planOf calendar args = .ok plan) :
    (∀ c ∈ plan.chunks, (sessionsBetween (pendingAnswer calendar args) c.start c.end).length ≤
        (sessionLimit args).toNat) ↔
      ∀ k, k * (sessionLimit args).toNat < publishedCount (pendingAnswer calendar args) →
        min (sessionLimit args).toNat
            (publishedCount (pendingAnswer calendar args) - k * (sessionLimit args).toNat) +
          waitingRanked (pendingAnswer calendar args) (k * (sessionLimit args).toNat)
            (k * (sessionLimit args).toNat + min (sessionLimit args).toNat
              (publishedCount (pendingAnswer calendar args) - k * (sessionLimit args).toNat)) ≤
          (sessionLimit args).toNat := by
  have hlength : ∀ {k : ℕ} {c : RecoveryChunk},
      chunkOf (((datesOf .expectedPublished (inOrder (pendingAnswer calendar args))).drop
        (k * (sessionLimit args).toNat)).take (sessionLimit args).toNat) = some c →
      c.sessionDates.length = min (sessionLimit args).toNat
        (publishedCount (pendingAnswer calendar args) - k * (sessionLimit args).toNat) := by
    intro k c hc
    obtain ⟨-, -, hdates, -⟩ := chunkOf_slice hc
    rw [hdates, List.length_take, List.length_drop, publishedCount_eq]
  constructor
  · intro hspans k hk
    obtain ⟨c, hc⟩ : ∃ c, chunkOf (((datesOf .expectedPublished
        (inOrder (pendingAnswer calendar args))).drop (k * (sessionLimit args).toNat)).take
          (sessionLimit args).toNat) = some c := by
      have hne := (slice_length (by omega) ((mem_slices_iff (by omega)).mpr
        ⟨k, publishedCount_eq (pendingAnswer calendar args) ▸ hk, rfl⟩)).1
      obtain ⟨d, rest, hgroup⟩ := List.exists_cons_of_ne_nil hne
      exact ⟨_, by rw [hgroup]; rfl⟩
    have hspan := hspans c ((mem_plan_chunks hsize h).mpr ⟨k, hk, hc⟩)
    rw [slice_span honce hc, hlength hc] at hspan
    exact hspan
  · intro hall c hc
    obtain ⟨k, hk, hc⟩ := (mem_plan_chunks hsize h).mp hc
    rw [slice_span honce hc, hlength hc]
    exact hall k hk

/-- The range of the waiting dates spans no more sessions than the limit exactly when no two of
them do. -/
theorem waiting_span_iff {answer : List SessionCheck} {size : ℕ}
    (hwaiting : plan.waitingForPublication = datesOf .waitingForPublication (inOrder answer)) :
    (∀ range, plan.waitingRange = some range →
        (sessionsBetween answer range.start range.end).length ≤ size) ↔
      ∀ check ∈ answer, ∀ check' ∈ answer, check.expectation = .waitingForPublication →
        check'.expectation = .waitingForPublication →
        (sessionsBetween answer check.sessionDate check'.sessionDate).length ≤ size := by
  have hsorted : plan.waitingForPublication.Pairwise (· ≤ ·) :=
    hwaiting ▸ datesOf_pairwise (inOrder_pairwise answer)
  have hmem : ∀ {d : Date}, d ∈ plan.waitingForPublication ↔ ⟨d, .waitingForPublication⟩ ∈ answer :=
    fun {d} => by rw [hwaiting, mem_datesOf]
  constructor
  · intro hspan check hcheck check' hcheck' hexp hexp'
    have hd : check.sessionDate ∈ plan.waitingForPublication := hmem.mpr (hexp ▸ hcheck)
    have hd' : check'.sessionDate ∈ plan.waitingForPublication := hmem.mpr (hexp' ▸ hcheck')
    have hne := List.ne_nil_of_mem hd
    have hrange : plan.waitingRange = some ⟨true, plan.waitingForPublication.head hne,
        plan.waitingForPublication.getLast hne⟩ := by
      obtain ⟨first, rest, hdates⟩ := List.exists_cons_of_ne_nil hne
      simp only [RecoveryPlan.waitingRange, hdates, List.head_cons]
    exact (sessionsBetween_mono (mem_bounds hsorted hd hne).1
      (mem_bounds hsorted hd' hne).2).trans (hspan _ hrange)
  · intro hspan range hrange
    obtain ⟨hne, rfl⟩ := mem_waitingRange hrange
    exact hspan _ (hmem.mp (List.head_mem hne)) _ (hmem.mp (List.getLast_mem hne)) rfl rfl

/-- The ranges of a plan are those of its chunks and that of its waiting dates. -/
theorem forall_ranges_iff (P : Date → Date → Prop) :
    (∀ range ∈ plan.ranges, P range.start range.end) ↔
      (∀ c ∈ plan.chunks, P c.start c.end) ∧
        ∀ range, plan.waitingRange = some range → P range.start range.end := by
  constructor
  · intro h
    refine ⟨fun c hc => ?_, fun range hr => ?_⟩
    · exact h c.range (List.mem_append_left _ (List.mem_map_of_mem hc))
    · exact h range (List.mem_append_right _ (Option.mem_toList.mpr hr))
  · rintro ⟨hchunks, hwaiting⟩ range hr
    rcases List.mem_append.mp hr with hr | hr
    · obtain ⟨c, hc, rfl⟩ := List.mem_map.mp hr
      exact hchunks c hc
    · exact hwaiting range (Option.mem_toList.mp hr)

/-- A dispatch without a plan enqueues nothing. -/
theorem bounded_of_error {e : PyError} (h : planOf calendar args = .error e) :
    Bounded calendar args := by
  intro db l r db' l' hrun j hj hnew
  have hthrow : planAndEnqueue calendar args = throw e := by
    rw [planAndEnqueue, h]
    rfl
  rw [hthrow] at hrun
  obtain ⟨-, rfl, -⟩ := Script.executes_throw.mp hrun
  exact absurd hj hnew

end Dispatch

/-- **The jobs of a dispatch are bounded exactly when** the waiting dates of the pending answer
fit: none lies inside a full chunk of published dates, those inside the last chunk fit into it,
and no two of them span more sessions than the limit. -/
theorem dispatch_bounded_iff {calendar : Calendar} {args : DispatchArgs}
    (hsize : 1 ≤ Dispatch.sessionLimit args)
    (honce : ((Dispatch.pendingAnswer calendar args).map SessionCheck.sessionDate).Nodup) :
    Dispatch.Bounded calendar args ↔
      WaitingFits (Dispatch.pendingAnswer calendar args) (Dispatch.sessionLimit args).toNat := by
  cases hplan : Dispatch.planOf calendar args with
  | error e =>
      rw [Dispatch.pendingAnswer_of_error hsize hplan]
      refine iff_of_true (Dispatch.bounded_of_error hplan) ⟨?_, ?_, ?_⟩
      · exact fun check hcheck => absurd hcheck List.not_mem_nil
      · rw [show publishedCount [] = 0 from rfl, show ∀ low, waitingRanked [] low 0 = 0 from
          fun low => rfl, Nat.zero_mod]
        exact Nat.zero_le _
      · exact fun check hcheck => absurd hcheck List.not_mem_nil
  | ok plan =>
      simp only [Dispatch.bounded_iff_ranges hplan,
        ← Int.le_toNat (show 0 ≤ Dispatch.sessionLimit args by omega)]
      rw [Dispatch.forall_ranges_iff fun first final =>
          (sessionsBetween (Dispatch.pendingAnswer calendar args) first final).length ≤
            (Dispatch.sessionLimit args).toNat,
        Dispatch.chunk_spans_iff hsize honce hplan, RecoveryPlanner.spans_iff (by omega),
        Dispatch.waiting_span_iff (Dispatch.plan_pending hsize hplan).2]
      constructor
      · rintro ⟨⟨hfull, hlast⟩, hspan⟩
        exact ⟨hfull, hlast, hspan⟩
      · rintro ⟨hfull, hlast, hspan⟩
        exact ⟨⟨hfull, hlast⟩, hspan⟩

/-- A dispatch from Thursday to Monday, with two sessions a job. -/
def mondaysDispatch : DispatchArgs :=
  { todaysDispatch with
    limits := some ⟨4, 2⟩
    assetClass := .fund
    today := ⟨739621, by decide, by decide⟩ }

/-- A dispatch from Monday to Friday, with two sessions a job. -/
def fridaysDispatch : DispatchArgs := { mondaysDispatch with today := today }

/-- The jobs of the published sessions and the one of the waiting Friday after them are bounded. -/
theorem dispatch_bounded_friday : Dispatch.Bounded fundCalendar fridaysDispatch ∧
    (⟨today, .waitingForPublication⟩ : SessionCheck) ∈
      Dispatch.pendingAnswer fundCalendar fridaysDispatch := by
  have hanswer : Dispatch.pendingAnswer fundCalendar fridaysDispatch =
      [⟨⟨739614, by decide, by decide⟩, .expectedPublished⟩,
        ⟨⟨739615, by decide, by decide⟩, .expectedPublished⟩,
        ⟨⟨739616, by decide, by decide⟩, .expectedPublished⟩,
        ⟨⟨739617, by decide, by decide⟩, .expectedPublished⟩,
        ⟨today, .waitingForPublication⟩] := by decide +kernel
  refine ⟨(dispatch_bounded_iff (by decide) (by rw [hanswer]; decide)).mpr ?_, ?_⟩
  · rw [hanswer]
    exact ⟨by decide +kernel, by decide +kernel, by decide +kernel⟩
  · rw [hanswer]
    decide

/-- **A job can span more sessions than the limit**: the chunk of Thursday and Monday, with the
waiting Friday between them. -/
theorem dispatch_unbounded :
    ¬ ∀ (calendar : Calendar) (args : DispatchArgs), 1 ≤ Dispatch.sessionLimit args →
      ((Dispatch.pendingAnswer calendar args).map SessionCheck.sessionDate).Nodup →
      Dispatch.Bounded calendar args := by
  intro hall
  let thursday : Date := ⟨739617, by decide, by decide⟩
  have hbounded := hall fundCalendar mondaysDispatch (by decide) (by decide +kernel)
  have hplan : Dispatch.planOf fundCalendar mondaysDispatch =
      .ok ⟨[⟨thursday, mondaysDispatch.today, [thursday, mondaysDispatch.today]⟩], [today],
        [⟨739619, by decide, by decide⟩, ⟨739620, by decide, by decide⟩], none⟩ := by
    decide +kernel
  have hspan := (Dispatch.bounded_iff_ranges hplan).mp hbounded
    ⟨false, thursday, mondaysDispatch.today⟩ (by decide)
  have hthree : (sessionsBetween (Dispatch.pendingAnswer fundCalendar mondaysDispatch) thursday
      mondaysDispatch.today).length = 3 := by decide +kernel
  rw [hthree] at hspan
  exact absurd hspan (by decide)

end MarketRelay
