import Mathlib.Data.List.TakeWhile
import MarketRelay.Planning

/-!
# A Plan Partitions the Pending Range

The pending range starts after the last completed session, or at the configured age limit if
that is later, and ends today. Given a calendar that classifies each of its dates once, in any
order, a plan distributes the dates over its chunks, its waiting dates and its skipped dates:
nothing is lost, nothing is planned twice, and the chunks are full but for the last one.

Date arithmetic is partial. When the age limit, or the day after the last completed session, is
not a representable date, there is no plan.

## Main results

* `slices_cons`: one step of the slicing.
* `plan_partition`: when there is a plan, and that it is a partition.
* `plan_overflow`: a last completed session after which there is no plan.
-/

open Gregorian

namespace MarketRelay

namespace RecoveryPlanner

/-! ### Slices -/

section Slices

variable {α : Type} {size : ℕ} {xs : List α}

@[simp] theorem slices_nil (hsize : 0 < size) : slices size ([] : List α) = [] := by
  rw [slices, List.length_nil, Nat.div_eq_of_lt (by omega)]
  rfl

/-- The first slice, and the slices of what is left. -/
theorem slices_cons (hsize : 0 < size) (hxs : xs ≠ []) :
    slices size xs = xs.take size :: slices size (xs.drop size) := by
  have hlen : 0 < xs.length := List.length_pos_iff.mpr hxs
  have hcount : (xs.length + size - 1) / size = (xs.length - size + size - 1) / size + 1 := by
    rcases Nat.lt_or_ge xs.length size with hlt | hge
    · have hone : (xs.length + size - 1) / size = 1 :=
        Nat.div_eq_of_lt_le (by omega) (by omega)
      have hzero : (xs.length - size + size - 1) / size = 0 := Nat.div_eq_of_lt (by omega)
      omega
    · have hshift : xs.length + size - 1 = (xs.length - size + size - 1) + size := by omega
      rw [hshift, Nat.add_div_right _ hsize]
  rw [slices, hcount, List.range_succ_eq_map, List.map_cons, List.map_map, slices,
    List.length_drop]
  refine congrArg₂ _ (by simp) (List.map_congr_left fun k _ => ?_)
  rw [Function.comp_apply, List.drop_drop, Nat.succ_mul, Nat.add_comm]

/-- **The slices together are the list.** -/
theorem slices_flatten (hsize : 0 < size) (xs : List α) : (slices size xs).flatten = xs := by
  induction hn : xs.length using Nat.strongRecOn generalizing xs with
  | ind n ih =>
      rcases eq_or_ne xs [] with rfl | hxs
      · simp [hsize]
      · have hlen : 0 < xs.length := List.length_pos_iff.mpr hxs
        rw [slices_cons hsize hxs, List.flatten_cons,
          ih (xs.drop size).length (by rw [List.length_drop]; omega) _ rfl, List.take_append_drop]

/-- A slice is not empty and not too long. -/
theorem slice_length (hsize : 0 < size) {s : List α} (hs : s ∈ slices size xs) :
    s ≠ [] ∧ s.length ≤ size := by
  induction hn : xs.length using Nat.strongRecOn generalizing xs with
  | ind n ih =>
      rcases eq_or_ne xs [] with rfl | hxs
      · exact absurd hs (by simp [hsize])
      · have hlen : 0 < xs.length := List.length_pos_iff.mpr hxs
        rw [slices_cons hsize hxs] at hs
        rcases List.mem_cons.mp hs with rfl | hs
        · exact ⟨by simpa [Nat.pos_iff_ne_zero.mp hsize] using hxs, List.length_take_le _ _⟩
        · exact ih (xs.drop size).length (by rw [List.length_drop]; omega) hs rfl

/-- Every slice but the last one is full. -/
theorem slice_full (hsize : 0 < size) {s : List α} (hs : s ∈ (slices size xs).dropLast) :
    s.length = size := by
  induction hn : xs.length using Nat.strongRecOn generalizing xs with
  | ind n ih =>
      rcases eq_or_ne xs [] with rfl | hxs
      · exact absurd hs (by simp [hsize])
      · have hlen : 0 < xs.length := List.length_pos_iff.mpr hxs
        rw [slices_cons hsize hxs] at hs
        rcases eq_or_ne (xs.drop size) [] with hrest | hrest
        · exact absurd hs (by simp [hrest, hsize])
        · have hmore : size < xs.length := by
            have := List.length_pos_iff.mpr hrest
            rw [List.length_drop] at this
            omega
          have hne : slices size (xs.drop size) ≠ [] := by simp [slices_cons hsize hrest]
          rw [List.dropLast_cons_of_ne_nil hne] at hs
          rcases List.mem_cons.mp hs with rfl | hs
          · rw [List.length_take]
            omega
          · exact ih (xs.drop size).length (by rw [List.length_drop]; omega) hs rfl

end Slices

/-! ### Chunks -/

/-- The chunks are the slices, with their first and last dates. -/
theorem chunks_eq (size : ℤ) (hsize : 1 ≤ size) (expected : List Date) :
    ∃ cs, chunks size expected = .ok cs ∧
      cs.map RecoveryChunk.sessionDates = slices size.toNat expected ∧
      ∀ c ∈ cs, c.sessionDates.head? = some c.start ∧ c.sessionDates.getLast? = some c.end := by
  have hnat : 0 < size.toNat := by omega
  have hok : chunks size expected = .ok ((slices size.toNat expected).filterMap chunkOf) := by
    rw [chunks, if_neg (by omega), if_neg (by omega)]
  refine ⟨_, hok, ?_, fun c hc => ?_⟩
  · have hchunk : ∀ group ∈ slices size.toNat expected,
        (chunkOf group).map RecoveryChunk.sessionDates = some group := by
      intro group hgroup
      cases group with
      | nil => exact absurd rfl (slice_length hnat hgroup).1
      | cons d rest => rfl
    rw [List.map_filterMap, List.filterMap_congr hchunk, List.filterMap_some]
  · obtain ⟨group, -, hchunk⟩ := List.mem_filterMap.mp hc
    cases group with
    | nil => exact absurd hchunk (by simp [chunkOf])
    | cons d rest =>
        obtain rfl := Option.some.inj hchunk
        exact ⟨rfl, List.getLast?_eq_some_getLast _⟩

/-! ### The cursor -/

/-- The cursor is the last completed session, or a skipped date. -/
theorem nextCursor_cases (last : Option Date) (checks : List SessionCheck) :
    nextCursor last checks = last ∨
      ∃ check ∈ checks, nextCursor last checks = some check.sessionDate := by
  rw [nextCursor]
  cases h : (checks.takeWhile fun c => decide (c.expectation = .noSession)).getLast? with
  | none => exact Or.inl rfl
  | some check =>
      exact Or.inr ⟨check, (List.takeWhile_prefix _).subset (List.mem_of_getLast? h), rfl⟩

/-- A cursor that has moved is before every date of strictly sorted checks that needs data. -/
theorem nextCursor_lt {last : Option Date} {checks : List SessionCheck}
    (hsorted : (checks.map SessionCheck.sessionDate).Pairwise (· < ·)) {check : SessionCheck}
    (hcheck : check ∈ checks) (hdata : check.expectation ≠ .noSession) {n : Date}
    (hn : nextCursor last checks = some n) : n < check.sessionDate ∨ last = some n := by
  let skipped : SessionCheck → Bool := fun c => decide (c.expectation = .noSession)
  rw [nextCursor] at hn
  cases h : (checks.takeWhile skipped).getLast? with
  | none =>
      rw [show (checks.takeWhile fun c => decide (c.expectation = .noSession)).getLast? = none
        from h] at hn
      exact Or.inr hn
  | some final =>
      rw [show (checks.takeWhile fun c => decide (c.expectation = .noSession)).getLast? = some final
        from h] at hn
      obtain rfl : final.sessionDate = n := Option.some.inj hn
      have hfinal : final ∈ checks.takeWhile skipped := List.mem_of_getLast? h
      have hrest : check ∈ checks.dropWhile skipped := by
        rw [← List.takeWhile_append_dropWhile (p := skipped) (l := checks)] at hcheck
        rcases List.mem_append.mp hcheck with hmem | hmem
        · have hskip : skipped check = true := List.mem_takeWhile_imp hmem
          exact absurd (of_decide_eq_true hskip) hdata
        · exact hmem
      rw [List.pairwise_map, ← List.takeWhile_append_dropWhile (p := skipped) (l := checks),
        List.pairwise_append] at hsorted
      exact Or.inl (hsorted.2.2 final hfinal check hrest)

/-! ### The pending range -/

/-- The day number with which the pending range starts. -/
def pendingFrom (limits : RecoveryLimits) (last : Option Date) (today : Date) : ℤ :=
  match last with
  | none => today.ordinal - limits.maxLookbackDays
  | some last => max (last.ordinal + 1) (today.ordinal - limits.maxLookbackDays)

/-- The age limit, and the day after the last completed session, are representable dates. -/
def Representable (limits : RecoveryLimits) (last : Option Date) (today : Date) : Prop :=
  (∃ earliest, today.addDays (-limits.maxLookbackDays) = some earliest) ∧
    ∀ l ∈ last, ∃ next, l.addDays 1 = some next

variable {limits : RecoveryLimits} {last : Option Date} {today : Date}

/-- The pending range starts where it should, if that is a date. -/
theorem startDate_eq (h : Representable limits last today) :
    ∃ first, startDate limits last today = .ok first ∧
      (first.ordinal : ℤ) = pendingFrom limits last today := by
  obtain ⟨⟨earliest, hearliest⟩, hnext⟩ := h
  have hday := Date.addDays_eq_some_iff.mp hearliest
  cases last with
  | none =>
      refine ⟨earliest, ?_, by rw [hday, pendingFrom]; omega⟩
      rw [startDate, hearliest]
      rfl
  | some l =>
      obtain ⟨next, hl⟩ := hnext l rfl
      have hnextDay := Date.addDays_eq_some_iff.mp hl
      refine ⟨max next earliest, ?_, ?_⟩
      · rw [startDate, hearliest]
        simp only [hl]
        rfl
      · rw [pendingFrom]
        rcases le_total next earliest with hle | hle
        · rw [max_eq_right hle]
          have := Date.le_def.mp hle
          omega
        · rw [max_eq_left hle]
          have := Date.le_def.mp hle
          omega

/-- Without these dates there is no plan. -/
theorem startDate_eq_error (h : ¬ Representable limits last today) :
    startDate limits last today = .error .overflow := by
  rw [startDate]
  cases hearliest : today.addDays (-limits.maxLookbackDays) with
  | none => rfl
  | some earliest =>
      cases last with
      | none => exact absurd ⟨⟨earliest, hearliest⟩, fun l hl => absurd hl (by simp)⟩ h
      | some l =>
          cases hl : l.addDays 1 with
          | none => simp only [hl]; rfl
          | some next =>
              refine absurd ⟨⟨earliest, hearliest⟩, fun l' hl' => ?_⟩ h
              obtain rfl := Option.some.inj hl'
              exact ⟨next, hl⟩

end RecoveryPlanner

/-! ### Partitions -/

/-- The answer classifies each date from the day `first` to the date `final` once. -/
structure ClassifiesEach (answer : List SessionCheck) (first : ℤ) (final : Date) : Prop where
  mem_iff : ∀ d, d ∈ answer.map SessionCheck.sessionDate ↔ first ≤ d.ordinal ∧ d ≤ final
  once : (answer.map SessionCheck.sessionDate).Nodup

/-- The calendar of a classification of the dates. -/
def Calendar.ofClassification (classify : Date → SessionExpectation) : Calendar :=
  fun _ _ _ first final => .ok ((Date.interval first final).map fun d => ⟨d, classify d⟩)

/-- Its answers classify each date once. -/
theorem ClassifiesEach.of_classification (classify : Date → SessionExpectation)
    (first final : Date) :
    ClassifiesEach ((Date.interval first final).map fun d => ⟨d, classify d⟩) first.ordinal
      final := by
  have hdates : ((Date.interval first final).map fun d => (⟨d, classify d⟩ : SessionCheck)).map
      SessionCheck.sessionDate = Date.interval first final := by
    rw [List.map_map]
    exact List.map_id _
  refine ⟨fun d => ?_, ?_⟩
  · rw [hdates, Date.mem_interval, Nat.cast_le, Date.le_def]
  · rw [hdates]
    exact (Date.interval_strict first final).imp ne_of_lt

/-- The plan partitions the classified dates. -/
structure RecoveryPlan.Partitions (p : RecoveryPlan) (answer : List SessionCheck) (size : ℤ)
    (last : Option Date) : Prop where
  expected_iff : ∀ d, d ∈ p.chunks.flatMap RecoveryChunk.sessionDates ↔
    ⟨d, .expectedPublished⟩ ∈ answer
  expected_sorted : (p.chunks.flatMap RecoveryChunk.sessionDates).Pairwise (· < ·)
  waiting_iff : ∀ d, d ∈ p.waitingForPublication ↔ ⟨d, .waitingForPublication⟩ ∈ answer
  waiting_sorted : p.waitingForPublication.Pairwise (· < ·)
  skipped_iff : ∀ d, d ∈ p.skippedNoSession ↔ ⟨d, .noSession⟩ ∈ answer
  skipped_sorted : p.skippedNoSession.Pairwise (· < ·)
  chunk_length : ∀ c ∈ p.chunks, c.sessionDates ≠ [] ∧ (c.sessionDates.length : ℤ) ≤ size
  chunk_full : ∀ c ∈ p.chunks.dropLast, (c.sessionDates.length : ℤ) = size
  chunk_bounds : ∀ c ∈ p.chunks,
    c.sessionDates.head? = some c.start ∧ c.sessionDates.getLast? = some c.end
  chunks_disjoint : p.chunks.Pairwise fun a b => a.end < b.start
  cursor_ge : ∀ l ∈ last, ∃ n ∈ p.nextCursor, l ≤ n
  cursor_lt : ∀ n ∈ p.nextCursor, ∀ check ∈ answer, check.expectation ≠ .noSession →
    n < check.sessionDate

/-- A partition of no dates is an empty plan. -/
theorem RecoveryPlan.Partitions.empty {p : RecoveryPlan} {size : ℤ} {last : Option Date}
    (h : p.Partitions [] size last) :
    p.chunks = [] ∧ p.waitingForPublication = [] ∧ p.skippedNoSession = [] := by
  refine ⟨List.eq_nil_iff_forall_not_mem.mpr fun c hc => ?_,
    List.eq_nil_iff_forall_not_mem.mpr fun d hd => ?_,
    List.eq_nil_iff_forall_not_mem.mpr fun d hd => ?_⟩
  · obtain ⟨d, hd⟩ := List.exists_mem_of_ne_nil _ (h.chunk_length c hc).1
    exact absurd ((h.expected_iff d).mp (List.mem_flatMap.mpr ⟨c, hc, hd⟩)) List.not_mem_nil
  · exact absurd ((h.waiting_iff d).mp hd) List.not_mem_nil
  · exact absurd ((h.skipped_iff d).mp hd) List.not_mem_nil

section Plan

variable {calendar : Calendar} {limits : Option RecoveryLimits} {assetClass : AssetClass}
  {venue : String} {mic : Option String} {last : Option Date} {today : Date}

/-- The last completed session is before the pending range. -/
private theorem lt_pendingFrom {limits : RecoveryLimits} {l : Date} (hl : l ∈ last) :
    (l.ordinal : ℤ) < RecoveryPlanner.pendingFrom limits last today := by
  obtain rfl : last = some l := hl
  rw [RecoveryPlanner.pendingFrom]
  omega

/-- The plan of an answer that classifies the pending range is a partition of it. -/
private theorem partitions_of_answer {limits : RecoveryLimits}
    (hsize : 1 ≤ limits.maxSessionsPerChunk) {answer : List SessionCheck}
    (hanswer : ClassifiesEach answer (RecoveryPlanner.pendingFrom limits last today) today) :
    ∃ chunks, RecoveryPlanner.chunks limits.maxSessionsPerChunk
        (RecoveryPlanner.datesOf .expectedPublished (RecoveryPlanner.inOrder answer)) = .ok chunks ∧
      RecoveryPlan.Partitions
        ⟨chunks, RecoveryPlanner.datesOf .waitingForPublication (RecoveryPlanner.inOrder answer),
          RecoveryPlanner.datesOf .noSession (RecoveryPlanner.inOrder answer),
          RecoveryPlanner.nextCursor last (RecoveryPlanner.inOrder answer)⟩
        answer limits.maxSessionsPerChunk last := by
  let expected := RecoveryPlanner.datesOf .expectedPublished (RecoveryPlanner.inOrder answer)
  obtain ⟨chunks, hchunks, hdates, hbounds⟩ :=
    RecoveryPlanner.chunks_eq limits.maxSessionsPerChunk hsize expected
  have hnat : 0 < limits.maxSessionsPerChunk.toNat := by omega
  have hflat : chunks.flatMap RecoveryChunk.sessionDates = expected := by
    rw [List.flatMap_def, hdates, RecoveryPlanner.slices_flatten hnat]
  have hstart : ∀ check ∈ answer,
      RecoveryPlanner.pendingFrom limits last today ≤ check.sessionDate.ordinal := fun check hcheck =>
    ((hanswer.mem_iff _).mp (List.mem_map_of_mem hcheck)).1
  refine ⟨chunks, hchunks, ?_⟩
  exact {
    expected_iff := fun d => by rw [hflat]; exact RecoveryPlanner.mem_datesOf
    expected_sorted := by rw [hflat]; exact RecoveryPlanner.datesOf_strict hanswer.once
    waiting_iff := fun d => RecoveryPlanner.mem_datesOf
    waiting_sorted := RecoveryPlanner.datesOf_strict hanswer.once
    skipped_iff := fun d => RecoveryPlanner.mem_datesOf
    skipped_sorted := RecoveryPlanner.datesOf_strict hanswer.once
    chunk_length := fun c hc => by
      have hslice := RecoveryPlanner.slice_length hnat (hdates ▸ List.mem_map_of_mem hc)
      exact ⟨hslice.1, by omega⟩
    chunk_full := fun c hc => by
      have hmem : c.sessionDates ∈ (RecoveryPlanner.slices limits.maxSessionsPerChunk.toNat
          expected).dropLast := by
        rw [← hdates, ← List.map_dropLast]
        exact List.mem_map_of_mem hc
      have hfull := RecoveryPlanner.slice_full hnat hmem
      omega
    chunk_bounds := hbounds
    chunks_disjoint := RecoveryPlanner.chunks_pairwise hchunks
      (RecoveryPlanner.datesOf_strict hanswer.once)
    cursor_ge := fun l hl => by
      rcases RecoveryPlanner.nextCursor_cases last (RecoveryPlanner.inOrder answer) with
        h | ⟨check, hcheck, h⟩
      · exact ⟨l, h.trans hl, le_rfl⟩
      · have hlow := hstart check (RecoveryPlanner.mem_inOrder.mp hcheck)
        have hlast : (l.ordinal : ℤ) < RecoveryPlanner.pendingFrom limits last today :=
          lt_pendingFrom hl
        exact ⟨check.sessionDate, h, Date.le_def.mpr (by omega)⟩
    cursor_lt := fun n hn check hcheck hdata => by
      rcases RecoveryPlanner.nextCursor_lt (RecoveryPlanner.inOrder_strict hanswer.once)
        (RecoveryPlanner.mem_inOrder.mpr hcheck) hdata hn with h | h
      · exact h
      · have hlow := hstart check hcheck
        have hlast : (n.ordinal : ℤ) < RecoveryPlanner.pendingFrom limits last today :=
          lt_pendingFrom h
        exact Date.lt_def.mpr (by omega) }

/-- **A plan partitions the pending range**, for every calendar that classifies each of its dates
once, in any order, if the age limit and the day after the last completed session are
representable dates; otherwise planning raises, and there is no plan. -/
theorem plan_partition (hsize : 1 ≤ (limits.getD .default).maxSessionsPerChunk)
    (hcalendar : ∀ first : Date,
      (first.ordinal : ℤ) = RecoveryPlanner.pendingFrom (limits.getD .default) last today →
      first ≤ today → ∃ answer, calendar assetClass venue mic first today = .ok answer ∧
        ClassifiesEach answer first.ordinal today) :
    (RecoveryPlanner.Representable (limits.getD .default) last today →
      ∃ p answer, RecoveryPlanner.plan calendar limits assetClass venue mic last today = .ok p ∧
        (∀ first : Date,
          (first.ordinal : ℤ) = RecoveryPlanner.pendingFrom (limits.getD .default) last today →
          first ≤ today → calendar assetClass venue mic first today = .ok answer) ∧
        ClassifiesEach answer (RecoveryPlanner.pendingFrom (limits.getD .default) last today)
          today ∧
        p.Partitions answer (limits.getD .default).maxSessionsPerChunk last) ∧
    (¬ RecoveryPlanner.Representable (limits.getD .default) last today →
      RecoveryPlanner.plan calendar limits assetClass venue mic last today = .error .overflow) := by
  constructor
  · intro hrepr
    obtain ⟨first, hstart, hfirst⟩ := RecoveryPlanner.startDate_eq hrepr
    by_cases hempty : today < first
    · -- The range is empty, and the calendar is not asked.
      have hnone : ∀ d : Date, ¬ ((first.ordinal : ℤ) ≤ d.ordinal ∧ d ≤ today) := fun d hd => by
        have hle := Date.le_def.mp hd.2
        have hlt := Date.lt_def.mp hempty
        omega
      have hanswer : ClassifiesEach [] (RecoveryPlanner.pendingFrom (limits.getD .default) last
          today) today :=
        ⟨fun d => by rw [← hfirst]; exact iff_of_false List.not_mem_nil (hnone d), List.nodup_nil⟩
      obtain ⟨chunks, hchunks, hpartition⟩ := partitions_of_answer hsize hanswer
      have hnil : chunks = [] := hpartition.empty.1
      subst hnil
      refine ⟨_, [], ?_, fun first' hfirst' hle => ?_, hanswer, hpartition⟩
      · exact RecoveryPlanner.plan_of_lt hstart hempty
      · have hsame : first' = first := Date.ext (by omega)
        exact absurd (hsame ▸ hle) (not_le.mpr hempty)
    · obtain ⟨answer, hcall, hanswer⟩ := hcalendar first hfirst (not_lt.mp hempty)
      rw [hfirst] at hanswer
      obtain ⟨chunks, hchunks, hpartition⟩ := partitions_of_answer hsize hanswer
      refine ⟨_, answer, ?_, fun first' hfirst' _ => ?_, hanswer, hpartition⟩
      · exact RecoveryPlanner.plan_of_answer hstart hempty hcall hchunks
      · have hsame : first' = first := Date.ext (by omega)
        rw [hsame, hcall]
  · intro hrepr
    rw [RecoveryPlanner.plan, RecoveryPlanner.startDate_eq_error hrepr]
    rfl

end Plan

/-- A fund market: no session on weekends, and the value of a Friday still awaited. -/
def fundCalendar : Calendar := Calendar.ofClassification fun d =>
  if d.weekday ≥ 5 then .noSession
  else if d.weekday = 4 then .waitingForPublication else .expectedPublished

/-- The plan of a Saturday, for the week after the last completed session: two full chunks, the
Friday is waited for, the Saturday is skipped. -/
theorem plan_partition_week :
    let sunday : Date := ⟨739613, by decide, by decide⟩
    let saturday : Date := ⟨739619, by decide, by decide⟩
    ∃ p answer,
      RecoveryPlanner.plan fundCalendar (some ⟨7, 2⟩) .fund "X" none (some sunday) saturday =
        .ok p ∧
      ClassifiesEach answer 739614 saturday ∧ p.Partitions answer 2 (some sunday) ∧
      p.chunks.map (fun c => c.sessionDates.map Date.ordinal) =
        [[739614, 739615], [739616, 739617]] ∧
      p.waitingForPublication.map Date.ordinal = [739618] ∧
      p.skippedNoSession.map Date.ordinal = [739619] := by
  intro sunday saturday
  have hrepr : RecoveryPlanner.Representable ⟨7, 2⟩ (some sunday) saturday := by
    refine ⟨⟨⟨739612, by decide, by decide⟩, by decide⟩,
      fun l hl => ⟨⟨739614, by decide, by decide⟩, ?_⟩⟩
    obtain rfl := Option.some.inj hl
    decide
  have hcalendar : ∀ first : Date, (first.ordinal : ℤ) = RecoveryPlanner.pendingFrom
      ((some (⟨7, 2⟩ : RecoveryLimits)).getD .default) (some sunday) saturday →
      first ≤ saturday → ∃ answer, fundCalendar .fund "X" none first saturday = .ok answer ∧
        ClassifiesEach answer first.ordinal saturday :=
    fun first _ _ => ⟨_, rfl, ClassifiesEach.of_classification _ first saturday⟩
  have hsize : 1 ≤ ((some (⟨7, 2⟩ : RecoveryLimits)).getD .default).maxSessionsPerChunk := by decide
  obtain ⟨p, answer, hplan, -, heach, hpartition⟩ := (plan_partition hsize hcalendar).1 hrepr
  have hpending : RecoveryPlanner.pendingFrom ((some (⟨7, 2⟩ : RecoveryLimits)).getD .default)
      (some sunday) saturday = 739614 := by decide
  have hweek : (RecoveryPlanner.plan fundCalendar (some ⟨7, 2⟩) .fund "X" none (some sunday)
      saturday).toOption.any (fun p => decide (
        p.chunks.map (fun c => c.sessionDates.map Date.ordinal) =
          [[739614, 739615], [739616, 739617]] ∧
        p.waitingForPublication.map Date.ordinal = [739618] ∧
        p.skippedNoSession.map Date.ordinal = [739619])) = true := by decide +kernel
  rw [hplan] at hweek
  exact ⟨p, answer, hplan, hpending ▸ heach, hpartition, of_decide_eq_true hweek⟩

/-- **There is no plan after the last representable date**, although nothing is pending. -/
theorem plan_overflow :
    ¬ ∀ (calendar : Calendar) (limits : RecoveryLimits) (assetClass : AssetClass) (venue : String)
      (mic : Option String) (last : Option Date) (today : Date),
      0 ≤ limits.maxLookbackDays → 1 ≤ limits.maxSessionsPerChunk →
      (∀ first : Date, (first.ordinal : ℤ) = RecoveryPlanner.pendingFrom limits last today →
        first ≤ today → ∃ answer, calendar assetClass venue mic first today = .ok answer ∧
          ClassifiesEach answer first.ordinal today) →
      ∃ p answer, RecoveryPlanner.plan calendar (some limits) assetClass venue mic last today =
          .ok p ∧ ClassifiesEach answer (RecoveryPlanner.pendingFrom limits last today) today ∧
        p.Partitions answer limits.maxSessionsPerChunk last := by
  intro hall
  let final : Date := ⟨maxOrdinal, by decide, le_rfl⟩
  obtain ⟨p, -, hplan, -⟩ := hall (fun _ _ _ _ _ => .ok []) .default .crypto "X" none (some final)
    ⟨739618, by decide, by decide⟩ (by decide) (by decide) (fun first hfirst _ => by
      have hmax := first.le_max
      have hlow : (final.ordinal : ℤ) + 1 ≤ first.ordinal := hfirst ▸ le_max_left _ _
      have hday : final.ordinal = maxOrdinal := rfl
      omega)
  have hraise : RecoveryPlanner.startDate .default (some final) ⟨739618, by decide, by decide⟩ =
      .error .overflow := RecoveryPlanner.startDate_eq_error fun h => by
    obtain ⟨next, hnext⟩ := h.2 final rfl
    have hnone : final.addDays 1 = none := by decide
    exact absurd (hnext.symm.trans hnone) (by simp)
  rw [RecoveryPlanner.plan, show (some RecoveryLimits.default).getD .default = .default from rfl,
    hraise] at hplan
  exact absurd hplan (by simp [bind, Except.bind])

end MarketRelay
