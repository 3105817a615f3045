import Mathlib.Data.List.Sort
import MarketRelay.Ports

/-!
# Recovery Planning

`RecoveryPlanner.plan`: the pending range of a listing, from the day after the last completed
session (or the configured lookback) up to today, classified by the calendar and split into
bounded chunks. Dates without a session produce no work, and dates whose publication is
awaited are kept apart.

The calendar is a port: it may answer anything, in any order, and it may raise.

## Main results

* `plan_cases`, `plan_eq_ok`: a plan is made of the sorted answer of the calendar.
* `mem_chunk_range`, `mem_waiting_range`: every planned date lies in the range of its job.
-/

open Gregorian

namespace MarketRelay

/-- Configured age and size limits. -/
structure RecoveryLimits where
  maxLookbackDays : ℤ
  maxSessionsPerChunk : ℤ
deriving DecidableEq, Repr

def RecoveryLimits.default : RecoveryLimits := ⟨365, 20⟩

/-- A bounded segment of `EXPECTED_PUBLISHED` sessions to retrieve. -/
structure RecoveryChunk where
  start : Date
  «end» : Date
  sessionDates : List Date
deriving DecidableEq, Repr

/-- Result of planning the recovery of a listing. -/
structure RecoveryPlan where
  chunks : List RecoveryChunk
  waitingForPublication : List Date
  skippedNoSession : List Date
  nextCursor : Option Date
deriving DecidableEq, Repr

/-- `sessions_in_range` of a market calendar. -/
abbrev Calendar :=
  AssetClass → String → Option String → Date → Date → Except PyError (List SessionCheck)

namespace RecoveryPlanner

/-- Date arithmetic raises `OverflowError` outside the representable dates. -/
def orOverflow {α : Type} : Option α → Except PyError α
  | some a => .ok a
  | none => .error .overflow

/-- The slices `xs[offset : offset + size]` for `offset in range(0, len(xs), size)`. -/
def slices {α : Type} (size : ℕ) (xs : List α) : List (List α) :=
  (List.range ((xs.length + size - 1) / size)).map fun k => (xs.drop (k * size)).take size

/-- The chunk of a group of dates; no group is empty. -/
def chunkOf : List Date → Option RecoveryChunk
  | [] => none
  | d :: rest => some ⟨d, (d :: rest).getLast (List.cons_ne_nil d rest), d :: rest⟩

/-- The expected sessions in chunks; `range` raises on a step of zero and is empty on a
negative one. -/
def chunks (size : ℤ) (expected : List Date) : Except PyError (List RecoveryChunk) :=
  if size = 0 then .error .value
  else if size < 0 then .ok []
  else .ok ((slices size.toNat expected).filterMap chunkOf)

/-- The dates with an expectation, in the order of the checks. -/
def datesOf (expectation : SessionExpectation) (checks : List SessionCheck) : List Date :=
  (checks.filter fun c => decide (c.expectation = expectation)).map SessionCheck.sessionDate

/-- The end of the leading `NO_SESSION` dates. -/
def nextCursor (lastCompletedSession : Option Date) (checks : List SessionCheck) : Option Date :=
  ((checks.takeWhile fun c => decide (c.expectation = .noSession)).getLast?.map
    SessionCheck.sessionDate).or lastCompletedSession

/-- The first date of the pending range. -/
def startDate (limits : RecoveryLimits) (lastCompletedSession : Option Date) (today : Date) :
    Except PyError Date := do
  let earliestAllowed ← orOverflow (today.addDays (-limits.maxLookbackDays))
  match lastCompletedSession with
  | none => return earliestAllowed
  | some last => return max (← orOverflow (last.addDays 1)) earliestAllowed

/-- Compute the pending bounded range and split it into size-limited chunks. -/
def plan (calendar : Calendar) (limits : Option RecoveryLimits) (assetClass : AssetClass)
    (venue : String) (mic : Option String) (lastCompletedSession : Option Date) (today : Date) :
    Except PyError RecoveryPlan := do
  let limits := limits.getD .default
  let start ← startDate limits lastCompletedSession today
  if today < start then
    return ⟨[], [], [], lastCompletedSession⟩
  else
    let checks ← calendar assetClass venue mic start today
    let checks := checks.insertionSort fun a b => a.sessionDate ≤ b.sessionDate
    let chunks ← chunks limits.maxSessionsPerChunk (datesOf .expectedPublished checks)
    return ⟨chunks, datesOf .waitingForPublication checks, datesOf .noSession checks,
      nextCursor lastCompletedSession checks⟩

/-! ### What a plan is made of -/

theorem chunks_eq_ok {size : ℤ} {expected : List Date} {cs : List RecoveryChunk}
    (h : chunks size expected = .ok cs) {c : RecoveryChunk} (hc : c ∈ cs) :
    ∃ group, group.Sublist expected ∧ chunkOf group = some c := by
  rw [chunks] at h
  split at h
  · exact absurd h (by simp)
  · split at h
    · obtain rfl := Except.ok.inj h
      exact absurd hc List.not_mem_nil
    · obtain rfl := Except.ok.inj h
      obtain ⟨group, hgroup, hchunk⟩ := List.mem_filterMap.mp hc
      obtain ⟨k, -, rfl⟩ := List.mem_map.mp hgroup
      exact ⟨_, (List.take_sublist _ _).trans (List.drop_sublist _ _), hchunk⟩

/-- The checks of a calendar's answer, sorted by date. -/
def inOrder (answer : List SessionCheck) : List SessionCheck :=
  answer.insertionSort fun a b => a.sessionDate ≤ b.sessionDate

theorem mem_inOrder {answer : List SessionCheck} {check : SessionCheck} :
    check ∈ inOrder answer ↔ check ∈ answer := List.mem_insertionSort _

theorem inOrder_pairwise (answer : List SessionCheck) :
    (inOrder answer).Pairwise fun a b => a.sessionDate ≤ b.sessionDate :=
  List.pairwise_insertionSort (fun a b : SessionCheck => a.sessionDate ≤ b.sessionDate) answer

/-- A sorted answer that classifies each date once is strictly sorted. -/
theorem inOrder_strict {answer : List SessionCheck}
    (h : (answer.map SessionCheck.sessionDate).Nodup) :
    ((inOrder answer).map SessionCheck.sessionDate).Pairwise (· < ·) := by
  have hperm : (inOrder answer).Perm answer := List.perm_insertionSort _ answer
  have hnodup := (hperm.map SessionCheck.sessionDate).nodup_iff.mpr h
  refine List.pairwise_map.mpr ?_
  exact ((inOrder_pairwise answer).and (List.pairwise_map.mp hnodup)).imp fun hab =>
    lt_of_le_of_ne hab.1 hab.2

/-- The dates of a sorted answer that classifies each date once are strictly increasing. -/
theorem datesOf_strict {expectation : SessionExpectation} {answer : List SessionCheck}
    (h : (answer.map SessionCheck.sessionDate).Nodup) :
    (datesOf expectation (inOrder answer)).Pairwise (· < ·) :=
  (inOrder_strict h).sublist (List.filter_sublist.map _)

theorem datesOf_pairwise {expectation : SessionExpectation} {checks : List SessionCheck}
    (h : checks.Pairwise fun a b => a.sessionDate ≤ b.sessionDate) :
    (datesOf expectation checks).Pairwise (· ≤ ·) :=
  List.pairwise_map.mpr (h.sublist List.filter_sublist)

section Plan

variable {calendar : Calendar} {limits : Option RecoveryLimits} {assetClass : AssetClass}
  {venue : String} {mic : Option String} {last : Option Date} {today : Date} {p : RecoveryPlan}

/-- There is nothing to plan before the first date. -/
theorem plan_of_lt {start : Date} (hstart : startDate (limits.getD .default) last today = .ok start)
    (hlt : today < start) :
    plan calendar limits assetClass venue mic last today = .ok ⟨[], [], [], last⟩ := by
  rw [plan, hstart]
  exact if_pos hlt

/-- The plan of the answer of the calendar for the pending range. -/
theorem plan_of_answer {start : Date} {answer : List SessionCheck} {cs : List RecoveryChunk}
    (hstart : startDate (limits.getD .default) last today = .ok start) (hle : ¬ today < start)
    (hcall : calendar assetClass venue mic start today = .ok answer)
    (hchunks : chunks (limits.getD .default).maxSessionsPerChunk
      (datesOf .expectedPublished (inOrder answer)) = .ok cs) :
    plan calendar limits assetClass venue mic last today =
      .ok ⟨cs, datesOf .waitingForPublication (inOrder answer),
        datesOf .noSession (inOrder answer), nextCursor last (inOrder answer)⟩ := by
  rw [plan, hstart]
  change (if today < start then _ else _) = _
  rw [if_neg hle, hcall]
  change (chunks _ (datesOf .expectedPublished (inOrder answer)) >>= _) = _
  rw [hchunks]
  rfl

/-- A plan is empty, or made of the sorted answer of the calendar for the pending range. -/
theorem plan_cases (h : plan calendar limits assetClass venue mic last today = .ok p) :
    ∃ start, startDate (limits.getD .default) last today = .ok start ∧
      ((today < start ∧ p = ⟨[], [], [], last⟩) ∨
        (¬ today < start ∧ ∃ answer cs, calendar assetClass venue mic start today = .ok answer ∧
          chunks (limits.getD .default).maxSessionsPerChunk
            (datesOf .expectedPublished (inOrder answer)) = .ok cs ∧
          p = ⟨cs, datesOf .waitingForPublication (inOrder answer),
            datesOf .noSession (inOrder answer), nextCursor last (inOrder answer)⟩)) := by
  cases hstart : startDate (limits.getD .default) last today with
  | error e =>
      rw [plan, hstart] at h
      exact absurd h (by simp [bind, Except.bind])
  | ok start =>
      refine ⟨start, rfl, ?_⟩
      by_cases hlt : today < start
      · rw [plan_of_lt hstart hlt] at h
        exact Or.inl ⟨hlt, (Except.ok.inj h).symm⟩
      · have hplan := h
        rw [plan, hstart] at h
        change (if today < start then _ else _) = _ at h
        rw [if_neg hlt] at h
        cases hcall : calendar assetClass venue mic start today with
        | error e => rw [hcall] at h; exact absurd h (by simp [bind, Except.bind])
        | ok answer =>
            rw [hcall] at h
            change (chunks _ (datesOf .expectedPublished (inOrder answer)) >>= _) = _ at h
            cases hchunks : chunks (limits.getD .default).maxSessionsPerChunk
                (datesOf .expectedPublished (inOrder answer)) with
            | error e => rw [hchunks] at h; exact absurd h (by simp [bind, Except.bind])
            | ok cs =>
                rw [plan_of_answer hstart hlt hcall hchunks] at hplan
                exact Or.inr ⟨hlt, answer, cs, rfl, hchunks, (Except.ok.inj hplan).symm⟩

/-- The work of a plan. -/
theorem plan_eq_ok (h : plan calendar limits assetClass venue mic last today = .ok p) :
    (p.chunks = [] ∧ p.waitingForPublication = []) ∨
      ∃ start answer, startDate (limits.getD .default) last today = .ok start ∧
        calendar assetClass venue mic start today = .ok answer ∧
        chunks (limits.getD .default).maxSessionsPerChunk
          (datesOf .expectedPublished (inOrder answer)) = .ok p.chunks ∧
        p.waitingForPublication = datesOf .waitingForPublication (inOrder answer) := by
  obtain ⟨start, hstart, ⟨-, rfl⟩ | ⟨-, answer, cs, hcall, hchunks, rfl⟩⟩ := plan_cases h
  · exact Or.inl ⟨rfl, rfl⟩
  · exact Or.inr ⟨start, answer, hstart, hcall, hchunks, rfl⟩

/-- The dates of a sorted list lie between its first and its last. -/
theorem mem_bounds {ds : List Date} (h : ds.Pairwise (· ≤ ·)) {d : Date} (hd : d ∈ ds)
    (hne : ds ≠ []) : ds.head hne ≤ d ∧ d ≤ ds.getLast hne := by
  refine ⟨?_, ?_⟩
  · cases ds with
    | nil => exact absurd hd List.not_mem_nil
    | cons a rest =>
        rcases List.mem_cons.mp hd with rfl | hd
        · exact le_rfl
        · exact (List.pairwise_cons.mp h).1 d hd
  · rw [← List.dropLast_append_getLast hne] at h hd
    rcases List.mem_append.mp hd with hd | hd
    · exact (List.pairwise_append.mp h).2.2 d hd _ (List.mem_singleton_self _)
    · exact (List.mem_singleton.mp hd).le

/-- A chunk starts and ends with a date of its group. -/
theorem chunk_bounds {group : List Date} {c : RecoveryChunk} (h : chunkOf group = some c) :
    c.start ∈ group ∧ c.end ∈ group := by
  cases group with
  | nil => exact absurd h (by simp [chunkOf])
  | cons d rest =>
      obtain rfl := Option.some.inj h
      exact ⟨List.mem_cons_self, List.getLast_mem _⟩

/-- The slices keep the order of the elements: each one ends before the next one starts. -/
theorem slices_pairwise {α : Type} {R : α → α → Prop} {xs : List α} (h : xs.Pairwise R) (size : ℕ) :
    (slices size xs).Pairwise fun s t => ∀ a ∈ s, ∀ b ∈ t, R a b := by
  refine List.pairwise_map.mpr (List.pairwise_lt_range.imp fun {i k} hik a ha b hb => ?_)
  obtain ⟨m, hm, rfl⟩ := List.mem_iff_getElem.mp ha
  obtain ⟨n, hn, rfl⟩ := List.mem_iff_getElem.mp hb
  have hm' : m < size := by
    rw [List.length_take] at hm
    omega
  have hle : i * size + size ≤ k * size := by
    rw [← Nat.succ_mul]
    exact Nat.mul_le_mul_right size hik
  simp only [List.getElem_take, List.getElem_drop]
  exact List.pairwise_iff_getElem.mp h _ _ _ _ (by omega)

/-- **The chunks of distinct sorted dates follow one another.** -/
theorem chunks_pairwise {size : ℤ} {expected : List Date} {cs : List RecoveryChunk}
    (h : chunks size expected = .ok cs) (hsorted : expected.Pairwise (· < ·)) :
    cs.Pairwise fun a b => a.end < b.start := by
  rw [chunks] at h
  split at h
  · exact absurd h (by simp)
  · split at h
    · obtain rfl := Except.ok.inj h
      exact List.Pairwise.nil
    · obtain rfl := Except.ok.inj h
      refine List.Pairwise.filterMap chunkOf (fun s t hst a ha b hb => ?_)
        (slices_pairwise hsorted size.toNat)
      exact hst _ (chunk_bounds ha).2 _ (chunk_bounds hb).1

/-- A date of a list of checks is the date of one of them. -/
theorem mem_datesOf {expectation : SessionExpectation} {answer : List SessionCheck} {d : Date} :
    d ∈ datesOf expectation (inOrder answer) ↔ ⟨d, expectation⟩ ∈ answer := by
  rw [datesOf, List.mem_map]
  constructor
  · rintro ⟨⟨date, expectation'⟩, hcheck, rfl⟩
    obtain ⟨hmem, hexpectation⟩ := List.mem_filter.mp hcheck
    obtain rfl : expectation' = expectation := by simpa using hexpectation
    exact mem_inOrder.mp hmem
  · intro hmem
    exact ⟨_, List.mem_filter.mpr ⟨mem_inOrder.mpr hmem, by simp⟩, rfl⟩

/-- A chunk of a plan is a group of published sessions, in order. -/
theorem chunk_group (h : plan calendar limits assetClass venue mic last today = .ok p)
    {c : RecoveryChunk} (hc : c ∈ p.chunks) :
    ∃ start answer, startDate (limits.getD .default) last today = .ok start ∧
      calendar assetClass venue mic start today = .ok answer ∧
      c.sessionDates.Sublist (datesOf .expectedPublished (inOrder answer)) ∧
      chunkOf c.sessionDates = some c := by
  rcases plan_eq_ok h with ⟨hnil, -⟩ | ⟨start, answer, hstart, hanswer, hchunks, -⟩
  · exact absurd hc (by simp [hnil])
  · obtain ⟨group, hsub, hchunk⟩ := chunks_eq_ok hchunks hc
    cases group with
    | nil => exact absurd hchunk (by simp [chunkOf])
    | cons d rest =>
        obtain rfl := Option.some.inj hchunk
        exact ⟨start, answer, hstart, hanswer, hsub, rfl⟩

/-- **The sessions of a chunk lie in its range.** -/
theorem mem_chunk_range (h : plan calendar limits assetClass venue mic last today = .ok p)
    {c : RecoveryChunk} (hc : c ∈ p.chunks) {d : Date} (hd : d ∈ c.sessionDates) :
    c.start ≤ d ∧ d ≤ c.end := by
  obtain ⟨start, answer, -, -, hsub, hchunk⟩ := chunk_group h hc
  cases hdates : c.sessionDates with
  | nil => exact absurd hd (by simp [hdates])
  | cons a rest =>
      rw [hdates] at hsub hchunk hd
      obtain rfl := Option.some.inj hchunk
      exact mem_bounds ((datesOf_pairwise (inOrder_pairwise answer)).sublist hsub) hd
        (List.cons_ne_nil a rest)

/-- **The sessions of a chunk are published sessions** of the calendar. -/
theorem chunk_expectation (h : plan calendar limits assetClass venue mic last today = .ok p)
    {c : RecoveryChunk} (hc : c ∈ p.chunks) {d : Date} (hd : d ∈ c.sessionDates) :
    ∃ first answer, startDate (limits.getD .default) last today = .ok first ∧
      calendar assetClass venue mic first today = .ok answer ∧
      ⟨d, .expectedPublished⟩ ∈ answer := by
  obtain ⟨start, answer, hstart, hanswer, hsub, -⟩ := chunk_group h hc
  exact ⟨start, answer, hstart, hanswer, mem_datesOf.mp (hsub.subset hd)⟩

/-- **The waiting dates are sessions that await publication.** -/
theorem waiting_expectation (h : plan calendar limits assetClass venue mic last today = .ok p)
    {d : Date} (hd : d ∈ p.waitingForPublication) :
    ∃ first answer, startDate (limits.getD .default) last today = .ok first ∧
      calendar assetClass venue mic first today = .ok answer ∧
      ⟨d, .waitingForPublication⟩ ∈ answer := by
  rcases plan_eq_ok h with ⟨-, hnil⟩ | ⟨start, answer, hstart, hanswer, -, hwaiting⟩
  · exact absurd hd (by simp [hnil])
  · exact ⟨start, answer, hstart, hanswer, mem_datesOf.mp (hwaiting ▸ hd)⟩

/-- **The waiting dates lie between the first and the last of them.** -/
theorem mem_waiting_range (h : plan calendar limits assetClass venue mic last today = .ok p)
    {d : Date} (hd : d ∈ p.waitingForPublication) :
    p.waitingForPublication.head (List.ne_nil_of_mem hd) ≤ d ∧
      d ≤ p.waitingForPublication.getLast (List.ne_nil_of_mem hd) := by
  rcases plan_eq_ok h with ⟨-, hnil⟩ | ⟨start, answer, -, -, -, hwaiting⟩
  · exact absurd hd (by simp [hnil])
  · exact mem_bounds (hwaiting ▸ datesOf_pairwise (inOrder_pairwise answer)) hd _

end Plan

end RecoveryPlanner

end MarketRelay
